import Mathlib.Data.List.Infix
import MDesk.Core.Utf8
import MDesk.Logs.MatchesPattern
import MDesk.Transfer.Containment

/-!
# Collecting log samples

A collection names files, folders and event channels. The collector walks the folders for files
that a pattern accepts, takes the most recently modified files first and samples the tail of each.
What the machine answers to the calls of the collector is a parameter, also what the encodings
make of bytes.
-/

namespace MDesk.LogAnalysis

open MDesk.Core

/-- `std::io::Error`, as far as the warnings tell errors apart. -/
inductive IoError where
  | notFound
  | permissionDenied
  | invalidInput
  | raw (code : Nat)
  | other
  deriving DecidableEq, Repr

def sampleLimit : Nat := 262144

structure Target where
  kind : String
  path : String
  deriving DecidableEq, Repr

structure Settings where
  targets : List Target
  filePatterns : List String
  recursive : Bool
  encoding : String
  maxFiles : Nat
  maxTotalMb : Nat
  deriving DecidableEq, Repr

structure Sample where
  path : String
  text : String
  deriving DecidableEq, Repr

structure CollectionWarning where
  path : String
  code : String
  deriving DecidableEq, Repr

structure Upload where
  files : List Sample := []
  truncated : Bool := false
  error : String := ""
  warnings : List CollectionWarning := []
  warningsOmitted : Nat := 0
  deriving DecidableEq, Repr

namespace Upload

def warn (u : Upload) (path code : String) : Upload :=
  if u.warnings.length < 100 then
    { u with warnings := u.warnings ++ [⟨String.ofList (path.toList.take 2000), code⟩] }
  else
    { u with warningsOmitted := u.warningsOmitted + 1 }

def ioWarning (u : Upload) (path : String) (error : IoError) : Upload :=
  u.warn path
    (match error with
    | .notFound => "not_found"
    | .permissionDenied => "permission_denied"
    | .invalidInput => "unsafe_path"
    | .raw 32 | .raw 33 => "file_busy"
    | .raw _ | .other => "read_failed")

@[simp] theorem warn_files (u : Upload) (path code : String) :
    (u.warn path code).files = u.files := by
  unfold warn
  split <;> rfl

@[simp] theorem ioWarning_files (u : Upload) (path : String) (error : IoError) :
    (u.ioWarning path error).files = u.files :=
  u.warn_files path _

end Upload

/-- `fs::Metadata`. A link is a reparse point or a symbolic link. -/
structure Metadata where
  link : Bool
  isDir : Bool
  isFile : Bool
  len : Nat
  deriving DecidableEq, Repr

/-- The encodings that the collector knows. -/
inductive Encoding where
  | utf8
  | utf16LE
  | utf16BE
  | eucKr
  deriving DecidableEq, Repr

/-- A file opened for a sample. -/
structure OpenFile where
  metadata : Except IoError Metadata
  /-- `final_path`. -/
  finalPath : Except IoError String
  content : Except IoError Bytes

structure EventWarning where
  path : String
  code : String
  deriving DecidableEq, Repr

/-- What the query of the event channels prints. -/
structure Events where
  files : List Sample
  warnings : List EventWarning
  truncated : Bool
  deriving DecidableEq, Repr

/-- The machine that a collection runs on, and `encoding_rs`. -/
structure Machine where
  symlinkMetadata : String → Except IoError Metadata
  readDir : String → Except IoError (List (Except IoError String))
  isFile : String → Bool
  isDir : String → Bool
  modified : String → Option Int
  canonicalize : String → Except IoError String
  openFile : String → Except IoError OpenFile
  /-- The query of the event channels, `none` where it fails, takes too long, prints too much or
  no JSON of the form. -/
  events : Option Events
  /-- Whether a look at the clock is behind the deadline. -/
  late : Nat → Bool
  /-- `Encoding::for_bom`. -/
  forBom : Bytes → Option Encoding
  /-- `Encoding::decode`. -/
  decode : Encoding → Bytes → String

/-! ## Paths -/

/-- `str::get` from a byte on. -/
def getFrom : Nat → List Char → Option (List Char)
  | 0, cs => some cs
  | _ + 1, [] => none
  | n + 1, c :: cs => if c.utf8Size ≤ n + 1 then getFrom (n + 1 - c.utf8Size) cs else none

section Paths

variable (P : Platform) (M : Machine)

/-- The text of a path by its components. -/
def renderPath (cs : List PathComponent) : String :=
  cs.foldl
    (fun path c =>
      match c with
      | .drive letter => String.ofList [letter, ':']
      | .rootDir => path ++ String.singleton P.mainSeparator
      | .curDir => P.paths.push path "."
      | .parentDir => P.paths.push path ".."
      | .normal name => P.paths.push path name)
    ""

/-- `Path::ancestors`: the path and its parents, up to the root or the drive. -/
def ancestors (path : String) : List String :=
  let cs := P.paths.components path
  let anchor := cs.takeWhile fun c => match c with
    | .drive _ | .rootDir => true
    | _ => false
  path :: ((cs.inits.drop anchor.length).reverse.tail.map (renderPath P))

/-- The loop of `safe_path`. -/
def checkLinks : List String → Except IoError Unit
  | [] => .ok ()
  | ancestor :: rest =>
    if ancestor = "" then checkLinks rest
    else
      match M.symlinkMetadata ancestor with
      | .error e => .error e
      | .ok metadata => if metadata.link then .error .invalidInput else checkLinks rest

/-- The `safe_path` function. -/
def safePath (path : String) : Except IoError Unit :=
  let text := path.toList
  if !P.paths.isAbsolute path ∨ ['\\', '\\'] <+: text ∨ ['/', '/'] <+: text ∨
      '*' ∈ text ∨ '?' ∈ text ∨ ((getFrom 2 text).map fun rest => decide (':' ∈ rest)).getD true ∨
      (P.paths.components path).any (fun c => c = .parentDir ∨ c = .curDir) ∨
      (P.paths.components path).length < 3 then
    .error .invalidInput
  else
    checkLinks M (ancestors P path)

end Paths

/-! ## Events -/

/-- The checks on what the query printed. -/
def Events.valid (events : Events) : Bool :=
  decide (events.files.length ≤ 2) && decide (events.warnings.length ≤ 2) &&
    decide ((events.files.map (·.text.utf8ByteSize)).sum ≤ sampleLimit) &&
    events.files.all fun f =>
      f.path = "windows-event://Application" ∨ f.path = "windows-event://System"

/-- The `collect_windows_events` function. -/
def collectWindowsEvents (M : Machine) (upload : Upload) : Upload :=
  match M.events.filter Events.valid with
  | some events =>
    events.warnings.foldl
      (fun u warning => u.warn warning.path
        (if warning.code = "no_matches" ∨ warning.code = "permission_denied" then warning.code
        else "read_failed"))
      { upload with
        files := upload.files ++ events.files
        truncated := upload.truncated || events.truncated }
  | none => upload.warn "windows-event://Application,System" "read_failed"

/-! ## The walk -/

/-- What the walk over the targets has found. -/
structure Walk where
  upload : Upload
  paths : List String := []
  visited : Nat := 0
  /-- How often the clock was read. -/
  looks : Nat := 0
  deriving DecidableEq, Repr

namespace Walk

def warn (w : Walk) (path code : String) : Walk :=
  { w with upload := w.upload.warn path code }

def ioWarning (w : Walk) (path : String) (error : IoError) : Walk :=
  { w with upload := w.upload.ioWarning path error }

def truncate (w : Walk) : Walk := { w with upload := { w.upload with truncated := true } }

/-- `visited > 10000 || Instant::now() > deadline`, and the walk behind it. -/
def overLimit (M : Machine) (w : Walk) : Bool × Walk :=
  if 10000 < w.visited then (true, w)
  else (M.late w.looks, { w with looks := w.looks + 1 })

end Walk

section Walk

variable (P : Platform) (M : Machine) (settings : Settings)

/-- What the walk makes of one entry of a directory, behind the limits. -/
def visitEntry (directory : String) (depth : Nat) (entry : Except IoError String)
    (s : Walk × List (String × Nat)) : Walk × List (String × Nat) :=
  let (w, stack) := s
  match entry with
  | .error error => (w.ioWarning directory error, stack)
  | .ok name =>
    let path := P.paths.push directory name
    match M.symlinkMetadata path with
    | .error error => (w.ioWarning path error, stack)
    | .ok metadata =>
      if metadata.link then (w.warn path "unsafe_path", stack)
      else if metadata.isDir ∧ settings.recursive then
        if depth < 16 then (w, (path, depth + 1) :: stack)
        else (w.warn path "depth_limit", stack)
      else if metadata.isFile ∧ settings.filePatterns.any (matchesPattern P · name) then
        ({ w with paths := w.paths ++ [path] }, stack)
      else (w, stack)

/-- The loop over the entries of a directory. -/
def visitEntries (directory : String) (depth : Nat) :
    List (Except IoError String) → Walk × List (String × Nat) → Walk × List (String × Nat)
  | [], s => s
  | entry :: rest, (w, stack) =>
    match ({ w with visited := w.visited + 1 } : Walk).overLimit M with
    | (true, w) => (w.truncate, stack)
    | (false, w) =>
      visitEntries directory depth rest (visitEntry P M settings directory depth entry (w, stack))

/-- One directory from the stack, and whether the loop over the stack breaks behind it. -/
def visitDirectory (directory : String) (depth : Nat) (w : Walk) (stack : List (String × Nat)) :
    Bool × Walk × List (String × Nat) :=
  match safePath P M directory with
  | .error error => (false, w.ioWarning directory error, stack)
  | .ok () =>
    match M.readDir directory with
    | .error error => (false, w.ioWarning directory error, stack)
    | .ok entries =>
      let s := visitEntries P M settings directory depth entries (w, stack)
      (s.1.upload.truncated, s)

/-- What bounds the walk over a folder: a visit may put a directory on the stack. -/
def Walk.left (s : Walk × List (String × Nat)) : Nat := 2 * (10001 - s.1.visited) + s.2.length

theorem visitEntry_bounds (directory : String) (depth : Nat) (entry : Except IoError String)
    (s : Walk × List (String × Nat)) :
    (visitEntry P M settings directory depth entry s).1.visited = s.1.visited ∧
      (visitEntry P M settings directory depth entry s).2.length ≤ s.2.length + 1 := by
  obtain ⟨w, stack⟩ := s
  unfold visitEntry
  cases entry with
  | error error => exact ⟨rfl, Nat.le_succ _⟩
  | ok name =>
    dsimp only
    cases M.symlinkMetadata (P.paths.push directory name) with
    | error error => exact ⟨rfl, Nat.le_succ _⟩
    | ok metadata =>
      dsimp only
      split_ifs
      · exact ⟨rfl, Nat.le_succ _⟩
      · exact ⟨rfl, Nat.le_refl _⟩
      · exact ⟨rfl, Nat.le_succ _⟩
      · exact ⟨rfl, Nat.le_succ _⟩
      · exact ⟨rfl, Nat.le_succ _⟩

/-- A look at the limits counts no visit, and lets no more than 10000 of them pass. -/
theorem Walk.overLimit_visited (w : Walk) :
    (w.overLimit M).2.visited = w.visited ∧ ((w.overLimit M).1 = false → w.visited ≤ 10000) := by
  unfold Walk.overLimit
  split
  · next h => exact ⟨rfl, nofun⟩
  · next h => exact ⟨rfl, fun _ => Nat.not_lt.mp h⟩

theorem visitEntries_left (directory : String) (depth : Nat)
    (entries : List (Except IoError String)) (s : Walk × List (String × Nat))
    (h : (visitEntries P M settings directory depth entries s).1.upload.truncated = false) :
    Walk.left (visitEntries P M settings directory depth entries s) ≤ Walk.left s := by
  induction entries generalizing s with
  | nil => exact Nat.le_refl _
  | cons entry rest ih =>
    obtain ⟨w, stack⟩ := s
    rw [visitEntries] at h ⊢
    have hover := Walk.overLimit_visited M { w with visited := w.visited + 1 }
    rcases heq : ({ w with visited := w.visited + 1 } : Walk).overLimit M with ⟨_ | _, w'⟩
    · rw [heq] at h hover
      obtain ⟨hvisited, hlimit⟩ := hover
      have hle := hlimit rfl
      have hentry := visitEntry_bounds P M settings directory depth entry (w', stack)
      apply (ih _ h).trans
      simp only [Walk.left] at hvisited hle hentry ⊢
      omega
    · rw [heq] at h
      cases h

theorem visitDirectory_left {directory : String} {depth : Nat} {w w' : Walk}
    {stack stack' : List (String × Nat)}
    (h : visitDirectory P M settings directory depth w stack = (false, w', stack')) :
    Walk.left (w', stack') < Walk.left (w, (directory, depth) :: stack) := by
  have hpop : Walk.left (w, stack) < Walk.left (w, (directory, depth) :: stack) :=
    Nat.lt_succ_self _
  unfold visitDirectory at h
  cases hsafe : safePath P M directory with
  | error error =>
    rw [hsafe] at h
    cases h
    exact hpop
  | ok _ =>
    rw [hsafe] at h
    cases hread : M.readDir directory with
    | error error =>
      rw [hread] at h
      cases h
      exact hpop
    | ok entries =>
      rw [hread] at h
      simp only [Prod.mk.injEq] at h
      rw [← h.2]
      exact (visitEntries_left P M settings directory depth entries _ h.1).trans_lt hpop

/-- The loop over the stack. -/
def walkFolder : Walk × List (String × Nat) → Walk
  | (w, []) => w
  | (w, (directory, depth) :: stack) =>
    match _ : visitDirectory P M settings directory depth w stack with
    | (true, w', _) => w'
    | (false, w', stack') => walkFolder (w', stack')
termination_by s => Walk.left s
decreasing_by
  exact visitDirectory_left P M settings ‹_›

/-- What stands between two warnings that a folder may end with. -/
def Upload.warnCount (u : Upload) : Nat := u.warnings.length + u.warningsOmitted

/-- The walk over one target, and whether the `continue` skips the look at the limits. -/
def visitTarget (target : Target) (w : Walk) : Except String (Bool × Walk) :=
  if target.kind = "windows_event" then .ok (true, w)
  else if 2000 < target.path.utf8ByteSize then .error "invalid path"
  else
    match safePath P M target.path with
    | .error error => .ok (true, w.ioWarning target.path error)
    | .ok () =>
      if target.kind = "file" then
        if M.isFile target.path then .ok (false, { w with paths := w.paths ++ [target.path] })
        else .ok (true, w.warn target.path "not_file")
      else if target.kind = "folder" ∧ M.isDir target.path then
        let w' := walkFolder P M settings (w, [(target.path, 0)])
        if w'.paths.length = w.paths.length ∧ !w'.upload.truncated ∧
            w'.upload.warnCount = w.upload.warnCount then
          .ok (false, w'.warn target.path "no_matches")
        else .ok (false, w')
      else .ok (true, w.warn target.path "not_folder")

/-- The loop over the targets. -/
def visitTargets : List Target → Walk → Except String Walk
  | [], w => .ok w
  | target :: rest, w =>
    match visitTarget P M settings target w with
    | .error e => .error e
    | .ok (true, w) => visitTargets rest w
    | .ok (false, w) =>
      match w.overLimit M with
      | (true, w) => .ok w.truncate
      | (false, w) => visitTargets rest w

end Walk

/-! ## Samples -/

/-- `chunks_exact` of pairs. -/
def bytePairs : Bytes → List (UInt8 × UInt8)
  | a :: b :: rest => (a, b) :: bytePairs rest
  | _ => []

/-- `str::from_utf8` accepts the bytes, or they end within a character. -/
def utf8Unbroken : Nat → Bytes → Bool
  | _, [] => true
  | 0, _ => false
  | n + 1, b :: bs =>
    match utf8Next b bs with
    | (some _, rest) => utf8Unbroken n rest
    | (none, rest) => rest = [] ∧ 0xC2 ≤ b ∧ b ≤ 0xF4

section Samples

variable (P : Platform) (M : Machine) (settings : Settings)

/-- The `detect_encoding` function. -/
def detectEncoding (bytes : Bytes) : Encoding :=
  match M.forBom bytes with
  | some encoding => encoding
  | none =>
    let pairs := bytePairs bytes
    let evenZero := (pairs.filter (·.1 = 0)).length
    let oddZero := (pairs.filter (·.2 = 0)).length
    if 4 ≤ pairs.length ∧ pairs.length < oddZero * 4 ∧ evenZero * 10 < pairs.length then .utf16LE
    else if 4 ≤ pairs.length ∧ pairs.length < evenZero * 4 ∧ oddZero * 10 < pairs.length then
      .utf16BE
    else if utf8Unbroken bytes.length bytes then .utf8
    else .eucKr

/-- The part of a file that is sampled, and how it is read. -/
structure Tail where
  offset : Nat
  bytes : Bytes
  encoding : Encoding
  deriving DecidableEq, Repr

/-- The tail of a file that a budget allows. -/
def readTail (length : Nat) (content : Bytes) (remaining : Nat) : Tail :=
  let head := content.take 4096
  let encoding := detectEncoding M head
  let take := min remaining 65536
  let start := length - take
  let offset := if encoding = .utf16LE ∨ encoding = .utf16BE then start + start % 2 else start
  let bytes := (content.drop offset).take take
  let probe :=
    if 0 < offset then
      match bytes.idxOf? 10 with
      | some i => bytes.drop (i + 1)
      | none => []
    else bytes
  -- an ASCII header does not tell UTF-8 from Korean logs
  { offset, bytes
    encoding :=
      if encoding = .utf8 ∧ M.forBom head = none ∧ detectEncoding M probe = .eucKr then .eucKr
      else encoding }

/-- The text of a tail. A line that may have lost its front is left out. -/
def Tail.text (t : Tail) : String :=
  let decoded := M.decode t.encoding t.bytes
  if 0 < t.offset then
    match splitAtFirst ['\n'] decoded.toList with
    | some (_, rest) => String.ofList rest
    | none => ""
  else decoded

/-- The closure of one path: the sample, the bytes it is charged for and whether it is a part. -/
def readSample (path canonical : String) (remaining : Nat) :
    Except IoError (Sample × Nat × Bool) := do
  let file ← M.openFile path
  let metadata ← file.metadata
  if metadata.link then throw .invalidInput
  let final ← file.finalPath
  if final ≠ canonical then throw .invalidInput
  let content ← file.content
  let tail := readTail M metadata.len content remaining
  return (⟨path, String.ofList ((tail.text M).toList.take remaining)⟩, tail.bytes.length,
    decide (0 < tail.offset))

/-- The variables of the loop over the paths. -/
structure Sampling where
  upload : Upload
  remaining : Nat
  seen : List String := []
  deriving DecidableEq, Repr

/-- The outcome of one sample. -/
def Sampling.take (s : Sampling) (path : String) (sample : Sample) (bytes : Nat)
    (truncated : Bool) : Sampling :=
  let upload := { s.upload with truncated := s.upload.truncated || truncated }
  { s with
    remaining := s.remaining - bytes
    upload :=
      if trimEnds isWhiteSpace sample.text.toList = [] then upload.warn path "empty_sample"
      else { upload with files := upload.files ++ [sample] } }

def Sampling.ioWarning (s : Sampling) (path : String) (error : IoError) : Sampling :=
  { s with upload := s.upload.ioWarning path error }

/-- One path behind the limits. -/
def samplePath (path : String) (s : Sampling) : Sampling :=
  match safePath P M path with
  | .error error => s.ioWarning path error
  | .ok () =>
    match M.canonicalize path with
    | .error error => s.ioWarning path error
    | .ok canonical =>
      if P.toLowercase canonical ∈ s.seen then s
      else
        let s := { s with seen := P.toLowercase canonical :: s.seen }
        match readSample M path canonical s.remaining with
        | .error error => s.ioWarning path error
        | .ok (sample, bytes, truncated) => s.take path sample bytes truncated

/-- The loop over the paths. -/
def samplePaths : List String → Sampling → Sampling
  | [], s => s
  | path :: rest, s =>
    if settings.maxFiles ≤ s.upload.files.length ∨ s.remaining = 0 then
      { s with upload := { s.upload with truncated := true } }
    else samplePaths rest (samplePath P M path s)

end Samples

/-! ## The collection -/

section Collect

variable (P : Platform) (M : Machine) (settings : Settings)

/-- The limits on a request. -/
def Settings.valid : Bool :=
  !settings.targets.isEmpty && decide (settings.targets.length ≤ 20) &&
    decide (settings.maxFiles ≠ 0) && decide (settings.maxFiles ≤ 100) &&
    decide (settings.maxTotalMb ≠ 0) && decide (settings.maxTotalMb ≤ 100) &&
    decide (settings.filePatterns.length ≤ 10) &&
    ["AUTO", "UTF-8", "MS949", "UTF-16LE"].contains settings.encoding

/-- The event targets of a request. -/
def Settings.eventTargets : List Target := settings.targets.filter (·.kind = "windows_event")

/-- The upload that the walk over the targets starts with. -/
def startUpload : Except String Upload :=
  if settings.eventTargets = [] then .ok {}
  else if settings.eventTargets.length ≠ 1 ∨
      settings.eventTargets.any (·.path ≠ "Application,System") then
    .error "invalid event channels"
  else .ok (collectWindowsEvents M {})

/-- The order of `sort_by_key` on the times of the last change, the latest first. -/
def notOlder : Option Int → Option Int → Bool
  | _, none => true
  | none, some _ => false
  | some a, some b => b ≤ a

/-- The bytes of the collected texts. -/
def Upload.textBytes (u : Upload) : Nat := (u.files.map (·.text.utf8ByteSize)).sum

/-- The `collect` function. -/
def collect : Except String Upload :=
  if !settings.valid then .error "invalid limits"
  else
    match startUpload M settings with
    | .error e => .error e
    | .ok upload =>
      match visitTargets P M settings settings.targets { upload } with
      | .error e => .error e
      | .ok w =>
        let paths := w.paths.mergeSort fun p q => notOlder (M.modified p) (M.modified q)
        let remaining := min sampleLimit (settings.maxTotalMb * 1024 * 1024) - w.upload.textBytes
        .ok (samplePaths P M settings paths { upload := w.upload, remaining }).upload

end Collect

end MDesk.LogAnalysis
