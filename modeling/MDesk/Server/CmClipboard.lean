import MDesk.Codec.BytesCodec
import MDesk.Core.Run

/-!
# The clipboard behind the connection manager

A service that runs as the system has no clipboard of its own and asks the connection manager for
the one of the user. The answer is a header, and the contents of all long entries together in one
more frame. The stream is kept open from one request to the next. Nothing in a frame tells which
request it answers, so a request that gives up too early leaves its answer to the next one.
-/

namespace MDesk.CmClipboard

open MDesk.Core

/-! ## Messages -/

inductive ClipboardSourceApplication where
  | excel
  | powerpoint
  | word
  | browser
  | fileManager
  | imageEditor
  | pdfViewer
  | other
  | unknown
  deriving DecidableEq, Repr

/-- `Clipboard`, as the connection manager reads it. -/
structure Clipboard where
  compress : Bool := false
  content : Bytes
  width : Int := 0
  height : Int := 0
  format : Int := 0
  specialName : String := ""
  deriving DecidableEq, Repr

structure ClipboardNonFile where
  compress : Bool
  content : Bytes
  contentLen : Nat
  nextRaw : Bool
  width : Int
  height : Int
  format : Int
  specialName : String
  sourceApplication : ClipboardSourceApplication
  deriving DecidableEq, Repr

/-- `Data`, as far as the clipboard goes. -/
inductive Data where
  | clipboardNonFile (answer : Option (String × List ClipboardNonFile))
  | monitorReady
  | other
  deriving DecidableEq, Repr

/-- What a frame holds: a message or bytes of contents. -/
inductive Body where
  | data (d : Data)
  | raw (bytes : Bytes)
  deriving DecidableEq, Repr

/-- A frame, and the request that it answers, which is not in the frame. -/
structure Frame where
  answers : Option Nat
  body : Body
  deriving DecidableEq, Repr

/-- The text of the messages. A message is read back from its own text. -/
structure Text where
  parse : Bytes → Option Data
  render : Data → Bytes

/-- `next`. -/
def Text.next (text : Text) : Body → Option Data
  | .data d => some d
  | .raw bytes => text.parse bytes

/-- `next_raw`. -/
def Text.nextRaw (text : Text) : Body → Bytes
  | .data d => text.render d
  | .raw bytes => bytes

/-! ## The answer of the connection manager -/

/-- The clipboards of the user and the program that owns them, or an error. -/
abbrev Snapshot := Except String (List Clipboard × ClipboardSourceApplication)

/-- An entry with its contents. -/
def whole (source : ClipboardSourceApplication) (c : Clipboard) : ClipboardNonFile where
  compress := c.compress
  content := c.content
  contentLen := c.content.length
  nextRaw := 1024 * 3 < c.content.length
  width := c.width
  height := c.height
  format := c.format
  specialName := c.specialName
  sourceApplication := source

/-- An entry of the header. The contents of a long one come behind. -/
def entry (source : ClipboardSourceApplication) (c : Clipboard) : ClipboardNonFile :=
  { whole source c with content := if 1024 * 3 < c.content.length then [] else c.content }

/-- The contents of the long entries. -/
def rawContents (clipboards : List Clipboard) : Bytes :=
  clipboards.flatMap fun c => if 1024 * 3 < c.content.length then c.content else []

/-- The contents go out in one frame, unless there are none or too many for a frame. -/
def rawFrames (request : Nat) (clipboards : List Clipboard) : List Frame :=
  let bytes := rawContents clipboards
  if bytes ≠ [] ∧ bytes.length ≤ 0x3FFFFFFF then [⟨some request, .raw bytes⟩] else []

def header (request : Nat) (err : String) (contents : List ClipboardNonFile) : Frame :=
  ⟨some request, .data (.clipboardNonFile (some (err, contents)))⟩

/-- The answer to a request. -/
def answerFrames (request : Nat) : Snapshot → List Frame
  | .ok (clipboards, source) =>
    header request "" (clipboards.map (entry source)) :: rawFrames request clipboards
  | .error err => [header request err []]

/-! ## The service -/

/-- A stream between the service and the connection manager: the requests that are not answered
yet, and the frames that are not read yet. -/
structure Stream where
  requests : List Nat := []
  frames : List Frame := []
  broken : Bool := false
  deriving DecidableEq, Repr

/-- Where a call of `read_clipboard_from_cm_ipc` waits. -/
inductive Phase where
  | idle
  | header (request : Nat)
  | raw (request : Nat) (contents : List ClipboardNonFile)
  | panicked
  deriving DecidableEq, Repr

abbrev Answer := Except String (List ClipboardNonFile)

/-- The service and the connection manager. Calls are numbered; what the connection manager has
produced and what the calls have returned is kept. -/
structure World where
  calls : Nat := 0
  stream : Option Stream := none
  phase : Phase := .idle
  produced : List (Nat × Snapshot) := []
  returned : List (Nat × Answer) := []

/-- How a call comes to a stream: the one of the last call takes the request, a new one does, or
there is none. -/
inductive Sending where
  | reused
  | reconnected (monitorReady : Bool)
  | failed (err : String)
  deriving DecidableEq, Repr

/-- What can happen, at any time: a call, an answer of the connection manager to the oldest
request, the end of a stream, of which only some frames still arrive, and to the call that waits a
frame, an error of reading or the end of its time. -/
inductive Event where
  | call (sending : Sending)
  | answer (snapshot : Snapshot)
  | breakStream (kept : Nat)
  | read
  | readError (err : String)
  | timeout

/-- `split_to` for each entry in turn. It panics where too few bytes are left. -/
def splitContents : List ClipboardNonFile → Bytes → Option (List ClipboardNonFile)
  | [], _ => some []
  | c :: contents, data =>
    if c.nextRaw then
      if data.length < c.contentLen then none
      else
        (splitContents contents (data.drop c.contentLen)).map
          ({ c with content := data.take c.contentLen } :: ·)
    else (splitContents contents data).map (c :: ·)

namespace World

variable (text : Text)

/-- The call that waits returns. -/
def return_ (w : World) (request : Nat) (answer : Answer) : World :=
  { w with phase := .idle, returned := w.returned ++ [(request, answer)] }

def call (w : World) (sending : Sending) : World :=
  let request := w.calls
  let w := { w with calls := w.calls + 1 }
  match sending with
  | .reused =>
    match w.stream with
    | some s =>
      { w with
        stream := some { s with requests := s.requests ++ [request] }
        phase := .header request }
    | none => w
  | .reconnected monitorReady =>
    { w with
      stream := some
        { requests := [request]
          frames := if monitorReady then [⟨none, .data .monitorReady⟩] else [] }
      phase := .header request }
  | .failed err => w.return_ request (.error err)

def answer (w : World) (snapshot : Snapshot) : World :=
  match w.stream with
  | none => w
  | some s =>
    match s.requests with
    | [] => w
    | request :: requests =>
      if s.broken then w
      else
        { w with
          stream := some
            { s with requests, frames := s.frames ++ answerFrames request snapshot }
          produced := w.produced ++ [(request, snapshot)] }

def breakStream (w : World) (kept : Nat) : World :=
  match w.stream with
  | none => w
  | some s => { w with stream := some { s with frames := s.frames.take kept, broken := true } }

/-- A call that waits for the header reads a frame. -/
def readHeader (w : World) (request : Nat) (body : Body) : World :=
  match text.next body with
  | some (.clipboardNonFile (some (err, contents))) =>
    if err ≠ "" then w.return_ request (.error err)
    else if contents.any (·.nextRaw) then { w with phase := .raw request contents }
    else w.return_ request (.ok contents)
  | some .monitorReady => w
  | some (.clipboardNonFile none) | some .other | none =>
    w.return_ request (.error "failed to get clipboard data from cm")

/-- A call that waits for the contents reads a frame. -/
def readRaw (w : World) (request : Nat) (contents : List ClipboardNonFile) (body : Body) : World :=
  match splitContents contents (text.nextRaw body) with
  | some contents => w.return_ request (.ok contents)
  | none => { w with phase := .panicked }

def read (w : World) : World :=
  match w.stream with
  | none => w
  | some s =>
    match s.frames with
    | [] => w
    | frame :: frames =>
      let next := { w with stream := some { s with frames } }
      match w.phase with
      | .idle | .panicked => w
      | .header request => next.readHeader text request frame.body
      | .raw request contents => next.readRaw text request contents frame.body

def readError (w : World) (err : String) : World :=
  match w.phase with
  | .idle | .panicked => w
  | .header request => w.return_ request (.error err)
  | .raw request _ =>
    { w with stream := none }.return_ request
      (.error "failed to get raw clipboard data: reset by the peer")

/-- The header is not waited for any longer, and the stream is kept; or the contents are not, and
the entries are returned without them. -/
def timeout (w : World) : World :=
  match w.phase with
  | .idle | .panicked => w
  | .header request => w.return_ request (.error "deadline has elapsed")
  | .raw request contents => { w with stream := none }.return_ request (.ok contents)

/-- One event. There is one call at a time. -/
def step (w : World) : Event → World
  | .call sending => if w.phase = .idle then w.call sending else w
  | .answer snapshot => w.answer snapshot
  | .breakStream kept => w.breakStream kept
  | .read => w.read text
  | .readError err => w.readError err
  | .timeout => w.timeout

/-- The next frame on the stream of the call. -/
def nextFrame (w : World) : Option Frame := w.stream.bind fun s => s.frames.head?

/-- The request of the call that waits. -/
def waiting (w : World) : Option Nat :=
  match w.phase with
  | .header request | .raw request _ => some request
  | .idle | .panicked => none

end World

/-! ## Answers and their requests -/

/-- The calls take no frame that answers an earlier request, and none gives up the contents that
follow a header. -/
def Current (w : World) : Event → Prop
  | .read => ∀ request frame a, w.waiting = some request → w.nextFrame = some frame →
      frame.answers = some a → a = request
  | .timeout => ∀ request contents, w.phase ≠ .raw request contents
  | .call _ | .answer _ | .breakStream _ | .readError _ => True

/-- Entries are the clipboards that the connection manager has produced for a request. -/
def Produced (w : World) (request : Nat) (contents : List ClipboardNonFile) : Prop :=
  ∃ clipboards source, (request, .ok (clipboards, source)) ∈ w.produced ∧
    contents = clipboards.map (whole source)

/-- The calls that have returned entries have returned their own. -/
def Answered (w : World) : Prop :=
  ∀ request contents, (request, .ok contents) ∈ w.returned → contents ≠ [] →
    Produced w request contents

theorem splitContents_entries (source : ClipboardSourceApplication)
    (clipboards : List Clipboard) :
    splitContents (clipboards.map (entry source)) (rawContents clipboards) =
      some (clipboards.map (whole source)) := by
  induction clipboards with
  | nil => rfl
  | cons c clipboards ih =>
    rw [List.map_cons, splitContents]
    by_cases hlong : 1024 * 3 < c.content.length
    · have hraw : rawContents (c :: clipboards) = c.content ++ rawContents clipboards := by
        simp [rawContents, hlong]
      have hnext : (entry source c).nextRaw = true := by simp [entry, whole, hlong]
      have hlen : (entry source c).contentLen = c.content.length := rfl
      rw [if_pos hnext, hraw, hlen, if_neg (by simp), List.drop_left, List.take_left, ih]
      simp [entry, whole]
    · have hraw : rawContents (c :: clipboards) = rawContents clipboards := by
        simp [rawContents, hlong]
      have hnext : ¬(entry source c).nextRaw = true := by simp [entry, whole, hlong]
      have hentry : entry source c = whole source c := by simp [entry, hlong, whole]
      rw [if_neg hnext, hraw, ih, hentry]
      rfl

/-- Without a long entry the header is the whole answer. -/
theorem entries_of_short {source : ClipboardSourceApplication} {clipboards : List Clipboard}
    (h : ((clipboards.map (entry source)).any (·.nextRaw)) = false) (request : Nat) :
    clipboards.map (entry source) = clipboards.map (whole source) ∧
      rawFrames request clipboards = [] := by
  have hshort : ∀ c ∈ clipboards, ¬1024 * 3 < c.content.length := by
    simpa [entry, whole] using h
  constructor
  · apply List.map_congr_left
    intro c hc
    simp [entry, hshort c hc, whole]
  · have hraw : rawContents clipboards = [] := by
      rw [rawContents, List.flatMap_eq_nil_iff]
      intro c hc
      rw [if_neg (hshort c hc)]
    simp [rawFrames, hraw]

/-! ## What is on a stream -/

/-- The frames of the answers to some requests. -/
def answersFrames (answered : List (Nat × Snapshot)) : List Frame :=
  answered.flatMap fun a => answerFrames a.1 a.2

/-- The frames on a stream are a front and whole answers behind it, in the order of their
requests, up to where the stream has ended. -/
structure Carries (w : World) (front : List Frame) (answered : List (Nat × Snapshot))
    (s : Stream) : Prop where
  produced : ∀ a ∈ answered, a ∈ w.produced
  frames : s.frames <+: front ++ answersFrames answered
  unbroken : s.broken = false → s.frames = front ++ answersFrames answered
  sorted : (answered.map Prod.fst ++ s.requests).Pairwise (· < ·)
  bound : ∀ r ∈ answered.map Prod.fst ++ s.requests, r < w.calls

/-- The first message of a stream. -/
def greeting (monitorReady : Bool) : List Frame :=
  if monitorReady then [⟨none, .data .monitorReady⟩] else []

/-- Only whole answers are on the stream. -/
def Clean (w : World) : Prop :=
  ∀ s, w.stream = some s → ∃ greeted answered, Carries w (greeting greeted) answered s

/-- The header of an answer has been read, and the contents come next if they come at all. -/
def Owing (w : World) (request : Nat) (contents : List ClipboardNonFile) : Prop :=
  ∃ clipboards source, (request, .ok (clipboards, source)) ∈ w.produced ∧
    contents = clipboards.map (entry source) ∧
    ∀ s, w.stream = some s → ∃ answered, Carries w (rawFrames request clipboards) answered s ∧
      ∀ r ∈ answered.map Prod.fst ++ s.requests, request < r

/-- What holds of the stream while a call is in a phase. -/
def PhaseInv (w : World) : Phase → Prop
  | .idle | .header _ | .panicked => Clean w
  | .raw request contents => Owing w request contents

structure Inv (w : World) : Prop where
  answered : Answered w
  phase : PhaseInv w w.phase

section Carries

variable {w w' : World} {front rest : List Frame} {answered : List (Nat × Snapshot)}
  {s : Stream} {frame : Frame} {snapshot : Snapshot} {request : Nat} {requests : List Nat}

theorem Carries.mono (h : Carries w front answered s) (hproduced : w.produced ⊆ w'.produced)
    (hcalls : w.calls ≤ w'.calls) : Carries w' front answered s where
  produced a ha := hproduced (h.produced a ha)
  frames := h.frames
  unbroken := h.unbroken
  sorted := h.sorted
  bound r hr := Nat.lt_of_lt_of_le (h.bound r hr) hcalls

/-- The request of a new call is the latest. -/
theorem Carries.send (h : Carries w front answered s) (hproduced : w'.produced = w.produced)
    (hcalls : w'.calls = w.calls + 1) :
    Carries w' front answered { s with requests := s.requests ++ [w.calls] } where
  produced a ha := hproduced ▸ h.produced a ha
  frames := h.frames
  unbroken := h.unbroken
  sorted := by
    rw [← List.append_assoc, List.pairwise_append]
    exact ⟨h.sorted, List.pairwise_singleton _ _, by simpa using h.bound⟩
  bound r hr := by
    rw [← List.append_assoc, List.mem_append, List.mem_singleton] at hr
    rw [hcalls]
    rcases hr with hr | rfl
    · exact Nat.lt_succ_of_lt (h.bound r hr)
    · exact Nat.lt_succ_self _

/-- An answer goes behind the others. -/
theorem Carries.answer (h : Carries w front answered s) (hreq : s.requests = request :: requests)
    (hlive : s.broken = false) (hproduced : w'.produced = w.produced ++ [(request, snapshot)])
    (hcalls : w'.calls = w.calls) :
    Carries w' front (answered ++ [(request, snapshot)])
      { s with requests, frames := s.frames ++ answerFrames request snapshot } := by
  have hframes : s.frames ++ answerFrames request snapshot =
      front ++ answersFrames (answered ++ [(request, snapshot)]) := by
    rw [h.unbroken hlive, answersFrames, answersFrames, List.flatMap_append, List.append_assoc]
    simp
  have hids : (answered ++ [(request, snapshot)]).map Prod.fst ++ requests =
      answered.map Prod.fst ++ s.requests := by
    rw [hreq]
    simp
  constructor
  · intro a ha
    rw [hproduced]
    rcases List.mem_append.mp ha with ha | ha
    · exact List.mem_append_left _ (h.produced a ha)
    · exact List.mem_append_right _ ha
  · exact hframes ▸ List.prefix_rfl
  · exact fun _ => hframes
  · rw [hids]
    exact h.sorted
  · rw [hids, hcalls]
    exact h.bound

theorem Carries.breakStream (h : Carries w front answered s) (kept : Nat) :
    Carries w front answered { s with frames := s.frames.take kept, broken := true } where
  produced := h.produced
  frames := (List.take_prefix _ _).trans h.frames
  unbroken hlive := by cases hlive
  sorted := h.sorted
  bound := h.bound

/-- The frame in front is read first. -/
theorem Carries.read_front {x : Frame} (h : Carries w (x :: front) answered s)
    (hframes : s.frames = frame :: rest) :
    frame = x ∧ Carries w front answered { s with frames := rest } := by
  have hcut := h.frames
  rw [hframes, List.cons_append, List.cons_prefix_cons] at hcut
  refine ⟨hcut.1, h.produced, hcut.2, ?_, h.sorted, h.bound⟩
  intro hlive
  have heq := h.unbroken hlive
  rw [hframes, List.cons_append] at heq
  exact (List.cons.inj heq).2

/-- With nothing in front, the oldest answer is. -/
theorem Carries.oldest (h : Carries w [] answered s) (hframes : s.frames = frame :: rest) :
    ∃ a answered', a ∈ answered ∧ Carries w (answerFrames a.1 a.2) answered' s ∧
      ∀ r ∈ answered'.map Prod.fst ++ s.requests, a.1 < r := by
  cases answered with
  | nil =>
    have hcut := h.frames
    rw [hframes] at hcut
    cases List.prefix_nil.mp hcut
  | cons a answered' =>
    have hall : answersFrames (a :: answered') =
        answerFrames a.1 a.2 ++ answersFrames answered' := List.flatMap_cons
    have hids := h.sorted
    rw [List.map_cons, List.cons_append, List.pairwise_cons] at hids
    refine ⟨a, answered', List.mem_cons_self, ⟨?_, ?_, ?_, hids.2, ?_⟩, hids.1⟩
    · exact fun b hb => h.produced b (List.mem_cons_of_mem a hb)
    · exact hall ▸ h.frames
    · exact fun hlive => hall ▸ h.unbroken hlive
    · exact fun r hr => h.bound r (List.mem_cons_of_mem a.1 hr)

end Carries

/-! ## Steps -/

section Steps

variable {text : Text} {w w' : World} {request : Nat} {contents : List ClipboardNonFile}
  {e : Event}

theorem Clean.mono (h : Clean w) (hstream : w'.stream = w.stream)
    (hproduced : w.produced ⊆ w'.produced) (hcalls : w.calls ≤ w'.calls) : Clean w' := by
  intro s hs
  obtain ⟨greeted, answered, hcarries⟩ := h s (hstream ▸ hs)
  exact ⟨greeted, answered, hcarries.mono hproduced hcalls⟩

theorem Answered.mono (h : Answered w) (hreturned : w'.returned = w.returned)
    (hproduced : w.produced ⊆ w'.produced) : Answered w' := by
  intro request contents hmem hne
  rw [hreturned] at hmem
  obtain ⟨clipboards, source, hprod, heq⟩ := h request contents hmem hne
  exact ⟨clipboards, source, hproduced hprod, heq⟩

/-- A call returns its own entries, or none. -/
theorem inv_return {ans : Answer} (h : Answered w) (hclean : Clean w)
    (hown : ∀ contents, ans = .ok contents → contents ≠ [] → Produced w request contents) :
    Inv (w.return_ request ans) where
  answered r contents hmem hne := by
    rcases List.mem_append.mp hmem with hmem | hmem
    · exact h r contents hmem hne
    · obtain ⟨rfl, hans⟩ := Prod.mk.inj (List.mem_singleton.mp hmem)
      exact hown contents hans.symm hne
  phase := hclean.mono rfl (fun _ ha => ha) (Nat.le_refl _)

theorem inv_return_error {err : String} (h : Answered w) (hclean : Clean w) :
    Inv (w.return_ request (.error err)) :=
  inv_return h hclean fun _ hcontents => by cases hcontents

theorem clean_of_none (h : w.stream = none) : Clean w := by
  intro s hs
  rw [h] at hs
  cases hs

theorem inv_call (sending : Sending) (h : Inv w) (hidle : w.phase = .idle) :
    Inv (w.call sending) := by
  have hclean : Clean w := by
    have hphase := h.phase
    rwa [hidle] at hphase
  have hanswered : Answered { w with calls := w.calls + 1 } :=
    h.answered.mono rfl fun _ ha => ha
  cases sending with
  | reused =>
    cases hs : w.stream with
    | none =>
      simp only [World.call, hs]
      refine ⟨hanswered.mono rfl fun _ ha => ha, ?_⟩
      rw [hidle]
      exact hclean.mono hs.symm (fun _ ha => ha) (Nat.le_succ _)
    | some s =>
      obtain ⟨greeted, answered, hcarries⟩ := hclean s hs
      simp only [World.call, hs]
      refine ⟨hanswered.mono rfl fun _ ha => ha, ?_⟩
      rintro _ ⟨⟩
      exact ⟨greeted, answered, hcarries.send rfl rfl⟩
  | reconnected monitorReady =>
    refine ⟨hanswered.mono rfl fun _ ha => ha, ?_⟩
    rintro _ ⟨⟩
    refine ⟨monitorReady, [], by simp, ?_, ?_, ?_, ?_⟩
    · simp [greeting, answersFrames]
    · simp [greeting, answersFrames]
    · simp
    · simp [World.call]
  | failed err =>
    exact inv_return_error hanswered (hclean.mono rfl (fun _ ha => ha) (Nat.le_succ _))

/-- What happens on a stream behind its front leaves the phase as it is. -/
theorem PhaseInv.behind {s s' : Stream} {phase : Phase} (h : PhaseInv w phase)
    (hs : w.stream = some s) (hs' : w'.stream = some s') (hproduced : w.produced ⊆ w'.produced)
    (hmove : ∀ front answered, Carries w front answered s → ∃ answered',
      Carries w' front answered' s' ∧
        answered'.map Prod.fst ++ s'.requests = answered.map Prod.fst ++ s.requests) :
    PhaseInv w' phase := by
  have hclean : Clean w → Clean w' := by
    rintro hclean t ht
    obtain rfl := Option.some.inj (hs'.symm.trans ht)
    obtain ⟨greeted, answered, hcarries⟩ := hclean s hs
    obtain ⟨answered', hcarries', -⟩ := hmove _ _ hcarries
    exact ⟨greeted, answered', hcarries'⟩
  cases phase with
  | idle | header | panicked => exact hclean h
  | raw request contents =>
    obtain ⟨clipboards, source, hprod, heq, hrest⟩ := h
    refine ⟨clipboards, source, hproduced hprod, heq, ?_⟩
    rintro t ht
    obtain rfl := Option.some.inj (hs'.symm.trans ht)
    obtain ⟨answered, hcarries, hlater⟩ := hrest s hs
    obtain ⟨answered', hcarries', hids⟩ := hmove _ _ hcarries
    exact ⟨answered', hcarries', hids ▸ hlater⟩

theorem inv_answer (snapshot : Snapshot) (h : Inv w) : Inv (w.answer snapshot) := by
  unfold World.answer
  split
  case h_1 => exact h
  case h_2 s hs =>
    split
    case h_1 => exact h
    case h_2 r requests hreq =>
      split
      case isTrue => exact h
      case isFalse hlive =>
        rw [Bool.not_eq_true] at hlive
        refine ⟨h.answered.mono rfl (List.subset_append_left _ _), ?_⟩
        refine h.phase.behind hs rfl (List.subset_append_left _ _) ?_
        intro front answered hcarries
        refine ⟨answered ++ [(r, snapshot)], hcarries.answer hreq hlive rfl rfl, ?_⟩
        simp [hreq]

theorem inv_breakStream (kept : Nat) (h : Inv w) : Inv (w.breakStream kept) := by
  unfold World.breakStream
  split
  case h_1 => exact h
  case h_2 s hs =>
    refine ⟨h.answered.mono rfl fun _ ha => ha, ?_⟩
    refine h.phase.behind hs rfl (fun _ ha => ha) ?_
    intro front answered hcarries
    exact ⟨answered, (hcarries.breakStream kept).mono (fun _ ha => ha) (Nat.le_refl _), rfl⟩

theorem inv_readError (err : String) (h : Inv w) : Inv (w.readError err) := by
  unfold World.readError
  have hphase := h.phase
  split
  case h_1 | h_2 => exact h
  case h_3 request hwait =>
    rw [hwait] at hphase
    exact inv_return_error h.answered hphase
  case h_4 request contents hwait =>
    exact inv_return_error (h.answered.mono rfl fun _ ha => ha) (clean_of_none rfl)

theorem inv_timeout (h : Inv w) (hok : Current w .timeout) : Inv w.timeout := by
  unfold World.timeout
  have hphase := h.phase
  split
  case h_1 | h_2 => exact h
  case h_3 request hwait =>
    rw [hwait] at hphase
    exact inv_return_error h.answered hphase
  case h_4 request contents hwait => exact absurd hwait (hok request contents)

/-- A header that is read answers the request that waits. -/
theorem inv_readHeader {s : Stream} {frame : Frame} {rest : List Frame} (h : Inv w)
    (hs : w.stream = some s) (hframes : s.frames = frame :: rest)
    (hwait : w.phase = .header request)
    (hown : ∀ a, frame.answers = some a → a = request) :
    Inv (({ w with stream := some { s with frames := rest } } : World).readHeader text request
      frame.body) := by
  have hphase := h.phase
  rw [hwait] at hphase
  obtain ⟨greeted, answered, hcarries⟩ := hphase s hs
  have hanswered : Answered { w with stream := some { s with frames := rest } } :=
    h.answered.mono rfl fun _ ha => ha
  cases greeted with
  | true =>
    obtain ⟨rfl, hcarries'⟩ := hcarries.read_front hframes
    refine ⟨hanswered, ?_⟩
    rw [World.readHeader, Text.next]
    dsimp only
    rw [hwait]
    rintro _ ⟨⟩
    exact ⟨false, answered, hcarries'.mono (fun _ ha => ha) (Nat.le_refl _)⟩
  | false =>
    obtain ⟨⟨r, snapshot⟩, answered', hmem, holdest, hlater⟩ := hcarries.oldest hframes
    have hprod := hcarries.produced _ hmem
    cases snapshot with
    | error err =>
      obtain ⟨rfl, hrest⟩ := holdest.read_front hframes
      have hclean : Clean { w with stream := some { s with frames := rest } } := by
        rintro _ ⟨⟩
        exact ⟨false, answered', hrest.mono (fun _ ha => ha) (Nat.le_refl _)⟩
      simp only [header, World.readHeader, Text.next]
      split
      · exact inv_return_error hanswered hclean
      · refine inv_return hanswered hclean ?_
        rintro _ ⟨⟩ hne
        exact absurd rfl hne
    | ok clips =>
      obtain ⟨clipboards, source⟩ := clips
      obtain ⟨rfl, hrest⟩ := holdest.read_front hframes
      obtain rfl : r = request := hown r rfl
      simp only [header, World.readHeader, Text.next, ne_eq, not_true_eq_false, if_false]
      cases hnext : (clipboards.map (entry source)).any (·.nextRaw) with
      | true =>
        rw [if_pos rfl]
        refine ⟨hanswered.mono rfl fun _ ha => ha, clipboards, source, hprod, rfl, ?_⟩
        rintro _ ⟨⟩
        exact ⟨answered', hrest.mono (fun _ ha => ha) (Nat.le_refl _), hlater⟩
      | false =>
        obtain ⟨hwhole, hnone⟩ := entries_of_short hnext r
        rw [if_neg Bool.false_ne_true]
        refine inv_return hanswered ?_ ?_
        · rintro _ ⟨⟩
          refine ⟨false, answered', ?_⟩
          rw [hnone] at hrest
          exact hrest.mono (fun _ ha => ha) (Nat.le_refl _)
        · rintro _ ⟨⟩ -
          exact ⟨clipboards, source, hprod, hwhole⟩

/-- The frame that is read behind a header has the contents of its entries. -/
theorem inv_readRaw {s : Stream} {frame : Frame} {rest : List Frame} (h : Inv w)
    (hs : w.stream = some s) (hframes : s.frames = frame :: rest)
    (hwait : w.phase = .raw request contents)
    (hown : ∀ a, frame.answers = some a → a = request) :
    Inv (({ w with stream := some { s with frames := rest } } : World).readRaw text request
      contents frame.body) := by
  have hphase := h.phase
  rw [hwait] at hphase
  obtain ⟨clipboards, source, hprod, rfl, hstream⟩ := hphase
  obtain ⟨answered, hcarries, hlater⟩ := hstream s hs
  have hanswered : Answered { w with stream := some { s with frames := rest } } :=
    h.answered.mono rfl fun _ ha => ha
  by_cases hsent : rawContents clipboards ≠ [] ∧ (rawContents clipboards).length ≤ 0x3FFFFFFF
  · rw [rawFrames, if_pos hsent] at hcarries
    obtain ⟨rfl, hrest⟩ := hcarries.read_front hframes
    simp only [World.readRaw, Text.nextRaw, splitContents_entries]
    refine inv_return hanswered ?_ ?_
    · rintro _ ⟨⟩
      exact ⟨false, answered, hrest.mono (fun _ ha => ha) (Nat.le_refl _)⟩
    · rintro _ ⟨⟩ -
      exact ⟨clipboards, source, hprod, rfl⟩
  · -- nothing comes for this request, and what comes next is of a later one
    rw [rawFrames, if_neg hsent] at hcarries
    obtain ⟨⟨r, snapshot⟩, answered', hmem, holdest, -⟩ := hcarries.oldest hframes
    have hlt : request < r := hlater r (List.mem_append_left _ (List.mem_map_of_mem hmem))
    have hframe : frame.answers = some r := by
      cases snapshot with
      | error err => exact congrArg Frame.answers (holdest.read_front hframes).1
      | ok clips => exact congrArg Frame.answers (holdest.read_front hframes).1
    exact absurd (hown r hframe) (Nat.ne_of_gt hlt)

theorem inv_read (h : Inv w) (hok : Current w .read) : Inv (w.read text) := by
  unfold World.read
  split
  case h_1 => exact h
  case h_2 s hs =>
    split
    case h_1 => exact h
    case h_2 frame rest hframes =>
      have hnext : w.nextFrame = some frame := by simp [World.nextFrame, hs, hframes]
      dsimp only
      split
      case h_1 | h_2 => exact h
      case h_3 request hwait =>
        refine inv_readHeader h hs hframes hwait fun a ha => ?_
        exact hok request frame a (by rw [World.waiting, hwait]) hnext ha
      case h_4 request contents hwait =>
        refine inv_readRaw h hs hframes hwait fun a ha => ?_
        exact hok request frame a (by rw [World.waiting, hwait]) hnext ha

theorem inv_step (h : Inv w) (hok : Current w e) : Inv (w.step text e) := by
  cases e with
  | call sending =>
    rw [World.step]
    split
    case isTrue hidle => exact inv_call sending h hidle
    case isFalse => exact h
  | answer snapshot => exact inv_answer snapshot h
  | breakStream kept => exact inv_breakStream kept h
  | read => exact inv_read h hok
  | readError err => exact inv_readError err h
  | timeout => exact inv_timeout h hok

theorem inv_new : Inv {} where
  answered _ _ hmem := absurd hmem List.not_mem_nil
  phase := clean_of_none rfl

end Steps

/-- Entries whose contents were given up are returned without them. -/
theorem given_up_returned : ¬∀ (text : Text) (es : List Event) (request : Nat)
    (contents : List ClipboardNonFile),
    (request, .ok contents) ∈ (run (World.step text) {} es).returned →
      ∀ c ∈ contents, c.nextRaw = true → c.content.length = c.contentLen := by
  intro h
  obtain ⟨content, hlen⟩ : ∃ content : Bytes, content.length = 4000 :=
    ⟨List.replicate 4000 7, List.length_replicate⟩
  have hnext : (entry .excel { content }).nextRaw = true := by simp [entry, whole, hlen]
  have hempty := h ⟨fun _ => none, fun _ => []⟩
    [.call (.reconnected false), .answer (.ok ([{ content }], .excel)), .read, .timeout] 0
    [entry .excel { content }]
    (by simp [World.step, World.call, World.answer, World.read, answerFrames, header,
      World.readHeader, Text.next, hnext, World.timeout, World.return_])
    _ (List.mem_singleton_self _) hnext
  simp [entry, whole, hlen] at hempty

end MDesk.CmClipboard
