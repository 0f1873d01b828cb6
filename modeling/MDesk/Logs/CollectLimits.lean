import MDesk.Logs.Collector

/-!
# The limits of a collection

The events are taken whole, whatever number of entries is asked for; a sample is charged for the
bytes it was decoded from, and its text may be longer. Where neither matters, a collection keeps
to the number of entries and to the budget.
-/

namespace MDesk.LogAnalysis

open MDesk.Core

/-- A result keeps to the limits of its request. -/
def Within (settings : Settings) (result : Except String Upload) : Prop :=
  ∀ upload, result = .ok upload →
    upload.files.length ≤ settings.maxFiles ∧
      upload.textBytes ≤ min sampleLimit (settings.maxTotalMb * 1024 * 1024)

section Walk

variable {P : Platform} {M : Machine} {settings : Settings}

/-! ## The walk collects no entries -/

theorem visitEntry_files (directory : String) (depth : Nat) (entry : Except IoError String)
    (s : Walk × List (String × Nat)) :
    (visitEntry P M settings directory depth entry s).1.upload.files = s.1.upload.files := by
  obtain ⟨w, stack⟩ := s
  unfold visitEntry
  cases entry with
  | error error => simp [Walk.ioWarning]
  | ok name =>
    dsimp only
    cases M.symlinkMetadata (P.paths.push directory name) with
    | error error => simp [Walk.ioWarning]
    | ok metadata =>
      dsimp only
      split_ifs <;> simp [Walk.warn]

@[simp] theorem Walk.overLimit_upload (w : Walk) : (w.overLimit M).2.upload = w.upload := by
  unfold Walk.overLimit
  split <;> rfl

theorem visitEntries_files (directory : String) (depth : Nat)
    (entries : List (Except IoError String)) (s : Walk × List (String × Nat)) :
    (visitEntries P M settings directory depth entries s).1.upload.files = s.1.upload.files := by
  induction entries generalizing s with
  | nil => rfl
  | cons entry rest ih =>
    obtain ⟨w, stack⟩ := s
    rw [visitEntries]
    have hover := Walk.overLimit_upload (M := M) { w with visited := w.visited + 1 }
    split
    · next w' heq =>
      rw [heq] at hover
      change w'.upload.files = w.upload.files
      rw [hover]
    · next w' heq =>
      rw [heq] at hover
      rw [ih, visitEntry_files]
      change w'.upload.files = w.upload.files
      rw [hover]

theorem visitDirectory_files (directory : String) (depth : Nat) (w : Walk)
    (stack : List (String × Nat)) :
    (visitDirectory P M settings directory depth w stack).2.1.upload.files = w.upload.files := by
  unfold visitDirectory
  split
  · simp [Walk.ioWarning]
  · split
    · simp [Walk.ioWarning]
    · exact visitEntries_files directory depth _ (w, stack)

theorem walkFolder_files (s : Walk × List (String × Nat)) :
    (walkFolder P M settings s).upload.files = s.1.upload.files := by
  induction s using walkFolder.induct P M settings with
  | case1 w => rw [walkFolder]
  | case2 w directory depth stack w' stack' heq =>
    rw [walkFolder]
    have hfiles :
        (visitDirectory P M settings directory depth w stack).2.1.upload.files = w.upload.files :=
      visitDirectory_files directory depth w stack
    split
    · next heq' => rw [heq'] at hfiles; exact hfiles
    · next heq' => rw [heq] at heq'; cases heq'
  | case3 w directory depth stack w' stack' heq ih =>
    rw [walkFolder]
    have hfiles :
        (visitDirectory P M settings directory depth w stack).2.1.upload.files = w.upload.files :=
      visitDirectory_files directory depth w stack
    split
    · next heq' => rw [heq] at heq'; cases heq'
    · next heq' =>
      rw [heq] at heq' hfiles
      cases heq'
      exact ih.trans hfiles

theorem visitTarget_files {target : Target} {w : Walk} {out : Bool × Walk}
    (h : visitTarget P M settings target w = .ok out) :
    out.2.upload.files = w.upload.files := by
  unfold visitTarget at h
  split at h
  · cases h; rfl
  split at h
  · cases h
  split at h
  · cases h; simp [Walk.ioWarning]
  split at h
  · split at h
    · cases h; rfl
    · cases h; simp [Walk.warn]
  split at h
  · have hwalk : (walkFolder P M settings (w, [(target.path, 0)])).upload.files = w.upload.files :=
      walkFolder_files (w, [(target.path, 0)])
    dsimp only at h
    split at h
    · cases h
      simpa [Walk.warn] using hwalk
    · cases h
      exact hwalk
  · cases h; simp [Walk.warn]

theorem visitTargets_files {targets : List Target} {w w' : Walk}
    (h : visitTargets P M settings targets w = .ok w') : w'.upload.files = w.upload.files := by
  induction targets generalizing w with
  | nil => cases h; rfl
  | cons target rest ih =>
    rw [visitTargets] at h
    cases htarget : visitTarget P M settings target w with
    | error e => rw [htarget] at h; cases h
    | ok out =>
      rw [htarget] at h
      obtain ⟨skip, w₁⟩ := out
      have hfiles := visitTarget_files htarget
      cases skip with
      | true => exact (ih h).trans hfiles
      | false =>
        dsimp only at h
        have hover := Walk.overLimit_upload (M := M) w₁
        rcases heq : w₁.overLimit M with ⟨_ | _, w₂⟩
        · rw [heq] at h hover
          exact (ih h).trans ((congrArg Upload.files hover).trans hfiles)
        · rw [heq] at h hover
          cases h
          exact (congrArg Upload.files hover).trans hfiles

end Walk

/-! ## The events are taken whole -/

section Events

variable {M : Machine} {settings : Settings}

/-- The entries of the event channels that a collection takes. -/
def acceptedEvents (M : Machine) (settings : Settings) : List Sample :=
  if settings.eventTargets = [] then []
  else ((M.events.filter Events.valid).map (·.files)).getD []

theorem foldl_warn_files {α : Type*} (path code : α → String) (ws : List α) (u : Upload) :
    (ws.foldl (fun u w => u.warn (path w) (code w)) u).files = u.files := by
  induction ws generalizing u with
  | nil => rfl
  | cons w ws ih => exact (ih _).trans (u.warn_files _ _)

theorem startUpload_files {upload : Upload} (h : startUpload M settings = .ok upload) :
    upload.files = acceptedEvents M settings := by
  unfold startUpload at h
  unfold acceptedEvents
  split at h
  · next hnone =>
    cases h
    rw [if_pos hnone]
  split at h
  · cases h
  · next hnone _ =>
    cases h
    rw [if_neg hnone]
    unfold collectWindowsEvents
    cases hevents : M.events.filter Events.valid with
    | none => exact Upload.warn_files _ _ _
    | some events => simp [foldl_warn_files]

/-- What is taken of the events fits in the sample limit. -/
theorem acceptedEvents_bytes (M : Machine) (settings : Settings) :
    ((acceptedEvents M settings).map (·.text.utf8ByteSize)).sum ≤ sampleLimit := by
  unfold acceptedEvents
  split
  · simp
  cases hevents : M.events.filter Events.valid with
  | none => simp
  | some events =>
    have hvalid := (Option.filter_eq_some_iff.mp hevents).2
    simp only [Events.valid, Bool.and_eq_true, decide_eq_true_eq] at hvalid
    exact hvalid.1.2

end Events

/-! ## Samples -/

section Samples

variable {P : Platform} {M : Machine} {settings : Settings}

/-- No sample of a file has a longer text than the bytes it is charged for. -/
def Shrinks (M : Machine) (path : String) : Prop :=
  ∀ file metadata content, M.openFile path = .ok file → file.metadata = .ok metadata →
    file.content = .ok content → ∀ remaining, 0 < remaining → remaining ≤ sampleLimit →
      ((readTail M metadata.len content remaining).text M).utf8ByteSize ≤
        (readTail M metadata.len content remaining).bytes.length

theorem utf8ByteSize_take_le (text : String) (n : Nat) :
    (String.ofList (text.toList.take n)).utf8ByteSize ≤ text.utf8ByteSize := by
  have hsplit : text =
      String.ofList (text.toList.take n) ++ String.ofList (text.toList.drop n) := by
    rw [← String.ofList_append, List.take_append_drop, String.ofList_toList]
  conv_rhs => rw [hsplit, String.utf8ByteSize_append]
  exact Nat.le_add_right _ _

/-- A sample is the front of a tail's text, and is charged for the tail's bytes. -/
theorem readSample_eq {path canonical : String} {remaining bytes : Nat} {sample : Sample}
    {truncated : Bool}
    (h : readSample M path canonical remaining = .ok (sample, bytes, truncated)) :
    ∃ file metadata content, M.openFile path = .ok file ∧ file.metadata = .ok metadata ∧
      file.content = .ok content ∧
      sample.text = String.ofList
        (((readTail M metadata.len content remaining).text M).toList.take remaining) ∧
      bytes = (readTail M metadata.len content remaining).bytes.length := by
  unfold readSample at h
  cases hopen : M.openFile path with
  | error e => rw [hopen] at h; cases h
  | ok file =>
    cases hmeta : file.metadata with
    | error e => simp [hopen, hmeta, bind, Except.bind] at h
    | ok metadata =>
      cases hcontent : file.content with
      | error e =>
        simp only [hopen, hmeta, hcontent, bind, Except.bind, throw, throwThe,
          MonadExceptOf.throw] at h
        split at h <;> (try cases h)
        split at h <;> (try cases h)
        split at h <;> cases h
      | ok content =>
        refine ⟨file, metadata, content, rfl, hmeta, hcontent, ?_⟩
        simp only [hopen, hmeta, hcontent, bind, Except.bind, pure, Except.pure, throw,
          throwThe, MonadExceptOf.throw] at h
        split at h <;> (try cases h)
        split at h <;> (try cases h)
        split at h <;> cases h
        exact ⟨rfl, rfl⟩

/-- What one path does to the samples: nothing is taken, or one sample. -/
theorem samplePath_cases (P : Platform) (M : Machine) (path : String) (s : Sampling) :
    ((samplePath P M path s).upload.files = s.upload.files ∧
      (samplePath P M path s).remaining = s.remaining) ∨
    ∃ canonical sample bytes truncated,
      readSample M path canonical s.remaining = .ok (sample, bytes, truncated) ∧
      (samplePath P M path s).remaining = s.remaining - bytes ∧
      ((samplePath P M path s).upload.files = s.upload.files ∨
        (samplePath P M path s).upload.files = s.upload.files ++ [sample]) := by
  unfold samplePath
  split
  · exact .inl ⟨by simp [Sampling.ioWarning], rfl⟩
  split
  · exact .inl ⟨by simp [Sampling.ioWarning], rfl⟩
  · next canonical hcanonical =>
    split_ifs
    · exact .inl ⟨rfl, rfl⟩
    dsimp only
    cases hread : readSample M path canonical s.remaining with
    | error error => exact .inl ⟨by simp [Sampling.ioWarning], rfl⟩
    | ok out =>
      obtain ⟨sample, bytes, truncated⟩ := out
      refine .inr ⟨canonical, sample, bytes, truncated, hread, rfl, ?_⟩
      unfold Sampling.take
      dsimp only
      split_ifs
      · exact .inl (by simp)
      · exact .inr rfl

/-- One path adds at most one entry. -/
theorem samplePath_files (path : String) (s : Sampling) :
    s.upload.files <+: (samplePath P M path s).upload.files ∧
      (samplePath P M path s).upload.files.length ≤ s.upload.files.length + 1 := by
  rcases samplePath_cases P M path s with ⟨h, -⟩ | ⟨_, _, _, _, -, -, h | h⟩
  · rw [h]
    exact ⟨List.prefix_refl _, Nat.le_succ _⟩
  · rw [h]
    exact ⟨List.prefix_refl _, Nat.le_succ _⟩
  · rw [h]
    exact ⟨List.prefix_append _ _, by simp⟩

/-- The number of entries grows up to the limit, and stays where it is above it. -/
theorem samplePaths_files (paths : List String) (s : Sampling) :
    s.upload.files <+: (samplePaths P M settings paths s).upload.files ∧
      (samplePaths P M settings paths s).upload.files.length ≤
        max settings.maxFiles s.upload.files.length := by
  induction paths generalizing s with
  | nil => exact ⟨List.prefix_refl _, Nat.le_max_right _ _⟩
  | cons path rest ih =>
    rw [samplePaths]
    split
    · exact ⟨List.prefix_refl _, Nat.le_max_right _ _⟩
    · next hlimit =>
      have hstep := samplePath_files (P := P) (M := M) path s
      have hrest := ih (samplePath P M path s)
      refine ⟨hstep.1.trans hrest.1, ?_⟩
      omega

/-- A sample that does not outgrow its bytes keeps to the budget it is charged to. -/
theorem samplePath_budget {path : String} (hshrinks : Shrinks M path) {s : Sampling}
    (hpos : 0 < s.remaining) (hle : s.remaining ≤ sampleLimit) :
    (samplePath P M path s).upload.textBytes + (samplePath P M path s).remaining ≤
      s.upload.textBytes + s.remaining := by
  unfold Upload.textBytes
  rcases samplePath_cases P M path s with ⟨hfiles, hrem⟩ | ⟨_, sample, _, _, hread, hrem, hfiles⟩
  · rw [hfiles, hrem]
  obtain ⟨file, metadata, content, hopen, hmeta, hcontent, htext, rfl⟩ := readSample_eq hread
  have hshort := hshrinks file metadata content hopen hmeta hcontent s.remaining hpos hle
  have hfront : sample.text.utf8ByteSize ≤
      ((readTail M metadata.len content s.remaining).text M).utf8ByteSize := by
    rw [htext]
    exact utf8ByteSize_take_le _ _
  have htail : (readTail M metadata.len content s.remaining).bytes.length ≤ s.remaining := by
    unfold readTail
    simp only [List.length_take]
    omega
  rcases hfiles with hfiles | hfiles
  · rw [hfiles, hrem]
    omega
  · rw [hfiles, hrem, List.map_append, List.sum_append]
    simp only [List.map_cons, List.map_nil, List.sum_cons, List.sum_nil]
    omega

theorem samplePath_remaining (path : String) (s : Sampling) :
    (samplePath P M path s).remaining ≤ s.remaining := by
  rcases samplePath_cases P M path s with ⟨-, h⟩ | ⟨_, _, _, _, -, h, -⟩
  · exact h.le
  · rw [h]
    exact Nat.sub_le _ _

/-- Neither do all the samples together. -/
theorem samplePaths_budget {paths : List String} (hshrinks : ∀ path ∈ paths, Shrinks M path)
    {s : Sampling} (hle : s.remaining ≤ sampleLimit) :
    (samplePaths P M settings paths s).upload.textBytes ≤ s.upload.textBytes + s.remaining := by
  induction paths generalizing s with
  | nil => exact Nat.le_add_right _ _
  | cons path rest ih =>
    rw [samplePaths]
    split
    · exact Nat.le_add_right _ _
    · next hlimit =>
      have hpos : 0 < s.remaining := by omega
      have hstep := samplePath_budget (P := P) (hshrinks path List.mem_cons_self) hpos hle
      have hrem := samplePath_remaining (P := P) (M := M) path s
      exact (ih (fun path hpath => hshrinks path (List.mem_cons_of_mem _ hpath))
        (hrem.trans hle)).trans hstep

end Samples

/-! ## The collection -/

section Collect

variable {P : Platform} {M : Machine} {settings : Settings}

/-- The files that the targets lead to. -/
def foundPaths (P : Platform) (M : Machine) (settings : Settings) : List String :=
  match startUpload M settings with
  | .error _ => []
  | .ok upload =>
    match visitTargets P M settings settings.targets { upload } with
    | .error _ => []
    | .ok w => w.paths

/-- What a collection returns: the events, and samples of the files found in some order. -/
theorem collect_eq {upload : Upload} (h : collect P M settings = .ok upload) :
    ∃ paths s, paths.Perm (foundPaths P M settings) ∧
      s.upload.files = acceptedEvents M settings ∧
      s.remaining = min sampleLimit (settings.maxTotalMb * 1024 * 1024) - s.upload.textBytes ∧
      settings.maxTotalMb ≠ 0 ∧ upload = (samplePaths P M settings paths s).upload := by
  unfold collect at h
  split at h
  · cases h
  · next hvalid =>
    have hmb : settings.maxTotalMb ≠ 0 := by
      simp only [Settings.valid, Bool.not_eq_true, Bool.not_eq_false', Bool.and_eq_true,
        decide_eq_true_eq] at hvalid
      exact hvalid.1.1.1.2
    unfold foundPaths
    cases hstart : startUpload M settings with
    | error e => rw [hstart] at h; cases h
    | ok first =>
      rw [hstart] at h
      dsimp only at h ⊢
      cases hwalk : visitTargets P M settings settings.targets { upload := first } with
      | error e => rw [hwalk] at h; cases h
      | ok w =>
        rw [hwalk] at h
        cases h
        refine ⟨_, _, List.mergeSort_perm _ _, ?_, rfl, hmb, rfl⟩
        exact (visitTargets_files hwalk).trans (startUpload_files hstart)

/-- Two event entries, of which the first has a given text, and a file with given bytes. -/
def logMachine (text : String) (content : Bytes) : Machine where
  symlinkMetadata _ := .ok { link := false, isDir := true, isFile := false, len := 0 }
  readDir _ := .error .notFound
  isFile path := path = "C:\\logs\\app.log"
  isDir _ := false
  modified _ := none
  canonicalize path := .ok path
  openFile path := .ok
    { metadata := .ok { link := false, isDir := false, isFile := true, len := content.length }
      finalPath := .ok path
      content := .ok content }
  events := some
    { files := [⟨"windows-event://Application", text⟩, ⟨"windows-event://System", "b"⟩]
      warnings := []
      truncated := false }
  late _ := false
  forBom _ := none
  decode
    | .eucKr, [0xB0, 0xA1] => "가"
    | _, bytes => String.ofList (bytes.map fun b => Char.ofNat b.toNat)

def logSettings (maxFiles : Nat) : Settings where
  targets := [⟨"windows_event", "Application,System"⟩, ⟨"file", "C:\\logs\\app.log"⟩]
  filePatterns := []
  recursive := false
  encoding := "AUTO"
  maxFiles := maxFiles
  maxTotalMb := 1

/-- The platform of the collector. -/
def logPlatform : Platform := { Platform.posix with windows := true }

/-- What such a machine collects: the events, and what is sampled of its file. -/
theorem collect_logMachine {text : String} {content : Bytes} {maxFiles : Nat}
    (hmax : maxFiles ≠ 0 ∧ maxFiles ≤ 100) (hsize : text.utf8ByteSize + 1 ≤ sampleLimit) :
    collect logPlatform (logMachine text content) (logSettings maxFiles) =
      .ok (samplePaths logPlatform (logMachine text content) (logSettings maxFiles)
        ["C:\\logs\\app.log"]
        { upload :=
            { files := [⟨"windows-event://Application", text⟩, ⟨"windows-event://System", "b"⟩] }
          remaining := sampleLimit - (text.utf8ByteSize + 1) }).upload := by
  have hb : "b".utf8ByteSize = 1 := rfl
  have hvalid : (logSettings maxFiles).valid = true := by
    simp [Settings.valid, logSettings, hmax]
  have hevents : (logMachine text content).events.filter Events.valid =
      (logMachine text content).events := by
    simp [logMachine, Events.valid, Option.filter, hb, hsize]
  have hstart : startUpload (logMachine text content) (logSettings maxFiles) = .ok
      { files := [⟨"windows-event://Application", text⟩, ⟨"windows-event://System", "b"⟩] } := by
    have hcollect : collectWindowsEvents (logMachine text content) {} =
        { files := [⟨"windows-event://Application", text⟩, ⟨"windows-event://System", "b"⟩] } := by
      rw [collectWindowsEvents, hevents]
      rfl
    rw [← hcollect]
    rfl
  have hvisit (u : Upload) : visitTargets logPlatform (logMachine text content)
      (logSettings maxFiles) (logSettings maxFiles).targets { upload := u } =
        .ok { upload := u, paths := ["C:\\logs\\app.log"], looks := 1 } := rfl
  have hbudget :
      min sampleLimit ((logSettings maxFiles).maxTotalMb * 1024 * 1024) = sampleLimit := by
    unfold sampleLimit logSettings
    simp
  rw [collect, if_neg (by simp [hvalid]), hstart]
  dsimp only
  rw [hvisit]
  dsimp only
  rw [List.mergeSort_singleton, hbudget]
  simp [Upload.textBytes, hb]

/-- Two bytes of a Korean log are three bytes of text. -/
theorem readSample_korean (text : String) :
    readSample (logMachine text [0xB0, 0xA1]) "C:\\logs\\app.log" "C:\\logs\\app.log" 2 =
      .ok (⟨"C:\\logs\\app.log", "가"⟩, 2, false) := by
  have htail : readTail (logMachine text [0xB0, 0xA1]) 2 [0xB0, 0xA1] 2 =
      ⟨0, [0xB0, 0xA1], .eucKr⟩ := by
    have hdetect : detectEncoding (logMachine text [0xB0, 0xA1]) =
        detectEncoding (logMachine "" []) := rfl
    have hencoding : detectEncoding (logMachine "" []) [0xB0, 0xA1] = .eucKr := by decide
    unfold readTail
    simp [hdetect, hencoding]
  have htext : Tail.text (logMachine text [0xB0, 0xA1]) ⟨0, [0xB0, 0xA1], .eucKr⟩ = "가" := by
    simp [Tail.text, logMachine]
  have hread : readSample (logMachine text [0xB0, 0xA1]) "C:\\logs\\app.log"
      "C:\\logs\\app.log" 2 =
      let tail := readTail (logMachine text [0xB0, 0xA1]) 2 [0xB0, 0xA1] 2
      .ok (⟨"C:\\logs\\app.log", String.ofList
        ((tail.text (logMachine text [0xB0, 0xA1])).toList.take 2)⟩, tail.bytes.length,
        decide (0 < tail.offset)) := by
    rfl
  rw [hread, htail]
  dsimp only
  rw [htext]
  rfl

theorem samplePaths_korean (text : String) {u : Upload} (hu : u.files.length < 3) :
    (samplePaths logPlatform (logMachine text [0xB0, 0xA1]) (logSettings 3)
      ["C:\\logs\\app.log"] { upload := u, remaining := 2 }).upload.files =
        u.files ++ [⟨"C:\\logs\\app.log", "가"⟩] := by
  have hsafe : safePath logPlatform (logMachine text [0xB0, 0xA1]) "C:\\logs\\app.log" =
      .ok () := by
    rfl
  have hcanonical : (logMachine text [0xB0, 0xA1]).canonicalize "C:\\logs\\app.log" =
      .ok "C:\\logs\\app.log" := rfl
  rw [samplePaths, if_neg (by simpa [logSettings] using hu), samplePaths, samplePath, hsafe]
  dsimp only
  rw [hcanonical]
  dsimp only
  rw [if_neg List.not_mem_nil, readSample_korean]
  dsimp only
  rw [Sampling.take, if_neg (by decide)]

/-- Where the events leave two bytes of the budget, two bytes of a Korean log exceed it. -/
theorem collect_exceeds_budget {text : String} (h : text.utf8ByteSize + 3 = sampleLimit) :
    ¬ Within (logSettings 3)
      (collect logPlatform (logMachine text [0xB0, 0xA1]) (logSettings 3)) := by
  intro hwithin
  have hleft : sampleLimit - (text.utf8ByteSize + 1) = 2 := by omega
  have hok := @collect_logMachine text [0xB0, 0xA1] 3 (by decide) (by omega)
  have hbytes := (hwithin _ hok).2
  rw [hleft, Upload.textBytes, samplePaths_korean text (by simp)] at hbytes
  have hb : "b".utf8ByteSize = 1 := rfl
  have hga : "가".utf8ByteSize = 3 := rfl
  simp only [List.cons_append, List.nil_append, List.map_cons, List.map_nil, List.sum_cons,
    List.sum_nil, hb, hga] at hbytes
  have hlimit := Nat.min_le_left sampleLimit ((logSettings 3).maxTotalMb * 1024 * 1024)
  omega

end Collect

end MDesk.LogAnalysis
