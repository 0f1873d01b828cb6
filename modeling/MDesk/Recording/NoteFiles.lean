import MDesk.Core.Table

/-!
# The files of a recording note

A session tracks the files its recorders open until the note that belongs to them is saved, and
keeps for each round of the connection whether its recorders were finalised.
-/

namespace MDesk.RecordingHandover

open Core

/-- `RecordingUploadFile`. -/
structure RecordingUploadFile where
  path : String
  sourceConnectionId : String
  connectionTicket : String
  deriving DecidableEq, Repr

/-- What tells one tracked file from another. -/
def RecordingUploadFile.key (f : RecordingUploadFile) : String × String :=
  (f.path, f.sourceConnectionId)

/-- `track_recording_file_for_context`. -/
def trackRecordingFile (files : List RecordingUploadFile)
    (path sourceConnectionId connectionTicket : String) : List RecordingUploadFile :=
  if files.any (·.path = path) then files
  else files ++ [⟨path, sourceConnectionId, connectionTicket⟩]

/-- `untrack_recording_file_for_context`. -/
def untrackRecordingFile (files : List RecordingUploadFile) (path sourceConnectionId : String) :
    List RecordingUploadFile :=
  files.filter fun file => file.path ≠ path || file.sourceConnectionId ≠ sourceConnectionId

/-- `RecordingNoteSaveResult`. -/
structure RecordingNoteSaveResult where
  error : String
  files : List RecordingUploadFile
  deriving DecidableEq, Repr

/-- `save_recording_notes`, with the errors each file ends with. Every file it is given, whatever
becomes of it, is among those it reports. -/
def saveRecordingNotes (files : List RecordingUploadFile) (titleContainsKorean : Bool)
    (errorsOf : RecordingUploadFile → List String) : RecordingNoteSaveResult :=
  if !titleContainsKorean then { error := "영상 제목에 한글 명칭을 입력해 주세요.", files }
  else if files = [] then { error := "녹화 파일 경로를 찾을 수 없습니다.", files := [] }
  else { error := "\n".intercalate (files.flatMap errorsOf), files }

theorem saveRecordingNotes_files {files : List RecordingUploadFile} {korean : Bool}
    {errorsOf : RecordingUploadFile → List String} :
    (saveRecordingNotes files korean errorsOf).files = files := by
  unfold saveRecordingNotes
  split_ifs with h₁ h₂
  · rfl
  · exact h₂.symm
  · rfl

/-- A file that is to be tried again, unless it is tracked. -/
def retryRecordingFile (tracked : List RecordingUploadFile) (retry : RecordingUploadFile) :
    List RecordingUploadFile :=
  if tracked.any (·.key = retry.key) then tracked else tracked ++ [retry]

/-- The tracked files once the result for a snapshot is there: the files of the snapshot are
dropped, and those to be tried again come back. -/
def settleRecordingFiles (tracked snapshot : List RecordingUploadFile)
    (result : RecordingNoteSaveResult) : List RecordingUploadFile :=
  let kept := tracked.filter fun current => !snapshot.any (·.key = current.key)
  if result.error ≠ "" then result.files.foldl retryRecordingFile kept else kept

/-- `RecordingFinalizeResult`. No error is a success. -/
structure RecordingFinalizeResult where
  sourceConnectionId : String
  error : Option String
  deriving DecidableEq, Repr

/-- `recording_finalize_results`, by round. -/
abbrev FinalizeResults := Table Nat RecordingFinalizeResult

/-- `recording_finalize_result`. -/
def recordingFinalizeResult (results : FinalizeResults) (round : Nat)
    (sourceConnectionId : String) : Option (Option String) :=
  ((results.get round).filter (·.sourceConnectionId = sourceConnectionId)).map (·.error)

/-- `recording_source_finalized`. -/
def sourceFinalized (results : FinalizeResults) (sourceConnectionId : String) :
    Bool :=
  results.entries.any fun e => e.2.sourceConnectionId = sourceConnectionId && e.2.error.isNone

/-- `invalidate_recording_source_finalize`. -/
def invalidateSource (results : FinalizeResults) (sourceConnectionId : String) :
    FinalizeResults :=
  results.retain fun _ outcome => outcome.sourceConnectionId ≠ sourceConnectionId

section Files

variable {files tracked snapshot : List RecordingUploadFile} {f g retry : RecordingUploadFile}
  {path source ticket : String} {result : RecordingNoteSaveResult}

theorem mem_track (h : f ∈ trackRecordingFile files path source ticket) :
    f ∈ files ∨ f.path = path ∧ f.sourceConnectionId = source := by
  unfold trackRecordingFile at h
  split_ifs at h
  · exact .inl h
  · rcases List.mem_append.mp h with hold | hlast
    · exact .inl hold
    · rw [List.mem_singleton.mp hlast]
      exact .inr ⟨rfl, rfl⟩

theorem mem_track_of_mem (h : f ∈ files) : f ∈ trackRecordingFile files path source ticket := by
  unfold trackRecordingFile
  split_ifs
  · exact h
  · exact List.mem_append_left _ h

theorem mem_untrack : f ∈ untrackRecordingFile files path source ↔
    f ∈ files ∧ f.key ≠ (path, source) := by
  rw [untrackRecordingFile, List.mem_filter, and_congr_right_iff]
  intro _
  simp only [RecordingUploadFile.key, ne_eq, Prod.mk.injEq, not_and_or, Bool.or_eq_true,
    decide_eq_true_eq]

theorem mem_retry (h : f ∈ retryRecordingFile tracked retry) : f ∈ tracked ∨ f = retry := by
  unfold retryRecordingFile at h
  split_ifs at h
  · exact .inl h
  · rcases List.mem_append.mp h with hold | hlast
    · exact .inl hold
    · exact .inr (List.mem_singleton.mp hlast)

/-- A file that is tried again is tracked. -/
theorem exists_mem_retry : ∃ g ∈ retryRecordingFile tracked retry, g.key = retry.key := by
  unfold retryRecordingFile
  split_ifs with h
  · obtain ⟨g, hg, hkey⟩ := List.any_eq_true.mp h
    exact ⟨g, hg, of_decide_eq_true hkey⟩
  · exact ⟨retry, List.mem_append_right _ List.mem_cons_self, rfl⟩

theorem mem_retry_of_mem (h : f ∈ tracked) : f ∈ retryRecordingFile tracked retry := by
  unfold retryRecordingFile
  split_ifs
  · exact h
  · exact List.mem_append_left _ h

theorem mem_foldl_retry_of_mem (h : f ∈ tracked) : f ∈ files.foldl retryRecordingFile tracked := by
  induction files generalizing tracked with
  | nil => exact h
  | cons r files ih => exact ih (mem_retry_of_mem h)

theorem exists_mem_foldl_retry (h : f ∈ files) :
    ∃ g ∈ files.foldl retryRecordingFile tracked, g.key = f.key := by
  induction files generalizing tracked with
  | nil => cases h
  | cons r files ih =>
    rcases List.mem_cons.mp h with rfl | hrest
    · obtain ⟨g, hg, hkey⟩ : ∃ g ∈ retryRecordingFile tracked f, g.key = f.key := exists_mem_retry
      have hin : g ∈ files.foldl retryRecordingFile (retryRecordingFile tracked f) :=
        mem_foldl_retry_of_mem hg
      exact ⟨g, hin, hkey⟩
    · exact ih hrest

theorem mem_foldl_retry (h : f ∈ files.foldl retryRecordingFile tracked) :
    f ∈ tracked ∨ f ∈ files := by
  induction files generalizing tracked with
  | nil => exact .inl h
  | cons r files ih =>
    rcases ih h with hold | hrest
    · rcases mem_retry hold with hold' | rfl
      · exact .inl hold'
      · exact .inr List.mem_cons_self
    · exact .inr (List.mem_cons_of_mem _ hrest)

/-- What is tracked behind a result was tracked or is to be tried again. -/
theorem mem_settle (h : f ∈ settleRecordingFiles tracked snapshot result) :
    f ∈ tracked ∨ f ∈ result.files := by
  unfold settleRecordingFiles at h
  split_ifs at h
  · exact (mem_foldl_retry h).imp_left fun hkept => (List.mem_filter.mp hkept).1
  · exact .inl (List.mem_filter.mp h).1

/-- A tracked file that is not in the snapshot stays. -/
theorem mem_settle_of_mem (h : f ∈ tracked) (hkey : ∀ g ∈ snapshot, g.key ≠ f.key) :
    f ∈ settleRecordingFiles tracked snapshot result := by
  have hkept : f ∈ tracked.filter fun current => !snapshot.any (·.key = current.key) := by
    refine List.mem_filter.mpr ⟨h, ?_⟩
    simpa using hkey
  unfold settleRecordingFiles
  split_ifs
  · exact mem_foldl_retry_of_mem hkept
  · exact hkept

/-- A file that is to be tried again is tracked once the result is there. -/
theorem exists_mem_settle (herror : result.error ≠ "") (h : f ∈ result.files) :
    ∃ g ∈ settleRecordingFiles tracked snapshot result, g.key = f.key := by
  unfold settleRecordingFiles
  rw [if_pos herror]
  exact exists_mem_foldl_retry h

end Files

section Results

variable {results : FinalizeResults} {round : Nat} {source : String}
  {outcome : RecordingFinalizeResult}

theorem sourceFinalized_iff : sourceFinalized results source = true ↔
    ∃ round outcome, results.get round = some outcome ∧ outcome.sourceConnectionId = source ∧
      outcome.error = none := by
  unfold sourceFinalized
  rw [List.any_eq_true]
  constructor
  · rintro ⟨e, he, hboth⟩
    rw [Bool.and_eq_true, decide_eq_true_iff, Option.isNone_iff_eq_none] at hboth
    exact ⟨e.1, e.2, Table.get_eq_some_iff.mpr he, hboth.1, hboth.2⟩
  · rintro ⟨k, v, hget, hsource, hnone⟩
    refine ⟨⟨k, v⟩, Table.get_eq_some_iff.mp hget, ?_⟩
    rw [Bool.and_eq_true, decide_eq_true_iff, Option.isNone_iff_eq_none]
    exact ⟨hsource, hnone⟩

/-- A source is finalised behind a new result only if it was, or by that result. -/
theorem sourceFinalized_insert (h : sourceFinalized (results.insert round outcome) source = true) :
    sourceFinalized results source = true ∨
      (outcome.sourceConnectionId = source ∧ outcome.error = none) := by
  obtain ⟨k, v, hget, hsource, hnone⟩ := sourceFinalized_iff.mp h
  rw [Table.get_insert] at hget
  split_ifs at hget
  · cases hget
    exact .inr ⟨hsource, hnone⟩
  · exact .inl (sourceFinalized_iff.mpr ⟨k, v, hget, hsource, hnone⟩)

theorem sourceFinalized_invalidate {source' : String}
    (h : sourceFinalized (invalidateSource results source') source = true) :
    sourceFinalized results source = true ∧ source ≠ source' := by
  obtain ⟨k, v, hget, hsource, hnone⟩ := sourceFinalized_iff.mp h
  obtain ⟨hold, hne⟩ := Table.get_retain_eq_some_iff.mp hget
  refine ⟨sourceFinalized_iff.mpr ⟨k, v, hold, hsource, hnone⟩, ?_⟩
  rw [← hsource]
  exact of_decide_eq_true hne

end Results

end MDesk.RecordingHandover
