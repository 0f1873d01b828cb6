import MDesk.Recording.NoteFinalising

/-!
# The tracked files of the video threads

No video thread tracks a file before it has invalidated its source. So, as long as each source
belongs to one connection, a file that is tracked under a finalised source is no thread's any more,
and neither is a file of a snapshot.
-/

namespace MDesk.RecordingHandover

/-- What holds of the tracked files: a file that is tracked under a finalised source is no video
thread's any more. -/
structure Files (threads : Nat → VideoThread) (results : FinalizeResults)
    (files : List RecordingUploadFile) (opened : List String) : Prop where
  announced : ∀ t, (threads t).Announced
  invalidated : ∀ t path rest, (threads t).work = .register path true :: rest →
    sourceFinalized results (threads t).recordingSourceConnectionId = false
  paths : ∀ t, ∀ path ∈ (threads t).paths, path ∈ opened
  apart : ∀ t t' path, path ∈ (threads t).paths → path ∈ (threads t').paths → t = t'
  tracked : ∀ f ∈ files, f.path ∈ opened
  source : ∀ f ∈ files, ∀ t, f.path ∈ (threads t).paths →
    (threads t).recordingSourceConnectionId = f.sourceConnectionId
  finished : ∀ f ∈ files, sourceFinalized results f.sourceConnectionId = true →
    ∀ t, f.path ∉ (threads t).paths

/-- What holds of the calls: the files of a snapshot are no video thread's any more, and are tracked
until they are reported as saved. -/
structure Calls (threads : Nat → VideoThread) (calls : Nat → SaveCall)
    (files : List RecordingUploadFile) (opened : List String) (saved : List (String × String)) :
    Prop where
  handed : ∀ i, ∀ f ∈ (calls i).files, f.path ∈ opened ∧ ∀ t, f.path ∉ (threads t).paths
  kept : ∀ i, ∀ f ∈ (calls i).unsaved, (∃ g ∈ files, g.key = f.key) ∨ f.key ∈ saved

section Files

variable {threads threads' : Nat → VideoThread} {results results' : FinalizeResults}
  {files files' : List RecordingUploadFile} {opened : List String} {t : Nat} {o : VideoOutcome}
  {x : Work} {rest : List Work} {round : Nat} {source : String} {error : Option String}

/-- Video threads are sent messages. -/
theorem Files.push (h : Files threads results files opened)
    (hpush : ∀ t, threads' t = threads t ∨
      ∃ x, x.path? = none ∧ threads' t = (threads t).push x) :
    Files threads' results files opened := by
  have hpaths : ∀ t path, path ∈ (threads' t).paths ↔ path ∈ (threads t).paths := by
    intro t path
    rcases hpush t with hold | ⟨x, hx, hnew⟩
    · rw [hold]
    · rw [hnew, VideoThread.mem_paths_push hx]
  have hsource : ∀ t, (threads' t).recordingSourceConnectionId =
      (threads t).recordingSourceConnectionId := by
    intro t
    rcases hpush t with hold | ⟨x, -, hnew⟩
    · rw [hold]
    · rw [hnew]
      rfl
  refine ⟨?_, ?_, ?_, ?_, h.tracked, ?_, ?_⟩
  · intro t
    rcases hpush t with hold | ⟨x, hx, hnew⟩
    · rw [hold]
      exact h.announced t
    · rw [hnew]
      refine (h.announced t).push fun path heq => ?_
      rw [heq] at hx
      cases hx
  · intro t path rest hwork
    rw [hsource]
    rcases hpush t with hold | ⟨x, hx, hnew⟩
    · rw [hold] at hwork
      exact h.invalidated t path rest hwork
    · rw [hnew] at hwork
      unfold VideoThread.push at hwork
      dsimp only at hwork
      cases hold : (threads t).work with
      | nil =>
        rw [hold] at hwork
        obtain ⟨rfl, -⟩ := List.cons.inj hwork
        cases hx
      | cons y ys =>
        rw [hold] at hwork
        obtain ⟨rfl, -⟩ := List.cons.inj hwork
        exact h.invalidated t path ys hold
  · intro t path hpath
    exact h.paths t path ((hpaths t path).mp hpath)
  · intro t t' path hpath hpath'
    exact h.apart t t' path ((hpaths t path).mp hpath) ((hpaths t' path).mp hpath')
  · intro f hf t hpath
    rw [hsource]
    exact h.source f hf t ((hpaths t _).mp hpath)
  · intro f hf hfinal t hpath
    exact h.finished f hf hfinal t ((hpaths t _).mp hpath)

/-- A video thread begins. -/
theorem Files.newThread (h : Files threads results files opened) {th : VideoThread}
    (hwork : th.work = []) (hpaths : th.paths = []) :
    Files (Function.update threads t th) results files opened := by
  have hold : ∀ t' path, path ∈ (Function.update threads t th t').paths →
      t' ≠ t ∧ path ∈ (threads t').paths := by
    intro t' path hpath
    by_cases htt : t' = t
    · subst htt
      rw [Function.update_self, hpaths] at hpath
      cases hpath
    · rw [Function.update_of_ne htt] at hpath
      exact ⟨htt, hpath⟩
  refine ⟨?_, ?_, ?_, ?_, h.tracked, ?_, ?_⟩
  · intro t'
    by_cases htt : t' = t
    · subst htt
      rw [Function.update_self]
      intro y hy
      rw [hwork] at hy
      cases hy
    · rw [Function.update_of_ne htt]
      exact h.announced t'
  · intro t' path rest hrest
    by_cases htt : t' = t
    · subst htt
      rw [Function.update_self, hwork] at hrest
      cases hrest
    · rw [Function.update_of_ne htt] at hrest ⊢
      exact h.invalidated t' path rest hrest
  · intro t' path hpath
    exact h.paths t' path (hold t' path hpath).2
  · intro t₁ t₂ path h₁ h₂
    exact h.apart t₁ t₂ path (hold t₁ path h₁).2 (hold t₂ path h₂).2
  · intro f hf t' hpath
    obtain ⟨hne, hin⟩ := hold t' _ hpath
    rw [Function.update_of_ne hne]
    exact h.source f hf t' hin
  · intro f hf hfinal t' hpath
    exact h.finished f hf hfinal t' (hold t' _ hpath).2

/-- Results change without a source being finalised. -/
theorem Files.of_results (h : Files threads results files opened)
    (hresults : ∀ source, sourceFinalized results' source = true →
      sourceFinalized results source = true) : Files threads results' files opened := by
  refine { h with invalidated := ?_, finished := ?_ }
  · intro t path rest hwork
    have hnot := h.invalidated t path rest hwork
    by_contra hfinal
    rw [hresults _ (by simpa using hfinal)] at hnot
    cases hnot
  · intro f hf hfinal
    exact h.finished f hf (hresults _ hfinal)

theorem Files.fail (h : Files threads results files opened) {err : String} :
    Files threads (results.insert round ⟨source, some err⟩) files opened := by
  refine h.of_results fun source' hfinal => ?_
  rcases sourceFinalized_insert hfinal with hold | ⟨-, hnone⟩
  · exact hold
  · cases hnone

/-- A source is finalised when its video threads are quiet. -/
theorem Files.finalize (h : Files threads results files opened)
    (hquiet : ∀ t, (threads t).recordingSourceConnectionId = source → (threads t).Quiet) :
    Files threads (results.insert round ⟨source, none⟩) files opened := by
  refine { h with invalidated := ?_, finished := ?_ }
  · intro t path rest hwork
    by_contra hfinal
    rcases sourceFinalized_insert (by simpa using hfinal) with hold | ⟨hsource, -⟩
    · rw [h.invalidated t path rest hwork] at hold
      cases hold
    · rw [(hquiet t hsource.symm).work] at hwork
      cases hwork
  · intro f hf hfinal t hpath
    rcases sourceFinalized_insert hfinal with hold | ⟨hsource, -⟩
    · exact h.finished f hf hold t hpath
    · have hown := h.source f hf t hpath
      rw [(hquiet t (hown.trans hsource.symm)).paths] at hpath
      cases hpath

/-- Files come back that are no video thread's any more. -/
theorem Files.of_files (h : Files threads results files opened)
    (hfiles : ∀ f ∈ files', f ∈ files ∨ f.path ∈ opened ∧ ∀ t, f.path ∉ (threads t).paths) :
    Files threads results files' opened := by
  refine { h with tracked := ?_, source := ?_, finished := ?_ }
  · intro f hf
    rcases hfiles f hf with hold | ⟨hin, -⟩
    · exact h.tracked f hold
    · exact hin
  · intro f hf t hpath
    rcases hfiles f hf with hold | ⟨-, hout⟩
    · exact h.source f hold t hpath
    · exact absurd hpath (hout t)
  · intro f hf hfinal t
    rcases hfiles f hf with hold | ⟨-, hout⟩
    · exact h.finished f hold hfinal t
    · exact hout t

/-- What a video thread tracks or will track after its next piece of work. -/
theorem mem_paths_update_next {t' : Nat} {path : String}
    (hpath : path ∈ (Function.update threads t ((threads t).next o) t').paths) :
    path ∈ (threads t').paths ∨ t' = t ∧ path ∈ o.opened := by
  by_cases htt : t' = t
  · subst htt
    rw [Function.update_self] at hpath
    exact (VideoThread.mem_paths_next hpath).imp_right fun hnew => ⟨rfl, hnew⟩
  · rw [Function.update_of_ne htt] at hpath
    exact .inl hpath

/-- A video thread does its next piece of work. What it tracks is a file of its own, whose source is
not finalised; when it announces a file, it has invalidated the source. -/
theorem Files.work (h : Files threads results files opened) (hwork : (threads t).work = x :: rest)
    (hfresh : ∀ path ∈ o.opened, path ∉ opened)
    (hresults : ∀ source, sourceFinalized results' source = true →
      sourceFinalized results source = true)
    (hannounce : ∀ path, x = .register path false →
      sourceFinalized results' (threads t).recordingSourceConnectionId = false)
    (hfiles : ∀ f ∈ files', f ∈ files ∨ ∃ path, x = .register path true ∧ f.path = path ∧
      f.sourceConnectionId = (threads t).recordingSourceConnectionId) :
    Files (Function.update threads t ((threads t).next o)) results' files'
      (o.opened ++ opened) := by
  have hsource : ∀ t', (Function.update threads t ((threads t).next o)
      t').recordingSourceConnectionId = (threads t').recordingSourceConnectionId := by
    intro t'
    by_cases htt : t' = t
    · subst htt
      rw [Function.update_self, VideoThread.next_source]
    · rw [Function.update_of_ne htt]
  have hmine : ∀ path, x = .register path true → path ∈ (threads t).paths := by
    intro path hx
    refine VideoThread.mem_paths_iff.mpr (.inr ⟨x, ?_, ?_⟩)
    · rw [hwork]
      exact List.mem_cons_self
    · rw [hx]
      rfl
  have hold : ∀ path ∈ opened, ∀ t',
      path ∈ (Function.update threads t ((threads t).next o) t').paths →
        path ∈ (threads t').paths := by
    intro path hin t' hpath
    rcases mem_paths_update_next hpath with hthis | ⟨-, hnew⟩
    · exact hthis
    · exact absurd hin (hfresh path hnew)
  refine ⟨?_, ?_, ?_, ?_, ?_, ?_, ?_⟩
  · intro t'
    by_cases htt : t' = t
    · subst htt
      rw [Function.update_self]
      exact (h.announced t').next
    · rw [Function.update_of_ne htt]
      exact h.announced t'
  · intro t' path rest' hrest
    rw [hsource]
    by_cases htt : t' = t
    · subst htt
      rw [Function.update_self] at hrest
      have hbefore := (h.announced t').of_next hrest
      rw [hwork] at hbefore
      exact hannounce path (List.cons.inj hbefore).1
    · rw [Function.update_of_ne htt] at hrest
      have hnot := h.invalidated t' path rest' hrest
      by_contra hfinal
      rw [hresults _ (by simpa using hfinal)] at hnot
      cases hnot
  · intro t' path hpath
    rcases mem_paths_update_next hpath with hthis | ⟨-, hnew⟩
    · exact List.mem_append_right _ (h.paths t' path hthis)
    · exact List.mem_append_left _ hnew
  · intro t₁ t₂ path h₁ h₂
    rcases mem_paths_update_next h₁ with h₁' | ⟨rfl, hnew₁⟩
    · rcases mem_paths_update_next h₂ with h₂' | ⟨-, hnew₂⟩
      · exact h.apart t₁ t₂ path h₁' h₂'
      · exact absurd (h.paths t₁ path h₁') (hfresh path hnew₂)
    · rcases mem_paths_update_next h₂ with h₂' | ⟨rfl, -⟩
      · exact absurd (h.paths t₂ path h₂') (hfresh path hnew₁)
      · rfl
  · intro f hf
    apply List.mem_append_right
    rcases hfiles f hf with hthis | ⟨path, hx, rfl, -⟩
    · exact h.tracked f hthis
    · exact h.paths t _ (hmine _ hx)
  · intro f hf t' hpath
    rw [hsource]
    rcases hfiles f hf with hthis | ⟨path, hx, rfl, hsame⟩
    · exact h.source f hthis t' (hold _ (h.tracked f hthis) t' hpath)
    · have hin := hmine _ hx
      rw [hsame, h.apart t' t _ (hold _ (h.paths t _ hin) t' hpath) hin]
  · intro f hf hfinal t' hpath
    rcases hfiles f hf with hthis | ⟨path, hx, rfl, hsame⟩
    · exact h.finished f hthis (hresults _ hfinal) t' (hold _ (h.tracked f hthis) t' hpath)
    · have hnot := h.invalidated t f.path rest (hx ▸ hwork)
      rw [← hsame, hresults _ hfinal] at hnot
      cases hnot

end Files

section Calls

variable {threads threads' : Nat → VideoThread} {calls : Nat → SaveCall}
  {files files' snapshot : List RecordingUploadFile} {opened : List String}
  {saved : List (String × String)} {i : Nat} {call : SaveCall} {message : String}

theorem SaveCall.mem_files_of_unsaved {f : RecordingUploadFile} (h : f ∈ call.unsaved) :
    f ∈ call.files := by
  cases call with
  | saving files => exact h
  | settled files message =>
    unfold SaveCall.unsaved at h
    dsimp only at h
    split_ifs at h
    · cases h
    · exact h
  | _ => cases h

/-- A call goes on without a snapshot. -/
theorem Calls.setCall (h : Calls threads calls files opened saved) (hfiles : call.files = []) :
    Calls threads (Function.update calls i call) files opened saved := by
  have hnone : ∀ f, f ∉ call.unsaved := by
    intro f hf
    have hin := SaveCall.mem_files_of_unsaved hf
    rw [hfiles] at hin
    cases hin
  refine ⟨?_, ?_⟩
  · intro j f hf
    by_cases hji : j = i
    · subst hji
      rw [Function.update_self, hfiles] at hf
      cases hf
    · rw [Function.update_of_ne hji] at hf
      exact h.handed j f hf
  · intro j f hf
    by_cases hji : j = i
    · subst hji
      rw [Function.update_self] at hf
      exact absurd hf (hnone f)
    · rw [Function.update_of_ne hji] at hf
      exact h.kept j f hf

/-- Video threads that are about no other files, but for some that are opened. -/
theorem Calls.of_threads (h : Calls threads calls files opened saved) (new : List String)
    (hnew : ∀ path ∈ new, path ∉ opened)
    (hpaths : ∀ t, ∀ path ∈ (threads' t).paths, path ∈ (threads t).paths ∨ path ∈ new)
    (hfiles : ∀ g ∈ files, g ∈ files' ∨ ∃ t, g.path ∈ (threads t).paths) :
    Calls threads' calls files' (new ++ opened) saved := by
  refine ⟨?_, ?_⟩
  · intro i f hf
    obtain ⟨hin, hout⟩ := h.handed i f hf
    refine ⟨List.mem_append_right _ hin, fun t hpath => ?_⟩
    rcases hpaths t _ hpath with hold | hfresh
    · exact hout t hold
    · exact hnew _ hfresh hin
  · intro i f hf
    rcases h.kept i f hf with ⟨g, hg, hkey⟩ | hsaved
    · left
      rcases hfiles g hg with hstays | ⟨t, hpath⟩
      · exact ⟨g, hstays, hkey⟩
      · have hout := (h.handed i f (SaveCall.mem_files_of_unsaved hf)).2 t
        rw [← (Prod.mk.inj hkey).1] at hout
        exact absurd hpath hout
    · exact .inr hsaved

/-- A call takes its snapshot when all sources are finalised. -/
theorem Calls.take (h : Calls threads calls files opened saved) {results : FinalizeResults}
    (hfiles : Files threads results files opened)
    (hfinal : ∀ f ∈ files, sourceFinalized results f.sourceConnectionId = true) :
    Calls threads (Function.update calls i (.saving files)) files opened saved := by
  refine ⟨?_, ?_⟩
  · intro j f hf
    by_cases hji : j = i
    · subst hji
      rw [Function.update_self] at hf
      exact ⟨hfiles.tracked f hf, hfiles.finished f hf (hfinal f hf)⟩
    · rw [Function.update_of_ne hji] at hf
      exact h.handed j f hf
  · intro j f hf
    by_cases hji : j = i
    · subst hji
      rw [Function.update_self] at hf
      exact .inl ⟨f, hf, rfl⟩
    · rw [Function.update_of_ne hji] at hf
      exact h.kept j f hf

/-- The result for a snapshot is there: the files that are not saved are tracked again, also those
of other calls. -/
theorem Calls.finish (h : Calls threads calls files opened saved) (hi : calls i = .saving snapshot)
    {result : RecordingNoteSaveResult} (hresult : result.files = snapshot) :
    Calls threads (Function.update calls i (.settled snapshot result.error))
      (settleRecordingFiles files snapshot result) opened
      (if result.error = "" then snapshot.map (·.key) ++ saved else saved) := by
  have hsettle : ∀ f : RecordingUploadFile, (∃ g ∈ files, g.key = f.key) →
      (∃ g ∈ settleRecordingFiles files snapshot result, g.key = f.key) ∨
        f.key ∈ (if result.error = "" then snapshot.map (·.key) ++ saved else saved) := by
    rintro f ⟨g, hg, hkey⟩
    by_cases hin : ∃ f' ∈ snapshot, f'.key = g.key
    · obtain ⟨f', hf', hkey'⟩ := hin
      by_cases herror : result.error = ""
      · right
        rw [if_pos herror, ← hkey, ← hkey']
        exact List.mem_append_left _ (List.mem_map_of_mem hf')
      · left
        obtain ⟨g', hg', hsame⟩ : ∃ g' ∈ settleRecordingFiles files snapshot result,
            g'.key = f'.key := exists_mem_settle herror (hresult ▸ hf')
        exact ⟨g', hg', hsame.trans (hkey'.trans hkey)⟩
    · left
      refine ⟨g, mem_settle_of_mem hg fun f' hf' heq => hin ⟨f', hf', heq⟩, hkey⟩
  have hkeep : ∀ key, key ∈ saved →
      key ∈ (if result.error = "" then snapshot.map (·.key) ++ saved else saved) := by
    intro key hsaved
    split_ifs
    · exact List.mem_append_right _ hsaved
    · exact hsaved
  refine ⟨?_, ?_⟩
  · intro j f hf
    by_cases hji : j = i
    · subst hji
      rw [Function.update_self] at hf
      refine h.handed j f ?_
      rw [hi]
      exact hf
    · rw [Function.update_of_ne hji] at hf
      exact h.handed j f hf
  · intro j f hf
    have hbefore : f ∈ (calls j).unsaved := by
      by_cases hji : j = i
      · subst hji
        rw [Function.update_self] at hf
        rw [hi]
        exact SaveCall.mem_files_of_unsaved hf
      · rwa [Function.update_of_ne hji] at hf
    rcases h.kept j f hbefore with htracked | hsaved
    · exact hsettle f htracked
    · exact .inr (hkeep _ hsaved)

/-- The result for a snapshot does not come in time. -/
theorem Calls.expire (h : Calls threads calls files opened saved)
    (hi : calls i = .saving snapshot) :
    Calls threads (Function.update calls i (.settled snapshot message)) files opened saved := by
  have hfiles : ∀ j f, f ∈ (Function.update calls i (.settled snapshot message) j).files →
      f ∈ (calls j).files := by
    intro j f hf
    by_cases hji : j = i
    · subst hji
      rw [Function.update_self] at hf
      rw [hi]
      exact hf
    · rwa [Function.update_of_ne hji] at hf
  refine ⟨fun j f hf => h.handed j f (hfiles j f hf), fun j f hf => ?_⟩
  by_cases hji : j = i
  · subst hji
    refine h.kept j f ?_
    rw [hi]
    rw [Function.update_self] at hf
    exact SaveCall.mem_files_of_unsaved hf
  · rw [Function.update_of_ne hji] at hf
    exact h.kept j f hf

end Calls

end MDesk.RecordingHandover
