import MDesk.Core.Run
import MDesk.Recording.NoteTracked

/-!
# When only finished recordings are handed over

The acknowledgements that finalise a source find its video threads quiet, so the files of a source
that is finalised are no thread's any more: each event that fits keeps this, and a snapshot hands
over nothing else.
-/

namespace MDesk.RecordingHandover

open Core

namespace NoteSession

/-- What holds of a session as long as its events fit. -/
structure Inv (s : NoteSession) : Prop where
  finalising : Finalising s.remotes s.remoteCount s.threads s.threadCount s.waiting s.batchCount
    s.trackers s.owners
  files : Files s.threads s.finalizeResults s.recordingFiles s.opened
  calls : Calls s.threads s.calls s.recordingFiles s.opened s.saved

variable {s : NoteSession} {a i t batch round : Nat} {source : String} {o : VideoOutcome}
  {phase : RemotePhase} {call : SaveCall} {x : Work} {error : Option String}

theorem Inv.setPhase (h : Inv s) (hborn : (s.remotes a).phase ≠ .absent)
    (hphase : ∀ b c, phase ≠ .finalizing b c)
    (hended : (s.remotes a).phase.ended = true → phase.ended = true) : Inv (s.setPhase a phase) :=
  ⟨h.finalising.setPhase hborn hphase hended, h.files, h.calls⟩

theorem Inv.setCall (h : Inv s) (hfiles : call.files = []) : Inv (s.setCall i call) :=
  ⟨h.finalising, h.files, h.calls.setCall hfiles⟩

theorem Inv.of_results (h : Inv s) {results : FinalizeResults}
    (hresults : ∀ source, sourceFinalized results source = true →
      sourceFinalized s.finalizeResults source = true) :
    Inv { s with finalizeResults := results } :=
  ⟨h.finalising, h.files.of_results hresults, h.calls⟩

/-- The video threads that record under a source that is finalised are quiet. -/
theorem Inv.quiet (h : Inv s) (hsource : source ≠ "" → s.owners source = some a)
    (hsettle : Settling s.threads s.waiting a batch) (hnone : s.waiting batch = [])
    (ht : (s.threads t).recordingSourceConnectionId = source) : (s.threads t).Quiet := by
  rcases h.finalising.remote_of_source hsource ht with hnew | hremote
  · rw [hnew]
    exact ⟨rfl, rfl⟩
  · exact hsettle.quiet hnone hremote

/-- A connection whose loop runs sends its video threads a message. -/
theorem Inv.push (h : Inv s) (hrunning : (s.remotes a).phase = .running)
    (hpath : x.path? = none) (hbatch : x.batch? = none) {threads : Nat → VideoThread}
    (hpush : ∀ t, threads t = s.threads t ∨
      ((s.threads t).remote = some a ∧ threads t = (s.threads t).push x)) :
    Inv { s with threads := threads } := by
  refine ⟨?_, ?_, ?_⟩
  · refine h.finalising.push (x := x) hrunning (fun b hb => ?_) hpush
    rw [hbatch] at hb
    cases hb
  · exact h.files.push fun t => (hpush t).imp_right fun hnew => ⟨x, hpath, hnew.2⟩
  · refine h.calls.of_threads [] (fun _ hnil => by cases hnil) ?_ fun g hg => .inl hg
    intro t path hin
    change path ∈ (threads t).paths at hin
    rcases hpush t with hold | ⟨-, hnew⟩
    · rw [hold] at hin
      exact .inl hin
    · rw [hnew, VideoThread.mem_paths_push hpath] at hin
      exact .inl hin

theorem Inv.pushAll (h : Inv s) (hrunning : (s.remotes a).phase = .running)
    (hpath : x.path? = none) (hbatch : x.batch? = none) : Inv (s.pushAll a x) := by
  refine h.push hrunning hpath hbatch fun t => ?_
  by_cases ht : (s.threads t).remote = some a
  · exact .inr ⟨ht, if_pos ht⟩
  · exact .inl (if_neg ht)

theorem Inv.login (h : Inv s) (hrunning : (s.remotes a).phase = .running)
    (hfits : Fits s (.login a)) : Inv (s.login a) := by
  unfold NoteSession.login
  by_cases hempty : (s.remotes a).recordingSourceConnectionId = "" ∨
      (s.remotes a).recordingConnectionTicket = ""
  · simp only [if_pos hempty]
    refine ⟨h.finalising.login ?_ (hfits hrunning hempty), h.files, h.calls⟩
    rw [hrunning]
    exact fun heq => by cases heq
  · simp only [if_neg hempty]
    exact h

theorem Inv.newVideoThread (h : Inv s) (hrunning : (s.remotes a).phase = .running)
    (hfits : Fits s (.newVideoThread a)) : Inv (s.newVideoThread a) := by
  have hold : ∀ t, t ≠ s.threadCount →
      (s.newVideoThread a).threads t = s.threads t := fun t ht => Function.update_of_ne ht _ _
  have hnew : (s.newVideoThread a).threads s.threadCount =
      { remote := some a
        recordingSourceConnectionId := (s.remotes a).recordingSourceConnectionId
        recordingConnectionTicket := (s.remotes a).recordingConnectionTicket } :=
    Function.update_self _ _ _
  have hunborn : s.threads s.threadCount = {} := by
    rcases h.finalising.sourced s.threadCount with hempty | ⟨_, _, hlt, _⟩
    · exact hempty
    · exact absurd hlt (Nat.lt_irrefl _)
  refine ⟨?_, h.files.newThread rfl rfl, ?_⟩
  · refine h.finalising.of_running hrunning ?_ ?_ ?_
    · intro t ht
      by_cases htn : t = s.threadCount
      · rw [htn, hnew] at ht
        exact absurd rfl ht
      · exact hold t htn
    · intro t
      by_cases htn : t = s.threadCount
      · rw [htn, hnew]
        exact .inr ⟨a, rfl, Nat.lt_succ_self _, hfits hrunning,
          h.finalising.taken a (hfits hrunning)⟩
      · rw [hold t htn]
        exact (h.finalising.sourced t).imp_right fun ⟨b, hb, hlt, hrest⟩ =>
          ⟨b, hb, Nat.lt_succ_of_lt hlt, hrest⟩
    · intro t y hy b hb
      by_cases htn : t = s.threadCount
      · rw [htn, hnew] at hy
        cases hy
      · rw [hold t htn] at hy
        exact h.finalising.batches t y hy b hb
  · refine h.calls.of_threads [] (fun _ hnil => by cases hnil) ?_ fun g hg => .inl hg
    intro t path hin
    by_cases htn : t = s.threadCount
    · rw [htn, hnew] at hin
      cases hin
    · rw [hold t htn] at hin
      exact .inl hin

theorem Inv.beginFinalize {caller : Option Nat} (h : Inv s)
    (hrunning : (s.remotes a).phase = .running) : Inv (s.beginFinalize a caller) := by
  have hpush : ∀ t, (s.beginFinalize a caller).threads t = s.threads t ∨
      ((s.threads t).remote = some a ∧ (s.beginFinalize a caller).threads t =
        (s.threads t).push (.finalizeRecording s.batchCount)) := by
    intro t
    by_cases ht : (s.threads t).remote = some a
    · exact .inr ⟨ht, if_pos ht⟩
    · exact .inl (if_neg ht)
  refine ⟨?_, ?_, ?_⟩
  · refine h.finalising.begin hrunning ?_ (fun t ht => if_pos ht) fun t ht => if_neg ht
    intro t ht
    refine List.mem_filter.mpr ⟨List.mem_range.mpr (h.finalising.lt_of_remote ht), ?_⟩
    exact decide_eq_true ht
  · exact h.files.push fun t => (hpush t).imp_right fun hnew => ⟨_, rfl, hnew.2⟩
  · refine h.calls.of_threads [] (fun _ hnil => by cases hnil) ?_ fun g hg => .inl hg
    intro t path hin
    rcases hpush t with hold | ⟨-, hnew⟩
    · rw [hold] at hin
      exact .inl hin
    · rw [hnew, VideoThread.mem_paths_push rfl] at hin
      exact .inl hin

theorem Inv.requestFinalize (h : Inv s) (hrunning : (s.remotes a).phase = .running) :
    Inv (s.requestFinalize a i) := by
  unfold NoteSession.requestFinalize
  split
  · split_ifs
    · exact h.setCall rfl
    · exact h.beginFinalize hrunning
  · exact h

/-- The phase behind a finalisation. -/
theorem afterFinalize_ne {caller : Option Nat} (b : Nat) (c : Option Nat) :
    afterFinalize caller error ≠ .finalizing b c := by
  cases caller <;> exact fun heq => by cases heq

theorem Inv.setFinalizeResult (h : Inv s)
    (hquiet : error = none → ∀ t, (s.threads t).recordingSourceConnectionId = source →
      (s.threads t).Quiet) : Inv (s.setFinalizeResult round source error) := by
  cases error with
  | none => exact ⟨h.finalising, h.files.finalize (hquiet rfl), h.calls⟩
  | some err => exact ⟨h.finalising, h.files.fail, h.calls⟩

theorem Inv.finalized (h : Inv s) : Inv (s.finalized a) := by
  unfold NoteSession.finalized
  cases hphase : (s.remotes a).phase with
  | finalizing batch caller =>
    dsimp only
    by_cases hnone : s.waiting batch = []
    · rw [if_pos hnone]
      obtain ⟨-, hsettle⟩ := h.finalising.finalizing a batch caller hphase
      refine (h.setFinalizeResult fun _ t ht => ?_).setPhase ?_ afterFinalize_ne ?_
      · exact h.quiet (h.finalising.taken a) hsettle hnone ht
      · show (s.remotes a).phase ≠ _
        rw [hphase]
        exact fun heq => by cases heq
      · show (s.remotes a).phase.ended = true → _
        rw [hphase]
        exact fun heq => by cases heq
    · rw [if_neg hnone]
      exact h
  | _ => exact h

theorem Inv.giveUp {timedOut : Bool} (h : Inv s) : Inv (s.giveUp a timedOut) := by
  unfold NoteSession.giveUp
  cases hphase : (s.remotes a).phase with
  | finalizing batch caller =>
    dsimp only
    by_cases hnone : s.threadsOf a = []
    · rw [if_pos hnone]
      exact h
    · rw [if_neg hnone]
      obtain ⟨hlt, hsettle⟩ := h.finalising.finalizing a batch caller hphase
      have hnext : ∀ err, Inv ((s.setFinalizeResult (s.remotes a).connectionRound
          (s.remotes a).recordingSourceConnectionId (some err)).setPhase a
            (afterFinalize caller (some err))) := by
        intro err
        refine (h.setFinalizeResult fun heq => by cases heq).setPhase ?_ afterFinalize_ne ?_
        · show (s.remotes a).phase ≠ _
          rw [hphase]
          exact fun heq => by cases heq
        · show (s.remotes a).phase.ended = true → _
          rw [hphase]
          exact fun heq => by cases heq
      by_cases hlate : (timedOut && caller.isNone) = true
      · simp only [if_pos hlate]
        rw [Bool.and_eq_true, Option.isNone_iff_eq_none] at hlate
        obtain ⟨-, rfl⟩ := hlate
        have hthis := hnext (finalizeError timedOut)
        refine ⟨hthis.finalising.track ?_ hlt hsettle (h.finalising.taken a), hthis.files,
          hthis.calls⟩
        show (Function.update s.remotes a _ a).phase.ended = true
        rw [Function.update_self]
        rfl
      · simp only [if_neg hlate]
        exact hnext (finalizeError timedOut)
  | _ => exact h

theorem Inv.reply (h : Inv s) : Inv (s.reply a) := by
  unfold NoteSession.reply
  cases hphase : (s.remotes a).phase with
  | replying i error =>
    have hrunning : Inv (s.setPhase a .running) := by
      refine h.setPhase ?_ (fun b c heq => by cases heq) ?_
      · rw [hphase]
        exact fun heq => by cases heq
      · rw [hphase]
        exact fun heq => by cases heq
    dsimp only
    split
    · exact hrunning.setCall rfl
    · exact hrunning.setCall rfl
    · exact hrunning
  | _ => exact h

theorem Inv.lateAcks (h : Inv s) : Inv (s.lateAcks batch) := by
  unfold NoteSession.lateAcks
  cases htracker : s.trackers batch with
  | none => exact h
  | some tracker =>
    dsimp only
    by_cases hnone : s.waiting batch = []
    · rw [if_pos hnone]
      obtain ⟨-, -, howner, hsettle⟩ := h.finalising.late batch tracker htracker
      have hset : Inv (s.setFinalizeResult tracker.round tracker.sourceConnectionId none) :=
        h.setFinalizeResult fun _ t ht => h.quiet howner hsettle hnone ht
      exact ⟨hset.finalising.untrack, hset.files, hset.calls⟩
    · rw [if_neg hnone]
      exact h

/-- A piece of work that changes nothing but its video thread. -/
theorem Inv.passOn (h : Inv s) {x : Work} {rest : List Work} (hfits : Fits s (.work t o))
    (hwork : (s.threads t).work = x :: rest) (hack : ∀ b, x ≠ .acknowledge b)
    (hregister : ∀ path, x ≠ .register path false) :
    Inv { s with
      threads := Function.update s.threads t ((s.threads t).next o)
      opened := o.opened ++ s.opened } := by
  refine ⟨h.finalising.work hwork fun b t' => ?_, ?_, ?_⟩
  · exact (and_iff_left fun hc => hack b hc.1).symm
  · exact h.files.work hwork hfits (fun _ hfinal => hfinal)
      (fun path heq => absurd heq (hregister path)) fun f hf => .inl hf
  · refine h.calls.of_threads o.opened hfits ?_ fun g hg => .inl hg
    intro t' path hpath
    exact (mem_paths_update_next hpath).imp_right And.right

/-- A video thread does its next piece of work. -/
theorem Inv.workOn (h : Inv s) (hfits : Fits s (.work t o)) : Inv (s.workOn t o) := by
  unfold NoteSession.workOn
  cases hwork : (s.threads t).work with
  | nil => exact h
  | cons x rest =>
    have hmine : ∀ path, x.path? = some path → path ∈ (s.threads t).paths := by
      intro path hx
      refine VideoThread.mem_paths_iff.mpr (.inr ⟨x, ?_, hx⟩)
      rw [hwork]
      exact List.mem_cons_self
    have hpaths : ∀ t', ∀ path ∈ (Function.update s.threads t ((s.threads t).next o) t').paths,
        path ∈ (s.threads t').paths ∨ path ∈ o.opened := by
      intro t' path hpath
      exact (mem_paths_update_next hpath).imp_right And.right
    have hplain : ∀ x', x = x' → (∀ b, x' ≠ .acknowledge b) → Finalising s.remotes s.remoteCount
        (Function.update s.threads t ((s.threads t).next o)) s.threadCount s.waiting s.batchCount
          s.trackers s.owners := by
      rintro _ rfl hx
      exact h.finalising.work hwork fun b t' => (and_iff_left fun hc => hx b hc.1).symm
    cases x with
    | acknowledge batch =>
      refine ⟨h.finalising.work hwork fun b t' => ?_, ?_, ?_⟩
      · show t' ∈ Function.update s.waiting batch _ b ↔ _
        by_cases hb : b = batch
        · subst hb
          rw [Function.update_self, List.mem_filter]
          simp
        · rw [Function.update_of_ne hb]
          refine (and_iff_left fun hc => ?_).symm
          cases hc.1
          exact hb rfl
      · exact h.files.work hwork hfits (fun _ hfinal => hfinal) (fun _ heq => by cases heq)
          fun f hf => .inl hf
      · exact h.calls.of_threads o.opened hfits hpaths fun g hg => .inl hg
    | untrack path =>
      refine ⟨hplain _ rfl (fun b heq => by cases heq), ?_, ?_⟩
      · exact h.files.work hwork hfits (fun _ hfinal => hfinal) (fun _ heq => by cases heq)
          fun f hf => .inl (mem_untrack.mp hf).1
      · refine h.calls.of_threads o.opened hfits hpaths fun g hg => ?_
        by_cases hkey : g.key = (path, (s.threads t).recordingSourceConnectionId)
        · refine .inr ⟨t, ?_⟩
          rw [show g.path = path from (Prod.mk.inj hkey).1]
          exact hmine path rfl
        · exact .inl (mem_untrack.mpr ⟨hg, hkey⟩)
    | register path invalidated =>
      cases invalidated with
      | false =>
        refine ⟨hplain _ rfl (fun b heq => by cases heq), ?_, ?_⟩
        · refine h.files.work hwork hfits
            (fun source hfinal => (sourceFinalized_invalidate hfinal).1) ?_ fun f hf => .inl hf
          intro path' _
          by_contra hfinal
          rw [Bool.not_eq_false] at hfinal
          exact (sourceFinalized_invalidate hfinal).2 rfl
        · exact h.calls.of_threads o.opened hfits hpaths fun g hg => .inl hg
      | true =>
        refine ⟨hplain _ rfl (fun b heq => by cases heq), ?_, ?_⟩
        · refine h.files.work hwork hfits (fun _ hfinal => hfinal) (fun _ heq => by cases heq) ?_
          intro f hf
          exact (mem_track hf).imp_right fun ⟨hpath, hsource⟩ => ⟨path, rfl, hpath, hsource⟩
        · exact h.calls.of_threads o.opened hfits hpaths fun g hg => .inl (mem_track_of_mem hg)
    | frame =>
      exact h.passOn hfits hwork (fun b heq => by cases heq) fun path heq => by cases heq
    | recordScreen start =>
      exact h.passOn hfits hwork (fun b heq => by cases heq) fun path heq => by cases heq
    | finalizeRecording batch =>
      exact h.passOn hfits hwork (fun b heq => by cases heq) fun path heq => by cases heq

theorem Inv.saveNote (h : Inv s) : Inv (s.saveNote i) := by
  unfold NoteSession.saveNote
  dsimp only
  split_ifs
  · split
    · exact h.setCall rfl
    · exact h.setCall rfl
    · exact h.setCall rfl
  · exact h.setCall rfl

theorem Inv.poll {closed expired : Bool} (h : Inv s) :
    Inv (s.poll i round source closed expired) := by
  have hgiveUp : Inv (if closed then
      s.setCall i (.refused ("녹화 파일 마감 채널이 종료되었습니다." ++ localKept))
    else if expired then s.setCall i (.refused ("녹화 파일 마감을 확인하지 못했습니다." ++ localKept))
    else s) := by
    split_ifs
    · exact h.setCall rfl
    · exact h.setCall rfl
    · exact h
  unfold NoteSession.poll
  dsimp only
  by_cases hover : s.connectionRoundState.state = .disconnected ∧
      s.connectionRoundState.round = round
  · rw [if_pos hover]
    split
    · exact h.setCall rfl
    · exact h.setCall rfl
    · exact hgiveUp
  · rw [if_neg hover]
    by_cases hchanged : (!closed) = true ∧ s.connectionRoundState.round ≠ round
    · rw [if_pos hchanged]
      exact h.setCall rfl
    · rw [if_neg hchanged]
      exact hgiveUp

theorem Inv.snapshot (h : Inv s) : Inv (s.snapshot i round source) := by
  unfold NoteSession.snapshot
  by_cases hround : s.connectionRoundState.round ≠ round
  · rw [if_pos hround]
    exact h.setCall rfl
  · rw [if_neg hround]
    by_cases hsource : s.auditSourceConnectionId ≠ source
    · rw [if_pos hsource]
      exact h.setCall rfl
    · rw [if_neg hsource]
      by_cases hopen : (s.recordingFiles.any fun f =>
          !sourceFinalized s.finalizeResults f.sourceConnectionId) = true
      · rw [if_pos hopen]
        exact h.setCall rfl
      · rw [if_neg hopen]
        refine ⟨h.finalising, h.files, h.calls.take h.files fun f hf => ?_⟩
        by_contra hnot
        exact hopen (List.any_eq_true.mpr ⟨f, hf, by simpa using hnot⟩)

theorem Inv.finish {files : List RecordingUploadFile} {result : RecordingNoteSaveResult}
    (h : Inv s) (hi : s.calls i = .saving files) (hresult : result.files = files) :
    Inv (s.finish i files result) := by
  refine ⟨h.finalising, h.files.of_files fun f hf => ?_, h.calls.finish hi hresult⟩
  refine (mem_settle hf).imp_right fun hin => h.calls.handed i f ?_
  rw [hi]
  exact hresult ▸ hin

/-- What one event that fits does to the session. -/
theorem Inv.step {e : NoteEvent} (h : Inv s) (hfits : Fits s e) : Inv (s.step e) := by
  cases e with
  | beginRound => exact ⟨h.finalising.beginRound, h.files, h.calls⟩
  | rotate a sourceConnectionId =>
    by_cases hphase : (s.remotes a).phase = .drawn
    · rw [NoteSession.step, if_pos hphase]
      have hset : Inv (s.setPhase a .rotated) := by
        refine h.setPhase ?_ (fun b c heq => by cases heq) ?_
        · rw [hphase]
          exact fun heq => by cases heq
        · rw [hphase]
          exact fun heq => by cases heq
      exact ⟨hset.finalising, hset.files, hset.calls⟩
    · rw [NoteSession.step, if_neg hphase]
      exact h
  | start a =>
    by_cases hphase : (s.remotes a).phase = .drawn ∨ (s.remotes a).phase = .rotated
    · rw [NoteSession.step, if_pos hphase]
      refine h.setPhase ?_ (fun b c heq => by cases heq) ?_
      · rcases hphase with hphase | hphase <;> rw [hphase] <;> exact fun heq => by cases heq
      · rcases hphase with hphase | hphase <;> rw [hphase] <;> exact fun heq => by cases heq
    · rw [NoteSession.step, if_neg hphase]
      exact h
  | connect a =>
    rw [NoteSession.step]
    split_ifs
    · exact ⟨h.finalising, h.files, h.calls⟩
    · exact h
  | ticket ticket =>
    rw [NoteSession.step]
    split_ifs
    · exact ⟨h.finalising, h.files, h.calls⟩
    · exact h
  | login a =>
    by_cases hphase : (s.remotes a).phase = .running
    · rw [NoteSession.step, if_pos hphase]
      exact h.login hphase hfits
    · rw [NoteSession.step, if_neg hphase]
      exact h
  | newVideoThread a =>
    by_cases hphase : (s.remotes a).phase = .running
    · rw [NoteSession.step, if_pos hphase]
      exact h.newVideoThread hphase hfits
    · rw [NoteSession.step, if_neg hphase]
      exact h
  | videoFrame t =>
    cases hremote : (s.threads t).remote with
    | none =>
      simp only [NoteSession.step, hremote]
      exact h
    | some a =>
      by_cases hphase : (s.remotes a).phase = .running
      · simp only [NoteSession.step, hremote, if_pos hphase]
        refine h.push hphase (x := .frame) rfl rfl fun t' => ?_
        by_cases htt : t' = t
        · subst htt
          exact .inr ⟨hremote, Function.update_self _ _ _⟩
        · exact .inl (Function.update_of_ne htt _ _)
      · simp only [NoteSession.step, hremote, if_neg hphase]
        exact h
  | recordScreen a start =>
    rw [NoteSession.step]
    split_ifs
    · exact h.of_results fun _ hfinal => (sourceFinalized_invalidate hfinal).1
    · exact h
  | updateRecordState a start =>
    by_cases hphase : (s.remotes a).phase = .running
    · rw [NoteSession.step, if_pos hphase]
      exact h.pushAll hphase rfl rfl
    · rw [NoteSession.step, if_neg hphase]
      exact h
  | finalizeRecording a i =>
    by_cases hphase : (s.remotes a).phase = .running
    · rw [NoteSession.step, if_pos hphase]
      exact h.requestFinalize hphase
    · rw [NoteSession.step, if_neg hphase]
      exact h
  | leave a =>
    by_cases hphase : (s.remotes a).phase = .running
    · rw [NoteSession.step, if_pos hphase]
      exact h.beginFinalize hphase
    · rw [NoteSession.step, if_neg hphase]
      exact h
  | finalized a => exact h.finalized
  | giveUp a timedOut => exact h.giveUp
  | reply a => exact h.reply
  | disconnect a =>
    by_cases hphase : (s.remotes a).phase = .ending
    · rw [NoteSession.step, if_pos hphase]
      have hset : Inv (s.setPhase a .over) := by
        refine h.setPhase ?_ (fun b c heq => by cases heq) fun _ => rfl
        rw [hphase]
        exact fun heq => by cases heq
      exact ⟨hset.finalising, hset.files, hset.calls⟩
    · rw [NoteSession.step, if_neg hphase]
      exact h
  | lateAcks batch => exact h.lateAcks
  | work t o => exact h.workOn hfits
  | saveNote i =>
    cases hi : s.calls i with
    | idle =>
      simp only [NoteSession.step, hi]
      exact h.saveNote
    | _ =>
      simp only [NoteSession.step, hi]
      exact h
  | poll i closed expired =>
    cases hi : s.calls i with
    | waiting round source =>
      simp only [NoteSession.step, hi]
      exact h.poll
    | _ =>
      simp only [NoteSession.step, hi]
      exact h
  | snapshot i =>
    cases hi : s.calls i with
    | ready round source =>
      simp only [NoteSession.step, hi]
      exact h.snapshot
    | _ =>
      simp only [NoteSession.step, hi]
      exact h
  | finish i korean errorsOf =>
    cases hi : s.calls i with
    | saving files =>
      simp only [NoteSession.step, hi]
      exact h.finish hi saveRecordingNotes_files
    | _ =>
      simp only [NoteSession.step, hi]
      exact h
  | expire i =>
    cases hi : s.calls i with
    | saving files =>
      simp only [NoteSession.step, hi]
      exact ⟨h.finalising, h.files, h.calls.expire hi⟩
    | _ =>
      simp only [NoteSession.step, hi]
      exact h

theorem Inv.begin : Inv { auditSourceConnectionId := source } := by
  refine ⟨⟨fun _ _ => rfl, fun _ => .inl rfl, ?_, ?_, ?_, ?_⟩, ⟨?_, ?_, ?_, ?_, ?_, ?_, ?_⟩, ?_, ?_⟩
  · exact fun a ha => absurd rfl ha
  · exact fun t x hx => by cases hx
  · exact fun a b c ha => by cases ha
  · exact fun b tracker hb => by cases hb
  · exact fun t x hx => by cases hx
  · exact fun t path rest hwork => by cases hwork
  · exact fun t path hpath => by cases hpath
  · exact fun t t' path hpath => by cases hpath
  · exact fun f hf => by cases hf
  · exact fun f hf => by cases hf
  · exact fun f hf => by cases hf
  · exact fun i f hf => by cases hf
  · exact fun i f hf => by cases hf

/-- In a run whose events fit, the recorder of each file of a snapshot has been dropped, and a file
of a snapshot that no call has reported as saved is tracked. -/
theorem handed_over_of_fits {es : List NoteEvent}
    (h : Allowed NoteSession.step Fits { auditSourceConnectionId := source } es) :
    (∀ i, ∀ f ∈ ((run NoteSession.step { auditSourceConnectionId := source } es).calls i).files,
      (run NoteSession.step { auditSourceConnectionId := source } es).Dropped f.path) ∧
    ∀ i, ∀ f ∈ ((run NoteSession.step { auditSourceConnectionId := source } es).calls i).unsaved,
      (run NoteSession.step { auditSourceConnectionId := source } es).Tracked f ∨
        f.key ∈ (run NoteSession.step { auditSourceConnectionId := source } es).saved := by
  have hinv : Inv (run NoteSession.step { auditSourceConnectionId := source } es) :=
    run_keeps (fun s e hs he => hs.step he) Inv.begin h
  refine ⟨fun i f hf t hpath => ?_, hinv.calls.kept⟩
  exact (hinv.calls.handed i f hf).2 t (VideoThread.mem_paths_iff.mpr (.inl hpath))

/-- A note is saved for one recording of a connection that is still there. -/
theorem handed_over_connected :
    (run NoteSession.step { auditSourceConnectionId := "one" } [.beginRound, .start 0,
      .connect 0, .login 0, .newVideoThread 0, .videoFrame 0,
      .work 0 { autoRecord := true, created := true, opened := ["a.webm"], written := true },
      .work 0 {}, .work 0 {}, .saveNote 0, .finalizeRecording 0 0, .work 0 {}, .work 0 {},
      .finalized 0, .reply 0, .snapshot 0]).Dropped "a.webm" := by
  refine (handed_over_of_fits ?_).1 0 ⟨"a.webm", "one", ""⟩ (by decide)
  simp only [Allowed, Fits, true_and, and_true]
  refine ⟨fun _ _ b hb => ?_, fun _ hempty => ?_, fun _ _ => ?_, ?_, ?_, ?_, ?_⟩
  · cases hb
  · revert hempty
    decide
  · exact List.not_mem_nil
  all_goals exact fun path hpath => by cases hpath

/-- A connection that is about to end takes the identifier of the one that follows it, and its
recorder is still there when a note is saved for its file. -/
theorem handed_over_shared_source :
    ¬ ∀ f ∈ ((run NoteSession.step { auditSourceConnectionId := "one" } [.beginRound, .start 0,
        .connect 0, .beginRound, .rotate 1 "two", .start 1, .login 0, .newVideoThread 0,
        .videoFrame 0,
        .work 0 { autoRecord := true, created := true, opened := ["a.webm"], written := true },
        .work 0 {}, .work 0 {}, .connect 1, .login 1, .saveNote 0, .finalizeRecording 1 0,
        .finalized 1, .reply 1, .snapshot 0]).calls 0).files,
      (run NoteSession.step { auditSourceConnectionId := "one" } [.beginRound, .start 0,
        .connect 0, .beginRound, .rotate 1 "two", .start 1, .login 0, .newVideoThread 0,
        .videoFrame 0,
        .work 0 { autoRecord := true, created := true, opened := ["a.webm"], written := true },
        .work 0 {}, .work 0 {}, .connect 1, .login 1, .saveNote 0, .finalizeRecording 1 0,
        .finalized 1, .reply 1, .snapshot 0]).Dropped f.path := by
  intro h
  have hlive := h ⟨"a.webm", "two", ""⟩ (by decide) 0
  revert hlive
  decide

end NoteSession

end MDesk.RecordingHandover
