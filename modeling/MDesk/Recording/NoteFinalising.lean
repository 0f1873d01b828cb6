import MDesk.Recording.NoteSession

/-!
# The finalisation of recorders

A source is finalised only behind the acknowledgements of all the video threads that record under
it. A finalisation is the last message that a connection sends its threads until it has the
acknowledgements or gives up, so a thread that has acknowledged is quiet.
-/

namespace MDesk.RecordingHandover

/-- A finalisation goes on: the video threads of the connection have it as their last work, or have
acknowledged it and are quiet. -/
def Settling (threads : Nat → VideoThread) (waiting : Nat → List Nat) (a batch : Nat) : Prop :=
  ∀ t, (threads t).remote = some a →
    (t ∈ waiting batch → (threads t).Pending batch) ∧ (t ∉ waiting batch → (threads t).Quiet)

/-- What holds of the finalisations: a source belongs to one connection, and only that connection
and its late tracker speak for it. -/
structure Finalising (remotes : Nat → Remote) (remoteCount : Nat) (threads : Nat → VideoThread)
    (threadCount : Nat) (waiting : Nat → List Nat) (batchCount : Nat)
    (trackers : Nat → Option LateTracker) (owners : String → Option Nat) : Prop where
  unborn : ∀ a, remoteCount ≤ a → remotes a = {}
  sourced : ∀ t, threads t = {} ∨ ∃ a, (threads t).remote = some a ∧ t < threadCount ∧
    (threads t).recordingSourceConnectionId ≠ "" ∧
      owners (threads t).recordingSourceConnectionId = some a
  taken : ∀ a, (remotes a).recordingSourceConnectionId ≠ "" →
    owners (remotes a).recordingSourceConnectionId = some a
  batches : ∀ t, ∀ x ∈ (threads t).work, ∀ b, x.batch? = some b → b < batchCount
  finalizing : ∀ a b c, (remotes a).phase = .finalizing b c →
    b < batchCount ∧ Settling threads waiting a b
  late : ∀ b tracker, trackers b = some tracker →
    b < batchCount ∧ (remotes tracker.remote).phase.ended = true ∧
      (tracker.sourceConnectionId ≠ "" → owners tracker.sourceConnectionId = some tracker.remote) ∧
        Settling threads waiting tracker.remote b

section Finalising

variable {remotes : Nat → Remote} {remoteCount : Nat} {threads threads' : Nat → VideoThread}
  {threadCount : Nat} {waiting : Nat → List Nat} {batchCount : Nat}
  {trackers : Nat → Option LateTracker} {owners : String → Option Nat} {a batch t : Nat}
  {phase : RemotePhase} {o : VideoOutcome} {x : Work} {rest : List Work}

/-- When all have acknowledged, the video threads of the connection are quiet. -/
theorem Settling.quiet (h : Settling threads waiting a batch) (hnone : waiting batch = [])
    (ht : (threads t).remote = some a) : (threads t).Quiet := by
  refine (h t ht).2 ?_
  rw [hnone]
  exact List.not_mem_nil

/-- Messages to another connection do not matter to a finalisation. -/
theorem Settling.congr (h : Settling threads waiting a batch)
    (hsame : ∀ t, (threads' t).remote = some a → threads' t = threads t) :
    Settling threads' waiting a batch := by
  intro t ht
  have heq := hsame t ht
  rw [heq] at ht ⊢
  exact h t ht

theorem Finalising.lt_of_remote
    (h : Finalising remotes remoteCount threads threadCount waiting batchCount trackers owners)
    (ht : (threads t).remote = some a) : t < threadCount := by
  rcases h.sourced t with hnew | ⟨_, _, hlt, _⟩
  · rw [hnew] at ht
    cases ht
  · exact hlt

/-- The video threads that record under a source of a connection are its own. -/
theorem Finalising.remote_of_source
    (h : Finalising remotes remoteCount threads threadCount waiting batchCount trackers owners)
    {source : String} (hsource : source ≠ "" → owners source = some a)
    (ht : (threads t).recordingSourceConnectionId = source) :
    threads t = {} ∨ (threads t).remote = some a := by
  rcases h.sourced t with hnew | ⟨b, hb, -, hne, howner⟩
  · exact .inl hnew
  · right
    rw [ht] at hne howner
    have hsame := (hsource hne).symm.trans howner
    rw [hb, ← hsame]

/-- A connection goes on, but for the begin of a finalisation. -/
theorem Finalising.setPhase
    (h : Finalising remotes remoteCount threads threadCount waiting batchCount trackers owners)
    (hborn : (remotes a).phase ≠ .absent) (hphase : ∀ b c, phase ≠ .finalizing b c)
    (hended : (remotes a).phase.ended = true → phase.ended = true) :
    Finalising (Function.update remotes a { remotes a with phase }) remoteCount threads threadCount
      waiting batchCount trackers owners := by
  refine { h with unborn := ?_, taken := ?_, finalizing := ?_, late := ?_ }
  · intro b hb
    by_cases hba : b = a
    · subst hba
      rw [h.unborn b hb] at hborn
      exact absurd rfl hborn
    · rw [Function.update_of_ne hba]
      exact h.unborn b hb
  · intro b hb
    by_cases hba : b = a
    · subst hba
      rw [Function.update_self] at hb ⊢
      exact h.taken b hb
    · rw [Function.update_of_ne hba] at hb ⊢
      exact h.taken b hb
  · intro b n c hb
    by_cases hba : b = a
    · subst hba
      rw [Function.update_self] at hb
      exact absurd hb (hphase n c)
    · rw [Function.update_of_ne hba] at hb
      exact h.finalizing b n c hb
  · intro n tracker htracker
    obtain ⟨hlt, hend, howner, hsettling⟩ := h.late n tracker htracker
    refine ⟨hlt, ?_, howner, hsettling⟩
    by_cases hba : tracker.remote = a
    · rw [hba, Function.update_self]
      rw [hba] at hend
      exact hended hend
    · rw [Function.update_of_ne hba]
      exact hend

theorem Finalising.beginRound
    (h : Finalising remotes remoteCount threads threadCount waiting batchCount trackers owners)
    {round : Nat} :
    Finalising (Function.update remotes remoteCount { phase := .drawn, connectionRound := round })
      (remoteCount + 1) threads threadCount waiting batchCount trackers owners := by
  refine { h with unborn := ?_, taken := ?_, finalizing := ?_, late := ?_ }
  · intro b hb
    rw [Function.update_of_ne (by omega)]
    exact h.unborn b (by omega)
  · intro b hb
    by_cases hbn : b = remoteCount
    · subst hbn
      rw [Function.update_self] at hb
      exact absurd rfl hb
    · rw [Function.update_of_ne hbn] at hb ⊢
      exact h.taken b hb
  · intro b n c hb
    by_cases hbn : b = remoteCount
    · subst hbn
      rw [Function.update_self] at hb
      cases hb
    · rw [Function.update_of_ne hbn] at hb
      exact h.finalizing b n c hb
  · intro n tracker htracker
    obtain ⟨hlt, hend, howner, hsettling⟩ := h.late n tracker htracker
    refine ⟨hlt, ?_, howner, hsettling⟩
    rw [Function.update_of_ne]
    · exact hend
    · intro heq
      rw [heq, h.unborn remoteCount (Nat.le_refl _)] at hend
      cases hend

/-- A connection takes a source that no other one has taken. -/
theorem Finalising.login
    (h : Finalising remotes remoteCount threads threadCount waiting batchCount trackers owners)
    (hborn : (remotes a).phase ≠ .absent) {source ticket : String}
    (hfree : ∀ b, owners source = some b → b = a) :
    Finalising (Function.update remotes a { remotes a with
        recordingSourceConnectionId := source, recordingConnectionTicket := ticket })
      remoteCount threads threadCount waiting batchCount trackers
      (Function.update owners source (some a)) := by
  have howners : ∀ source' b, owners source' = some b →
      Function.update owners source (some a) source' = some b := by
    intro source' b hb
    by_cases hs : source' = source
    · subst hs
      rw [Function.update_self, hfree b hb]
    · rw [Function.update_of_ne hs]
      exact hb
  have hphase : ∀ b, (Function.update remotes a { remotes a with
      recordingSourceConnectionId := source, recordingConnectionTicket := ticket } b).phase =
        (remotes b).phase := by
    intro b
    by_cases hba : b = a
    · subst hba
      rw [Function.update_self]
    · rw [Function.update_of_ne hba]
  refine ⟨?_, ?_, ?_, h.batches, ?_, ?_⟩
  · intro b hb
    by_cases hba : b = a
    · subst hba
      rw [h.unborn b hb] at hborn
      exact absurd rfl hborn
    · rw [Function.update_of_ne hba]
      exact h.unborn b hb
  · intro t
    rcases h.sourced t with hnew | ⟨b, hb, hlt, hne, howner⟩
    · exact .inl hnew
    · exact .inr ⟨b, hb, hlt, hne, howners _ b howner⟩
  · intro b hb
    by_cases hba : b = a
    · subst hba
      rw [Function.update_self, Function.update_self]
    · rw [Function.update_of_ne hba] at hb ⊢
      exact howners _ b (h.taken b hb)
  · intro b n c hb
    rw [hphase] at hb
    exact h.finalizing b n c hb
  · intro n tracker htracker
    obtain ⟨hlt, hend, howner, hsettling⟩ := h.late n tracker htracker
    rw [hphase]
    exact ⟨hlt, hend, fun hne => howners _ _ (howner hne), hsettling⟩

/-- The video threads of a connection whose loop runs change as they may. -/
theorem Finalising.of_running
    (h : Finalising remotes remoteCount threads threadCount waiting batchCount trackers owners)
    (hrunning : (remotes a).phase = .running) {threadCount' : Nat}
    (hsame : ∀ t, (threads' t).remote ≠ some a → threads' t = threads t)
    (hsourced : ∀ t, threads' t = {} ∨ ∃ b, (threads' t).remote = some b ∧ t < threadCount' ∧
      (threads' t).recordingSourceConnectionId ≠ "" ∧
        owners (threads' t).recordingSourceConnectionId = some b)
    (hbatches : ∀ t, ∀ x ∈ (threads' t).work, ∀ b, x.batch? = some b → b < batchCount) :
    Finalising remotes remoteCount threads' threadCount' waiting batchCount trackers owners := by
  refine ⟨h.unborn, hsourced, h.taken, hbatches, ?_, ?_⟩
  · intro b n c hb
    obtain ⟨hlt, hsettling⟩ := h.finalizing b n c hb
    refine ⟨hlt, hsettling.congr fun t ht => hsame t ?_⟩
    rw [ht]
    rintro heq
    cases heq
    rw [hrunning] at hb
    cases hb
  · intro n tracker htracker
    obtain ⟨hlt, hend, howner, hsettling⟩ := h.late n tracker htracker
    refine ⟨hlt, hend, howner, hsettling.congr fun t ht => hsame t ?_⟩
    rw [ht]
    rintro heq
    cases heq
    rw [hrunning] at hend
    cases hend

/-- A connection whose loop runs sends its video threads a message. -/
theorem Finalising.push
    (h : Finalising remotes remoteCount threads threadCount waiting batchCount trackers owners)
    (hrunning : (remotes a).phase = .running) (hbatch : ∀ b, x.batch? = some b → b < batchCount)
    (hpush : ∀ t, threads' t = threads t ∨
      ((threads t).remote = some a ∧ threads' t = (threads t).push x)) :
    Finalising remotes remoteCount threads' threadCount waiting batchCount trackers owners := by
  refine h.of_running hrunning ?_ ?_ ?_
  · intro t ht
    rcases hpush t with hold | ⟨hremote, hnew⟩
    · exact hold
    · rw [hnew] at ht
      exact absurd hremote ht
  · intro t
    rcases hpush t with hold | ⟨hremote, hnew⟩
    · rw [hold]
      exact h.sourced t
    · rw [hnew]
      rcases h.sourced t with hempty | hex
      · rw [hempty] at hremote
        cases hremote
      · exact .inr hex
  · intro t y hy b hb
    rcases hpush t with hold | ⟨-, hnew⟩
    · rw [hold] at hy
      exact h.batches t y hy b hb
    · rw [hnew] at hy
      rcases List.mem_append.mp hy with hold | hlast
      · exact h.batches t y hold b hb
      · rw [List.mem_singleton.mp hlast] at hb
        exact hbatch b hb

/-- A video thread does its next piece of work. -/
theorem Finalising.work
    (h : Finalising remotes remoteCount threads threadCount waiting batchCount trackers owners)
    (hwork : (threads t).work = x :: rest) {waiting' : Nat → List Nat}
    (hwaiting : ∀ b t', t' ∈ waiting' b ↔ t' ∈ waiting b ∧ ¬ (x = .acknowledge b ∧ t' = t)) :
    Finalising remotes remoteCount (Function.update threads t ((threads t).next o)) threadCount
      waiting' batchCount trackers owners := by
  have hsettling : ∀ a b, Settling threads waiting a b →
      Settling (Function.update threads t ((threads t).next o)) waiting' a b := by
    intro a b hsettle t' ht'
    by_cases htt : t' = t
    · subst htt
      rw [Function.update_self, VideoThread.next_remote] at ht'
      rw [Function.update_self, hwaiting]
      by_cases hmem : t' ∈ waiting b
      · have hpending := (hsettle t' ht').1 hmem
        by_cases hx : x = .acknowledge b
        · refine ⟨fun hin => absurd ⟨hx, rfl⟩ hin.2, fun _ => hpending.quiet ?_⟩
          rw [hwork, hx]
          rfl
        · refine ⟨fun _ => hpending.next ?_, fun hout => absurd ⟨hmem, fun hc => hx hc.1⟩ hout⟩
          rw [hwork]
          exact fun heq => hx (Option.some.inj heq)
      · have hquiet := ((hsettle t' ht').2 hmem).work
        rw [hwork] at hquiet
        cases hquiet
    · rw [Function.update_of_ne htt] at ht' ⊢
      rw [hwaiting]
      have hiff : (t' ∈ waiting b ∧ ¬ (x = .acknowledge b ∧ t' = t)) ↔ t' ∈ waiting b :=
        and_iff_left fun hc => htt hc.2
      rw [hiff]
      exact hsettle t' ht'
  refine ⟨h.unborn, ?_, h.taken, ?_, ?_, ?_⟩
  · intro t'
    by_cases htt : t' = t
    · subst htt
      rcases h.sourced t' with hnew | hex
      · rw [hnew] at hwork
        cases hwork
      · rw [Function.update_self, VideoThread.next_remote, VideoThread.next_source]
        exact .inr hex
    · rw [Function.update_of_ne htt]
      exact h.sourced t'
  · intro t' y hy b hb
    by_cases htt : t' = t
    · subst htt
      rw [Function.update_self] at hy
      obtain ⟨z, hz, hzb⟩ := VideoThread.batch_next hy hb
      exact h.batches t' z hz b hzb
    · rw [Function.update_of_ne htt] at hy
      exact h.batches t' y hy b hb
  · intro a b c ha
    obtain ⟨hlt, hsettle⟩ := h.finalizing a b c ha
    exact ⟨hlt, hsettling a b hsettle⟩
  · intro b tracker htracker
    obtain ⟨hlt, hend, howner, hsettle⟩ := h.late b tracker htracker
    exact ⟨hlt, hend, howner, hsettling _ b hsettle⟩

/-- A connection sends its video threads a finalisation. -/
theorem Finalising.begin
    (h : Finalising remotes remoteCount threads threadCount waiting batchCount trackers owners)
    (hrunning : (remotes a).phase = .running) {caller : Option Nat} {waiters : List Nat}
    (hwaiters : ∀ t, (threads t).remote = some a → t ∈ waiters)
    (hpush : ∀ t, (threads t).remote = some a →
      threads' t = (threads t).push (.finalizeRecording batchCount))
    (hkeep : ∀ t, (threads t).remote ≠ some a → threads' t = threads t) :
    Finalising (Function.update remotes a { remotes a with phase := .finalizing batchCount caller })
      remoteCount threads' threadCount (Function.update waiting batchCount waiters)
      (batchCount + 1) trackers owners := by
  have hremote : ∀ t, (threads' t).remote = (threads t).remote := by
    intro t
    by_cases ht : (threads t).remote = some a
    · rw [hpush t ht]
      rfl
    · rw [hkeep t ht]
  have hother : ∀ b n, b ≠ a → n < batchCount → Settling threads waiting b n →
      Settling threads' (Function.update waiting batchCount waiters) b n := by
    intro b n hba hn hsettle t ht
    rw [hremote] at ht
    have hne : (threads t).remote ≠ some a := by
      rw [ht]
      exact fun heq => hba (Option.some.inj heq)
    rw [hkeep t hne, Function.update_of_ne (by omega)]
    exact hsettle t ht
  refine ⟨?_, ?_, ?_, ?_, ?_, ?_⟩
  · intro b hb
    by_cases hba : b = a
    · subst hba
      rw [h.unborn b hb] at hrunning
      cases hrunning
    · rw [Function.update_of_ne hba]
      exact h.unborn b hb
  · intro t
    by_cases ht : (threads t).remote = some a
    · rw [hpush t ht]
      rcases h.sourced t with hnew | hex
      · rw [hnew] at ht
        cases ht
      · exact .inr hex
    · rw [hkeep t ht]
      exact h.sourced t
  · intro b hb
    by_cases hba : b = a
    · subst hba
      rw [Function.update_self] at hb ⊢
      exact h.taken b hb
    · rw [Function.update_of_ne hba] at hb ⊢
      exact h.taken b hb
  · intro t y hy b hb
    by_cases ht : (threads t).remote = some a
    · rw [hpush t ht] at hy
      rcases List.mem_append.mp hy with hold | hlast
      · have := h.batches t y hold b hb
        omega
      · rw [List.mem_singleton.mp hlast] at hb
        cases hb
        omega
    · rw [hkeep t ht] at hy
      have := h.batches t y hy b hb
      omega
  · intro b n c hb
    by_cases hba : b = a
    · subst hba
      rw [Function.update_self] at hb
      cases hb
      refine ⟨by omega, fun t ht => ?_⟩
      rw [hremote] at ht
      rw [hpush t ht, Function.update_self]
      refine ⟨fun _ => VideoThread.pending_push fun y hy hbatch => ?_,
        fun hout => absurd (hwaiters t ht) hout⟩
      exact Nat.lt_irrefl _ (h.batches t y hy _ hbatch)
    · rw [Function.update_of_ne hba] at hb
      obtain ⟨hlt, hsettle⟩ := h.finalizing b n c hb
      exact ⟨by omega, hother b n hba hlt hsettle⟩
  · intro n tracker htracker
    obtain ⟨hlt, hend, howner, hsettle⟩ := h.late n tracker htracker
    have hne : tracker.remote ≠ a := by
      intro heq
      rw [heq, hrunning] at hend
      cases hend
    refine ⟨by omega, ?_, howner, hother _ n hne hlt hsettle⟩
    rw [Function.update_of_ne hne]
    exact hend

/-- A connection at the end of its loop leaves the acknowledgements to a late tracker. -/
theorem Finalising.track
    (h : Finalising remotes remoteCount threads threadCount waiting batchCount trackers owners)
    {tracker : LateTracker} (hended : (remotes tracker.remote).phase.ended = true)
    (hlt : batch < batchCount) (hsettle : Settling threads waiting tracker.remote batch)
    (howner : tracker.sourceConnectionId ≠ "" →
      owners tracker.sourceConnectionId = some tracker.remote) :
    Finalising remotes remoteCount threads threadCount waiting batchCount
      (Function.update trackers batch (some tracker)) owners := by
  refine { h with late := ?_ }
  intro n tracker' hn
  by_cases hnb : n = batch
  · subst hnb
    rw [Function.update_self] at hn
    cases hn
    exact ⟨hlt, hended, howner, hsettle⟩
  · rw [Function.update_of_ne hnb] at hn
    exact h.late n tracker' hn

/-- A late tracker ends. -/
theorem Finalising.untrack
    (h : Finalising remotes remoteCount threads threadCount waiting batchCount trackers owners) :
    Finalising remotes remoteCount threads threadCount waiting batchCount
      (Function.update trackers batch none) owners := by
  refine { h with late := ?_ }
  intro n tracker hn
  by_cases hnb : n = batch
  · subst hnb
    rw [Function.update_self] at hn
    cases hn
  · rw [Function.update_of_ne hnb] at hn
    exact h.late n tracker hn

end Finalising

end MDesk.RecordingHandover
