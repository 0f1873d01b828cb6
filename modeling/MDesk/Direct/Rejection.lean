import MDesk.Direct.Soundness

/-!
# What a refused block leaves behind

The checks of a strict job come before every file operation, but two of them update the
bookkeeping of the job while later ones can still refuse the block. Who calls `write` gives the
job up after an error, so the updated bookkeeping is met by no later block.
-/

namespace MDesk

open MDesk.Core

namespace TransferJob

variable (P : Platform)

/-- The job refuses the block before it touches a file. -/
def Refuses (job : TransferJob) (fs : Fs) (block : FileTransferBlock) : Prop :=
  match job.decodeBlock P block with
  | .error _ => True
  | .ok data => (job.admitBlock fs block data).result ≠ .ok ()

instance (job : TransferJob) (fs : Fs) (block : FileTransferBlock) :
    Decidable (job.Refuses P fs block) :=
  match h : job.decodeBlock P block with
  | .error _ => .isTrue (by rw [Refuses, h]; trivial)
  | .ok data =>
    decidable_of_iff ((job.admitBlock fs block data).result ≠ .ok ()) (by rw [Refuses, h])

/-- The current file is complete and the block is for the next one. -/
def MovesOn (job : TransferJob) (fileNum : Int) : Prop :=
  job.fileNum < fileNum ∧ fileNum = saturatingAddI32 job.fileNum 1 ∧
    job.dataStream.isNone = false ∧ job.directCurrentFileEofSeen = true ∧
    job.directCurrentFileBytes = job.sizeAt (asUsize job.fileNum)

instance (job : TransferJob) (fileNum : Int) : Decidable (job.MovesOn fileNum) :=
  inferInstanceAs (Decidable (_ ∧ _))

/-- The block ends a file that is complete, but the job has more bytes than all files
together. -/
def EndsBeyondTotal (job : TransferJob) (n len : Nat) : Prop :=
  job.directCurrentFileBytes = job.sizeAt n ∧ len = 0 ∧ job.directCurrentFileEofSeen = false ∧
    job.totalSize < job.finishedSize

instance (job : TransferJob) (n len : Nat) : Decidable (job.EndsBeyondTotal n len) :=
  inferInstanceAs (Decidable (_ ∧ _))

/-- The bookkeeping that a refused block leaves behind. -/
def afterRefused (job : TransferJob) (block : FileTransferBlock) : TransferJob :=
  match job.decodeBlock P block with
  | .error _ => job
  | .ok data =>
    if directTransferMaxBlockBytes < data.length then job
    else if job.MovesOn block.fileNum then
      job.withCounters 0
        ((job.withCounters 0 false).EndsBeyondTotal block.fileNum.toNat data.length)
    else if block.fileNum = job.fileNum ∧
        job.EndsBeyondTotal block.fileNum.toNat data.length then
      job.withCounters job.directCurrentFileBytes true
    else job

section Refused

variable {P} {job : TransferJob} {fs : Fs} {block : FileTransferBlock} {n len : Nat}

/-- A block whose length does not fit into the declared sizes changes nothing. -/
theorem addDirectBytes_refused (h : (job.addDirectBytes fs n len).result ≠ .ok ()) :
    ∃ e, job.addDirectBytes fs n len = .fail e job fs := by
  unfold addDirectBytes at h ⊢
  split_ifs at h ⊢
  · exact ⟨_, rfl⟩
  · exact ⟨_, rfl⟩
  · exact ⟨_, rfl⟩
  · exact ⟨_, rfl⟩
  · exact absurd rfl h

/-- An empty block fits into every file that is complete, except by the total. -/
theorem addDirectBytes_empty (job : TransferJob) (hbytes : job.directCurrentFileBytes < 2 ^ 64)
    (hfinished : job.finishedSize < 2 ^ 64) (hsize : job.directCurrentFileBytes = job.sizeAt n) :
    (job.addDirectBytes fs n 0).result ≠ .ok () ↔ job.totalSize < job.finishedSize := by
  unfold addDirectBytes
  rw [if_neg (by omega), if_neg (by omega), if_neg (by omega)]
  split_ifs with htotal
  · exact ⟨fun _ => htotal, fun _ => nofun⟩
  · exact ⟨fun h => absurd rfl h, fun h => absurd h htotal⟩

/-- The accounting of a refused block changes the job exactly if the block ends a complete
file. -/
theorem countDirectBlock_refused (job : TransferJob) (hbytes : job.directCurrentFileBytes < 2 ^ 64)
    (hfinished : job.finishedSize < 2 ^ 64)
    (h : (job.countDirectBlock fs n len).result ≠ .ok ()) :
    ∃ e, (job.EndsBeyondTotal n len ∧ job.countDirectBlock fs n len =
        .fail e (job.withCounters job.directCurrentFileBytes true) fs) ∨
      (¬ job.EndsBeyondTotal n len ∧ job.countDirectBlock fs n len = .fail e job fs) := by
  have hzero : job.EndsBeyondTotal n len → job.expectedBlockSize n = 0 := by
    intro hends
    rw [expectedBlockSize, ← hends.1, Nat.sub_self, Nat.zero_min]
  unfold countDirectBlock at h ⊢
  by_cases hunder : job.sizeAt n < job.directCurrentFileBytes
  · rw [if_pos hunder]
    exact ⟨_, .inr ⟨fun hends => by have := hends.1; omega, rfl⟩⟩
  rw [if_neg hunder] at h ⊢
  by_cases hend : job.expectedBlockSize n = 0
  · rw [if_pos hend] at h ⊢
    by_cases hbad : len ≠ 0 ∨ job.directCurrentFileEofSeen = true
    · rw [if_pos hbad]
      refine ⟨_, .inr ⟨fun hends => ?_, rfl⟩⟩
      rcases hbad with hlen | hseen
      · exact hlen hends.2.1
      · exact absurd hends.2.2.1 (by simp [hseen])
    rw [if_neg hbad] at h ⊢
    rw [not_or, not_not, Bool.not_eq_true] at hbad
    -- the flag is set before the total is checked
    have hsize : job.directCurrentFileBytes = job.sizeAt n := by
      unfold expectedBlockSize at hend
      have hmax : 0 < directTransferMaxBlockBytes := by decide
      omega
    rw [hbad.1] at h ⊢
    have htotal : job.totalSize < job.finishedSize :=
      (addDirectBytes_empty { job with directCurrentFileEofSeen := true } hbytes hfinished
        hsize).mp h
    obtain ⟨e, he⟩ := addDirectBytes_refused h
    exact ⟨e, .inl ⟨⟨hsize, rfl, hbad.2, htotal⟩, he⟩⟩
  · rw [if_neg hend] at h ⊢
    by_cases hbad : job.directCurrentFileEofSeen = true ∨ len ≠ job.expectedBlockSize n
    · rw [if_pos hbad]
      exact ⟨_, .inr ⟨fun hends => hend (hzero hends), rfl⟩⟩
    rw [if_neg hbad] at h ⊢
    obtain ⟨e, he⟩ := addDirectBytes_refused h
    exact ⟨e, .inr ⟨fun hends => hend (hzero hends), he⟩⟩

/-- The file number of a block moves the job on, stays, or refuses the block. -/
theorem advanceDirectFile_cases (job : TransferJob) (fileNum : Int) :
    (job.MovesOn fileNum ∧ job.advanceDirectFile fileNum = .ok (job.withCounters 0 false)) ∨
      (fileNum = job.fileNum ∧ job.advanceDirectFile fileNum = .ok job) ∨
      (¬ job.MovesOn fileNum ∧ fileNum ≠ job.fileNum ∧
        ∃ e, job.advanceDirectFile fileNum = .error e) := by
  unfold advanceDirectFile
  split_ifs with hback hnext hseq
  · exact .inr (.inr ⟨fun h => by have := h.1; omega, by omega, _, rfl⟩)
  · refine .inr (.inr ⟨fun h => ?_, by omega, _, rfl⟩)
    obtain ⟨-, hnum, hstream, heof, hbytes⟩ := h
    rcases hseq with hne | hnone | hunseen | hsize
    · exact hne hnum
    · rw [hstream] at hnone
      cases hnone
    · exact hunseen heof
    · exact hsize hbytes
  · rw [not_or, not_or, not_or, not_not, not_not, not_not, Bool.not_eq_true] at hseq
    exact .inl ⟨⟨hnext, hseq⟩, rfl⟩
  · exact .inr (.inl ⟨by omega, rfl⟩)

/-- A refused block leaves the files alone, and the bookkeeping as said above. -/
theorem write_refused (hstrict : job.strictDirectTransfer = true)
    (hbytes : job.directCurrentFileBytes < 2 ^ 64) (hfinished : job.finishedSize < 2 ^ 64)
    (h : job.Refuses P fs block) :
    ∃ e, job.write P fs block = .fail e (job.afterRefused P block) fs := by
  unfold Refuses at h
  unfold write afterRefused
  cases hdec : job.decodeBlock P block with
  | error e => exact ⟨e, rfl⟩
  | ok data =>
    rw [hdec] at h
    dsimp only at h ⊢
    unfold admitBlock at h ⊢
    rw [if_pos hstrict] at h ⊢
    by_cases hlimit : directTransferMaxBlockBytes < data.length
    · rw [if_pos hlimit, if_pos hlimit]
      exact ⟨_, rfl⟩
    rw [if_neg hlimit] at h ⊢
    rw [if_neg hlimit]
    rcases job.advanceDirectFile_cases block.fileNum with
      ⟨hmoves, hadv⟩ | ⟨hsame, hadv⟩ | ⟨hstays, hother, e, hadv⟩
    · -- the counters have been reset for the next file
      rw [hadv] at h ⊢
      rw [if_pos hmoves]
      obtain ⟨e, ⟨hends, he⟩ | ⟨hends, he⟩⟩ := countDirectBlock_refused
        (job.withCounters 0 false) (Nat.two_pow_pos 64) hfinished h
      · refine ⟨e, ?_⟩
        dsimp only
        rw [he, decide_eq_true hends]
        rfl
      · refine ⟨e, ?_⟩
        dsimp only
        rw [he, decide_eq_false hends]
        rfl
    · rw [hadv] at h ⊢
      have hstays : ¬ job.MovesOn block.fileNum := fun hmoves => by
        have := hmoves.1
        omega
      rw [if_neg hstays]
      obtain ⟨e, ⟨hends, he⟩ | ⟨hends, he⟩⟩ := countDirectBlock_refused job hbytes hfinished h
      · refine ⟨e, ?_⟩
        dsimp only
        rw [he, if_pos ⟨hsame, hends⟩]
        rfl
      · refine ⟨e, ?_⟩
        dsimp only
        rw [he, if_neg fun hboth => hends hboth.2]
        rfl
    · rw [hadv, if_neg hstays, if_neg fun hboth => hother hboth.1]
      exact ⟨e, rfl⟩

/-- A refused block changes nothing, unless the job moves on for it or it ends a complete file
beyond the total: then the two counters have been updated already. -/
theorem write_refused_unchanged (hstrict : job.strictDirectTransfer = true)
    (hbytes : job.directCurrentFileBytes < 2 ^ 64) (hfinished : job.finishedSize < 2 ^ 64)
    (h : job.Refuses P fs block) :
    (job.write P fs block).result ≠ .ok () ∧ (job.write P fs block).fs = fs ∧
      (job.write P fs block).job = job.afterRefused P block ∧
      (¬ job.MovesOn block.fileNum →
        ¬ (block.fileNum = job.fileNum ∧
          job.EndsBeyondTotal block.fileNum.toNat 0) →
        (job.write P fs block).job = job ∧ ∀ next,
          (job.write P fs block).job.write P (job.write P fs block).fs next =
            job.write P fs next) := by
  obtain ⟨e, he⟩ := write_refused hstrict hbytes hfinished h
  rw [he]
  refine ⟨nofun, rfl, rfl, fun hstays hends => ?_⟩
  have hsame : job.afterRefused P block = job := by
    unfold afterRefused
    split
    · rfl
    · rename_i data _
      have hnone : ¬ (block.fileNum = job.fileNum ∧
          job.EndsBeyondTotal block.fileNum.toNat data.length) := fun hboth =>
        hends ⟨hboth.1, hboth.2.1, rfl, hboth.2.2.2⟩
      rw [if_neg hstays, if_neg hnone, ite_self]
  exact ⟨hsame, fun next => congrArg (fun job' : TransferJob => job'.write P fs next) hsame⟩

/-- A block of the wrong file number leaves the job of a new transfer as it was. -/
theorem write_refused_unchanged_sample :
    ((freshDirectJob [fileNamed "a" 1] 1).write .posix freshFs ⟨-7, 1, [5], false⟩).job =
      freshDirectJob [fileNamed "a" 1] 1 :=
  ((write_refused_unchanged (by decide) (by decide) (by decide)
    (show Refuses .posix (freshDirectJob [fileNamed "a" 1] 1) freshFs ⟨-7, 1, [5], false⟩ from
      trivial)).2.2.2 (by decide) (by decide)).1

/-- A block of the wrong length for the second file: the next one, which would have been taken,
is refused. -/
theorem write_refused_disturbs :
    ∃ job, newDirectWrite .posix (-7) "push" ["r"] freshFs [fileNamed "a" 1, fileNamed "b" 1] =
        .ok job ∧
      let received := job.writeAll .posix freshFs [⟨-7, 0, [5], false⟩, ⟨-7, 0, [], false⟩]
      let refused := received.1.write .posix received.2 ⟨-7, 1, [6, 7], false⟩
      received.1.Refuses .posix received.2 ⟨-7, 1, [6, 7], false⟩ ∧
        refused.job ≠ received.1 ∧
        (received.1.write .posix received.2 ⟨-7, 1, [6], false⟩).result = .ok () ∧
        (refused.job.write .posix refused.fs ⟨-7, 1, [6], false⟩).result ≠ .ok () := by
  refine ⟨freshDirectJob [fileNamed "a" 1, fileNamed "b" 1] 2, by decide, ?_, by decide, by decide,
    by decide⟩
  decide

end Refused

end TransferJob

end MDesk
