import MDesk.Transfer.Destination

/-!
# Moving from file to file

What every write job does when its blocks go from one file to the next, whatever it
checks first: the open file is committed, the next one is opened over the view that
leaves, and a file whose side names are directories is passed over.
-/

namespace MDesk

open MDesk.Core

namespace TransferJob

variable (P : Platform)

/-- Blocks delivered one after another; a refused block changes what it changed. -/
def writeAll (job : TransferJob) (fs : Fs) : List FileTransferBlock → TransferJob × Fs
  | [] => (job, fs)
  | block :: blocks =>
    let o := job.write P fs block
    writeAll o.job o.fs blocks

theorem writeAll_append (job : TransferJob) (fs : Fs) (bs cs : List FileTransferBlock) :
    job.writeAll P fs (bs ++ cs) =
      (job.writeAll P fs bs).1.writeAll P (job.writeAll P fs bs).2 cs := by
  induction bs generalizing job fs with
  | nil => rfl
  | cons b bs ih => exact ih _ _

/-- The fields of a job that writing never changes; a strict job never overwrites. -/
structure Writing (base : PathBuf) (files : List FileEntry) (id : Int) (direct : Bool)
    (job : TransferJob) : Prop where
  id : job.id = id
  type : job.type = .generic
  source : job.dataSource = .filePath base
  files : job.files = files
  strict : job.strictDirectTransfer = direct
  never : job.neverOverwriteDestination = direct

/-- Finalising the job now would leave the view `w`. -/
def Ready (w : View String UInt8) (job : TransferJob) (fs : Fs) : Prop :=
  ∃ fs', job.finalizeWrite P fs = .ok { job with dataStream := none } fs' ∧ fs'.lookup = w

/-- Entry `n` is the one being received over the view `w`, with `contents` so far; a file
that cannot be opened is passed over. -/
structure Current (w : View String UInt8) (path : PathBuf) (n : Nat) (contents : Bytes)
    (job : TransferJob) (fs : Fs) : Prop where
  fileNum : job.fileNum = n
  state : (¬ sideNames.Blocked w path ∧ ∃ mark, Receiving w path contents mark job fs) ∨
    (sideNames.Blocked w path ∧ job.dataStream = none ∧ fs.lookup = sideNames.blocked w path)

section Entry

variable {P} {base : PathBuf} {files : List FileEntry} {id : Int} {w : View String UInt8}
  {path : PathBuf} {n : Nat} {entry : FileEntry} {job : TransferJob} {fs : Fs} {direct : Bool}

/-- Opening the file of entry `n` where the last one has been dealt with. -/
theorem openForBlock_moved (hjob : Writing base files id direct job)
    (hentry : files[n]? = some entry) (hn : n < 2 ^ 64)
    (hname : validateFileNameNoTraversal P entry.name = .ok ())
    (hpath : P.join base entry.name = path) (hway : WayTo w path)
    {block : FileTransferBlock} (hnum : block.fileNum = n)
    (hmove : n ≠ asUsize job.fileNum ∨ job.dataStream = none) (h : Ready P w job fs) :
    ∃ fs', fs'.lookup = w ∧ job.openForBlock P fs block =
      createStaging { job with dataStream := none, fileNum := n } fs' path := by
  obtain ⟨fs', hfin, hfs'⟩ := h
  refine ⟨fs', hfs', ?_⟩
  have htype : TransferJob.type { job with dataStream := none } = .generic := hjob.type
  rw [openForBlock_move P hjob.source (by rwa [hnum, Int.toNat_natCast]), hfin,
    Outcome.ok_andThen, hnum]
  refine openEntry_eq P htype ?_ hname hpath (hfs' ▸ hway)
  rw [asUsize_natCast hn, ← hentry, ← hjob.files]

theorem ready_of_closed (hs : job.dataStream = none) (hfs : fs.lookup = w) : Ready P w job fs := by
  refine ⟨fs, ?_, hfs⟩
  have hjob : { job with dataStream := none } = job := by rw [← hs]
  rw [finalizeWrite, if_pos (.inl (by rw [hs]; rfl)), hjob]

/-- The current file is committed, or passed over, when the job moves on. -/
theorem ready_of_current {contents : Bytes} (hjob : Writing base files id direct job)
    (hentry : files[n]? = some entry) (hn : n < 2 ^ 64)
    (hname : validateFileNameNoTraversal P entry.name = .ok ())
    (hpath : P.join base entry.name = path) (hne : path ≠ []) (hdir : w path ≠ some .dir)
    (hnever : direct = true → w path = none) (h : Current w path n contents job fs) :
    Ready P (sideNames.attempt w path contents) job fs := by
  rcases h.state with ⟨hfree, mark, hrec⟩ | ⟨hb, hs, hfs⟩
  · rw [SideNames.attempt, if_neg hfree]
    refine finalizeWrite_ok P hjob.type hjob.source ?_ hname hpath hne hdir ?_ hrec
    · rw [hjob.files, h.fileNum, asUsize_natCast hn, hentry]
    · rwa [hjob.never]
  · rw [SideNames.attempt, if_pos hb]
    exact ready_of_closed hs hfs

/-- What the opening of an entry and the append behind it leave. -/
theorem current_of_staging {fs' : Fs} (hjob : Writing base files id direct job)
    (hfs' : fs'.lookup = w) (hway : WayTo w path) (block : FileTransferBlock) (data : Bytes) :
    let o := (createStaging { job with dataStream := none, fileNum := (n : Int) } fs' path).andThen
      fun job fs => job.appendBlock fs block data
    Writing base files id direct o.job ∧ Current w path n data o.job o.fs ∧
      (o.result = .ok () ↔ ¬ sideNames.Blocked w path) := by
  subst hfs'
  have hkeep : Writing base files id direct { job with dataStream := none, fileNum := (n : Int) } :=
    ⟨hjob.id, hjob.type, hjob.source, hjob.files, hjob.strict, hjob.never⟩
  by_cases hb : sideNames.Blocked fs'.lookup path
  · obtain ⟨e, fs₁, hfail, hfs₁⟩ := createStaging_blocked
      { job with dataStream := none, fileNum := (n : Int) } hway hb
    rw [hfail, Outcome.fail_andThen]
    exact ⟨hkeep, ⟨rfl, .inr ⟨hb, rfl, hfs₁⟩⟩, iff_of_false nofun (not_not.mpr hb)⟩
  · obtain ⟨fs₁, hok, hfs₁⟩ := createStaging_ok
      { job with dataStream := none, fileNum := (n : Int) } hway hb
    rw [hok, Outcome.ok_andThen]
    have hrec : Receiving fs'.lookup path [] job.digest.toJson
        { job with
          fileNum := (n : Int), dataStream := some (.fileStream (downloadPath path) 0 .write) }
        fs₁ := ⟨rfl, hfs₁⟩
    obtain ⟨fs₂, happend, hfs₂⟩ := appendBlock_ok hrec block data
    rw [happend]
    exact ⟨⟨hjob.id, hjob.type, hjob.source, hjob.files, hjob.strict, hjob.never⟩,
      ⟨rfl, .inl ⟨hb, job.digest.toJson, rfl, hfs₂⟩⟩, iff_of_true rfl hb⟩

end Entry

end TransferJob

end MDesk
