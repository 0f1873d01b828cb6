import MDesk.Direct.Send
import MDesk.Direct.Soundness

/-!
# A direct transfer between an honest sender and a strict receiver

The blocks of the sender are the ones the receiver expects, so that a block is refused
only where the side names of its file are directories. The transfer is complete exactly
when that never happens and the last pass makes up for the files that were lost.
-/

namespace MDesk

open MDesk.Core

namespace TransferJob

variable {P : Platform}

/-- The bookkeeping of a strict job. -/
def counters (job : TransferJob) : Nat × Bool × Nat × Nat :=
  (job.directCurrentFileBytes, job.directCurrentFileEofSeen, job.finishedSize, job.totalSize)

section Counters

variable {job : TransferJob} {fs : Fs}

theorem finalizeWrite_counters : (job.finalizeWrite P fs).job.counters = job.counters := by
  unfold finalizeWrite
  split_ifs <;> rfl

theorem createStaging_counters {path : PathBuf} :
    (job.createStaging fs path).job.counters = job.counters := by
  unfold createStaging
  dsimp only
  split
  · rfl
  · split
    · rfl
    · split <;> rfl

theorem openEntry_counters {base : PathBuf} {n : Int} :
    (job.openEntry P fs base n).job.counters = job.counters := by
  unfold openEntry
  dsimp only
  split
  · split <;> rfl
  · split
    · rfl
    · exact createStaging_counters

/-- Directing a job to a file leaves its bookkeeping alone. -/
theorem openForBlock_counters {block : FileTransferBlock} :
    (job.openForBlock P fs block).job.counters = job.counters := by
  unfold openForBlock
  split
  · split_ifs
    · exact Outcome.andThen_keeps (Q := fun j _ => j.counters = job.counters)
        finalizeWrite_counters fun j fs' hj => openEntry_counters.trans hj
    · rfl
  · split <;> rfl

/-- An accepted block is counted once. -/
theorem written_counters {block : FileTransferBlock} {data : Bytes}
    (h : ((job.openForBlock P fs block).andThen fun job fs =>
      job.appendBlock fs block data).result = .ok ()) :
    ((job.openForBlock P fs block).andThen fun job fs =>
        job.appendBlock fs block data).job.counters =
      (job.directCurrentFileBytes, job.directCurrentFileEofSeen,
        (job.finishedSize + data.length) % 2 ^ 64, job.totalSize) := by
  obtain ⟨-, hthen⟩ := Outcome.andThen_ok h
  rw [hthen] at h ⊢
  have hsame : (job.openForBlock P fs block).job.counters = job.counters := openForBlock_counters
  simp only [counters, Prod.mk.injEq] at hsame
  obtain ⟨hbytes, heof, hfinished, htotal⟩ := hsame
  unfold appendBlock at h ⊢
  split at h
  · cases h
  · cases h
  · simp only [Outcome.ok_job, counters, counted, hbytes, heof, hfinished, htotal]
  · simp only [Outcome.ok_job, counters, counted, hbytes, heof, hfinished, htotal]

end Counters

/-- Every block of a run is accepted. -/
def AllWritten (P : Platform) (job : TransferJob) (fs : Fs) : List FileTransferBlock → Prop
  | [] => True
  | block :: blocks =>
    (job.write P fs block).result = .ok () ∧
      AllWritten P (job.write P fs block).job (job.write P fs block).fs blocks

theorem allWritten_append {job : TransferJob} {fs : Fs} {bs cs : List FileTransferBlock} :
    job.AllWritten P fs (bs ++ cs) ↔ job.AllWritten P fs bs ∧
      (job.writeAll P fs bs).1.AllWritten P (job.writeAll P fs bs).2 cs := by
  induction bs generalizing job fs with
  | nil => simp [AllWritten, writeAll]
  | cons b bs ih => rw [List.cons_append, AllWritten, ih, AllWritten, and_assoc, writeAll]

section Expected

variable {job : TransferJob} {fs : Fs} {base : PathBuf} {files : List FileEntry} {id : Int}
  {block : FileTransferBlock} {data : Bytes} {n : Nat}

/-- A block of the expected length is counted. -/
theorem countDirectBlock_expected (fs : Fs) {left len : Nat}
    (hsize : job.sizeAt n = job.directCurrentFileBytes + left)
    (hlen : len = min left directTransferMaxBlockBytes)
    (heof : job.directCurrentFileEofSeen = false)
    (htotal : job.finishedSize + left ≤ job.totalSize)
    (hmax : job.totalSize < 2 ^ 64) (hfile : job.sizeAt n < 2 ^ 64) :
    job.countDirectBlock fs n len =
      .ok (job.withCounters (job.directCurrentFileBytes + len) (decide (left = 0))) fs := by
  have hexpected : job.expectedBlockSize n = len := by
    rw [expectedBlockSize, hsize, hlen, Nat.add_sub_cancel_left]
  have hle : len ≤ left := hlen ▸ Nat.min_le_left _ _
  have hzero : len = 0 ↔ left = 0 := by
    have hpos : 0 < directTransferMaxBlockBytes := by decide
    omega
  unfold countDirectBlock
  rw [if_neg (by omega), hexpected]
  by_cases hend : len = 0
  · rw [if_pos hend, if_neg (by simp [hend, heof]), addDirectBytes]
    rw [if_neg (by dsimp only; omega), if_neg (by simp only [sizeAt] at hsize ⊢; omega),
      if_neg (by dsimp only; omega), if_neg (by dsimp only; omega), decide_eq_true (hzero.mp hend)]
    rfl
  · rw [if_neg hend, if_neg (by simp [heof]), addDirectBytes]
    rw [if_neg (by omega), if_neg (by omega), if_neg (by omega), if_neg (by omega),
      decide_eq_false (fun h => hend (hzero.mpr h)), ← heof]
    rfl

/-- The block of an honest sender decodes to its data. -/
theorem decodeBlock_carried (hjob : Writing base files id true job) (hrange : n < files.length)
    (hblock : Carries P id n data block)
    (hlimit : data.length ≤ min (job.sizeAt n -
      if (n : Int) = job.fileNum then job.directCurrentFileBytes else 0)
      directTransferMaxBlockBytes) :
    job.decodeBlock P block = .ok data := by
  have hwire : ¬ directTransferMaxBlockBytes < block.data.length := not_lt.mpr hblock.length
  have hneg : ¬ (n : Int) < 0 := by omega
  unfold decodeBlock
  simp only [hblock.id, hjob.id, hblock.fileNum, hneg, hjob.source, hjob.files, hjob.strict, hwire,
    Int.toNat_natCast, ne_eq, not_true_eq_false, if_false, DataSource.isFilePath, true_and,
    not_le.mpr hrange, if_true]
  rcases hblock.decoded with ⟨hplain, rfl⟩ | ⟨hcomp, hdec⟩
  · simp only [hplain, Bool.false_eq_true, if_false]
  · simp only [hcomp, if_true, decompressDirectTransferBlock, hdec, not_lt.mpr hlimit, if_false]

end Expected

/-- The open file has received `cur`, and `rest` is still to come; `eof` tells whether its
end has been announced. -/
structure Sent (P : Platform) (v : View String UInt8) (base : PathBuf) (files : List FileEntry)
    (id : Int) (done : List (PathBuf × Bytes)) (cur rest : Bytes) (eof : Bool)
    (job : TransferJob) (fs : Fs) : Prop where
  direct : Direct v (destinationPaths P base files) base files id done cur job fs
  opened : job.dataStream ≠ none
  sizes : done.map (fun e => e.2.length) = (files.take done.length).map (·.size)
  size : ∀ entry, files[done.length]? = some entry → entry.size = cur.length + rest.length
  bytes : job.directCurrentFileBytes = cur.length
  ended : job.directCurrentFileEofSeen = eof
  finished : job.finishedSize = (done.map fun e => e.2.length).sum + cur.length
  total : job.totalSize = (files.map (·.size)).sum

/-- The files in front have been received to their ends, and the next one has not begun. -/
inductive Between (P : Platform) (v : View String UInt8) (base : PathBuf)
    (files : List FileEntry) (id : Int) :
    List (PathBuf × Bytes) → TransferJob → Fs → Prop where
  | fresh {job : TransferJob} {fs : Fs}
      (direct : Direct v (destinationPaths P base files) base files id [] [] job fs)
      (closed : job.dataStream = none) (view : fs.lookup = v)
      (counters : job.counters = (0, false, 0, (files.map (·.size)).sum)) :
      Between P v base files id [] job fs
  | ended {done : List (PathBuf × Bytes)} {path : PathBuf} {c : Bytes} {job : TransferJob}
      {fs : Fs} (hp : (destinationPaths P base files)[done.length]? = some path)
      (sent : Sent P v base files id done c [] true job fs) :
      Between P v base files id (done ++ [(path, c)]) job fs

/-- The sizes of the first files and of the next one stay within the total. -/
theorem sum_take_le {files : List FileEntry} {n : Nat} {entry : FileEntry}
    (h : files[n]? = some entry) :
    ((files.take n).map (·.size)).sum + entry.size ≤ (files.map (·.size)).sum := by
  have hlt := (List.getElem?_eq_some_iff.mp h).1
  have hsplit : files = files.take n ++ entry :: files.drop (n + 1) := by
    rw [← (List.getElem?_eq_some_iff.mp h).2, List.getElem_cons_drop, List.take_append_drop]
  conv_rhs => rw [hsplit]
  simp only [List.map_append, List.map_cons, List.sum_append, List.sum_cons]
  omega

section Steps

variable {v : View String UInt8} {root base : PathBuf} {files : List FileEntry} {id : Int}
  {done : List (PathBuf × Bytes)} {cur rest : Bytes} {eof : Bool} {job : TransferJob} {fs : Fs}
  {entry : FileEntry} {block : FileTransferBlock}

theorem Sent.not_blocked (h : Sent P v base files id done cur rest eof job fs) {path : PathBuf}
    (hp : (destinationPaths P base files)[done.length]? = some path) :
    ¬ sideNames.Blocked (sideNames.putAll v done) path := by
  rcases h.direct.state with ⟨hnone, -⟩ | ⟨path', hp', hcur⟩
  · exact absurd hnone h.opened
  · rw [hp] at hp'
    cases hp'
    rcases hcur.state with ⟨hfree, -⟩ | ⟨-, hnone, -⟩
    · exact hfree
    · exact absurd hnone h.opened

/-- What the bookkeeping of a job is after an accepted block of its current file. -/
theorem sent_of_counters (cur : Bytes)
    (h : Direct v (destinationPaths P base files) base files id done
      (cur ++ rest.take readBufSize) job fs) (hopened : job.dataStream ≠ none)
    (hentry : files[done.length]? = some entry)
    (hsizes : done.map (fun e => e.2.length) = (files.take done.length).map (·.size))
    (hsize : entry.size = cur.length + rest.length)
    (hcounters : job.counters = (cur.length + (rest.take readBufSize).length,
      decide (rest.length = 0),
      ((done.map fun e => e.2.length).sum + cur.length + (rest.take readBufSize).length) % 2 ^ 64,
      (files.map (·.size)).sum)) (hmax : (files.map (·.size)).sum < 2 ^ 64) :
    Sent P v base files id done (cur ++ rest.take readBufSize) (rest.drop readBufSize)
      (decide (rest.length = 0)) job fs := by
  simp only [counters, Prod.mk.injEq] at hcounters
  obtain ⟨hbytes, heof, hfinished, htotal⟩ := hcounters
  have hle := sum_take_le hentry
  have hlen : (rest.take readBufSize).length + (rest.drop readBufSize).length = rest.length := by
    rw [← List.length_append, List.take_append_drop]
  refine ⟨h, hopened, hsizes, fun e he => ?_, ?_, heof, ?_, htotal⟩
  · rw [hentry] at he
    cases he
    rw [List.length_append]
    omega
  · rw [hbytes, List.length_append]
  · rw [hfinished, List.length_append, Nat.mod_eq_of_lt]
    · omega
    · rw [hsizes]
      omega

/-- The next block of the open file is accepted. -/
theorem Sent.write (h : Sent P v base files id done cur rest false job fs)
    (hcount : files.length ≤ 2 ^ 31) (hmax : (files.map (·.size)).sum < 2 ^ 64)
    (hentry : files[done.length]? = some entry)
    (hblock : Carries P id done.length (rest.take readBufSize) block) :
    (job.write P fs block).result = .ok () ∧
      Sent P v base files id done (cur ++ rest.take readBufSize) (rest.drop readBufSize)
        (decide (rest.length = 0)) (job.write P fs block).job (job.write P fs block).fs := by
  have hn := (List.getElem?_eq_some_iff.mp hentry).1
  have hsize := h.size entry hentry
  have hle := sum_take_le hentry
  have hat : job.sizeAt done.length = cur.length + rest.length := by
    rw [sizeAt, h.direct.fixed.files, declaredSize, hentry]
    exact hsize
  have hlen : (rest.take readBufSize).length = min rest.length directTransferMaxBlockBytes := by
    rw [List.length_take, Nat.min_comm]
    rfl
  have hfinished : job.finishedSize + rest.length ≤ job.totalSize := by
    rw [h.finished, h.total, h.sizes]
    omega
  have hdecode : job.decodeBlock P block = .ok (rest.take readBufSize) := by
    refine decodeBlock_carried h.direct.fixed hn hblock ?_
    rw [if_pos h.direct.fileNum.symm, hat, h.bytes, Nat.add_sub_cancel_left, hlen]
  have hadm : job.admitBlock fs block (rest.take readBufSize) = .ok (job.withCounters
      (cur.length + (rest.take readBufSize).length) (decide (rest.length = 0))) fs := by
    have hsame : job.advanceDirectFile block.fileNum = .ok job := by
      have hnum : block.fileNum = job.fileNum := hblock.fileNum.trans h.direct.fileNum.symm
      rw [advanceDirectFile, if_neg (by omega), if_neg (by omega)]
    have hfits : ¬ directTransferMaxBlockBytes < (rest.take readBufSize).length := by
      rw [hlen]
      exact not_lt.mpr (Nat.min_le_right _ _)
    rw [admitBlock, if_pos h.direct.fixed.strict, if_neg hfits, hsame, hblock.fileNum,
      Int.toNat_natCast]
    dsimp only
    rw [countDirectBlock_expected fs (hat.trans (by rw [h.bytes])) hlen h.ended hfinished
      (h.total ▸ hmax) (by omega), h.bytes]
  have hwrite : job.write P fs block = ((job.withCounters
      (cur.length + (rest.take readBufSize).length)
      (decide (rest.length = 0))).openForBlock P fs block).andThen fun job fs =>
        job.appendBlock fs block (rest.take readBufSize) := by
    simp only [TransferJob.write, hdecode, hadm, Outcome.ok_andThen]
  have hzero : declaredSize files done.length = 0 → rest.take readBufSize = [] := by
    intro hz
    rw [declaredSize, hentry] at hz
    have hrest : rest = [] := List.eq_nil_of_length_eq_zero (by
      have : entry.size = 0 := hz
      omega)
    rw [hrest, List.take_nil]
  obtain ⟨hres, hopened, hnext⟩ := write_direct_stay (h.direct.withCounters
    (cur.length + (rest.take readBufSize).length) (decide (rest.length = 0))) h.opened
    hblock.fileNum (by omega) hzero
  rw [hwrite]
  refine ⟨hres, sent_of_counters _ hnext hopened hentry h.sizes hsize ?_ hmax⟩
  rw [written_counters hres]
  simp only [withCounters, h.finished, h.total]

theorem Between.fixed (h : Between P v base files id done job fs) :
    Writing base files id true job := by
  cases h with
  | fresh direct _ _ _ => exact direct.fixed
  | ended _ sent => exact sent.direct.fixed

theorem Between.front (h : Between P v base files id done job fs) :
    done.map Prod.fst = (destinationPaths P base files).take done.length := by
  cases h with
  | fresh _ _ _ _ => rfl
  | ended hp sent =>
    rw [List.length_append, List.length_singleton, List.take_add_one, ← sent.direct.front, hp]
    simp

/-- The files in front have their declared sizes. -/
theorem Between.sizes (h : Between P v base files id done job fs) :
    done.map (fun e => e.2.length) = (files.take done.length).map (·.size) := by
  cases h with
  | fresh _ _ _ _ => rfl
  | ended hp sent =>
    obtain ⟨entry, hentry, -⟩ := entry_of_path hp
    have hsize := sent.size entry hentry
    rw [List.length_append, List.length_singleton, List.take_add_one, hentry, List.map_append,
      List.map_append, sent.sizes]
    simp [hsize]

theorem Between.counted (h : Between P v base files id done job fs) :
    job.finishedSize = (done.map fun e => e.2.length).sum ∧
      job.totalSize = (files.map (·.size)).sum := by
  cases h with
  | fresh _ _ _ counters =>
    simp only [TransferJob.counters, Prod.mk.injEq] at counters
    exact ⟨counters.2.2.1, counters.2.2.2⟩
  | ended _ sent =>
    refine ⟨?_, sent.total⟩
    rw [sent.finished]
    simp

/-- The first block of the next file passes the bookkeeping. -/
theorem Between.admit (h : Between P v base files id done job fs) (hcount : files.length ≤ 2 ^ 31)
    (hmax : (files.map (·.size)).sum < 2 ^ 64) (hentry : files[done.length]? = some entry)
    (hsize : entry.size = rest.length)
    (hblock : Carries P id done.length (rest.take readBufSize) block) :
    job.decodeBlock P block = .ok (rest.take readBufSize) ∧
      job.admitBlock fs block (rest.take readBufSize) = .ok (job.withCounters
        (rest.take readBufSize).length (decide (rest.length = 0))) fs := by
  have hn := (List.getElem?_eq_some_iff.mp hentry).1
  have hle := sum_take_le hentry
  have hat : job.sizeAt done.length = rest.length := by
    rw [sizeAt, h.fixed.files, declaredSize, hentry]
    exact hsize
  have hlen : (rest.take readBufSize).length = min rest.length directTransferMaxBlockBytes := by
    rw [List.length_take, Nat.min_comm]
    rfl
  have hfinished : job.finishedSize + rest.length ≤ job.totalSize := by
    rw [h.counted.1, h.counted.2, h.sizes]
    omega
  have hfits : ¬ directTransferMaxBlockBytes < (rest.take readBufSize).length := by
    rw [hlen]
    exact not_lt.mpr (Nat.min_le_right _ _)
  -- Both ways into the next file start its count at zero.
  obtain ⟨hreceived, hadvance⟩ : (if (done.length : Int) = job.fileNum then
        job.directCurrentFileBytes else 0) = 0 ∧
      job.advanceDirectFile done.length = .ok (job.withCounters 0 false) := by
    cases h with
    | fresh direct _ _ counters =>
      simp only [TransferJob.counters, Prod.mk.injEq] at counters
      have hnum : job.fileNum = ((0 : Nat) : Int) := direct.fileNum
      refine ⟨by rw [counters.1, ite_self], ?_⟩
      rw [advanceDirectFile, if_neg (by rw [hnum]; simp), if_neg (by rw [hnum]; simp),
        withCounters, ← counters.1, ← counters.2.1]
    | @ended done path c job fs hp sent =>
      obtain ⟨last, hlast, -⟩ := entry_of_path hp
      have hnum : job.fileNum = done.length := sent.direct.fileNum
      have hnext : ((done ++ [(path, c)]).length : Int) = done.length + 1 := by simp
      have hend : job.directCurrentFileBytes = job.sizeAt (asUsize job.fileNum) := by
        rw [sent.bytes, hnum, asUsize_natCast (by rw [List.length_append] at hn; omega), sizeAt,
          sent.direct.fixed.files, declaredSize, hlast]
        simpa using (sent.size last hlast).symm
      have hseq : ¬ (((done ++ [(path, c)]).length : Int) ≠ saturatingAddI32 job.fileNum 1 ∨
          job.dataStream.isNone = true ∨ ¬ job.directCurrentFileEofSeen = true ∨
          job.directCurrentFileBytes ≠ job.sizeAt (asUsize job.fileNum)) := by
        rw [not_or, not_or, not_or, not_not, not_not, not_not]
        refine ⟨?_, ?_, sent.ended, hend⟩
        · rw [List.length_append, List.length_singleton] at hn
          rw [hnext, hnum, saturatingAddI32_one (by omega)]
        · rw [Bool.not_eq_true, Option.isNone_eq_false_iff]
          exact Option.isSome_iff_ne_none.mpr sent.opened
      refine ⟨if_neg (by rw [hnext, hnum]; omega), ?_⟩
      rw [advanceDirectFile, if_neg (by rw [hnext, hnum]; omega),
        if_pos (by rw [hnext, hnum]; omega), if_neg hseq]
      rfl
  refine ⟨decodeBlock_carried h.fixed hn hblock ?_, ?_⟩
  · rw [hreceived, Nat.sub_zero, hat, hlen]
  · rw [admitBlock, if_pos h.fixed.strict, if_neg hfits, hblock.fileNum, hadvance,
      Int.toNat_natCast]
    dsimp only
    have hstart : (job.withCounters 0 false).sizeAt done.length =
        (job.withCounters 0 false).directCurrentFileBytes + rest.length := by
      rw [← hat]
      simp [withCounters, sizeAt]
    have hcountBlock := countDirectBlock_expected fs hstart hlen rfl hfinished
      (show job.totalSize < 2 ^ 64 by rw [h.counted.2]; exact hmax)
      (show job.sizeAt done.length < 2 ^ 64 by omega)
    rw [hcountBlock]
    simp [withCounters]

section Run

variable (hl : Layout root (destinationPaths P base files)) (hv : Vacant root v)
  (hnames : ∀ f ∈ files, validateFileNameNoTraversal P f.name = .ok ())
  (hcount : files.length ≤ 2 ^ 31) (hmax : (files.map (·.size)).sum < 2 ^ 64)

include hl hv hnames hcount hmax

/-- The first block of the next file is refused exactly where the file is blocked. -/
theorem Between.write (h : Between P v base files id done job fs)
    (hentry : files[done.length]? = some entry) (hsize : entry.size = rest.length)
    (hblock : Carries P id done.length (rest.take readBufSize) block) :
    ((job.write P fs block).result = .ok () ∧
      Sent P v base files id done (rest.take readBufSize) (rest.drop readBufSize)
        (decide (rest.length = 0)) (job.write P fs block).job (job.write P fs block).fs) ∨
    ((job.write P fs block).result ≠ .ok () ∧
      sideNames.Blocked (sideNames.putAll v done) (P.join base entry.name)) := by
  obtain ⟨hdecode, hadm⟩ := h.admit hcount hmax hentry hsize hblock
  have hn := (List.getElem?_eq_some_iff.mp hentry).1
  have hwrite : job.write P fs block = ((job.withCounters (rest.take readBufSize).length
      (decide (rest.length = 0))).openForBlock P fs block).andThen fun job fs =>
        job.appendBlock fs block (rest.take readBufSize) := by
    simp only [TransferJob.write, hdecode, hadm, Outcome.ok_andThen]
  have hzero : declaredSize files done.length = 0 → rest.take readBufSize = [] := by
    intro hz
    rw [declaredSize, hentry] at hz
    have hrest : rest = [] := List.eq_nil_of_length_eq_zero (hsize.symm.trans hz)
    rw [hrest, List.take_nil]
  have hsizes := h.sizes
  have hcounted := h.counted
  rw [hwrite]
  cases h with
  | fresh direct closed view counters =>
    obtain ⟨hkeep, ⟨hres, hopened, hcur⟩ | ⟨hres, hclosed, hcur⟩⟩ :=
      (direct.withCounters (rest.take readBufSize).length (decide (rest.length = 0))).reopened
        hl hv hnames hcount closed hentry hblock.fileNum (rest.take readBufSize)
    · refine .inl ⟨hres, ?_⟩
      have hnext := (direct.withCounters (rest.take readBufSize).length
        (decide (rest.length = 0))).extend hentry hzero hkeep hopened hcur
      refine sent_of_counters [] hnext hopened hentry hsizes
        (by rw [hsize]; simp) ?_ hmax
      rw [written_counters hres]
      simp [withCounters, hcounted.1, hcounted.2]
    · refine .inr ⟨hres, ?_⟩
      rcases hcur.state with ⟨-, mark, hrec⟩ | ⟨hb, -⟩
      · rw [hrec.stream] at hclosed
        cases hclosed
      · exact hb
  | @ended done path c job fs hp sent =>
    have hlen : (done ++ [(path, c)]).length = done.length + 1 := by simp
    rw [hlen] at hentry hn hzero
    have hnum : block.fileNum = done.length + 1 := by
      rw [hblock.fileNum, hlen]
      rfl
    have hat : files[done.length + 1] = entry := (List.getElem?_eq_some_iff.mp hentry).2
    obtain ⟨path', hor⟩ := write_direct_next hl hv hnames hcount (sent.direct.withCounters
      (rest.take readBufSize).length (decide (rest.length = 0))) sent.opened hnum hn hzero
    have hpath : path' = path := by
      have hfront : (done ++ [(path', c)]).map Prod.fst =
          (destinationPaths P base files).take (done ++ [(path', c)]).length := by
        rcases hor with ⟨-, -, hnext⟩ | ⟨-, -, hnext⟩
        · exact hnext.front
        · exact hnext.front
      rw [List.length_append, List.length_singleton, List.take_add_one, hp,
        ← sent.direct.front] at hfront
      simpa using hfront
    subst hpath
    rcases hor with ⟨hres, hopened, hnext⟩ | ⟨hres, hb, -⟩
    · refine .inl ⟨hres, ?_⟩
      refine sent_of_counters [] hnext hopened (by rw [hlen, hentry]) hsizes
        (by rw [hsize]; simp) ?_ hmax
      rw [written_counters hres]
      simp only [withCounters, hcounted.1, hcounted.2, List.length_nil, Nat.zero_add, Nat.add_zero]
    · exact .inr ⟨hres, hat ▸ hb⟩

omit hl hv hnames

/-- The remaining blocks of the open file are accepted. -/
theorem Sent.pieces {bs : List FileTransferBlock} (hentry : files[done.length]? = some entry)
    (h : Sent P v base files id done cur rest false job fs)
    (hbs : List.Forall₂ (Carries P id done.length) (pieces rest) bs) :
    job.AllWritten P fs bs ∧ Sent P v base files id done (cur ++ rest) [] true
      (job.writeAll P fs bs).1 (job.writeAll P fs bs).2 := by
  induction rest using MDesk.pieces.induct generalizing cur job fs bs with
  | case1 =>
    rw [pieces_nil] at hbs
    cases hbs with
    | cons hblock htail =>
      cases htail
      obtain ⟨hres, hnext⟩ := h.write hcount hmax hentry hblock
      exact ⟨⟨hres, trivial⟩, hnext⟩
  | case2 rest hne ih =>
    rw [pieces_of_ne_nil hne] at hbs
    cases hbs with
    | cons hblock htail =>
      obtain ⟨hres, hnext⟩ := h.write hcount hmax hentry hblock
      have hlen : ¬ rest.length = 0 := fun hz => hne (List.eq_nil_of_length_eq_zero hz)
      rw [decide_eq_false hlen] at hnext
      obtain ⟨hall, hend⟩ := ih hnext htail
      rw [List.append_assoc, List.take_append_drop] at hend
      exact ⟨⟨hres, hall⟩, hend⟩

include hl hv hnames

/-- The blocks of the next file are all accepted, or its first one is refused. -/
theorem Between.file {bs : List FileTransferBlock} (h : Between P v base files id done job fs)
    (hentry : files[done.length]? = some entry) (hsize : entry.size = rest.length)
    (hbs : List.Forall₂ (Carries P id done.length) (MDesk.pieces rest) bs) :
    (job.AllWritten P fs bs ↔
        ¬ sideNames.Blocked (sideNames.putAll v done) (P.join base entry.name)) ∧
      (job.AllWritten P fs bs →
        Between P v base files id (done ++ [(P.join base entry.name, rest)])
          (job.writeAll P fs bs).1 (job.writeAll P fs bs).2) := by
  have hp : (destinationPaths P base files)[done.length]? = some (P.join base entry.name) := by
    rw [destinationPaths, List.getElem?_map, hentry, Option.map_some]
  by_cases hnil : rest = []
  · subst hnil
    rw [pieces_nil] at hbs
    cases hbs with
    | cons hblock htail =>
      cases htail
      rcases h.write hl hv hnames hcount hmax hentry hsize hblock with ⟨hres, hnext⟩ | ⟨hres, hb⟩
      · exact ⟨iff_of_true ⟨hres, trivial⟩ (hnext.not_blocked hp), fun _ => .ended hp hnext⟩
      · exact ⟨iff_of_false (fun hall => hres hall.1) (not_not.mpr hb),
          fun hall => absurd hall.1 hres⟩
  · rw [pieces_of_ne_nil hnil] at hbs
    cases hbs with
    | cons hblock htail =>
      have hlen : ¬ rest.length = 0 := fun hz => hnil (List.eq_nil_of_length_eq_zero hz)
      rcases h.write hl hv hnames hcount hmax hentry hsize hblock with ⟨hres, hnext⟩ | ⟨hres, hb⟩
      · rw [decide_eq_false hlen] at hnext
        obtain ⟨hall, hend⟩ := hnext.pieces hcount hmax hentry htail
        rw [List.take_append_drop] at hend
        exact ⟨iff_of_true ⟨hres, hall⟩ (hnext.not_blocked hp), fun _ => .ended hp hend⟩
      · exact ⟨iff_of_false (fun hall => hres hall.1) (not_not.mpr hb),
          fun hall => absurd hall.1 hres⟩

/-- The blocks of all files behind the finished ones. -/
theorem Between.all (h : Between P v base files id done job fs) {cs : List Bytes}
    {blocks : List FileTransferBlock} (hcs : (files.drop done.length).map (·.size) =
      cs.map List.length) (hblocks : Delivers P id done.length cs blocks) :
    (job.AllWritten P fs blocks ↔ sideNames.Unblocked (sideNames.putAll v done)
        (((destinationPaths P base files).drop done.length).zip cs)) ∧
      (job.AllWritten P fs blocks → Between P v base files id
        (done ++ ((destinationPaths P base files).drop done.length).zip cs)
        (job.writeAll P fs blocks).1 (job.writeAll P fs blocks).2) := by
  induction cs generalizing done job fs blocks with
  | nil =>
    cases hblocks
    rw [List.zip_nil_right, List.append_nil]
    exact ⟨iff_of_true trivial trivial, fun _ => h⟩
  | cons c cs ih =>
    cases hdrop : files.drop done.length with
    | nil =>
      rw [hdrop] at hcs
      cases hcs
    | cons entry later =>
      rw [hdrop, List.map_cons, List.map_cons, List.cons.injEq] at hcs
      obtain ⟨hsize, hcs⟩ := hcs
      have hentry : files[done.length]? = some entry := by
        rw [← List.head?_drop, hdrop, List.head?_cons]
      have hlater : files.drop (done.length + 1) = later := by
        rw [← List.tail_drop, hdrop, List.tail_cons]
      have hpaths : (destinationPaths P base files).drop done.length =
          P.join base entry.name :: (destinationPaths P base files).drop (done.length + 1) := by
        rw [destinationPaths, ← List.map_drop, hdrop, List.map_cons, ← hlater, List.map_drop]
      cases hblocks with
      | @file _ _ _ bs rest hbs hnext =>
        obtain ⟨hiff, hbetween⟩ := h.file hl hv hnames hcount hmax hentry hsize hbs
        have hlen : (done ++ [(P.join base entry.name, c)]).length = done.length + 1 := by simp
        rw [allWritten_append, writeAll_append, hpaths, List.zip_cons_cons, SideNames.Unblocked,
          ← hiff]
        have htail (hall : job.AllWritten P fs bs) := ih (hbetween hall)
          (by rw [hlen, hlater, hcs]) (hlen ▸ hnext)
        rw [hlen, List.append_assoc, SideNames.putAll_append] at htail
        exact ⟨and_congr_right fun hall => (htail hall).1, fun hall => (htail hall.1).2 hall.2⟩

omit hmax

/-- With all files received, finalising goes on to the last pass. -/
theorem Between.finish (h : Between P v base files id done job fs)
    (hdone : done.length = files.length) :
    job.currentFileEnded = true ∧ Ready P (sideNames.putAll v done) job fs := by
  cases h with
  | fresh direct closed view _ =>
    have hnum : job.fileNum = 0 := direct.fileNum
    have hnil : job.files[(0 : Int).toNat]? = none := by
      rw [direct.fixed.files, List.getElem?_eq_none]
      rw [← hdone]
      simp
    refine ⟨?_, ready_of_closed closed view⟩
    rw [currentFileEnded, hnum, if_neg (by omega), hnil]
  | @ended done path c job fs hp sent =>
    obtain ⟨entry, hentry, -⟩ := entry_of_path hp
    refine ⟨?_, ?_⟩
    · have hsize := sent.size entry hentry
      have hat : job.files[job.fileNum.toNat]? = some entry := by
        rw [sent.direct.fixed.files, sent.direct.fileNum, Int.toNat_natCast, hentry]
      have hpos : ¬ job.fileNum < 0 := by
        rw [sent.direct.fileNum]
        omega
      rw [currentFileEnded, if_neg hpos, hat]
      simpa [sent.bytes, sent.ended] using hsize.symm
    · rcases sent.direct.state with ⟨hnone, -⟩ | ⟨path', hp', hcur⟩
      · exact absurd hnone sent.opened
      · rw [hp] at hp'
        cases hp'
        exact sent.direct.ready_open hl hv hnames hcount hp hcur sent.opened

/-- With all files received, finalising succeeds exactly when the last pass does. -/
theorem Between.finalize (h : Between P v base files id done job fs)
    (hdone : done.length = files.length) :
    ((job.finalizeDirectWrite P fs).result = .ok () →
        sideNames.Settles (settleList P base files) (sideNames.putAll v done)
          (job.finalizeDirectWrite P fs).fs.lookup) ∧
      ∀ v', sideNames.Settles (settleList P base files) (sideNames.putAll v done) v' →
        (job.finalizeDirectWrite P fs).result = .ok () ∧
          (job.finalizeDirectWrite P fs).fs.lookup = v' := by
  obtain ⟨hended, hready⟩ := h.finish hl hv hnames hcount hdone
  have htidy : Tidy root (destinationPaths P base files) (sideNames.putAll v done) :=
    sideNames.tidy_putAll hv.tidy.mono hl (mem_of_front h.front)
  refine ⟨settles_of_finalize hl h.fixed hnames htidy hready, fun v' hs => ?_⟩
  obtain ⟨fs', hfin, hfs'⟩ := hready
  obtain ⟨job', hjob'⟩ : ∃ job' : TransferJob, { job with dataStream := none } = job' := ⟨_, rfl⟩
  have hfiles : job'.files = files := by rw [← hjob', ← h.fixed.files]
  have hsource : job'.dataSource = .filePath base := by rw [← hjob', ← h.fixed.source]
  have hfinal : job.finalizeDirectWrite P fs = job'.verifyDirectFiles P fs' := by
    rw [finalizeDirectWrite, if_pos hended, hfin, Outcome.ok_andThen, hjob']
  have htotal : job'.finishedSize = job'.totalSize := by
    rw [← hjob']
    show job.finishedSize = job.totalSize
    rw [h.counted.1, h.counted.2, h.sizes, hdone, List.take_length]
  rw [hfinal]
  refine verify_of_settles hl hsource htotal (hfiles ▸ hnames) (fun e he => ?_)
    (hfs' ▸ htidy) (hfiles ▸ hfs' ▸ hs)
  rw [hfiles] at he
  exact List.mem_map_of_mem he

end Run

end Steps

section Complete

variable (P)

/-- All blocks are accepted, the receiver finishes, and every declared file holds what its
source file holds. -/
structure Transferred (src : Fs) (source base : PathBuf) (receiver : TransferJob) (dst : Fs)
    (files : List FileEntry) (blocks : List FileTransferBlock) : Prop where
  written : receiver.AllWritten P dst blocks
  finalized : ((receiver.writeAll P dst blocks).1.finalizeDirectWrite P
    (receiver.writeAll P dst blocks).2).result = .ok ()
  equal : ∀ entry ∈ files, ((receiver.writeAll P dst blocks).1.finalizeDirectWrite P
      (receiver.writeAll P dst blocks).2).fs.lookup (P.join base entry.name) =
    src.lookup (sourcePath source entry.name)

/-- No path lies below a side name of a later file; and a file that is missing when the
last pass reaches it is an empty one whose staging name is no directory above a declared
file and no earlier file. -/
structure StagingSafe (paths : List PathBuf) (files : List FileEntry) : Prop where
  opens : paths.Pairwise fun p q =>
    ¬ downloadPath q <+: p.dropLast ∧ ¬ digestPath q <+: p.dropLast
  settles : ∀ e p, paths[e]? = some p →
    sideNames.Missing paths (sideNames.Lost paths paths.length) e →
    declaredSize files e = 0 ∧ (∀ q ∈ paths, ¬ downloadPath p <+: q.dropLast) ∧
      ∀ i < e, paths[i]? ≠ some (downloadPath p)

variable {P} {src dst : Fs} {source base root : PathBuf} {id : Int} {sender receiver : TransferJob}
  {manifest : DirectTransferManifest} {modified : PathBuf → Nat} {files : List FileEntry}

/-- What the last pass needs of the paths, read off the view it starts with. -/
theorem made_iff {v : View String UInt8} {batch : List (PathBuf × Bytes)} (hv : Vacant root v)
    (hl : Layout root (destinationPaths P base files)) (hopen : sideNames.Unblocked v batch)
    (hfront : batch.map Prod.fst = destinationPaths P base files) :
    (∀ (e : Nat) (p : PathBuf) (n : Nat), (settleList P base files)[e]? = some (p, n) →
      sideNames.Missing (destinationPaths P base files) (sideNames.Lost
        (destinationPaths P base files) (destinationPaths P base files).length) e →
      n = 0 ∧ sideNames.putAll v batch (sideNames.stage p) ≠ some .dir ∧
        ∀ i < e, (destinationPaths P base files)[i]? ≠ some (sideNames.stage p)) ↔
    ∀ e p, (destinationPaths P base files)[e]? = some p →
      sideNames.Missing (destinationPaths P base files) (sideNames.Lost
        (destinationPaths P base files) (destinationPaths P base files).length) e →
      declaredSize files e = 0 ∧
        (∀ q ∈ destinationPaths P base files, ¬ downloadPath p <+: q.dropLast) ∧
        ∀ i < e, (destinationPaths P base files)[i]? ≠ some (downloadPath p) := by
  have hmem : ∀ e ∈ batch, e.1 ∈ destinationPaths P base files := fun e he =>
    hfront ▸ List.mem_map_of_mem he
  -- The directories of the view are the ones above the files.
  have hdir : ∀ p ∈ destinationPaths P base files,
      (sideNames.putAll v batch (downloadPath p) = some .dir ↔
        ∃ q ∈ destinationPaths P base files, downloadPath p <+: q.dropLast) := by
    intro p hp
    constructor
    · intro hd
      rcases sideNames.dir_of_putAll hd with ⟨e, he, hpre⟩ | hvd
      · exact ⟨e.1, hmem e he, hpre⟩
      · obtain ⟨hroot, hne⟩ := hl.below_of_dropLast hp (withSuffix_ne_nil ".download" p)
          (withSuffix_dropLast ".download" p)
        have hnone : v (downloadPath p) = none := hv.empty _ hroot hne
        rw [hnone] at hvd
        cases hvd
    · rintro ⟨q, hq, hpre⟩
      rw [← hfront] at hq
      obtain ⟨e, he, rfl⟩ := List.mem_map.mp hq
      exact hopen.above hl hmem he hpre
  have hentry : ∀ (e : Nat) (p : PathBuf), (destinationPaths P base files)[e]? = some p →
      (settleList P base files)[e]? = some (p, declaredSize files e) := by
    intro e p hp
    obtain ⟨entry, he, rfl⟩ := entry_of_path hp
    rw [settleList, List.getElem?_map, he, declaredSize, he]
    rfl
  constructor
  · intro h e p hp hm
    obtain ⟨hzero, hd, hfirst⟩ := h e p _ (hentry e p hp) hm
    exact ⟨hzero, fun q hq hpre => hd ((hdir p (List.mem_of_getElem? hp)).mpr ⟨q, hq, hpre⟩),
      hfirst⟩
  · intro h e p n he hm
    have hp : (destinationPaths P base files)[e]? = some p := by
      rw [settleList, List.getElem?_map] at he
      obtain ⟨entry, hentry, heq⟩ := Option.map_eq_some_iff.mp he
      rw [destinationPaths, List.getElem?_map, hentry]
      exact congrArg (fun r : PathBuf × Nat => some r.1) heq
    have hn : declaredSize files e = n := by
      have := (hentry e p hp).symm.trans he
      cases this
      rfl
    obtain ⟨hzero, hbelow, hfirst⟩ := h e p hp hm
    refine ⟨hn ▸ hzero, fun hd => ?_, hfirst⟩
    obtain ⟨q, hq, hpre⟩ := (hdir p (List.mem_of_getElem? hp)).mp hd
    exact hbelow q hq hpre

/-- The last pass over a complete batch keeps all files exactly under the second condition. -/
theorem pass_all_iff {v : View String UInt8} {batch : List (PathBuf × Bytes)}
    (hv : Vacant root v) (hl : Layout root (destinationPaths P base files))
    (hopen : sideNames.Unblocked v batch)
    (hfront : batch.map Prod.fst = destinationPaths P base files)
    (hsizes : batch.map (fun e => e.2.length) = files.map (·.size)) :
    (∃ v', sideNames.Settles (settleList P base files) (sideNames.putAll v batch) v' ∧
        ∀ p ∈ destinationPaths P base files, v' p ≠ none) ↔
      ∀ e p, (destinationPaths P base files)[e]? = some p →
        sideNames.Missing (destinationPaths P base files) (sideNames.Lost
          (destinationPaths P base files) (destinationPaths P base files).length) e →
        declaredSize files e = 0 ∧
          (∀ q ∈ destinationPaths P base files, ¬ downloadPath p <+: q.dropLast) ∧
          ∀ i < e, (destinationPaths P base files)[i]? ≠ some (downloadPath p) := by
  have hlen : batch.length = (destinationPaths P base files).length := by
    rw [← hfront, List.length_map]
  have hfront' : batch.map Prod.fst = (destinationPaths P base files).take batch.length := by
    rw [hlen, List.take_length, hfront]
  have hmem := mem_of_front hfront'
  have hsettled : (settleList P base files).map Prod.fst = destinationPaths P base files := by
    rw [settleList, List.map_map]
    rfl
  rw [← made_iff hv hl hopen hfront]
  refine sideNames.settles_all_iff hl (sideNames.tidy_putAll hv.tidy.mono hl hmem) hsettled
    (fun e p hp => ?_) (fun p hp q hq => ?_) (fun f hf c hc => ?_)
  · rw [sideNames.putAll_none_iff hv hl hfront' hp, hlen]
  · rw [← hfront] at hp
    obtain ⟨e, he, rfl⟩ := List.mem_map.mp hp
    exact hopen.above hl hmem he hq
  · obtain ⟨entry, hentry, rfl⟩ := List.mem_map.mp hf
    obtain ⟨i, hi⟩ := List.getElem?_of_mem hentry
    have hp : (destinationPaths P base files)[i]? = some (P.join base entry.name) := by
      rw [destinationPaths, List.getElem?_map, hi, Option.map_some]
    have hat := sideNames.content_of_putAll hv hl hfront' hp hc
    have hsize := congrArg (·[i]?) hsizes
    simp only [List.getElem?_map, hat, hi, Option.map_some, Option.some.injEq] at hsize
    exact hsize

/-- The blocks of the declared files are all accepted, and the files are in place after a
successful finalisation, exactly when the staging names are safe. -/
theorem Between.complete_iff {v : View String UInt8} {job : TransferJob} {fs : Fs}
    (h : Between P v base files id [] job fs)
    (hl : Layout root (destinationPaths P base files)) (hv : Vacant root v)
    (hnames : ∀ f ∈ files, validateFileNameNoTraversal P f.name = .ok ())
    (hcount : files.length ≤ 2 ^ 31) (hmax : (files.map (·.size)).sum < 2 ^ 64)
    {cs : List Bytes} {blocks : List FileTransferBlock}
    (hcs : files.map (·.size) = cs.map List.length) (hblocks : Delivers P id 0 cs blocks) :
    (job.AllWritten P fs blocks ∧
        ((job.writeAll P fs blocks).1.finalizeDirectWrite P
          (job.writeAll P fs blocks).2).result = .ok () ∧
        ∀ e ∈ (destinationPaths P base files).zip cs,
          ((job.writeAll P fs blocks).1.finalizeDirectWrite P
            (job.writeAll P fs blocks).2).fs.lookup e.1 = some (.file e.2)) ↔
      StagingSafe (destinationPaths P base files) files := by
  obtain ⟨batch, hbatch⟩ : ∃ batch, (destinationPaths P base files).zip cs = batch := ⟨_, rfl⟩
  have hlen : (destinationPaths P base files).length = files.length := by
    rw [destinationPaths, List.length_map]
  have hcsLen : cs.length = files.length := by
    have := congrArg List.length hcs
    simpa using this.symm
  have hfront : batch.map Prod.fst = destinationPaths P base files := by
    rw [← hbatch, List.map_fst_zip]
    omega
  have hsnd : batch.map Prod.snd = cs := by
    rw [← hbatch, List.map_snd_zip]
    omega
  have hbatchLen : batch.length = files.length := by
    rw [← hlen, ← hfront, List.length_map]
  have hsizes : batch.map (fun e => e.2.length) = files.map (·.size) := by
    rw [hcs, ← hsnd, List.map_map]
    rfl
  have hfront' : batch.map Prod.fst = (destinationPaths P base files).take batch.length := by
    rw [hbatchLen, ← hlen, List.take_length, hfront]
  have hmem := mem_of_front hfront'
  obtain ⟨hall, hend⟩ := h.all hl hv hnames hcount hmax hcs hblocks
  rw [List.length_nil, List.drop_zero, hbatch, List.nil_append] at hend
  rw [List.length_nil, List.drop_zero, hbatch, SideNames.putAll_nil] at hall
  have hpair : sideNames.Unblocked v batch ↔ (destinationPaths P base files).Pairwise fun p q =>
      ¬ downloadPath q <+: p.dropLast ∧ ¬ digestPath q <+: p.dropLast := by
    rw [sideNames.unblocked_iff hv hl hmem, ← hfront, List.pairwise_map]
  rw [hbatch]
  constructor
  · rintro ⟨hwritten, hfinal, hequal⟩
    have hopen := hall.mp hwritten
    have hs := ((hend hwritten).finalize hl hv hnames hcount hbatchLen).1 hfinal
    refine ⟨hpair.mp hopen, (pass_all_iff hv hl hopen hfront hsizes).mp ⟨_, hs, fun p hp => ?_⟩⟩
    rw [← hfront] at hp
    obtain ⟨e, he, rfl⟩ := List.mem_map.mp hp
    rw [hequal e he]
    rintro ⟨⟩
  · rintro ⟨hopens, hsettles⟩
    have hopen := hpair.mpr hopens
    have hwritten := hall.mpr hopen
    obtain ⟨v', hs, hthere⟩ := (pass_all_iff hv hl hopen hfront hsizes).mpr hsettles
    obtain ⟨hfinal, hview⟩ :=
      ((hend hwritten).finalize hl hv hnames hcount hbatchLen).2 v' hs
    refine ⟨hwritten, hfinal, fun e he => ?_⟩
    obtain ⟨content, hcontent⟩ := hl.exists_of_index fun i => (batch[i]?.map Prod.snd).getD []
    have hput : ∀ q ∈ destinationPaths P base files, ∀ c,
        sideNames.putAll v batch q = some (.file c) → c = content q := by
      intro q hq c hc
      obtain ⟨i, hi⟩ := List.getElem?_of_mem hq
      rw [hcontent i q hi, sideNames.content_of_putAll hv hl hfront' hi hc]
      rfl
    have hat : ∀ (i : Nat) (entry : FileEntry), files[i]? = some entry →
        (destinationPaths P base files)[i]? = some (P.join base entry.name) ∧
          (content (P.join base entry.name)).length = entry.size := by
      intro i entry hi
      have hp : (destinationPaths P base files)[i]? = some (P.join base entry.name) := by
        rw [destinationPaths, List.getElem?_map, hi, Option.map_some]
      refine ⟨hp, ?_⟩
      have hsize := congrArg (·[i]?) hsizes
      simp only [List.getElem?_map, hi, Option.map_some] at hsize
      obtain ⟨f, hf, hfsize⟩ := Option.map_eq_some_iff.mp hsize
      rw [hcontent i _ hp, hf]
      exact hfsize
    obtain ⟨hkeep, -⟩ := hs.contents sideNames hl (fun f hf => by
      obtain ⟨entry, hentry, rfl⟩ := List.mem_map.mp hf
      exact List.mem_map_of_mem hentry) hput (fun f hf hzero => by
      obtain ⟨entry, hentry, rfl⟩ := List.mem_map.mp hf
      obtain ⟨i, hi⟩ := List.getElem?_of_mem hentry
      exact List.eq_nil_of_length_eq_zero ((hat i entry hi).2.trans hzero))
    obtain ⟨i, hi⟩ := List.getElem?_of_mem he
    have hp : (destinationPaths P base files)[i]? = some e.1 := by
      rw [← hfront, List.getElem?_map, hi, Option.map_some]
    have hpmem := List.mem_of_getElem? hp
    have hcontentAt : content e.1 = e.2 := by
      rw [hcontent i _ hp, hi]
      rfl
    rw [hview]
    rcases hv' : v' e.1 with _ | ⟨c | _⟩
    · exact absurd hv' (hthere e.1 hpmem)
    · rw [hkeep e.1 hpmem c hv', hcontentAt]
    · refine absurd hv' ((hs.tidy sideNames (sideNames.tidy_putAll hv.tidy.mono hl hmem) hl
        ?_).not_dir
        hl hpmem)
      intro f hf
      obtain ⟨entry, hentry, rfl⟩ := List.mem_map.mp hf
      exact List.mem_map_of_mem hentry

/-- A transfer from an unchanged source tree to an empty destination is complete exactly
when the staging names of the files are safe. -/
theorem direct_transfer_complete_iff (hP : P.FoldsPaths)
    (hcompress : ∀ data, P.decompress (P.compress data) = data)
    (hmanifest : getDirectTransferManifest P src modified source = .ok manifest)
    (hsender : newDirectRead P id source manifest = .ok sender) (hbase : base ≠ [])
    (hempty : Vacant (receiveRoot base manifest.files) dst.lookup)
    (hreceiver : newDirectWrite P id manifest.rootName base dst manifest.files = .ok receiver) :
    (∃ blocks, sender.Sends P src blocks) ∧ ∀ blocks, sender.Sends P src blocks →
      (Transferred P src source base receiver dst manifest.files blocks ↔
        StagingSafe (destinationPaths P base manifest.files) manifest.files) := by
  obtain ⟨blocks, hsends, hdelivers⟩ := sends_manifest hcompress hmanifest hsender
  refine ⟨⟨blocks, hsends⟩, fun blocks' hsends' => ?_⟩
  obtain rfl := hsends.unique hsends'
  obtain ⟨hlayout, hrecords⟩ := records_of_manifest hmanifest
  have hl := layout_of_regular (regular_of_accepted hP hbase hlayout)
  have hnames := names_of_validate (newDirectWrite_eq hreceiver).1
  obtain ⟨hsum, htotal, hentries⟩ := total_of_accepted hlayout
  have hcount : manifest.files.length ≤ 2 ^ 31 := hentries.trans (by decide)
  have hmax : (manifest.files.map (·.size)).sum < 2 ^ 64 :=
    (hsum ▸ htotal).trans_lt (by decide)
  have hrec : ∀ entry ∈ manifest.files, entry.size = (sourceContents src source entry.name).length ∧
      src.lookup (sourcePath source entry.name) =
        some (.file (sourceContents src source entry.name)) := by
    intro entry he
    obtain ⟨n, hn, rfl⟩ := List.mem_iff_getElem.mp he
    have hget := hrecords.get hn (hrecords.length_eq ▸ hn)
    exact ⟨hget.size, hget.file⟩
  have hstart : Between P dst.lookup base manifest.files id [] receiver dst := by
    refine .fresh (newDirectWrite_direct hreceiver) ?_ rfl ?_
    · rw [(newDirectWrite_eq hreceiver).2]
      rfl
    · rw [(newDirectWrite_eq hreceiver).2]
      simp only [counters, newWrite, Nat.mod_eq_of_lt hmax]
  have hcs : manifest.files.map (·.size) =
      (manifest.files.map fun entry => sourceContents src source entry.name).map List.length := by
    rw [List.map_map]
    exact List.map_congr_left fun entry he => (hrec entry he).1
  rw [← hstart.complete_iff hl hempty hnames hcount hmax hcs hdelivers]
  have hzip : (destinationPaths P base manifest.files).zip
      (manifest.files.map fun entry => sourceContents src source entry.name) =
        manifest.files.map fun entry =>
          (P.join base entry.name, sourceContents src source entry.name) := List.zip_map' ..
  rw [hzip, List.forall_mem_map]
  constructor
  · rintro ⟨hwritten, hfinal, hequal⟩
    exact ⟨hwritten, hfinal, fun entry he => (hequal entry he).trans (hrec entry he).2⟩
  · rintro ⟨hwritten, hfinal, hequal⟩
    exact ⟨hwritten, hfinal, fun entry he => (hequal entry he).trans (hrec entry he).2.symm⟩

/-- Paths without a side name among them or above them are safe. -/
theorem stagingSafe_of_clear {paths : List PathBuf}
    (h : ∀ p ∈ paths, ∀ q ∈ paths, ¬ downloadPath q <+: p ∧ ¬ digestPath q <+: p) :
    StagingSafe paths files where
  opens := by
    refine List.pairwise_of_forall_mem_list fun p hp q hq => ?_
    obtain ⟨hstage, hside⟩ := h p hp q hq
    exact ⟨fun hpre => hstage (hpre.trans (List.dropLast_prefix p)),
      fun hpre => hside (hpre.trans (List.dropLast_prefix p))⟩
  settles e p hp hm := by
    have hnone : ∀ e, ¬ sideNames.Missing paths (sideNames.Lost paths paths.length) e ∨
        paths.length ≤ e := by
      intro e
      refine or_iff_not_imp_right.mpr fun hlt hm => ?_
      induction hm with
      | gone hgone =>
        rcases hgone with hle | ⟨j, p, q, -, -, hp, hq, rfl | rfl⟩
        · exact hlt hle
        · exact (h _ (List.mem_of_getElem? hp) q (List.mem_of_getElem? hq)).1 (List.prefix_refl _)
        · exact (h _ (List.mem_of_getElem? hp) q (List.mem_of_getElem? hq)).2 (List.prefix_refl _)
      | taken _ hp hq hstage _ _ =>
        subst hstage
        exact (h _ (List.mem_of_getElem? hq) _ (List.mem_of_getElem? hp)).1 (List.prefix_refl _)
    rcases hnone e with hnot | hle
    · exact absurd hm hnot
    · have := (List.getElem?_eq_some_iff.mp hp).1
      omega

/-- A source directory with two files. -/
def sourceFs (first second : String) : Fs :=
  ⟨[([], .dir), (["s"], .dir), (["s", first], .file [5]), (["s", second], .file [6, 7])]⟩

/-- The manifest of such a directory. -/
def sourceManifest (first second : String) : DirectTransferManifest where
  rootName := "s"
  isDirectory := true
  files := [fileNamed first 1, fileNamed second 2]
  emptyDirs := []
  totalSize := 3
  sourceIdentities := [{ fileSize := 1 }, { fileSize := 2 }]

/-- The job that sends such a directory. -/
def sourceJob (first second : String) : TransferJob :=
  { id := -7, remote := "Downloads", dataSource := .filePath ["s"], showHidden := true,
    isRemote := true, files := [fileNamed first 1, fileNamed second 2], totalSize := 3,
    strictDirectTransfer := true, directSourceIdentities := [{ fileSize := 1 }, { fileSize := 2 }] }

theorem direct_transfer_complete_iff_two :
    ∃ blocks, (sourceJob "a" "b").Sends .posix (sourceFs "a" "b") blocks ∧
      Transferred .posix (sourceFs "a" "b") ["s"] ["r"]
        { newWrite (-7) .generic "s" (.filePath ["r"]) 0 false true false with
          totalSize := 3, files := [fileNamed "a" 1, fileNamed "b" 2]
          neverOverwriteDestination := true, strictDirectTransfer := true }
        freshFs [fileNamed "a" 1, fileNamed "b" 2] blocks := by
  have hmanifest : getDirectTransferManifest .posix (sourceFs "a" "b") (fun _ => 0) ["s"] =
      .ok (sourceManifest "a" "b") := by decide
  have hsender : newDirectRead .posix (-7) ["s"] (sourceManifest "a" "b") =
      .ok (sourceJob "a" "b") := by decide
  have hroot : Vacant (receiveRoot ["r"] (sourceManifest "a" "b").files) freshFs.lookup :=
    vacant_freshFs
  have hreceiver : newDirectWrite .posix (-7) (sourceManifest "a" "b").rootName ["r"] freshFs
      (sourceManifest "a" "b").files = .ok
        { newWrite (-7) .generic "s" (.filePath ["r"]) 0 false true false with
          totalSize := 3, files := [fileNamed "a" 1, fileNamed "b" 2]
          neverOverwriteDestination := true, strictDirectTransfer := true } := by decide
  obtain ⟨⟨blocks, hsends⟩, hiff⟩ := direct_transfer_complete_iff posix_foldsPaths
    (fun data => rfl) hmanifest hsender (by decide) hroot hreceiver
  exact ⟨blocks, hsends, (hiff blocks hsends).mpr (stagingSafe_of_clear (by decide))⟩

/-- A tree with a file named like the staging file of the next one is not transferred. -/
theorem direct_transfer_loses_staging_name :
    ∃ manifest sender receiver blocks,
      getDirectTransferManifest .posix (sourceFs "a.download" "a") (fun _ => 0) ["s"] =
        .ok manifest ∧
      newDirectRead .posix (-7) ["s"] manifest = .ok sender ∧
      newDirectWrite .posix (-7) manifest.rootName ["r"] freshFs manifest.files = .ok receiver ∧
      Vacant (receiveRoot ["r"] manifest.files) freshFs.lookup ∧
      sender.Sends .posix (sourceFs "a.download" "a") blocks ∧
      ¬ Transferred .posix (sourceFs "a.download" "a") ["s"] ["r"] receiver freshFs
        manifest.files blocks := by
  refine ⟨sourceManifest "a.download" "a", sourceJob "a.download" "a",
    { newWrite (-7) .generic "s" (.filePath ["r"]) 0 false true false with
      totalSize := 3, files := [fileNamed "a.download" 1, fileNamed "a" 2]
      neverOverwriteDestination := true, strictDirectTransfer := true },
    [⟨-7, 0, [5], false⟩, ⟨-7, 0, [], false⟩, ⟨-7, 1, [6, 7], false⟩, ⟨-7, 1, [], false⟩],
    by decide, by decide, by decide, vacant_freshFs, ⟨5, by decide⟩, fun h => ?_⟩
  have hfinal := h.finalized
  revert hfinal
  decide

end Complete

end TransferJob

end MDesk
