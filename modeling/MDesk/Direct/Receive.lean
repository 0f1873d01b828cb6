import MDesk.Transfer.Manifest
import MDesk.Transfer.Settled
import MDesk.Transfer.Writing

/-!
# Receiving a direct transfer

The strict receiver against arbitrary blocks. Its bookkeeping may be left half updated
by a refused block, but the files only ever move forward: what stands at the
destination is the batch of the files received so far, each with the data accepted for
it. The last pass of the finalisation decides which of them survive.
-/

namespace MDesk

open MDesk.Core

namespace TransferJob

variable (P : Platform)

/-- The data a block adds to its file, nothing for a refused block. -/
def acceptedBlock (job : TransferJob) (fs : Fs) (block : FileTransferBlock) : List (Int × Bytes) :=
  match (job.write P fs block).result, job.decodeBlock P block with
  | .ok (), .ok data => [(block.fileNum, data)]
  | _, _ => []

theorem acceptedBlock_ok {P : Platform} {job : TransferJob} {fs : Fs} {block : FileTransferBlock}
    {data : Bytes} (hres : (job.write P fs block).result = .ok ())
    (hdec : job.decodeBlock P block = .ok data) :
    job.acceptedBlock P fs block = [(block.fileNum, data)] := by
  simp only [acceptedBlock, hres, hdec]

theorem acceptedBlock_refused {P : Platform} {job : TransferJob} {fs : Fs}
    {block : FileTransferBlock} (hres : (job.write P fs block).result ≠ .ok ()) :
    job.acceptedBlock P fs block = [] := by
  unfold acceptedBlock
  cases hr : (job.write P fs block).result with
  | ok u => exact absurd hr hres
  | error e => rfl

/-- The accepted blocks of a run, in order. -/
def acceptedAll (job : TransferJob) (fs : Fs) : List FileTransferBlock → List (Int × Bytes)
  | [] => []
  | block :: blocks =>
    let o := job.write P fs block
    job.acceptedBlock P fs block ++ o.job.acceptedAll o.fs blocks

/-- The accepted data carrying file number `n`. -/
def dataFor (n : Nat) (accepted : List (Int × Bytes)) : Bytes :=
  (accepted.filter fun a => a.1 == (n : Int)).flatMap Prod.snd

theorem dataFor_append (n : Nat) (a b : List (Int × Bytes)) :
    dataFor n (a ++ b) = dataFor n a ++ dataFor n b := by
  simp [dataFor, List.filter_append, List.flatMap_append]

/-- The same job with other strict bookkeeping. -/
def withCounters (job : TransferJob) (bytes : Nat) (eof : Bool) : TransferJob :=
  { job with directCurrentFileBytes := bytes, directCurrentFileEofSeen := eof }

section Admit

variable {P} {job : TransferJob} {fs : Fs} {block : FileTransferBlock} {data : Bytes}

/-- Adding bytes changes the counters only. -/
theorem addDirectBytes_cases (job : TransferJob) (fs : Fs) (n len : Nat) :
    ∃ bytes eof, (∃ e, job.addDirectBytes fs n len = .fail e (job.withCounters bytes eof) fs) ∨
      job.addDirectBytes fs n len = .ok (job.withCounters bytes eof) fs := by
  unfold addDirectBytes
  split_ifs
  · exact ⟨job.directCurrentFileBytes, job.directCurrentFileEofSeen, .inl ⟨_, rfl⟩⟩
  · exact ⟨job.directCurrentFileBytes, job.directCurrentFileEofSeen, .inl ⟨_, rfl⟩⟩
  · exact ⟨job.directCurrentFileBytes, job.directCurrentFileEofSeen, .inl ⟨_, rfl⟩⟩
  · exact ⟨job.directCurrentFileBytes, job.directCurrentFileEofSeen, .inl ⟨_, rfl⟩⟩
  · exact ⟨job.directCurrentFileBytes + len, job.directCurrentFileEofSeen, .inr rfl⟩

/-- Counting a block changes the counters only, and an empty file takes no data. -/
theorem countDirectBlock_cases (job : TransferJob) (fs : Fs) (n len : Nat) :
    ∃ bytes eof, (∃ e, job.countDirectBlock fs n len = .fail e (job.withCounters bytes eof) fs) ∨
      (job.countDirectBlock fs n len = .ok (job.withCounters bytes eof) fs ∧
        (job.sizeAt n = 0 → len = 0)) := by
  unfold countDirectBlock
  split_ifs with hunder hend heof hchunk
  · exact ⟨job.directCurrentFileBytes, job.directCurrentFileEofSeen, .inl ⟨_, rfl⟩⟩
  · exact ⟨job.directCurrentFileBytes, job.directCurrentFileEofSeen, .inl ⟨_, rfl⟩⟩
  · obtain ⟨bytes, eof, hfail | hok⟩ :=
      addDirectBytes_cases { job with directCurrentFileEofSeen := true } fs n len
    · exact ⟨bytes, eof, .inl hfail⟩
    · exact ⟨bytes, eof, .inr ⟨hok, fun _ => not_not.mp (not_or.mp heof).1⟩⟩
  · exact ⟨job.directCurrentFileBytes, job.directCurrentFileEofSeen, .inl ⟨_, rfl⟩⟩
  · obtain ⟨bytes, eof, hfail | hok⟩ := addDirectBytes_cases job fs n len
    · exact ⟨bytes, eof, .inl hfail⟩
    · refine ⟨bytes, eof, .inr ⟨hok, fun hzero => absurd ?_ hend⟩⟩
      simp [expectedBlockSize, hzero]

/-- An admitted block stays at the current file or goes on to the next one, whose file
must be open then; only the counters change. -/
theorem admitBlock_cases (fs : Fs) (hstrict : job.strictDirectTransfer = true)
    (block : FileTransferBlock) (data : Bytes) (hnum : 0 ≤ job.fileNum) :
    ∃ bytes eof, (∃ e, job.admitBlock fs block data = .fail e (job.withCounters bytes eof) fs) ∨
      (job.admitBlock fs block data = .ok (job.withCounters bytes eof) fs ∧
        (job.sizeAt block.fileNum.toNat = 0 → data = []) ∧
        (block.fileNum = job.fileNum ∨
          block.fileNum = job.fileNum + 1 ∧ job.dataStream ≠ none)) := by
  unfold admitBlock
  rw [if_pos hstrict]
  split_ifs with hlimit
  · exact ⟨job.directCurrentFileBytes, job.directCurrentFileEofSeen, .inl ⟨_, rfl⟩⟩
  · unfold advanceDirectFile
    split_ifs with hback hnext hseq
    · exact ⟨job.directCurrentFileBytes, job.directCurrentFileEofSeen, .inl ⟨_, rfl⟩⟩
    · exact ⟨job.directCurrentFileBytes, job.directCurrentFileEofSeen, .inl ⟨_, rfl⟩⟩
    · dsimp only
      rw [not_or, not_or, not_not, Option.isNone_iff_eq_none] at hseq
      obtain ⟨bytes, eof, hfail | ⟨hok, hzero⟩⟩ := countDirectBlock_cases
        { job with directCurrentFileBytes := 0, directCurrentFileEofSeen := false } fs
        block.fileNum.toNat data.length
      · exact ⟨bytes, eof, .inl hfail⟩
      · refine ⟨bytes, eof, .inr ⟨hok, fun hs => List.eq_nil_of_length_eq_zero (hzero hs),
          .inr ⟨?_, hseq.2.1⟩⟩⟩
        have hn := hseq.1
        unfold saturatingAddI32 at hn
        omega
    · dsimp only
      obtain ⟨bytes, eof, hfail | ⟨hok, hzero⟩⟩ :=
        countDirectBlock_cases job fs block.fileNum.toNat data.length
      · exact ⟨bytes, eof, .inl hfail⟩
      · refine ⟨bytes, eof, .inr ⟨hok, fun hs => List.eq_nil_of_length_eq_zero (hzero hs), .inl ?_⟩⟩
        omega

end Admit

/-- The data received for file `n`, given the finished files and the current one. -/
def contentAt (done : List (PathBuf × Bytes)) (cur : Bytes) (n : Nat) : Bytes :=
  ((done.map Prod.snd ++ [cur])[n]?).getD []

theorem dataFor_singleton (n k : Nat) (data : Bytes) :
    dataFor n [((k : Int), data)] = if n = k then data else [] := by
  by_cases h : n = k
  · subst h
    simp [dataFor]
  · have hne : ¬ (k : Int) = (n : Int) := by omega
    simp [dataFor, hne, h]

@[simp] theorem contentAt_current (done : List (PathBuf × Bytes)) (cur : Bytes) :
    contentAt done cur done.length = cur := by
  simp [contentAt]

theorem contentAt_done {done : List (PathBuf × Bytes)} {n : Nat} (h : n < done.length)
    (cur : Bytes) : contentAt done cur n = ((done.map Prod.snd)[n]?).getD [] := by
  rw [contentAt, List.getElem?_append_left (by simpa using h)]

theorem contentAt_later {done : List (PathBuf × Bytes)} {n : Nat} (h : done.length < n)
    (cur : Bytes) : contentAt done cur n = [] := by
  rw [contentAt, List.getElem?_eq_none]
  · rfl
  · simp only [List.length_append, List.length_map, List.length_singleton]
    omega

theorem contentAt_extend (done : List (PathBuf × Bytes)) (cur data : Bytes) (n : Nat) :
    contentAt done (cur ++ data) n =
      contentAt done cur n ++ dataFor n [((done.length : Int), data)] := by
  rw [dataFor_singleton]
  rcases Nat.lt_trichotomy n done.length with hlt | rfl | hgt
  · rw [contentAt_done hlt, contentAt_done hlt, if_neg (by omega), List.append_nil]
  · rw [contentAt_current, contentAt_current, if_pos rfl]
  · rw [contentAt_later hgt, contentAt_later hgt, if_neg (by omega), List.append_nil]

/-- A finished file and a new one without data hold what the current file held. -/
theorem contentAt_next (done : List (PathBuf × Bytes)) (path : PathBuf) (cur : Bytes) (n : Nat) :
    contentAt (done ++ [(path, cur)]) [] n = contentAt done cur n := by
  have hlen : (done ++ [(path, cur)]).length = done.length + 1 := by simp
  rcases Nat.lt_trichotomy n (done.length + 1) with hlt | rfl | hgt
  · rw [contentAt_done (by omega), contentAt, List.map_append]
    rfl
  · rw [← hlen, contentAt_current, hlen, contentAt_later (Nat.lt_succ_self _)]
  · rw [contentAt_later (by omega), contentAt_later (by omega)]

/-- What holds of a strict job between two blocks: the files in front of the current one
have been put at their paths, and the current one has not been opened, is open, or
cannot be opened. -/
structure Direct (v : View String UInt8) (paths : List PathBuf) (base : PathBuf)
    (files : List FileEntry) (id : Int) (done : List (PathBuf × Bytes)) (cur : Bytes)
    (job : TransferJob) (fs : Fs) : Prop where
  fixed : Writing base files id true job
  fileNum : job.fileNum = done.length
  front : done.map Prod.fst = paths.take done.length
  empty : ∀ n, declaredSize files n = 0 → contentAt done cur n = []
  closed : job.dataStream = none → cur = []
  state : (job.dataStream = none ∧ fs.lookup = sideNames.putAll v done) ∨
    ∃ path, paths[done.length]? = some path ∧
      Current (sideNames.putAll v done) path done.length cur job fs

theorem Writing.withCounters {base : PathBuf} {files : List FileEntry} {id : Int} {direct : Bool}
    {job : TransferJob} (h : Writing base files id direct job) (bytes : Nat) (eof : Bool) :
    Writing base files id direct (job.withCounters bytes eof) :=
  ⟨h.id, h.type, h.source, h.files, h.strict, h.never⟩

theorem Direct.withCounters {v : View String UInt8} {paths : List PathBuf} {base : PathBuf}
    {files : List FileEntry} {id : Int} {done : List (PathBuf × Bytes)} {cur : Bytes}
    {job : TransferJob} {fs : Fs} (h : Direct v paths base files id done cur job fs) (bytes : Nat)
    (eof : Bool) : Direct v paths base files id done cur (job.withCounters bytes eof) fs where
  fixed := h.fixed.withCounters bytes eof
  fileNum := h.fileNum
  front := h.front
  empty := h.empty
  closed := h.closed
  state := by
    rcases h.state with hfresh | ⟨path, hp, hcur⟩
    · exact .inl hfresh
    · refine .inr ⟨path, hp, hcur.fileNum, ?_⟩
      rcases hcur.state with ⟨hfree, mark, hrec⟩ | hblocked
      · exact .inl ⟨hfree, mark, hrec.stream, hrec.view⟩
      · exact .inr hblocked

section Step

variable {P} {root base : PathBuf} {files : List FileEntry} {id : Int} {v w : View String UInt8}
  {done : List (PathBuf × Bytes)} {cur : Bytes} {job : TransferJob} {fs : Fs} {n : Nat}
  {entry : FileEntry}

/-- Opening an entry and appending to it either works or passes the file over. -/
theorem open_direct (hjob : Writing base files id true job) (hentry : files[n]? = some entry)
    (hn : n < 2 ^ 64) (hname : validateFileNameNoTraversal P entry.name = .ok ())
    (hway : WayTo w (P.join base entry.name)) {block : FileTransferBlock}
    (hnum : block.fileNum = n) (hmove : n ≠ asUsize job.fileNum ∨ job.dataStream = none)
    (h : Ready P w job fs) (data : Bytes) :
    let o := (job.openForBlock P fs block).andThen fun job fs => job.appendBlock fs block data
    Writing base files id true o.job ∧
      ((o.result = .ok () ∧ o.job.dataStream ≠ none ∧
          Current w (P.join base entry.name) n data o.job o.fs) ∨
        (o.result ≠ .ok () ∧ sideNames.Blocked w (P.join base entry.name) ∧
          o.job.dataStream = none ∧ Current w (P.join base entry.name) n [] o.job o.fs)) := by
  obtain ⟨fs', hfs', hopen⟩ := openForBlock_moved hjob hentry hn hname rfl hway hnum hmove h
  obtain ⟨hkeep, hcur, hres⟩ := current_of_staging (n := n) hjob hfs' hway block data
  simp only [hopen]
  refine ⟨hkeep, ?_⟩
  rcases hcur.state with ⟨hfree, mark, hrec⟩ | ⟨hb, hs, hfs⟩
  · exact .inl ⟨hres.mpr hfree, by rw [hrec.stream]; nofun, hcur⟩
  · exact .inr ⟨fun hok => hres.mp hok hb, hb, hs, hcur.fileNum, .inr ⟨hb, hs, hfs⟩⟩

/-- Where the current entry of the list goes. -/
theorem entry_of_path {path : PathBuf} (h : (destinationPaths P base files)[n]? = some path) :
    ∃ entry, files[n]? = some entry ∧ P.join base entry.name = path := by
  rw [destinationPaths, List.getElem?_map] at h
  cases he : files[n]? with
  | none =>
    rw [he] at h
    cases h
  | some entry =>
    rw [he] at h
    exact ⟨entry, rfl, Option.some.inj h⟩

theorem Direct.mem (h : Direct v (destinationPaths P base files) base files id done cur job fs) :
    ∀ e ∈ done, e.1 ∈ destinationPaths P base files := by
  intro e he
  have hmem := List.mem_map_of_mem (f := Prod.fst) he
  rw [h.front] at hmem
  exact List.mem_of_mem_take hmem

/-- The finished files do not include the current one. -/
theorem Direct.not_done (hl : Layout root (destinationPaths P base files))
    (h : Direct v (destinationPaths P base files) base files id done cur job fs) {path : PathBuf}
    (hp : (destinationPaths P base files)[done.length]? = some path) : ∀ e ∈ done, e.1 ≠ path := by
  rintro e he rfl
  have hmem := List.mem_map_of_mem (f := Prod.fst) he
  rw [h.front] at hmem
  obtain ⟨i, hi, hget⟩ := List.mem_take_iff_getElem.mp hmem
  have hi' : (destinationPaths P base files)[i]? = some e.1 := by
    rw [← hget]
    exact List.getElem?_eq_getElem _
  have hlt := (List.getElem?_eq_some_iff.mp hi').1
  have := (List.getElem?_inj hlt hl.nodup).mp (hi'.trans hp.symm)
  omega

/-- A job that works on the current entry with more data. -/
theorem Direct.extend {job' : TransferJob} {fs' : Fs} {data : Bytes}
    (h : Direct v (destinationPaths P base files) base files id done cur job fs)
    (hentry : files[done.length]? = some entry)
    (hzero : declaredSize files done.length = 0 → data = [])
    (hkeep : Writing base files id true job') (hopen : job'.dataStream ≠ none)
    (hcur : Current (sideNames.putAll v done) (P.join base entry.name) done.length (cur ++ data)
      job' fs') :
    Direct v (destinationPaths P base files) base files id done (cur ++ data) job' fs' where
  fixed := hkeep
  fileNum := hcur.fileNum
  front := h.front
  empty n hn := by
    rw [contentAt_extend, h.empty n hn, List.nil_append, dataFor_singleton]
    split_ifs with hd
    · exact hzero (hd ▸ hn)
    · rfl
  closed hs := absurd hs hopen
  state := by
    refine .inr ⟨P.join base entry.name, ?_, hcur⟩
    rw [destinationPaths, List.getElem?_map, hentry, Option.map_some]

/-- A block of the open file extends it. -/
theorem write_direct_stay
    (h : Direct v (destinationPaths P base files) base files id done cur job fs)
    (hs : job.dataStream ≠ none) {block : FileTransferBlock} (hnum : block.fileNum = done.length)
    {data : Bytes} (hn : done.length < 2 ^ 64)
    (hzero : declaredSize files done.length = 0 → data = []) :
    let o := (job.openForBlock P fs block).andThen fun job fs => job.appendBlock fs block data
    o.result = .ok () ∧ o.job.dataStream ≠ none ∧
      Direct v (destinationPaths P base files) base files id done (cur ++ data) o.job o.fs := by
  rcases h.state with ⟨hnone, -⟩ | ⟨path, hp, hcur⟩
  · exact absurd hnone hs
  rcases hcur.state with ⟨hfree, mark, hrec⟩ | ⟨-, hnone, -⟩
  · have hsame : block.fileNum.toNat = asUsize job.fileNum := by
      rw [hnum, h.fileNum, Int.toNat_natCast, asUsize_natCast hn]
    obtain ⟨fs', happend, hfs'⟩ := appendBlock_ok hrec block data
    simp only [openForBlock_stay P h.fixed.source hsame hrec.stream, Outcome.ok_andThen, happend]
    obtain ⟨entry, hentry, rfl⟩ := entry_of_path hp
    refine ⟨rfl, nofun, h.extend hentry hzero ?_ nofun
      ⟨hcur.fileNum, .inl ⟨hfree, mark, rfl, hfs'⟩⟩⟩
    exact ⟨h.fixed.id, h.fixed.type, h.fixed.source, h.fixed.files, h.fixed.strict, h.fixed.never⟩
  · exact absurd hnone hs

section Run

variable (hl : Layout root (destinationPaths P base files)) (hv : Vacant root v)
  (hnames : ∀ f ∈ files, validateFileNameNoTraversal P f.name = .ok ())
  (hcount : files.length ≤ 2 ^ 31)

include hl hv

theorem Direct.tidy (h : Direct v (destinationPaths P base files) base files id done cur job fs) :
    Tidy root (destinationPaths P base files) (sideNames.putAll v done) :=
  sideNames.tidy_putAll hv.tidy.mono hl h.mem

theorem Direct.free (h : Direct v (destinationPaths P base files) base files id done cur job fs)
    {path : PathBuf} (hp : (destinationPaths P base files)[done.length]? = some path) :
    sideNames.putAll v done path = none :=
  sideNames.putAll_free hv hl h.mem (List.mem_of_getElem? hp) (h.not_done hl hp)

include hnames hcount

/-- The open file of a strict job can be committed. -/
theorem Direct.ready_open
    (h : Direct v (destinationPaths P base files) base files id done cur job fs) {path : PathBuf}
    (hp : (destinationPaths P base files)[done.length]? = some path)
    (hcur : Current (sideNames.putAll v done) path done.length cur job fs)
    (hs : job.dataStream ≠ none) :
    Ready P (sideNames.putAll v (done ++ [(path, cur)])) job fs := by
  obtain ⟨entry, hentry, hpath⟩ := entry_of_path hp
  have hfree := h.free hl hv hp
  have hlen := (List.getElem?_eq_some_iff.mp hentry).1
  have hready := ready_of_current h.fixed hentry (by omega)
    (hnames entry (List.mem_of_getElem? hentry)) hpath (hl.ne_nil _ (List.mem_of_getElem? hp))
    (by rw [hfree]; nofun) (fun _ => hfree) hcur
  rcases hcur.state with ⟨hopen, -⟩ | ⟨-, hnone, -⟩
  · rw [SideNames.attempt, if_neg hopen] at hready
    rw [SideNames.putAll_append]
    exact hready
  · exact absurd hnone hs

/-- A strict job without an open file works on what stands at the destination. -/
theorem Direct.reopened
    (h : Direct v (destinationPaths P base files) base files id done cur job fs)
    (hs : job.dataStream = none) (hentry : files[done.length]? = some entry)
    {block : FileTransferBlock} (hnum : block.fileNum = done.length) (data : Bytes) :
    let o := (job.openForBlock P fs block).andThen fun job fs => job.appendBlock fs block data
    Writing base files id true o.job ∧
      ((o.result = .ok () ∧ o.job.dataStream ≠ none ∧ Current (sideNames.putAll v done)
          (P.join base entry.name) done.length data o.job o.fs) ∨
        (o.result ≠ .ok () ∧ o.job.dataStream = none ∧ Current (sideNames.putAll v done)
          (P.join base entry.name) done.length [] o.job o.fs)) := by
  have hlen := (List.getElem?_eq_some_iff.mp hentry).1
  have hmem := List.mem_of_getElem? hentry
  have hpath : (destinationPaths P base files)[done.length]? = some (P.join base entry.name) := by
    rw [destinationPaths, List.getElem?_map, hentry, Option.map_some]
  have hway : WayTo (sideNames.putAll v done) (P.join base entry.name) := fun q hq c =>
    (h.tidy hl hv).way hl (List.mem_of_getElem? hpath) hq
  have hname := hnames entry hmem
  rcases h.state with ⟨-, hfs⟩ | ⟨path, hp, hcur⟩
  · obtain ⟨hkeep, hok | ⟨hres, -, hclosed, hcur⟩⟩ := open_direct (n := done.length) h.fixed hentry
      (by omega) hname hway hnum (.inr hs) (ready_of_closed hs hfs) data
    · exact ⟨hkeep, .inl hok⟩
    · exact ⟨hkeep, .inr ⟨hres, hclosed, hcur⟩⟩
  · rw [hpath] at hp
    cases hp
    rcases hcur.state with ⟨-, mark, hrec⟩ | ⟨hb, -, hfs⟩
    · rw [hrec.stream] at hs
      cases hs
    · -- The file is tried again, over what the failed attempt left.
      have hagain := sideNames.blocked_again hb
      have hway' : WayTo (sideNames.blocked (sideNames.putAll v done) (P.join base entry.name))
          (P.join base entry.name) := fun q hq c hc => hway q hq c (sideNames.file_of_blocked hc)
      obtain ⟨hkeep, ⟨-, hne, hcur'⟩ | ⟨hres, -, hclosed, hcur'⟩⟩ := open_direct (n := done.length)
        h.fixed hentry (by omega) hname hway' hnum (.inr hs) (ready_of_closed hs hfs) data
      · rcases hcur'.state with ⟨hfree, -⟩ | ⟨-, hnone, -⟩
        · exact absurd hagain.1 hfree
        · exact absurd hnone hne
      · refine ⟨hkeep, .inr ⟨hres, hclosed, hcur'.fileNum, .inr ⟨hb, hclosed, ?_⟩⟩⟩
        rcases hcur'.state with ⟨hfree, -⟩ | ⟨-, -, hview⟩
        · exact absurd hagain.1 hfree
        · exact hview.trans hagain.2

/-- A block of the next file commits the open one. -/
theorem write_direct_next
    (h : Direct v (destinationPaths P base files) base files id done cur job fs)
    (hs : job.dataStream ≠ none) {block : FileTransferBlock}
    (hnum : block.fileNum = done.length + 1) {data : Bytes}
    (hrange : done.length + 1 < files.length)
    (hzero : declaredSize files (done.length + 1) = 0 → data = []) :
    let o := (job.openForBlock P fs block).andThen fun job fs => job.appendBlock fs block data
    ∃ path, (o.result = .ok () ∧ o.job.dataStream ≠ none ∧
        Direct v (destinationPaths P base files) base files id (done ++ [(path, cur)]) data
          o.job o.fs) ∨
      (o.result ≠ .ok () ∧
        sideNames.Blocked (sideNames.putAll v (done ++ [(path, cur)]))
          (P.join base files[done.length + 1].name) ∧
        Direct v (destinationPaths P base files) base files id (done ++ [(path, cur)]) []
          o.job o.fs) := by
  rcases h.state with ⟨hnone, -⟩ | ⟨path, hp, hcur⟩
  · exact absurd hnone hs
  have hready := h.ready_open hl hv hnames hcount hp hcur hs
  have hentry : files[done.length + 1]? = some files[done.length + 1] :=
    List.getElem?_eq_getElem hrange
  have hlen : (done ++ [(path, cur)]).length = done.length + 1 := by simp
  have hpath : (destinationPaths P base files)[done.length + 1]? =
      some (P.join base files[done.length + 1].name) := by
    rw [destinationPaths, List.getElem?_map, hentry, Option.map_some]
  have hfront : (done ++ [(path, cur)]).map Prod.fst =
      (destinationPaths P base files).take (done ++ [(path, cur)]).length := by
    rw [hlen, List.take_add_one, ← h.front, hp]
    simp
  have hmem : ∀ e ∈ done ++ [(path, cur)], e.1 ∈ destinationPaths P base files := by
    intro e he
    have hm := List.mem_map_of_mem (f := Prod.fst) he
    rw [hfront] at hm
    exact List.mem_of_mem_take hm
  have hway : WayTo (sideNames.putAll v (done ++ [(path, cur)]))
      (P.join base files[done.length + 1].name) := fun q hq c =>
    (sideNames.tidy_putAll hv.tidy.mono hl hmem).way hl (List.mem_of_getElem? hpath) hq
  have hmove : done.length + 1 ≠ asUsize job.fileNum ∨ job.dataStream = none := by
    left
    rw [h.fileNum, asUsize_natCast (by omega)]
    omega
  have hnum' : block.fileNum = ((done.length + 1 : Nat) : Int) := by
    rw [hnum]
    rfl
  have hempty : ∀ n, declaredSize files n = 0 → contentAt (done ++ [(path, cur)]) [] n = [] := by
    intro n hn
    rw [contentAt_next, h.empty n hn]
  obtain ⟨hkeep, ⟨hres, hopen, hcur'⟩ | ⟨hres, hb, -, hcur'⟩⟩ := open_direct
    (n := done.length + 1) h.fixed hentry (by omega)
    (hnames _ (List.getElem_mem hrange)) hway hnum' hmove hready data
  · refine ⟨path, .inl ⟨hres, hopen, hkeep, ?_, hfront, ?_, fun hnone => absurd hnone hopen,
      .inr ⟨_, by rw [hlen, hpath], ?_⟩⟩⟩
    · rw [hcur'.fileNum, hlen]
    · intro n hn
      rw [← List.nil_append data, contentAt_extend, hempty n hn, hlen, dataFor_singleton]
      split_ifs with hd
      · exact hzero (hd ▸ hn)
      · rfl
    · rwa [hlen]
  · refine ⟨path, .inr ⟨hres, hb, hkeep, ?_, hfront, hempty, fun _ => rfl,
      .inr ⟨_, by rw [hlen, hpath], ?_⟩⟩⟩
    · rw [hcur'.fileNum, hlen]
    · rwa [hlen]

/-- One block, whatever it is. -/
theorem write_direct (h : Direct v (destinationPaths P base files) base files id done cur job fs)
    (block : FileTransferBlock) :
    ∃ done' cur', Direct v (destinationPaths P base files) base files id done' cur'
        (job.write P fs block).job (job.write P fs block).fs ∧
      ∀ n, contentAt done' cur' n =
        contentAt done cur n ++ dataFor n (job.acceptedBlock P fs block) := by
  cases hdec : job.decodeBlock P block with
  | error e =>
    have hwrite : job.write P fs block = .fail e job fs := by simp only [write, hdec]
    rw [acceptedBlock_refused (by rw [hwrite]; nofun), hwrite]
    exact ⟨done, cur, h, fun n => (List.append_nil _).symm⟩
  | ok data =>
    obtain ⟨-, hpos, hrange⟩ := of_decodeBlock P h.fixed.source hdec
    rw [h.fixed.files] at hrange
    obtain ⟨bytes, eof, ⟨e, hfail⟩ | ⟨hadm, hzero, hmove⟩⟩ := admitBlock_cases fs
      h.fixed.strict block data (by rw [h.fileNum]; omega)
    · have hwrite : job.write P fs block = .fail e (job.withCounters bytes eof) fs := by
        simp only [write, hdec, hfail, Outcome.fail_andThen]
      rw [acceptedBlock_refused (by rw [hwrite]; nofun), hwrite]
      exact ⟨done, cur, h.withCounters bytes eof, fun n => (List.append_nil _).symm⟩
    · have hwrite : job.write P fs block =
          ((job.withCounters bytes eof).openForBlock P fs block).andThen fun job fs =>
            job.appendBlock fs block data := by
        simp only [write, hdec, hadm, Outcome.ok_andThen]
      have hok (hres : (((job.withCounters bytes eof).openForBlock P fs block).andThen
          fun job fs => job.appendBlock fs block data).result = .ok ()) :
          job.acceptedBlock P fs block = [(block.fileNum, data)] :=
        acceptedBlock_ok (by rw [hwrite]; exact hres) hdec
      have hrefused (hres : (((job.withCounters bytes eof).openForBlock P fs block).andThen
          fun job fs => job.appendBlock fs block data).result ≠ .ok ()) :
          job.acceptedBlock P fs block = [] :=
        acceptedBlock_refused (by rw [hwrite]; exact hres)
      have h₁ := h.withCounters bytes eof
      rw [sizeAt, h.fixed.files] at hzero
      rw [h.fileNum] at hmove
      rw [hwrite]
      by_cases hs : job.dataStream = none
      · -- No file is open: the block is for the current entry, which is opened.
        have hnum : block.fileNum = done.length := hmove.resolve_right fun hn => hn.2 hs
        rw [hnum, Int.toNat_natCast] at hrange hzero
        have hentry := List.getElem?_eq_getElem hrange
        have hnil := h.closed hs
        subst hnil
        obtain ⟨hkeep, ⟨hres, hopen, hcur⟩ | ⟨hres, hclosed, hcur⟩⟩ :=
          h₁.reopened hl hv hnames hcount hs hentry hnum data
        · refine ⟨done, [] ++ data, h₁.extend hentry hzero hkeep hopen hcur, fun n => ?_⟩
          rw [contentAt_extend, hok hres, hnum]
        · refine ⟨done, [], ⟨hkeep, hcur.fileNum, h₁.front, h₁.empty, fun _ => rfl,
            .inr ⟨_, ?_, hcur⟩⟩, fun n => ?_⟩
          · rw [destinationPaths, List.getElem?_map, hentry, Option.map_some]
          · rw [hrefused hres]
            exact (List.append_nil _).symm
      · rcases hmove with hnum | ⟨hnum, -⟩
        · rw [hnum, Int.toNat_natCast] at hrange hzero
          obtain ⟨hres, -, hnext⟩ :=
            write_direct_stay h₁ hs hnum (by omega) hzero
          refine ⟨done, cur ++ data, hnext, fun n => ?_⟩
          rw [contentAt_extend, hok hres, hnum]
        · have htoNat : block.fileNum.toNat = done.length + 1 := by omega
          rw [htoNat] at hrange hzero
          obtain ⟨path, ⟨hres, -, hnext⟩ | ⟨hres, -, hnext⟩⟩ :=
            write_direct_next hl hv hnames hcount h₁ hs hnum hrange hzero
          · refine ⟨done ++ [(path, cur)], data, hnext, fun n => ?_⟩
            have hext := contentAt_extend (done ++ [(path, cur)]) [] data n
            rw [List.nil_append, contentAt_next, List.length_append, List.length_singleton] at hext
            rw [hext, hok hres, hnum]
            rfl
          · refine ⟨done ++ [(path, cur)], [], hnext, fun n => ?_⟩
            rw [contentAt_next, hrefused hres]
            exact (List.append_nil _).symm

end Run

end Step

end TransferJob

end MDesk
