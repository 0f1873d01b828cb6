import MDesk.Direct.Receive

/-!
# What a finished direct transfer has stored

When `finalize_direct_write` succeeds, every declared file still standing has its
declared size and the data accepted for it, whatever blocks were sent. All files stand
unless the last pass made a missing empty file from a declared file in front of it.
-/

namespace MDesk

open MDesk.Core

namespace TransferJob

section Run

variable {P : Platform} {root base : PathBuf} {files : List FileEntry} {id : Int}
  {v : View String UInt8} {done : List (PathBuf × Bytes)} {cur : Bytes} {job : TransferJob}
  {fs : Fs} (hl : Layout root (destinationPaths P base files)) (hv : Vacant root v)
  (hnames : ∀ f ∈ files, validateFileNameNoTraversal P f.name = .ok ())
  (hcount : files.length ≤ 2 ^ 31)

include hl hv hnames hcount

/-- Any run of blocks. -/
theorem run_direct (h : Direct v (destinationPaths P base files) base files id done cur job fs)
    (blocks : List FileTransferBlock) :
    ∃ done' cur', Direct v (destinationPaths P base files) base files id done' cur'
        (job.writeAll P fs blocks).1 (job.writeAll P fs blocks).2 ∧
      ∀ n, contentAt done' cur' n =
        contentAt done cur n ++ dataFor n (job.acceptedAll P fs blocks) := by
  induction blocks generalizing job fs done cur with
  | nil => exact ⟨done, cur, h, fun n => (List.append_nil _).symm⟩
  | cons block blocks ih =>
    obtain ⟨done₁, cur₁, h₁, hc₁⟩ := write_direct hl hv hnames hcount h block
    obtain ⟨done₂, cur₂, h₂, hc₂⟩ := ih h₁
    refine ⟨done₂, cur₂, h₂, fun n => ?_⟩
    rw [hc₂, hc₁, acceptedAll, dataFor_append, List.append_assoc]

omit hl hv hnames hcount

/-- The number of files a strict job has received blocks for. -/
def receivedCount (job : TransferJob) : Nat :=
  if job.dataStream.isSome then job.fileNum.toNat + 1 else job.fileNum.toNat

include hl hv hnames hcount

/-- What the last pass starts from: the batch of the received files, or what the failed
opening of the next one left of it. -/
theorem ready_direct (h : Direct v (destinationPaths P base files) base files id done cur job fs) :
    ∃ batch u, Ready P u job fs ∧ batch.length = receivedCount job ∧
      batch.map Prod.fst = (destinationPaths P base files).take batch.length ∧
      (∀ e f, batch[e]? = some f → contentAt done cur e = f.2) ∧
      (∀ n, batch.length ≤ n → contentAt done cur n = []) ∧
      (u = sideNames.putAll v batch ∨ ∃ path,
        (destinationPaths P base files)[batch.length]? = some path ∧
        sideNames.Blocked (sideNames.putAll v batch) path ∧
        u = sideNames.blocked (sideNames.putAll v batch) path) := by
  have hcontent : ∀ e f, done[e]? = some f → contentAt done cur e = f.2 := by
    intro e f hf
    have he := (List.getElem?_eq_some_iff.mp hf).1
    rw [contentAt_done he, List.getElem?_map, hf]
    rfl
  by_cases hs : job.dataStream = none
  · have hnil := h.closed hs
    subst hnil
    have hlen : done.length = receivedCount job := by
      rw [receivedCount, hs, h.fileNum]
      rfl
    have hrest : ∀ n, done.length ≤ n → contentAt done [] n = [] := by
      intro n hn
      rcases Nat.eq_or_lt_of_le hn with rfl | hlt
      · exact contentAt_current done []
      · exact contentAt_later hlt []
    rcases h.state with ⟨-, hfs⟩ | ⟨path, hp, hcur⟩
    · exact ⟨done, _, ready_of_closed hs hfs, hlen, h.front, hcontent, hrest, .inl rfl⟩
    · rcases hcur.state with ⟨-, mark, hrec⟩ | ⟨hb, -, hfs⟩
      · rw [hrec.stream] at hs
        cases hs
      · exact ⟨done, _, ready_of_closed hs hfs, hlen, h.front, hcontent, hrest,
          .inr ⟨path, hp, hb, rfl⟩⟩
  · rcases h.state with ⟨hnone, -⟩ | ⟨path, hp, hcur⟩
    · exact absurd hnone hs
    have hlen : (done ++ [(path, cur)]).length = done.length + 1 := by simp
    refine ⟨done ++ [(path, cur)], _, h.ready_open hl hv hnames hcount hp hcur hs, ?_, ?_, ?_, ?_,
      .inl rfl⟩
    · rw [hlen, receivedCount, if_pos (Option.isSome_iff_ne_none.mpr hs), h.fileNum,
        Int.toNat_natCast]
    · rw [hlen, List.take_add_one, ← h.front, hp]
      simp
    · intro e f hf
      rcases Nat.lt_or_ge e done.length with he | he
      · rw [List.getElem?_append_left he] at hf
        exact hcontent e f hf
      · have hlt := (List.getElem?_eq_some_iff.mp hf).1
        obtain rfl : e = done.length := by omega
        rw [contentAt_current]
        simp at hf
        rw [← hf]
    · intro n hn
      exact contentAt_later (by omega) cur

omit hl hv hcount hnames

/-- A finalisation that succeeds has gone through the last pass. -/
theorem settles_of_finalize {u : View String UInt8}
    (hl : Layout root (destinationPaths P base files)) (hjob : Writing base files id true job)
    (hnames : ∀ f ∈ files, validateFileNameNoTraversal P f.name = .ok ())
    (hu : Tidy root (destinationPaths P base files) u) (hready : Ready P u job fs)
    (h : (job.finalizeDirectWrite P fs).result = .ok ()) :
    sideNames.Settles (settleList P base files) u (job.finalizeDirectWrite P fs).fs.lookup := by
  obtain ⟨fs', hfin, rfl⟩ := hready
  obtain ⟨job', hjob'⟩ : ∃ job' : TransferJob, { job with dataStream := none } = job' := ⟨_, rfl⟩
  have hsource : job'.dataSource = .filePath base := by rw [← hjob', ← hjob.source]
  have hfiles : job'.files = files := by rw [← hjob', ← hjob.files]
  rw [hjob'] at hfin
  unfold finalizeDirectWrite at h ⊢
  split_ifs at h ⊢ with hended
  · rw [hfin, Outcome.ok_andThen] at h ⊢
    rw [← hfiles]
    exact settles_of_verify hl hsource (hfiles ▸ hnames)
      (fun e he => List.mem_map_of_mem (hfiles ▸ he)) hu h
  · cases h

include hl hv hnames hcount

/-- What stands at the declared paths when a finalisation has succeeded. -/
theorem finalize_direct (h : Direct v (destinationPaths P base files) base files id done cur job fs)
    (hok : (job.finalizeDirectWrite P fs).result = .ok ()) {e : Nat} {path : PathBuf}
    (hp : (destinationPaths P base files)[e]? = some path) :
    (contentAt done cur e).length = declaredSize files e ∧
    ((job.finalizeDirectWrite P fs).fs.lookup path = some (.file (contentAt done cur e)) ↔
      ¬ ∃ d q, e < d ∧ (destinationPaths P base files)[d]? = some q ∧ path = downloadPath q ∧
        sideNames.Missing (destinationPaths P base files)
          (sideNames.Lost (destinationPaths P base files) (receivedCount job)) d) := by
  obtain ⟨batch, u, hready, hlen, hfront, hcontent, hrest, hu⟩ :=
    ready_direct hl hv hnames hcount h
  have hbatch := mem_of_front hfront
  have hwtidy := sideNames.tidy_putAll hv.tidy.mono hl hbatch
  have hutidy : Tidy root (destinationPaths P base files) u := by
    rcases hu with rfl | ⟨q, hq, hb, rfl⟩
    · exact hwtidy
    · exact sideNames.tidy_blocked hwtidy (List.mem_of_getElem? hq)
  have hset := settles_of_finalize hl h.fixed hnames hutidy hready hok
  have hfst : (settleList P base files).map Prod.fst = destinationPaths P base files := by
    rw [settleList, List.map_map]
    rfl
  have hes : ∀ f ∈ settleList P base files, f.1 ∈ destinationPaths P base files := fun f hf => by
    rw [← hfst]
    exact List.mem_map_of_mem hf
  have hagree : ∀ q ∈ destinationPaths P base files, u q = sideNames.putAll v batch q := by
    rcases hu with rfl | ⟨q, hq, hb, rfl⟩
    · exact fun _ _ => rfl
    · -- The pass needs the staging name, so it is the digest name that is a directory.
      have hqmem := List.mem_of_getElem? hq
      have hqfree : sideNames.putAll v batch q = none :=
        (sideNames.putAll_none_iff hv hl hfront hq).mpr (.inl le_rfl)
      have hself : sideNames.blocked (sideNames.putAll v batch) q q = none := by
        rw [sideNames.blocked_of_mem hl hqmem hqmem fun hs => absurd hs.symm (sideNames.side_ne q),
          hqfree]
      obtain ⟨f, hf, rfl⟩ := List.mem_map.mp (hfst ▸ hqmem)
      have hstage := hset.stage_free sideNames hl hutidy hes (hfst ▸ hl.nodup) f hf hself
      have hside : sideNames.putAll v batch (sideNames.side f.1) = some .dir := by
        refine hb.resolve_right fun hd => hstage ?_
        exact sideNames.dir_blocked hd
      intro p hp
      exact sideNames.blocked_of_mem hl hp hqmem fun hs => hs ▸ hside
  -- The contents of the declared paths, as a function of the path.
  obtain ⟨content, hcontentAt⟩ := hl.exists_of_index (contentAt done cur)
  have hfilled : ∀ q ∈ destinationPaths P base files, ∀ c, u q = some (.file c) →
      c = content q := by
    intro q hq c hc
    obtain ⟨i, hi⟩ := List.getElem?_of_mem hq
    rw [hagree q hq] at hc
    rw [hcontentAt i q hi, hcontent i _ (sideNames.content_of_putAll hv hl hfront hi hc)]
  have hzero : ∀ f ∈ settleList P base files, f.2 = 0 → content f.1 = [] := by
    intro f hf hsize
    obtain ⟨i, hi⟩ := List.getElem?_of_mem hf
    rw [settleList, List.getElem?_map] at hi
    cases hfile : files[i]? with
    | none => simp [hfile] at hi
    | some entry =>
      rw [hfile, Option.map_some, Option.some.injEq] at hi
      subst hi
      rw [hcontentAt i _ (by rw [destinationPaths, List.getElem?_map, hfile, Option.map_some])]
      refine h.empty i ?_
      rw [declaredSize, hfile]
      exact hsize
  obtain ⟨hend, hlens⟩ := hset.contents sideNames hl hes hfilled hzero
  have hmissing := hset.missing_iff sideNames hl hfst (fun i q hq => by
    rw [hagree q (List.mem_of_getElem? hq), sideNames.putAll_none_iff hv hl hfront hq, hlen]) hp
  have hpmem := List.mem_of_getElem? hp
  constructor
  · obtain ⟨entry, hentry, rfl⟩ := entry_of_path hp
    have hsize := hlens (P.join base entry.name, entry.size)
      (List.mem_map.mpr ⟨entry, List.mem_of_getElem? hentry, rfl⟩)
    rw [← hcontentAt e _ hp, hsize, declaredSize, hentry]
    rfl
  · rw [← hmissing, ← hcontentAt e _ hp]
    constructor
    · intro hfile hnone
      rw [hfile] at hnone
      cases hnone
    · intro hsome
      rcases hat : (job.finalizeDirectWrite P fs).fs.lookup path with _ | ⟨c | _⟩
      · exact absurd hat hsome
      · rw [hend path hpmem c hat]
      · exact absurd hat ((hset.tidy sideNames hutidy hl hes).not_dir hl hpmem)

end Run

section Manifest

variable (P : Platform)

/-- The job an accepted manifest is received with. -/
def newDirectWrite (id : Int) (rootName : String) (destination : PathBuf) (fs : Fs)
    (files : List FileEntry) : Except String TransferJob :=
  match (newWrite id .generic rootName (.filePath destination) 0 false true false).setFiles P fs
      files with
  | .error e => .error e
  | .ok job => .ok ((job.setNeverOverwriteDestination true).setStrictDirectTransfer true)

variable {P} {root base : PathBuf} {files : List FileEntry} {id : Int} {rootName : String}
  {job : TransferJob} {fs : Fs}

theorem newDirectWrite_eq (h : newDirectWrite P id rootName base fs files = .ok job) :
    validateTransferFileNames P files = .ok () ∧
      job = { newWrite id .generic rootName (.filePath base) 0 false true false with
        totalSize := (files.map (·.size)).sum % 2 ^ 64
        files
        neverOverwriteDestination := true
        strictDirectTransfer := true } := by
  unfold newDirectWrite at h
  split at h
  · cases h
  · rename_i hset
    obtain ⟨hnames, rfl⟩ := setFiles_eq hset
    exact ⟨hnames, (Except.ok.inj h).symm⟩

/-- A fresh job has received nothing. -/
theorem newDirectWrite_direct (h : newDirectWrite P id rootName base fs files = .ok job) :
    Direct fs.lookup (destinationPaths P base files) base files id [] [] job fs := by
  obtain ⟨-, rfl⟩ := newDirectWrite_eq h
  refine ⟨⟨rfl, rfl, rfl, rfl, rfl, rfl⟩, rfl, rfl, fun n _ => ?_, fun _ => rfl, .inl ⟨rfl, rfl⟩⟩
  cases n <;> rfl

variable (P) in
/-- Every declared file is a regular file of its declared size that holds the data
accepted for it. -/
def DeclaredStored (base : PathBuf) (files : List FileEntry) (accepted : List (Int × Bytes))
    (fs : Fs) : Prop :=
  ∀ n entry, files[n]? = some entry → (dataFor n accepted).length = entry.size ∧
    fs.lookup (P.join base entry.name) = some (.file (dataFor n accepted))

variable (P) in
/-- The last pass makes a missing file from a declared one: when it starts with the
first `n` files received, file `d` is missing on its turn and file `e` is its staging file. -/
def TakesDeclared (base : PathBuf) (files : List FileEntry) (n : Nat) : Prop :=
  ∃ e d p q, e < d ∧ (destinationPaths P base files)[e]? = some p ∧
    (destinationPaths P base files)[d]? = some q ∧ p = downloadPath q ∧
    sideNames.Missing (destinationPaths P base files)
      (sideNames.Lost (destinationPaths P base files) n) d

/-- A strict receive that is finalised without an error has stored every declared file,
whatever was sent, exactly when the last pass has not made a missing file from a
declared one. -/
theorem finalizeDirectWrite_stores_iff {isDirectory : Bool} {emptyDirs : List String}
    {declaredTotalSize : Nat} (hP : P.FoldsPaths)
    (hmanifest : validateDirectTransferLayout P rootName isDirectory files emptyDirs
      declaredTotalSize = .ok ())
    (hbase : base ≠ []) (hempty : Vacant (receiveRoot base files) fs.lookup)
    (hjob : newDirectWrite P id rootName base fs files = .ok job)
    (blocks : List FileTransferBlock)
    (hok : ((job.writeAll P fs blocks).1.finalizeDirectWrite P
      (job.writeAll P fs blocks).2).result = .ok ()) :
    DeclaredStored P base files (job.acceptedAll P fs blocks)
        ((job.writeAll P fs blocks).1.finalizeDirectWrite P (job.writeAll P fs blocks).2).fs ↔
      ¬ TakesDeclared P base files (job.writeAll P fs blocks).1.receivedCount := by
  have hl := layout_of_regular (regular_of_accepted hP hbase hmanifest)
  have hnames := names_of_validate (newDirectWrite_eq hjob).1
  obtain ⟨-, -, hentries⟩ := total_of_accepted hmanifest
  have hcount : files.length ≤ 2 ^ 31 := hentries.trans (by decide)
  obtain ⟨done, cur, hrun, hcontent⟩ :=
    run_direct hl hempty hnames hcount (newDirectWrite_direct hjob) blocks
  have hdata : ∀ n, contentAt done cur n = dataFor n (job.acceptedAll P fs blocks) := by
    intro n
    rw [hcontent n]
    cases n <;> rfl
  have hpath : ∀ (n : Nat) (entry : FileEntry), files[n]? = some entry →
      (destinationPaths P base files)[n]? = some (P.join base entry.name) := by
    intro n entry hentry
    rw [destinationPaths, List.getElem?_map, hentry, Option.map_some]
  constructor
  · rintro hstored ⟨e, d, p, q, hlt, hp, hq, hpq, hmissing⟩
    obtain ⟨entry, hentry, rfl⟩ := entry_of_path hp
    obtain ⟨-, hiff⟩ := finalize_direct hl hempty hnames hcount hrun hok hp
    rw [hdata] at hiff
    exact hiff.mp (hstored e entry hentry).2 ⟨d, q, hlt, hq, hpq, hmissing⟩
  · intro hnone n entry hentry
    obtain ⟨hlen, hiff⟩ := finalize_direct hl hempty hnames hcount hrun hok (hpath n entry hentry)
    rw [hdata] at hlen hiff
    rw [declaredSize, hentry] at hlen
    refine ⟨hlen, hiff.mpr ?_⟩
    rintro ⟨d, q, hlt, hq, hpq, hmissing⟩
    exact hnone ⟨n, d, _, q, hlt, hpath n entry hentry, hq, hpq, hmissing⟩

/-- Without a declared staging name nothing is taken. -/
theorem not_takesDeclared {n : Nat} (h : ∀ p ∈ destinationPaths P base files,
    ∀ q ∈ destinationPaths P base files, p ≠ downloadPath q) :
    ¬ TakesDeclared P base files n := by
  rintro ⟨e, d, p, q, -, hp, hq, hpq, -⟩
  exact h p (List.mem_of_getElem? hp) q (List.mem_of_getElem? hq) hpq

/-- The job of a manifest received into `r` on an empty file system. -/
def freshDirectJob (files : List FileEntry) (totalSize : Nat) : TransferJob :=
  { newWrite (-7) .generic "push" (.filePath ["r"]) 0 false true false with
    totalSize, files, neverOverwriteDestination := true, strictDirectTransfer := true }

theorem finalizeDirectWrite_stores_iff_two :
    DeclaredStored .posix ["r"] [fileNamed "a" 1, fileNamed "b" 0]
      ((freshDirectJob [fileNamed "a" 1, fileNamed "b" 0] 1).acceptedAll .posix freshFs
        [⟨-7, 0, [5], false⟩, ⟨-7, 1, [], false⟩, ⟨-7, 0, [], false⟩])
      (((freshDirectJob [fileNamed "a" 1, fileNamed "b" 0] 1).writeAll .posix freshFs
        [⟨-7, 0, [5], false⟩, ⟨-7, 1, [], false⟩, ⟨-7, 0, [], false⟩]).1.finalizeDirectWrite .posix
        ((freshDirectJob [fileNamed "a" 1, fileNamed "b" 0] 1).writeAll .posix freshFs
          [⟨-7, 0, [5], false⟩, ⟨-7, 1, [], false⟩, ⟨-7, 0, [], false⟩]).2).fs := by
  have hroot : Vacant (receiveRoot ["r"] [fileNamed "a" 1, fileNamed "b" 0]) freshFs.lookup :=
    vacant_freshFs
  have hmanifest : validateDirectTransferLayout .posix "push" true
      [fileNamed "a" 1, fileNamed "b" 0] [] 1 = .ok () := by decide
  have hjob : newDirectWrite .posix (-7) "push" ["r"] freshFs [fileNamed "a" 1, fileNamed "b" 0] =
      .ok (freshDirectJob [fileNamed "a" 1, fileNamed "b" 0] 1) := by decide
  refine (finalizeDirectWrite_stores_iff posix_foldsPaths hmanifest (by decide) hroot hjob _
    (by decide)).mpr (not_takesDeclared ?_)
  decide

/-- A push that sends the first of two empty files only: the last pass makes the second
one from it. -/
theorem finalizeDirectWrite_takes_declared :
    ∃ job, newDirectWrite .posix (-7) "push" ["r"] freshFs
        [fileNamed "a.download" 0, fileNamed "a" 0] = .ok job ∧
      validateDirectTransferLayout .posix "push" true
        [fileNamed "a.download" 0, fileNamed "a" 0] [] 0 = .ok () ∧
      Vacant (receiveRoot ["r"] [fileNamed "a.download" 0, fileNamed "a" 0]) freshFs.lookup ∧
      ((job.writeAll .posix freshFs [⟨-7, 0, [], false⟩]).1.finalizeDirectWrite .posix
        (job.writeAll .posix freshFs [⟨-7, 0, [], false⟩]).2).result = .ok () ∧
      ¬ DeclaredStored .posix ["r"] [fileNamed "a.download" 0, fileNamed "a" 0]
        (job.acceptedAll .posix freshFs [⟨-7, 0, [], false⟩])
        ((job.writeAll .posix freshFs [⟨-7, 0, [], false⟩]).1.finalizeDirectWrite .posix
          (job.writeAll .posix freshFs [⟨-7, 0, [], false⟩]).2).fs := by
  refine ⟨freshDirectJob [fileNamed "a.download" 0, fileNamed "a" 0] 0, by decide, by decide,
    vacant_freshFs, by decide, fun hall => ?_⟩
  have hfirst := (hall 0 (fileNamed "a.download" 0) rfl).2
  revert hfirst
  decide

end Manifest

end TransferJob

end MDesk
