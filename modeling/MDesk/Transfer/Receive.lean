import MDesk.Transfer.Writing

/-!
# Receiving a list of files

An ordinary job receives the blocks of its files in order. What the destination holds
after each file is the abstract batch of `Core.Staging`, so that all files arrive
exactly when no path stands in the way of the side names of a later file.
-/

namespace MDesk

open MDesk.Core

namespace TransferJob

variable (P : Platform)

/-- The decoded data of a block of an ordinary job. -/
def blockData (block : FileTransferBlock) : Bytes :=
  if block.compressed then P.decompress block.data else block.data

section Entry

variable {P} {base : PathBuf} {files : List FileEntry} {id : Int} {w : View String UInt8}
  {path : PathBuf} {n : Nat} {entry : FileEntry} {job : TransferJob} {fs : Fs}

theorem decodeBlock_ordinary (hjob : Writing base files id false job) {block : FileTransferBlock}
    (hid : block.id = id) (hn : block.fileNum = n) (hlen : n < files.length) :
    job.decodeBlock P block = .ok (blockData P block) := by
  have hrange : ¬ files.length ≤ (n : Int).toNat := by
    rw [Int.toNat_natCast]
    omega
  have hneg : ¬ (n : Int) < 0 := by omega
  simp only [decodeBlock, hid, hjob.id, hn, hjob.source, hjob.files, hjob.strict, blockData,
    ne_eq, not_true_eq_false, if_false, hrange, hneg, and_false, Bool.false_eq_true, false_and]
  split_ifs <;> rfl

/-- An ordinary job opens the file of the block and appends the decoded data. -/
theorem write_ordinary (hjob : Writing base files id false job) {block : FileTransferBlock}
    (hid : block.id = id) (hn : block.fileNum = n) (hlen : n < files.length) :
    job.write P fs block = (job.openForBlock P fs block).andThen fun job fs =>
      job.appendBlock fs block (blockData P block) := by
  have htaken : job.admitBlock fs block (blockData P block) = .ok job fs := by
    rw [admitBlock, if_neg (by rw [hjob.strict]; nofun)]
  simp only [write, decodeBlock_ordinary hjob hid hn hlen, htaken, Outcome.ok_andThen]

/-- The first block of an entry opens its file. -/
theorem write_first (hjob : Writing base files id false job) (hentry : files[n]? = some entry)
    (hn : n < 2 ^ 64) (hname : validateFileNameNoTraversal P entry.name = .ok ())
    (hpath : P.join base entry.name = path) (hway : WayTo w path)
    (block : FileTransferBlock) (hid : block.id = id) (hnum : block.fileNum = n)
    (hmove : n ≠ asUsize job.fileNum ∨ job.dataStream = none) (h : Ready P w job fs) :
    Writing base files id false (job.write P fs block).job ∧
      Current w path n (blockData P block) (job.write P fs block).job
        (job.write P fs block).fs := by
  obtain ⟨fs', hfs', hopen⟩ := openForBlock_moved hjob hentry hn hname hpath hway hnum hmove h
  rw [write_ordinary hjob hid hnum (List.getElem?_eq_some_iff.mp hentry).1, hopen]
  obtain ⟨hkeep, hcur, -⟩ := current_of_staging (n := n) hjob hfs' hway block (blockData P block)
  exact ⟨hkeep, hcur⟩

/-- A later block of the entry extends its file. -/
theorem write_more {contents : Bytes} (hjob : Writing base files id false job)
    (hentry : files[n]? = some entry)
    (hn : n < 2 ^ 64) (hname : validateFileNameNoTraversal P entry.name = .ok ())
    (hpath : P.join base entry.name = path) (hway : WayTo w path)
    (block : FileTransferBlock) (hid : block.id = id) (hnum : block.fileNum = n)
    (h : Current w path n contents job fs) :
    Writing base files id false (job.write P fs block).job ∧
      Current w path n (contents ++ blockData P block) (job.write P fs block).job
        (job.write P fs block).fs := by
  rw [write_ordinary hjob hid hnum (List.getElem?_eq_some_iff.mp hentry).1]
  rcases h.state with ⟨hfree, mark, hrec⟩ | ⟨hb, hs, hfs⟩
  · have hsame : block.fileNum.toNat = asUsize job.fileNum := by
      rw [hnum, h.fileNum, Int.toNat_natCast, asUsize_natCast hn]
    obtain ⟨fs', happend, hfs'⟩ := appendBlock_ok hrec block (blockData P block)
    rw [openForBlock_stay P hjob.source hsame hrec.stream, Outcome.ok_andThen, happend]
    exact ⟨⟨hjob.id, hjob.type, hjob.source, hjob.files, hjob.strict, hjob.never⟩, h.fileNum,
      .inl ⟨hfree, mark, rfl, hfs'⟩⟩
  · -- The file is tried again, over what the failed attempt left.
    have hagain := sideNames.blocked_again hb
    have hway' : WayTo (sideNames.blocked w path) path := by
      intro q hq c hc
      exact hway q hq c (sideNames.file_of_blocked hc)
    obtain ⟨fs', hfs', hopen⟩ := openForBlock_moved hjob hentry hn hname hpath hway' hnum
      (.inr hs) (ready_of_closed hs hfs)
    rw [hopen]
    obtain ⟨hkeep, hcur, -⟩ := current_of_staging (n := n) hjob hfs' hway' block (blockData P block)
    refine ⟨hkeep, hcur.fileNum, ?_⟩
    rcases hcur.state with ⟨hfree, -⟩ | ⟨-, hs', hl⟩
    · exact absurd hagain.1 hfree
    · exact .inr ⟨hb, hs', hl.trans hagain.2⟩

/-- The blocks of entry `n`, given by their data and whether it is compressed. -/
def blocksOf (id : Int) (n : Nat) (bs : List (Bytes × Bool)) : List FileTransferBlock :=
  bs.map fun b => { id, fileNum := n, data := b.1, compressed := b.2 }

/-- The blocks of consecutive entries from `n` on. -/
def blocksFrom (id : Int) (n : Nat) : List (List (Bytes × Bool)) → List FileTransferBlock
  | [] => []
  | bs :: rest => blocksOf id n bs ++ blocksFrom id (n + 1) rest

variable (P) in
/-- What the blocks of one file decode to. -/
def received (bs : List (Bytes × Bool)) : Bytes :=
  (bs.map fun b => if b.2 then P.decompress b.1 else b.1).flatten

theorem run_more {contents : Bytes} (hjob : Writing base files id false job)
    (hentry : files[n]? = some entry)
    (hn : n < 2 ^ 64) (hname : validateFileNameNoTraversal P entry.name = .ok ())
    (hpath : P.join base entry.name = path) (hway : WayTo w path) (bs : List (Bytes × Bool))
    (h : Current w path n contents job fs) :
    Writing base files id false (job.writeAll P fs (blocksOf id n bs)).1 ∧
      Current w path n (contents ++ received P bs) (job.writeAll P fs (blocksOf id n bs)).1
        (job.writeAll P fs (blocksOf id n bs)).2 := by
  induction bs generalizing job fs contents with
  | nil =>
    refine ⟨hjob, ?_⟩
    simpa [received, blocksOf, writeAll] using h
  | cons b bs ih =>
    obtain ⟨hjob', hcur⟩ := write_more hjob hentry hn hname hpath hway
      { id, fileNum := n, data := b.1, compressed := b.2 } rfl rfl h
    have hrest := ih hjob' hcur
    rw [List.append_assoc] at hrest
    exact hrest

/-- All blocks of one file, the first of which opens it. -/
theorem run_entry (hjob : Writing base files id false job) (hentry : files[n]? = some entry)
    (hn : n < 2 ^ 64) (hname : validateFileNameNoTraversal P entry.name = .ok ())
    (hpath : P.join base entry.name = path) (hway : WayTo w path) {bs : List (Bytes × Bool)}
    (hbs : bs ≠ []) (hmove : n ≠ asUsize job.fileNum ∨ job.dataStream = none)
    (h : Ready P w job fs) :
    Writing base files id false (job.writeAll P fs (blocksOf id n bs)).1 ∧
      Current w path n (received P bs) (job.writeAll P fs (blocksOf id n bs)).1
        (job.writeAll P fs (blocksOf id n bs)).2 := by
  cases bs with
  | nil => exact absurd rfl hbs
  | cons b bs =>
    obtain ⟨hjob', hcur⟩ := write_first hjob hentry hn hname hpath hway
      { id, fileNum := n, data := b.1, compressed := b.2 } rfl rfl hmove h
    exact run_more hjob' hentry hn hname hpath hway bs hcur

end Entry

section Files

variable {P} {base root : PathBuf} {files : List FileEntry} {id : Int}

variable (P) in
/-- The contents of the files of a list, given their blocks. -/
def arrivals (base : PathBuf) (files : List FileEntry) (bs : List (List (Bytes × Bool))) :
    List (PathBuf × Bytes) :=
  (destinationPaths P base files).zip (bs.map (received P))

/-- Receiving the files from `n` on adds them to the batch, one after another. -/
theorem run_files (hl : Layout root (destinationPaths P base files))
    (hnames : ∀ f ∈ files, validateFileNameNoTraversal P f.name = .ok ())
    (hcount : files.length ≤ 2 ^ 31) (before : List FileEntry) {rest : List FileEntry}
    (hfiles : files = before ++ rest)
    {bs : List (List (Bytes × Bool))} (hlen : bs.length = rest.length) (hbs : ∀ b ∈ bs, b ≠ [])
    {w : View String UInt8} (hw : Tidy root (destinationPaths P base files) w)
    {job : TransferJob} {fs : Fs} (hjob : Writing base files id false job) (h : Ready P w job fs)
    (hmove : before.length ≠ asUsize job.fileNum ∨ job.dataStream = none) :
    Writing base files id false (job.writeAll P fs (blocksFrom id before.length bs)).1 ∧
    Ready P (sideNames.attemptAll w (arrivals P base rest bs))
      (job.writeAll P fs (blocksFrom id before.length bs)).1
      (job.writeAll P fs (blocksFrom id before.length bs)).2 := by
  induction rest generalizing before bs w job fs with
  | nil =>
    rw [List.eq_nil_of_length_eq_zero hlen]
    exact ⟨hjob, h⟩
  | cons entry rest ih =>
    cases bs with
    | nil => cases hlen
    | cons b bs =>
      have hmem : entry ∈ files := by simp [hfiles]
      have hpmem : P.join base entry.name ∈ destinationPaths P base files :=
        List.mem_map.mpr ⟨entry, hmem, rfl⟩
      have hn : before.length < 2 ^ 31 := by
        have := congrArg List.length hfiles
        simp only [List.length_append, List.length_cons] at this
        omega
      have hentry : files[before.length]? = some entry := by simp [hfiles]
      obtain ⟨hjob', hcur⟩ := run_entry hjob hentry (by omega) (hnames entry hmem) rfl
        (fun q hq c => hw.way hl hpmem hq) (hbs b List.mem_cons_self) hmove h
      have hready := ready_of_current hjob' hentry (by omega) (hnames entry hmem) rfl
        (hl.ne_nil _ hpmem) (hw.not_dir hl hpmem) nofun hcur
      have hmove' : (before ++ [entry]).length ≠
            asUsize (job.writeAll P fs (blocksOf id before.length b)).1.fileNum ∨
          (job.writeAll P fs (blocksOf id before.length b)).1.dataStream = none := by
        left
        rw [hcur.fileNum, asUsize_natCast (by omega), List.length_append]
        simp
      have hrest := ih (before ++ [entry]) (by simp [hfiles]) (Nat.succ.inj hlen)
        (fun c hc => hbs c (List.mem_cons_of_mem b hc))
        (sideNames.tidy_attempt hw hl hpmem) hjob' hready hmove'
      rw [blocksFrom, writeAll_append]
      rw [List.length_append, List.length_singleton] at hrest
      exact hrest

/-- The paths of an arriving list are its final paths. -/
theorem arrivals_paths {bs : List (List (Bytes × Bool))} (hlen : bs.length = files.length) :
    (arrivals P base files bs).map Prod.fst = destinationPaths P base files := by
  rw [arrivals, List.map_fst_zip]
  simp [destinationPaths, hlen]

variable (P) in
/-- Deliver the blocks of every file in order, then finalise. -/
def receiveFiles (job : TransferJob) (fs : Fs) (bs : List (List (Bytes × Bool))) : Fs :=
  let r := job.writeAll P fs (blocksFrom job.id 0 bs)
  (r.1.finalizeWrite P r.2).fs

variable (P) in
/-- Every file is at its destination with the data delivered for it. -/
def AllReceived (base : PathBuf) (files : List FileEntry) (bs : List (List (Bytes × Bool)))
    (fs : Fs) : Prop :=
  ∀ e ∈ arrivals P base files bs, fs.lookup e.1 = some (.file e.2)

/-- No path of the list stands in the way of the side files of a later one. -/
def SidesClear (paths : List PathBuf) : Prop := paths.Pairwise sideNames.Clear

instance (paths : List PathBuf) : Decidable (SidesClear paths) :=
  inferInstanceAs (Decidable (List.Pairwise _ paths))

/-- An ordinary receive loses nothing exactly when no path stands in the way of the side
files of a later one. -/
theorem receiveFiles_iff {job : TransferJob} {fs : Fs} {remote : String} {fileNum : Int}
    {showHidden isRemote : Bool} {bs : List (List (Bytes × Bool))}
    (hjob : (newWrite id .generic remote (.filePath base) fileNum showHidden isRemote
      false).setFiles P fs files = .ok job)
    (hreg : RegularFiles P base files) (hcount : files.length ≤ 2 ^ 31)
    (hempty : Vacant (receiveRoot base files) fs.lookup)
    (hlen : bs.length = files.length) (hbs : ∀ b ∈ bs, b ≠ []) :
    AllReceived P base files bs (job.receiveFiles P fs bs) ↔
      SidesClear (destinationPaths P base files) := by
  have hl := layout_of_regular hreg
  obtain ⟨hvalid, hset⟩ := setFiles_eq hjob
  have hnames := names_of_validate hvalid
  have hord : Writing base files id false job := by
    rw [hset]
    exact ⟨rfl, rfl, rfl, rfl, rfl, rfl⟩
  have hclosed : job.dataStream = none := by
    rw [hset]
    rfl
  obtain ⟨-, fs', hfin, hfs'⟩ := run_files hl hnames hcount [] rfl hlen hbs hempty.tidy.mono
    hord (ready_of_closed hclosed rfl) (.inr hclosed)
  have hpaths : (arrivals P base files bs).map Prod.fst = destinationPaths P base files :=
    arrivals_paths hlen
  rw [AllReceived, receiveFiles, hord.id]
  rw [List.length_nil] at hfin
  simp only [hfin, Outcome.ok_fs]
  rw [show fs'.lookup = sideNames.attemptAll fs.lookup (arrivals P base files bs) from hfs',
    sideNames.attemptAll_iff hempty.tidy (hpaths.symm ▸ hl), SidesClear, ← hpaths,
    List.pairwise_map]

theorem receiveFiles_iff_two :
    AllReceived .posix ["r"] [fileNamed "a" 1, fileNamed "b" 2]
      [[([1], false)], [([2], false), ([3], false)]]
      (receiveFiles .posix
        { newWrite 7 .generic "" (.filePath ["r"]) 0 false false false with
          totalSize := 3, files := [fileNamed "a" 1, fileNamed "b" 2] }
        freshFs [[([1], false)], [([2], false), ([3], false)]]) := by
  have hroot : Vacant (receiveRoot ["r"] [fileNamed "a" 1, fileNamed "b" 2]) freshFs.lookup :=
    vacant_freshFs
  have hjob : (newWrite 7 .generic "" (.filePath ["r"]) 0 false false false).setFiles .posix
      freshFs [fileNamed "a" 1, fileNamed "b" 2] = .ok
        { newWrite 7 .generic "" (.filePath ["r"]) 0 false false false with
          totalSize := 3, files := [fileNamed "a" 1, fileNamed "b" 2] } := by decide
  refine (receiveFiles_iff hjob (.inr ⟨by decide, by decide, by decide⟩) (by decide) hroot rfl
    (by decide)).mpr ?_
  decide

/-- A file named like the staging file of a later one is renamed away with it. -/
theorem receiveFiles_loses_staging_name :
    ∃ job, (newWrite 7 .generic "" (.filePath ["r"]) 0 false false false).setFiles .posix
        freshFs [fileNamed "a.download" 1, fileNamed "a" 1] = .ok job ∧
      RegularFiles .posix ["r"] [fileNamed "a.download" 1, fileNamed "a" 1] ∧
      Vacant (receiveRoot ["r"] [fileNamed "a.download" 1, fileNamed "a" 1]) freshFs.lookup ∧
      ¬ AllReceived .posix ["r"] [fileNamed "a.download" 1, fileNamed "a" 1]
        [[([1], false)], [([2], false)]]
        (job.receiveFiles .posix freshFs [[([1], false)], [([2], false)]]) := by
  refine ⟨{ newWrite 7 .generic "" (.filePath ["r"]) 0 false false false with
    totalSize := 2, files := [fileNamed "a.download" 1, fileNamed "a" 1] }, by decide,
    .inr ⟨by decide, by decide, by decide⟩, vacant_freshFs, ?_⟩
  intro hall
  have hfirst := hall (["r", "a.download"], [1]) (by decide)
  revert hfirst
  decide

end Files

end TransferJob

end MDesk
