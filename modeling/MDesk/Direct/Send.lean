import MDesk.Direct.Source

/-!
# The blocks of an honest sender

A direct job over the manifest of an unchanged source tree sends, for every file in
turn, its data in full buffers, a last shorter one, and an empty block at its end.
-/

namespace MDesk

open MDesk.Core

/-- The buffers a file is read in, and the empty one at its end. -/
def pieces (contents : Bytes) : List Bytes :=
  if _h : contents = [] then [[]]
  else contents.take readBufSize :: pieces (contents.drop readBufSize)
termination_by contents.length
decreasing_by
  have hpos := List.length_pos_iff.mpr _h
  rw [List.length_drop, readBufSize]
  omega

theorem pieces_nil : pieces [] = [[]] := by
  rw [pieces, dif_pos rfl]

theorem pieces_of_ne_nil {contents : Bytes} (h : contents ≠ []) :
    pieces contents = contents.take readBufSize :: pieces (contents.drop readBufSize) := by
  rw [pieces, dif_neg h]

/-- A block of file `n` that decodes to `data`. -/
structure Carries (P : Platform) (id : Int) (n : Nat) (data : Bytes) (block : FileTransferBlock) :
    Prop where
  id : block.id = id
  fileNum : block.fileNum = n
  length : block.data.length ≤ readBufSize
  decoded : (block.compressed = false ∧ block.data = data) ∨
    (block.compressed = true ∧ P.decodeAll block.data = some data)

/-- The blocks of the files from `n` on, file after file. -/
inductive Delivers (P : Platform) (id : Int) :
    Nat → List Bytes → List FileTransferBlock → Prop where
  | nil (n : Nat) : Delivers P id n [] []
  | file {n : Nat} {c : Bytes} {cs : List Bytes} {bs rest : List FileTransferBlock}
      (blocks : List.Forall₂ (Carries P id n) (pieces c) bs)
      (next : Delivers P id (n + 1) cs rest) :
      Delivers P id n (c :: cs) (bs ++ rest)

namespace TransferJob

variable (P : Platform)

/-- At most `steps` rounds of opening and reading, until the job reads `None`. -/
def sendBlocks (fs : Fs) : Nat → TransferJob → Option (List FileTransferBlock)
  | 0, _ => none
  | steps + 1, job =>
    match job.openDataStream P fs with
    | (.error _, _) => none
    | (.ok true, _) => some []
    | (.ok false, job) =>
      match job.read P fs with
      | (.error _, _) => none
      | (.ok none, _) => some []
      | (.ok (some block), job) => (sendBlocks fs steps job).map (block :: ·)

/-- The job reads the blocks, and `None` behind them. -/
def Sends (fs : Fs) (job : TransferJob) (blocks : List FileTransferBlock) : Prop :=
  ∃ steps, job.sendBlocks P fs steps = some blocks

variable {P} {fs : Fs} {job job' job'' : TransferJob} {blocks : List FileTransferBlock}

theorem sends_done (h : job.openDataStream P fs = (.ok true, job')) : job.Sends P fs [] :=
  ⟨1, by simp only [sendBlocks, h]⟩

theorem sends_cons {block : FileTransferBlock} (hopen : job.openDataStream P fs = (.ok false, job'))
    (hread : job'.read P fs = (.ok (some block), job'')) (h : job''.Sends P fs blocks) :
    job.Sends P fs (block :: blocks) := by
  obtain ⟨steps, hsteps⟩ := h
  exact ⟨steps + 1, by simp only [sendBlocks, hopen, hread, hsteps, Option.map_some]⟩

/-- More rounds change nothing. -/
theorem sendBlocks_mono {m n : Nat} (hmn : m ≤ n) (h : job.sendBlocks P fs m = some blocks) :
    job.sendBlocks P fs n = some blocks := by
  induction m generalizing n job blocks with
  | zero => cases h
  | succ m ih =>
    obtain ⟨k, rfl⟩ : ∃ k, n = k + 1 := ⟨n - 1, by omega⟩
    rw [sendBlocks] at h ⊢
    split at h
    · exact h
    · exact h
    · split at h
      · exact h
      · exact h
      · obtain ⟨rest, hrest, rfl⟩ := Option.map_eq_some_iff.mp h
        rw [ih (by omega) hrest, Option.map_some]

/-- The blocks a job sends are determined. -/
theorem Sends.unique {blocks' : List FileTransferBlock} (h : job.Sends P fs blocks)
    (h' : job.Sends P fs blocks') : blocks = blocks' := by
  obtain ⟨m, hm⟩ := h
  obtain ⟨n, hn⟩ := h'
  have hm' := sendBlocks_mono (Nat.le_max_left m n) hm
  have hn' := sendBlocks_mono (Nat.le_max_right m n) hn
  exact Option.some.inj (hm'.symm.trans hn')

/-- The fields of a direct read job that sending never changes. -/
structure Sending (source : PathBuf) (files : List FileEntry)
    (identities : List DirectSourceIdentity) (id : Int) (job : TransferJob) : Prop where
  id : job.id = id
  source : job.dataSource = .filePath source
  files : job.files = files
  identities : job.directSourceIdentities = identities
  strict : job.strictDirectTransfer = true
  detection : job.enableOverwriteDetection = false

section Files

variable {source : PathBuf} {files : List FileEntry} {identities : List DirectSourceIdentity}
  {id : Int} {n : Nat} {entry : FileEntry} {identity : DirectSourceIdentity}

/-- Opening the recorded file of an entry. -/
theorem openDataStream_source (hjob : Sending source files identities id job)
    (hnum : job.fileNum = n) (hn : n < 2 ^ 64) (hs : job.dataStream = none)
    (hentry : files[n]? = some entry) (hidentity : identities[n]? = some identity)
    (hrec : RecordsFile P fs source entry identity) :
    job.openDataStream P fs = (.ok false, { job with
      dataStream := some (.fileStream (sourcePath source entry.name) 0 .read)
      fileConfirmed := false
      fileIsWaiting := false }) := by
  have hat : job.files[asUsize job.fileNum]? = some entry := by
    rw [hjob.files, hnum, asUsize_natCast hn, hentry]
  have hmeta := symlinkMetadata_ok hrec.file
  have hsize : directSourceIdentity P (sourcePath source entry.name)
      (sourceContents fs source entry.name).length = identity := by
    rw [hrec.identity, hrec.size]
  have hids : job.directSourceIdentities[asUsize job.fileNum]? = some identity := by
    rw [hjob.identities, hnum, asUsize_natCast hn, hidentity]
  have hopened : job.validateOpened P fs source (sourcePath source entry.name) entry = .ok () := by
    simp only [validateOpened, hjob.strict, if_true, hrec.valid, hmeta, hids, hsize, ne_eq,
      not_true_eq_false, if_false]
  have hread : openFileForRead P fs (sourcePath source entry.name) = .ok () := by
    simp only [openFileForRead, hmeta]
  simp [openDataStream, hjob.source, hat, hs, sourceFor, hjob.strict, hrec.valid, hread, hopened]

/-- An open file stays open. -/
theorem openDataStream_stay (hjob : Sending source files identities id job)
    (hnum : job.fileNum = n) (hn : n < 2 ^ 64) (hentry : files[n]? = some entry) {s : DataStream}
    (hs : job.dataStream = some s) : job.openDataStream P fs = (.ok false, job) := by
  have hat : job.files[asUsize job.fileNum]? = some entry := by
    rw [hjob.files, hnum, asUsize_natCast hn, hentry]
  simp [openDataStream, hjob.source, hat, hs]

theorem openDataStream_done (hjob : Sending source files identities id job)
    (hnum : job.fileNum = files.length) (hn : files.length < 2 ^ 64) :
    job.openDataStream P fs = (.ok true, { job with dataStream := none }) := by
  have hat : job.files[asUsize job.fileNum]? = none := by
    rw [hjob.files, hnum, asUsize_natCast hn, List.getElem?_eq_none le_rfl]
  simp [openDataStream, hjob.source, hat]

/-- What goes on the wire decodes to the buffer. -/
theorem carries_wireData (hcompress : ∀ data, P.decompress (P.compress data) = data)
    (hjob : Sending source files identities id job) (hnum : job.fileNum = n) (hn : n < 2 ^ 31)
    (name : String) {data : Bytes} (hlen : data.length ≤ readBufSize) :
    Carries P id n data
      (job.blockFor (job.wireData P name data).1 (job.wireData P name data).2) := by
  have hfileNum : wrapI32 (asUsize job.fileNum) = n := by
    rw [hnum, asUsize_natCast (by omega), wrapI32_natCast hn]
  unfold wireData
  split_ifs with hshort
  · have hne : data ≠ [] := by
      rintro rfl
      exact absurd hshort.2.2 (Nat.not_lt_zero _)
    exact ⟨hjob.id, hfileNum, hshort.2.2.le.trans hlen,
      .inr ⟨rfl, Platform.decodeAll_eq (hcompress data) hne⟩⟩
  · exact ⟨hjob.id, hfileNum, hlen, .inl ⟨rfl, rfl⟩⟩

/-- A buffer of an open file whose remaining contents are `rest`. -/
theorem read_piece (hcompress : ∀ data, P.decompress (P.compress data) = data)
    (hjob : Sending source files identities id job) (hnum : job.fileNum = n) (hn : n < 2 ^ 31)
    (hentry : files[n]? = some entry) {path : PathBuf} {k : Nat} {contents rest : Bytes}
    (hs : job.dataStream = some (.fileStream path k .read))
    (hfile : fs.lookup path = some (.file contents)) (hrest : contents.drop k = rest)
    (hne : rest ≠ []) :
    ∃ block job' k', job.read P fs = (.ok (some block), job') ∧
      Carries P id n (rest.take readBufSize) block ∧ Sending source files identities id job' ∧
      job'.fileNum = n ∧ job'.dataStream = some (.fileStream path k' .read) ∧
      contents.drop k' = rest.drop readBufSize := by
  have hat : job.files[asUsize job.fileNum]? = some entry := by
    rw [hjob.files, hnum, asUsize_natCast (by omega), hentry]
  obtain ⟨name, hname⟩ : ∃ name, job.readName = some name := by
    simp only [readName, hjob.source, hat]
    exact ⟨_, rfl⟩
  obtain ⟨byte, bytes, hdata⟩ : ∃ byte bytes, rest.take readBufSize = byte :: bytes := by
    refine List.exists_cons_of_ne_nil fun hnil => ?_
    rcases List.take_eq_nil_iff.mp hnil with hzero | hzero
    · cases hzero
    · exact hne hzero
  have hlen : (byte :: bytes).length ≤ readBufSize := by
    rw [← hdata, List.length_take]
    exact Nat.min_le_left _ _
  have hfill : DataStream.fill fs (.fileStream path k .read) = .ok (byte :: bytes,
      .fileStream path (k + (byte :: bytes).length) .read) := by
    simp only [DataStream.fill, hfile, hrest, hdata]
  refine ⟨job.blockFor (job.wireData P name (byte :: bytes)).1
      (job.wireData P name (byte :: bytes)).2,
    { job with
      dataStream := some (.fileStream path (k + (byte :: bytes).length) .read)
      finishedSize := (job.finishedSize + (byte :: bytes).length) % 2 ^ 64
      transferred := (job.transferred + (job.wireData P name (byte :: bytes)).1.length) % 2 ^ 64 },
    k + (byte :: bytes).length, ?_, ?_, ?_, hnum, rfl, ?_⟩
  · simp only [read, hjob.detection, Bool.false_eq_true, false_and, and_false, if_false, hname, hs,
      hfill]
  · rw [hdata]
    exact carries_wireData hcompress hjob hnum hn name hlen
  · exact ⟨hjob.id, hjob.source, hjob.files, hjob.identities, hjob.strict, hjob.detection⟩
  · rw [← List.drop_drop, hrest, ← hdata, List.length_take]
    rcases Nat.le_total readBufSize rest.length with hle | hle
    · rw [Nat.min_eq_left hle]
    · rw [Nat.min_eq_right hle, List.drop_eq_nil_of_le le_rfl, List.drop_eq_nil_of_le hle]

/-- The end of an open file. -/
theorem read_end (hjob : Sending source files identities id job) (hnum : job.fileNum = n)
    (hn : n + 1 < 2 ^ 31) (hentry : files[n]? = some entry) {path : PathBuf} {k : Nat}
    {contents : Bytes} (hs : job.dataStream = some (.fileStream path k .read))
    (hfile : fs.lookup path = some (.file contents)) (hrest : contents.drop k = []) :
    ∃ block job', job.read P fs = (.ok (some block), job') ∧ Carries P id n [] block ∧
      Sending source files identities id job' ∧ job'.fileNum = (n + 1 : Nat) ∧
      job'.dataStream = none := by
  have hat : job.files[asUsize job.fileNum]? = some entry := by
    rw [hjob.files, hnum, asUsize_natCast (by omega), hentry]
  obtain ⟨name, hname⟩ : ∃ name, job.readName = some name := by
    simp only [readName, hjob.source, hat]
    exact ⟨_, rfl⟩
  have hfill : DataStream.fill fs (.fileStream path k .read) =
      .ok ([], .fileStream path k .read) := by
    simp [DataStream.fill, hfile, hrest]
  have hnext : wrapI32 (job.fileNum + 1) = (n + 1 : Nat) := by
    rw [hnum]
    exact wrapI32_natCast hn
  refine ⟨job.blockFor [] false, { job.nextFile with dataStream := none }, ?_, ?_, ?_, hnext, rfl⟩
  · simp only [read, hjob.detection, Bool.false_eq_true, false_and, and_false, if_false, hname, hs,
      hfill, hjob.source, DataSource.isFilePath, if_true]
  · refine ⟨hjob.id, ?_, Nat.zero_le _, .inl ⟨rfl, rfl⟩⟩
    rw [blockFor, hnum, asUsize_natCast (by omega), wrapI32_natCast (by omega)]
  · exact ⟨hjob.id, hjob.source, hjob.files, hjob.identities, hjob.strict, hjob.detection⟩

/-- The rest of an open file, and what the job sends behind it. -/
theorem sends_file (hcompress : ∀ data, P.decompress (P.compress data) = data)
    {cs : List Bytes} (hn : n + 1 < 2 ^ 31) (hentry : files[n]? = some entry)
    (hnext : ∀ job, Sending source files identities id job → job.fileNum = (n + 1 : Nat) →
      job.dataStream = none → ∃ blocks, job.Sends P fs blocks ∧ Delivers P id (n + 1) cs blocks)
    {path : PathBuf} {contents rest : Bytes} (hfile : fs.lookup path = some (.file contents))
    {k : Nat} (hrest : contents.drop k = rest) (hjob : Sending source files identities id job)
    (hnum : job.fileNum = n) (hs : job.dataStream = some (.fileStream path k .read)) :
    ∃ bs blocks, job.Sends P fs (bs ++ blocks) ∧ List.Forall₂ (Carries P id n) (pieces rest) bs ∧
      Delivers P id (n + 1) cs blocks := by
  induction rest using pieces.induct generalizing job k with
  | case1 =>
    obtain ⟨block, job', hread, hcarries, hjob', hnum', hs'⟩ :=
      read_end hjob hnum hn hentry hs hfile hrest
    obtain ⟨blocks, hsends, hdelivers⟩ := hnext job' hjob' hnum' hs'
    refine ⟨[block], blocks, ?_, ?_, hdelivers⟩
    · exact sends_cons (openDataStream_stay hjob hnum (by omega) hentry hs) hread hsends
    · rw [pieces_nil]
      exact .cons hcarries .nil
  | case2 rest hne ih =>
    obtain ⟨block, job', k', hread, hcarries, hjob', hnum', hs', hrest'⟩ :=
      read_piece hcompress hjob hnum (by omega) hentry hs hfile hrest hne
    obtain ⟨bs, blocks, hsends, hbs, hdelivers⟩ := ih hrest' hjob' hnum' hs'
    refine ⟨block :: bs, blocks, ?_, ?_, hdelivers⟩
    · exact sends_cons (openDataStream_stay hjob hnum (by omega) hentry hs) hread hsends
    · rw [pieces_of_ne_nil hne]
      exact .cons hcarries hbs

/-- The first read of a file goes through its opening. -/
theorem sends_open (hopen : job.openDataStream P fs = (.ok false, job'))
    (hstay : job'.openDataStream P fs = (.ok false, job')) (h : job'.Sends P fs blocks) :
    job.Sends P fs blocks := by
  obtain ⟨steps, hsteps⟩ := h
  cases steps with
  | zero => cases hsteps
  | succ steps =>
    refine ⟨steps + 1, ?_⟩
    rw [sendBlocks, hstay] at hsteps
    rw [sendBlocks, hopen]
    exact hsteps

/-- The blocks of the files from `n` on. -/
theorem sends_files (hcompress : ∀ data, P.decompress (P.compress data) = data)
    (hcount : files.length < 2 ^ 31)
    (hrecords : List.Forall₂ (RecordsFile P fs source) files identities)
    (before : List FileEntry) {rest : List FileEntry} (hfiles : files = before ++ rest)
    (hjob : Sending source files identities id job) (hnum : job.fileNum = before.length)
    (hs : job.dataStream = none) :
    ∃ blocks, job.Sends P fs blocks ∧ Delivers P id before.length
      (rest.map fun entry => sourceContents fs source entry.name) blocks := by
  induction rest generalizing before job with
  | nil =>
    rw [List.append_nil] at hfiles
    subst hfiles
    exact ⟨[], sends_done (openDataStream_done hjob hnum (by omega)), .nil _⟩
  | cons entry rest ih =>
    have hlen : before.length < files.length := by
      rw [hfiles, List.length_append, List.length_cons]
      omega
    have hentry : files[before.length]? = some entry := by simp [hfiles]
    have hidlen : before.length < identities.length := hrecords.length_eq ▸ hlen
    have hrec : RecordsFile P fs source entry identities[before.length] := by
      have hget := hrecords.get hlen hidlen
      rwa [List.get_eq_getElem, List.get_eq_getElem,
        (List.getElem?_eq_some_iff.mp hentry).2] at hget
    have hopen := openDataStream_source hjob hnum (by omega) hs hentry
      (List.getElem?_eq_getElem hidlen) hrec
    have hnext : ∀ job, Sending source files identities id job →
        job.fileNum = (before.length + 1 : Nat) → job.dataStream = none →
        ∃ blocks, job.Sends P fs blocks ∧ Delivers P id (before.length + 1)
          (rest.map fun entry => sourceContents fs source entry.name) blocks := by
      intro job hjob hnum hs
      have htail := ih (before ++ [entry]) (by simp [hfiles]) hjob (by simpa using hnum) hs
      rwa [List.length_append, List.length_singleton] at htail
    obtain ⟨job', hjob'⟩ : ∃ job' : TransferJob, { job with
        dataStream := some (.fileStream (sourcePath source entry.name) 0 .read)
        fileConfirmed := false
        fileIsWaiting := false } = job' := ⟨_, rfl⟩
    rw [hjob'] at hopen
    have hkeep : Sending source files identities id job' := by
      rw [← hjob']
      exact ⟨hjob.id, hjob.source, hjob.files, hjob.identities, hjob.strict, hjob.detection⟩
    have hnum' : job'.fileNum = before.length := by
      rw [← hjob']
      exact hnum
    have hs' : job'.dataStream = some (.fileStream (sourcePath source entry.name) 0 .read) := by
      rw [← hjob']
    obtain ⟨bs, blocks, hsends, hbs, hdelivers⟩ := sends_file hcompress (by omega) hentry hnext
      hrec.file List.drop_zero hkeep hnum' hs'
    refine ⟨bs ++ blocks, ?_, .file hbs hdelivers⟩
    exact sends_open hopen (openDataStream_stay hkeep hnum' (by omega) hentry hs') hsends

/-- A direct job over the manifest of its source sends every file of the manifest. -/
theorem sends_manifest {modified : PathBuf → Nat} {manifest : DirectTransferManifest}
    (hcompress : ∀ data, P.decompress (P.compress data) = data)
    (hmanifest : getDirectTransferManifest P fs modified source = .ok manifest)
    (hjob : newDirectRead P id source manifest = .ok job) :
    ∃ blocks, job.Sends P fs blocks ∧ Delivers P id 0
      (manifest.files.map fun entry => sourceContents fs source entry.name) blocks := by
  obtain ⟨hlayout, hrecords⟩ := records_of_manifest hmanifest
  have hcount := (total_of_accepted hlayout).2.2
  have hmax : directTransferMaxEntries < 2 ^ 31 := by decide
  unfold newDirectRead at hjob
  rw [hlayout] at hjob
  dsimp only at hjob
  split_ifs at hjob
  cases hjob
  exact sends_files hcompress (by omega) hrecords [] rfl ⟨rfl, rfl, rfl, rfl, rfl, rfl⟩ rfl rfl

end Files

end TransferJob

end MDesk
