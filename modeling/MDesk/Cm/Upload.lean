import MDesk.Cm.HandleFs
import MDesk.Direct.Delivery
import MDesk.Transfer.Frame

/-!
# One upload of the remote tool

What a job for the remote tool is made of at every moment: its staging file holds the
blocks accepted so far, or its byte count has run ahead of them for good. Only its end can
touch the installed tool, and that replaces it by a complete upload.
-/

namespace MDesk

open MDesk.Core TransferJob

namespace DeviceRemote

variable (H : Host)

/-- The folder of the tool. -/
def folder : PathBuf := H.downloadDir.getD []

/-- The installed tool. -/
def target : PathBuf := folder H ++ ["DeviceRemote.exe"]

/-- The staging file of an upload. -/
def staging (serial : Nat) : PathBuf := folder H ++ [stagingName H serial]

/-- The paths in the folder that belong to the tool and to its uploads. -/
def Guarded (q : PathBuf) : Prop :=
  ∃ name, q = folder H ++ [name] ∧
    (name = "DeviceRemote.exe" ∨ ".mdesk-device-remote-".toList <+: name.toList)

variable {H} {serial size : Nat} {acc : List Bytes} {job : TransferJob} {fs : Fs}

theorem guarded_target : Guarded H (target H) := ⟨_, rfl, .inl rfl⟩

theorem ne_tool_of_prefix {name : String} (h : ".mdesk-device-remote-".toList <+: name.toList) :
    name ≠ "DeviceRemote.exe" := by
  rintro rfl
  simp at h

theorem prefix_stagingName (serial : Nat) (suffix : String) :
    ".mdesk-device-remote-".toList <+: (stagingName H serial ++ suffix).toList := by
  unfold stagingName
  generalize ".mdesk-device-remote-" = start
  rw [String.toList_append, String.toList_append, String.toList_append, List.append_assoc,
    List.append_assoc]
  exact List.prefix_append _ _

theorem guarded_download (serial : Nat) : Guarded H (downloadPath (staging H serial)) := by
  refine ⟨stagingName H serial ++ ".download", ?_, .inr (prefix_stagingName serial _)⟩
  rw [downloadPath, staging, withSuffix_append_singleton]

/-- An upload works beside the installed tool. -/
theorem not_touchesAt_target (serial : Nat) : ¬ TouchesAt (staging H serial) (target H) := by
  have hname : ∀ suffix, stagingName H serial ++ suffix ≠ "DeviceRemote.exe" := fun suffix =>
    ne_tool_of_prefix (prefix_stagingName serial suffix)
  have hne : ∀ name, name ≠ "DeviceRemote.exe" → target H ≠ folder H ++ [name] := by
    intro name hname h
    exact hname (by simpa using (List.append_inj' h rfl).2.symm)
  rintro (h | h | h | h)
  · rw [staging, List.dropLast_concat] at h
    have hlen := h.length_le
    rw [target, List.length_append, List.length_singleton] at hlen
    omega
  · exact hne _ (by simpa using hname "") h
  · rw [downloadPath, staging, withSuffix_append_singleton] at h
    exact hne _ (hname _) h
  · rw [digestPath, staging, withSuffix_append_singleton] at h
    exact hne _ (hname _) h

/-- The part of an upload that has arrived. The count of finished bytes is theirs while
nothing but blocks has moved it; a larger one never comes back. -/
structure Progress (path : PathBuf) (acc : List Bytes) (job : TransferJob) (fs : Fs) : Prop where
  fileNum : job.fileNum = 0
  bytes : job.directCurrentFileBytes = acc.flatten.length
  eof : job.directCurrentFileEofSeen = true → acc.getLast? = some []
  finished : acc.flatten.length ≤ job.finishedSize
  stored : job.finishedSize = acc.flatten.length →
    (job.dataStream = none ∧ acc = []) ∨
      (job.dataStream = some (.fileStream (downloadPath path) acc.flatten.length .write) ∧
        fs.lookup (downloadPath path) = some (.file acc.flatten))

/-- A job for the remote tool, with the blocks it has accepted. A job that has skipped its
file will not be launched. -/
structure Uploading (H : Host) (serial size : Nat) (acc : List Bytes) (job : TransferJob)
    (fs : Fs) : Prop where
  type : job.type = .generic
  source : job.dataSource = .filePath (staging H serial)
  files : ∃ modified, job.files = [{ name := "", size, modifiedTime := modified }]
  strict : job.strictDirectTransfer = true
  total : job.totalSize = size
  pos : 0 < size
  small : size < 2 ^ 64
  stream : job.StreamTouches H.platform
  progress : job.auditHadSkippedFile = true ∨ Progress (staging H serial) acc job fs

/-- A job for the remote tool touches its staging file only. -/
theorem Uploading.touches (h : Uploading H serial size acc job fs) {q : PathBuf} :
    job.Touches H.platform q ↔ TouchesAt (staging H serial) q := by
  obtain ⟨modified, hfiles⟩ := h.files
  constructor
  · rintro ⟨base, name, hsource, hname, hq⟩
    rw [h.source] at hsource
    cases hsource
    rw [hfiles] at hname
    obtain rfl : name = "" := by simpa using hname
    exact hq
  · intro hq
    exact ⟨staging H serial, "", h.source, by simp [hfiles], hq⟩

theorem Uploading.not_touches_target (h : Uploading H serial size acc job fs) :
    ¬ job.Touches H.platform (target H) := by
  rw [h.touches]
  exact not_touchesAt_target serial

/-- What happens elsewhere does not concern an upload. -/
theorem Uploading.of_lookup (h : Uploading H serial size acc job fs) {fs' : Fs}
    (hfs : ∀ q, Guarded H q → fs'.lookup q = fs.lookup q) :
    Uploading H serial size acc job fs' := by
  refine ⟨h.type, h.source, h.files, h.strict, h.total, h.pos, h.small, h.stream, ?_⟩
  refine h.progress.imp id fun hp => ⟨hp.fileNum, hp.bytes, hp.eof, hp.finished, fun heq => ?_⟩
  rw [hfs _ (guarded_download serial)]
  exact hp.stored heq

/-- What a step of the job leaves of the upload. -/
theorem Uploading.of_keepsTo (h : Uploading H serial size acc job fs) {job' : TransferJob}
    {fs' : Fs} {acc' : List Bytes} (hkeep : KeepsTo H.platform job fs job' fs')
    (hprogress : Progress (staging H serial) acc job fs →
      job'.auditHadSkippedFile = true ∨ Progress (staging H serial) acc' job' fs') :
    Uploading H serial size acc' job' fs' := by
  obtain ⟨-, htype, hsource, hfiles, hstrict, htotal⟩ := fixed_iff.mp hkeep.fixed
  refine ⟨htype.trans h.type, hsource.trans h.source, ?_, hstrict.trans h.strict,
    htotal.trans h.total, h.pos, h.small, hkeep.stream, ?_⟩
  · rw [hfiles]
    exact h.files
  · rcases h.progress with hskipped | hp
    · exact .inl (hkeep.skipped hskipped)
    · exact hprogress hp

section Write

variable {block : FileTransferBlock} {data : Bytes}

/-- What the strict accounting of a block has checked. -/
theorem addDirectBytes_ok {n len : Nat} (h : (job.addDirectBytes fs n len).result = .ok ()) :
    job.addDirectBytes fs n len =
        .ok (job.withCounters (job.directCurrentFileBytes + len) job.directCurrentFileEofSeen) fs ∧
      job.finishedSize + len ≤ job.totalSize := by
  unfold addDirectBytes at h ⊢
  by_cases hfile : 2 ^ 64 ≤ job.directCurrentFileBytes + len
  · rw [if_pos hfile] at h
    cases h
  by_cases hsize : job.sizeAt n < job.directCurrentFileBytes + len
  · rw [if_neg hfile, if_pos hsize] at h
    cases h
  by_cases htotal : 2 ^ 64 ≤ job.finishedSize + len
  · rw [if_neg hfile, if_neg hsize, if_pos htotal] at h
    cases h
  by_cases hmax : job.totalSize < job.finishedSize + len
  · rw [if_neg hfile, if_neg hsize, if_neg htotal, if_pos hmax] at h
    cases h
  rw [if_neg hfile, if_neg hsize, if_neg htotal, if_neg hmax]
  exact ⟨rfl, not_lt.mp hmax⟩

/-- An admitted block of the current file is counted, and the last one is empty. -/
theorem admitBlock_current (hstrict : job.strictDirectTransfer = true)
    (hnum : block.fileNum = job.fileNum) (h : (job.admitBlock fs block data).result = .ok ()) :
    ∃ eof, job.admitBlock fs block data =
        .ok (job.withCounters (job.directCurrentFileBytes + data.length) eof) fs ∧
      (eof = true → data = []) ∧ job.finishedSize + data.length ≤ job.totalSize := by
  have hstay : job.advanceDirectFile block.fileNum = .ok job := by
    rw [advanceDirectFile, hnum, if_neg (lt_irrefl _), if_neg (lt_irrefl _)]
  unfold admitBlock at h ⊢
  rw [if_pos hstrict] at h ⊢
  by_cases hlimit : directTransferMaxBlockBytes < data.length
  · rw [if_pos hlimit] at h
    cases h
  rw [if_neg hlimit, hstay] at h ⊢
  dsimp only at h ⊢
  unfold countDirectBlock at h ⊢
  by_cases hunder : job.sizeAt block.fileNum.toNat < job.directCurrentFileBytes
  · rw [if_pos hunder] at h
    cases h
  rw [if_neg hunder] at h ⊢
  by_cases hend : job.expectedBlockSize block.fileNum.toNat = 0
  · rw [if_pos hend] at h ⊢
    by_cases hbad : data.length ≠ 0 ∨ job.directCurrentFileEofSeen = true
    · rw [if_pos hbad] at h
      cases h
    rw [if_neg hbad] at h ⊢
    obtain ⟨hok, hmax⟩ := addDirectBytes_ok h
    refine ⟨true, hok, fun _ => ?_, hmax⟩
    exact List.eq_nil_of_length_eq_zero (not_not.mp fun hne => hbad (.inl hne))
  · rw [if_neg hend] at h ⊢
    by_cases hbad : job.directCurrentFileEofSeen = true ∨
        data.length ≠ job.expectedBlockSize block.fileNum.toNat
    · rw [if_pos hbad] at h
      cases h
    rw [if_neg hbad] at h ⊢
    obtain ⟨hok, hmax⟩ := addDirectBytes_ok h
    refine ⟨job.directCurrentFileEofSeen, hok, fun heof => absurd (.inl heof) hbad, hmax⟩

theorem outcome_of_ok {o : Outcome} (h : o.result = .ok ()) : o = .ok o.job o.fs := by
  obtain ⟨result, job, fs⟩ := o
  rw [show result = .ok () from h]
  rfl

/-- A staging file that could be started is empty and open. -/
theorem createStaging_started {path : PathBuf} (h : (job.createStaging fs path).result = .ok ()) :
    (job.createStaging fs path).job =
        { job with dataStream := some (.fileStream (downloadPath path) 0 .write) } ∧
      (job.createStaging fs path).fs.lookup (downloadPath path) = some (.file []) := by
  unfold createStaging at h ⊢
  dsimp only at h ⊢
  split at h
  · cases h
  · split at h
    · cases h
    · rename_i fs₁ hcreate
      have hfile : fs₁.lookup (downloadPath path) = some (.file []) := by
        rw [(FileSystem.eq_of_create hcreate).1, FileSystem.lookup_insert, Function.update_self]
      split at h
      · exact ⟨rfl, hfile⟩
      · rename_i fs₂ hdigest
        have hne := downloadPath_ne_digestPath path path
        refine ⟨rfl, ?_⟩
        rw [Outcome.ok_fs, FileSystem.lookup_insert, Function.update_of_ne hne,
          FileSystem.lookup_create_of_ne hdigest hne, hfile]

/-- The only file of an upload is its staging file. -/
theorem joinValidatedPath_empty (P : Platform) (fs : Fs) (base : PathBuf) :
    joinValidatedPath P fs base "" = .ok base := by
  unfold joinValidatedPath
  rw [validateFileNameNoTraversal_empty]
  rfl

/-- The staging file is open behind the part of `write` that opens it. -/
theorem Uploading.openForBlock (h : Uploading H serial size acc job fs)
    (hp : Progress (staging H serial) acc job fs) (hnum : block.fileNum = 0) (bytes : Nat)
    (eof : Bool)
    (hres : ((job.withCounters bytes eof).openForBlock H.platform fs block).result = .ok ()) :
    ∃ job' fs', (job.withCounters bytes eof).openForBlock H.platform fs block = .ok job' fs' ∧
      job'.fileNum = 0 ∧ (job.finishedSize = acc.flatten.length →
        job'.dataStream =
            some (.fileStream (downloadPath (staging H serial)) acc.flatten.length .write) ∧
          fs'.lookup (downloadPath (staging H serial)) = some (.file acc.flatten)) := by
  have hsource : (job.withCounters bytes eof).dataSource = .filePath (staging H serial) := h.source
  cases hs : job.dataStream with
  | some stream =>
    have hcurrent : block.fileNum.toNat = asUsize (job.withCounters bytes eof).fileNum := by
      rw [hnum, show (job.withCounters bytes eof).fileNum = 0 from hp.fileNum]
      rfl
    refine ⟨_, fs, openForBlock_stay H.platform hsource hcurrent hs, hp.fileNum, fun heq => ?_⟩
    rcases hp.stored heq with ⟨hnone, -⟩ | hopen
    · rw [hs] at hnone
      cases hnone
    · exact hopen
  | none =>
    obtain ⟨modified, hfiles⟩ := h.files
    have hentry : (job.withCounters bytes eof).files[asUsize 0]? =
        some { name := "", size, modifiedTime := modified } := by
      rw [show (job.withCounters bytes eof).files = _ from hfiles]
      rfl
    have hclosed : (job.withCounters bytes eof).finalizeWrite H.platform fs =
        .ok (job.withCounters bytes eof) fs := by
      rw [finalizeWrite, show (job.withCounters bytes eof).dataStream = none from hs,
        if_pos (.inl rfl)]
    have htype : (job.withCounters bytes eof).type = .generic := h.type
    have hopen : (job.withCounters bytes eof).openForBlock H.platform fs block =
        createStaging { job.withCounters bytes eof with fileNum := 0 } fs (staging H serial) := by
      rw [openForBlock_move H.platform hsource (.inr hs), hclosed, Outcome.ok_andThen, hnum]
      simp only [openEntry, htype, hentry, Option.map_some, Option.getD_some,
        joinValidatedPath_empty]
    rw [hopen] at hres ⊢
    obtain ⟨hjob, hfile⟩ := createStaging_started hres
    refine ⟨_, _, outcome_of_ok hres, ?_, fun heq => ?_⟩
    · rw [hjob]
    · have hempty : acc = [] := by
        rcases hp.stored heq with ⟨-, hempty⟩ | ⟨hsome, -⟩
        · exact hempty
        · rw [hs] at hsome
          cases hsome
      rw [hempty]
      refine ⟨?_, hfile⟩
      rw [hjob]
      rfl

/-- An append at the end of a file. -/
theorem lookup_writeAt_end {p : PathBuf} {contents : Bytes}
    (h : fs.lookup p = some (.file contents)) (data : Bytes) :
    (fs.writeAt 0 p contents.length data).lookup p = some (.file (contents ++ data)) := by
  simp [FileSystem.writeAt, h, List.drop_eq_nil_of_le]

/-- An accepted block extends an upload. -/
theorem Uploading.write (h : Uploading H serial size acc job fs)
    (hres : (job.write H.platform fs block).result = .ok ())
    (hdecode : job.decodeBlock H.platform block = .ok data) :
    Uploading H serial size (acc ++ [data]) (job.write H.platform fs block).job
      (job.write H.platform fs block).fs := by
  refine h.of_keepsTo (keepsTo_write h.stream h.type h.source fs block) fun hp => .inr ?_
  obtain ⟨modified, hfiles⟩ := h.files
  obtain ⟨-, hnonneg, hrange⟩ := of_decodeBlock H.platform h.source hdecode
  have hnum : block.fileNum = 0 := by
    rw [hfiles, List.length_singleton] at hrange
    omega
  have hwrite : job.write H.platform fs block = (job.admitBlock fs block data).andThen
      fun job fs => (job.openForBlock H.platform fs block).andThen
        fun job fs => job.appendBlock fs block data := by
    rw [TransferJob.write, hdecode]
  rw [hwrite] at hres ⊢
  obtain ⟨hgood, hthen⟩ := Outcome.andThen_ok hres
  obtain ⟨eof, htaken, heof, hmax⟩ :=
    admitBlock_current h.strict (hnum.trans hp.fileNum.symm) hgood
  rw [hthen] at hres ⊢
  rw [htaken, Outcome.ok_job, Outcome.ok_fs] at hres ⊢
  have hcounters := written_counters hres
  obtain ⟨hopened, hthen'⟩ := Outcome.andThen_ok hres
  obtain ⟨job', fs', hopen, hnum', hstored⟩ := h.openForBlock hp hnum _ eof hopened
  rw [hthen'] at hres hcounters ⊢
  rw [hopen, Outcome.ok_job, Outcome.ok_fs] at hres hcounters ⊢
  simp only [counters, withCounters, Prod.mk.injEq] at hcounters
  obtain ⟨hbytes, heof', hfinished, -⟩ := hcounters
  have hlen : (acc ++ [data]).flatten.length = acc.flatten.length + data.length := by simp
  have hmod : (job.finishedSize + data.length) % 2 ^ 64 = job.finishedSize + data.length := by
    have hsmall := h.small
    rw [h.total] at hmax
    omega
  have hle := hp.finished
  refine ⟨?_, ?_, ?_, ?_, ?_⟩
  · rw [← hnum']
    unfold appendBlock
    split <;> rfl
  · rw [hbytes, hlen, hp.bytes]
  · intro hend
    rw [heof'] at hend
    rw [List.getLast?_concat, heof hend]
  · rw [hfinished, hmod, hlen]
    omega
  · intro heq
    rw [hfinished, hmod, hlen] at heq
    obtain ⟨hstream, hfile⟩ := hstored (by omega)
    right
    simp only [appendBlock, hstream, Outcome.ok_job, Outcome.ok_fs, counted]
    refine ⟨by rw [hlen], ?_⟩
    rw [lookup_writeAt_end hfile, List.flatten_append, List.flatten_singleton]

end Write

/-- An answer about the file skips it, or runs ahead of the bytes that have arrived. -/
theorem Uploading.confirm (h : Uploading H serial size acc job fs)
    {r : FileTransferSendConfirmRequest}
    (hmax : ∀ offset, r.union = some (.offsetBlk offset) → job.finishedSize + offset < 2 ^ 64) :
    Uploading H serial size acc (job.confirm H.platform fs r) fs := by
  refine h.of_keepsTo (keepsTo_confirm h.stream h.type fs r) fun hp => ?_
  have hconfirmed : Progress (staging H serial) acc (job.setFileConfirmed true) fs :=
    ⟨hp.fileNum, hp.bytes, hp.eof, hp.finished, hp.stored⟩
  unfold TransferJob.confirm
  split
  · exact .inr hp
  · split
    · exact .inl rfl
    · exact .inr hconfirmed
    · rename_i offset hunion
      have hbound := hmax offset hunion
      split
      · right
        unfold setStreamOffset
        split
        · split
          · exact hconfirmed
          · split
            · exact hconfirmed
            · have hahead : acc.flatten.length < (job.finishedSize + offset) % 2 ^ 64 := by
                have hle := hp.finished
                omega
              exact ⟨hp.fileNum, hp.bytes, hp.eof, hahead.le, fun heq => absurd heq hahead.ne'⟩
        · exact hconfirmed
      · exact .inr hconfirmed
    · exact .inr hp

section Finish

/-- A committed file has the contents of its staging file. -/
theorem finalizeCurrentFile_ok {P : Platform} {path : PathBuf} {entry : FileEntry} {fs' : Fs}
    (htype : job.type = .generic) (hsource : job.dataSource = .filePath path)
    (hentry : job.files[asUsize job.fileNum]? = some entry) (hname : entry.name = "")
    (h : job.finalizeCurrentFile P fs = (.ok (), fs')) :
    fs'.lookup path = fs.lookup (downloadPath path) := by
  unfold finalizeCurrentFile at h
  simp only [htype, hsource, hentry, hname, joinValidatedPath_empty] at h
  split_ifs at h
  · cases h
  · split at h
    · cases h
    · rename_i fs₁ hrename
      cases h
      obtain ⟨c, hc, -, rfl⟩ := FileSystem.eq_of_rename hrename
      rw [FileSystem.lookup_tryRemove_of_ne (downloadPath_ne_digestPath path path)] at hc
      rw [FileSystem.lookup_insert, Function.update_self, hc]

/-- The last pass over an upload looks at its file only. -/
theorem verifyDirectFiles_single {P : Platform} {path : PathBuf} {modified : Nat}
    (hsource : job.dataSource = .filePath path)
    (hfiles : job.files = [{ name := "", size, modifiedTime := modified }]) (hpos : 0 < size) :
    (job.verifyDirectFiles P fs).job = job ∧ (job.verifyDirectFiles P fs).fs = fs := by
  have hsize : ¬ (size = 0 ∧ ¬ fs.pathExists path) := fun hz => hpos.ne' hz.1
  have hentry : ∀ r fs', job.settleEntry P fs path { name := "", size, modifiedTime := modified } =
      (r, fs') → fs' = fs := by
    intro r fs' hsettle
    unfold settleEntry at hsettle
    rw [joinValidatedPath_empty] at hsettle
    dsimp only at hsettle
    rw [if_neg hsize] at hsettle
    unfold settleEntry.checkEntry at hsettle
    split at hsettle
    · cases hsettle
      rfl
    · cases hsettle
      rfl
    · split_ifs at hsettle
      · cases hsettle
        rfl
      · cases hsettle
        rfl
  unfold verifyDirectFiles
  split_ifs
  · exact ⟨rfl, rfl⟩
  · rw [hsource, hfiles]
    refine ⟨rfl, ?_⟩
    dsimp only [settleEntries]
    split
    · rename_i fs' hsettle
      exact hentry _ _ hsettle
    · rename_i fs' hsettle
      exact hentry _ _ hsettle

/-- What is verified of an upload is complete. -/
theorem Uploading.finalize (h : Uploading H serial size acc job fs) :
    KeepsTo H.platform job fs (job.finalizeDirectWrite H.platform fs).job
        (job.finalizeDirectWrite H.platform fs).fs ∧
      ((job.finalizeDirectWrite H.platform fs).result = .ok () → job.auditHadSkippedFile = false →
        (job.finalizeDirectWrite H.platform fs).fs.lookup (staging H serial) =
            some (.file acc.flatten) ∧
          acc.flatten.length = size ∧ acc.getLast? = some []) := by
  obtain ⟨modified, hfiles⟩ := h.files
  have hkeep := keepsTo_finalizeWrite h.stream fs
  have hcounters : (job.finalizeWrite H.platform fs).job.counters = job.counters :=
    finalizeWrite_counters
  have hverify : ∀ fs',
      ((job.finalizeWrite H.platform fs).job.verifyDirectFiles H.platform fs').job =
      (job.finalizeWrite H.platform fs).job ∧
      ((job.finalizeWrite H.platform fs).job.verifyDirectFiles H.platform fs').fs = fs' :=
        fun fs' =>
    verifyDirectFiles_single (hkeep.source.trans h.source) (hkeep.files.trans hfiles) h.pos
  unfold finalizeDirectWrite
  by_cases hended : job.currentFileEnded = true
  swap
  · rw [if_neg hended]
    exact ⟨.refl h.stream fs, nofun⟩
  rw [if_pos hended]
  refine ⟨?_, fun hres hnot => ?_⟩
  · unfold Outcome.andThen
    split
    · rw [(hverify _).1, (hverify _).2]
      exact hkeep
    · exact hkeep
  · obtain ⟨hfinal, hthen⟩ := Outcome.andThen_ok hres
    rw [hthen] at hres ⊢
    rw [(hverify _).2]
    have hp : Progress (staging H serial) acc job fs := by
      refine h.progress.resolve_left ?_
      rw [hnot]
      exact Bool.false_ne_true
    have hbytes : job.directCurrentFileBytes = size ∧ job.directCurrentFileEofSeen = true := by
      simpa [currentFileEnded, hp.fileNum, hfiles] using hended
    have hlen : acc.flatten.length = size := hp.bytes.symm.trans hbytes.1
    have hfinished : job.finishedSize = acc.flatten.length := by
      simp only [counters, Prod.mk.injEq] at hcounters
      rw [hlen, ← h.total, ← hcounters.2.2.1, ← hcounters.2.2.2]
      by_contra hne
      rw [verifyDirectFiles, if_pos hne] at hres
      cases hres
    refine ⟨?_, hlen, hp.eof hbytes.2⟩
    rcases hp.stored hfinished with ⟨-, hempty⟩ | ⟨hstream, hfile⟩
    · rw [hempty] at hlen
      exact absurd hlen h.pos.ne
    · have hopen : ¬ (job.dataStream.isNone = true ∨ job.type = .printer) := by
        rw [hstream, h.type]
        rintro (hnone | hprinter)
        · cases hnone
        · cases hprinter
      rw [finalizeWrite, if_neg hopen] at hfinal ⊢
      rw [← hfile]
      have hentry : job.files[asUsize job.fileNum]? =
          some { name := "", size, modifiedTime := modified } := by
        rw [hp.fileNum, hfiles]
        rfl
      exact finalizeCurrentFile_ok (by exact h.type) (by exact h.source) (by exact hentry) rfl
        (Prod.ext hfinal rfl)

/-- The folder above the staging file is the one of the tool. -/
theorem dropLast_staging (serial : Nat) :
    (staging H serial).dropLast ++ ["DeviceRemote.exe"] = target H := by
  rw [staging, List.dropLast_concat, target]

/-- The installed tool is replaced by what has been staged, or stays what it is. -/
theorem install_cases (hsource : job.dataSource = .filePath (staging H serial)) (serial' : Nat)
    (reaction : Reaction) (fs : Fs) :
    (install serial' reaction job fs).job = job ∧
      (((install serial' reaction job fs).launches = [] ∧
          (install serial' reaction job fs).fs = fs) ∨
        ∃ c spawned, fs.lookup (staging H serial) = some (.file c) ∧
          (install serial' reaction job fs).launches =
            [{ serial := serial', contents := some (.file c), spawned }] ∧
          (install serial' reaction job fs).fs.lookup (target H) = some (.file c)) := by
  unfold install
  rw [hsource]
  dsimp only
  rw [dropLast_staging]
  split
  · exact ⟨rfl, .inl ⟨rfl, rfl⟩⟩
  · split_ifs
    · exact ⟨rfl, .inl ⟨rfl, rfl⟩⟩
    · split
      · exact ⟨rfl, .inl ⟨rfl, rfl⟩⟩
      · split
        · exact ⟨rfl, .inl ⟨rfl, rfl⟩⟩
        · rename_i fs' hreplace
          have hrename : fs.rename (staging H serial) (target H) = .ok fs' := by
            unfold replace at hreplace
            dsimp only at hreplace
            split at hreplace
            · cases hreplace
            · split at hreplace
              · cases hreplace
              · cases hreplace
                assumption
          obtain ⟨c, hc, -, rfl⟩ := FileSystem.eq_of_rename hrename
          refine ⟨rfl, .inr ⟨c, reaction.spawnError.isNone, hc, ?_, ?_⟩⟩
          · simp only [launch, FileSystem.lookup_insert, Function.update_self]
          · simp only [launch, FileSystem.lookup_insert, Function.update_self]

/-- The end of an upload launches the complete tool, or leaves the installed one alone. -/
theorem Uploading.finish (h : Uploading H serial size acc job fs) (reaction : Reaction) :
    (DeviceRemote.finish H serial reaction job fs).job.fixed = job.fixed ∧
      (((DeviceRemote.finish H serial reaction job fs).launches = [] ∧
          (DeviceRemote.finish H serial reaction job fs).fs.lookup (target H) =
            fs.lookup (target H)) ∨
        ∃ spawned, (DeviceRemote.finish H serial reaction job fs).launches =
            [{ serial, contents := some (.file acc.flatten), spawned }] ∧
          (DeviceRemote.finish H serial reaction job fs).fs.lookup (target H) =
            some (.file acc.flatten) ∧
          acc.flatten.length = size ∧ acc.getLast? = some []) := by
  obtain ⟨hkeep, hcomplete⟩ := h.finalize
  have htarget := hkeep.lookup _ h.not_touches_target
  unfold DeviceRemote.finish
  by_cases haudit : job.auditError.isSome = true
  · rw [if_pos haudit]
    exact ⟨rfl, .inl ⟨rfl, rfl⟩⟩
  rw [if_neg haudit]
  have hnot : job.auditHadSkippedFile = false := by
    unfold auditError at haudit
    by_contra hskipped
    rw [if_pos (Bool.not_eq_false _ |>.mp hskipped)] at haudit
    exact haudit rfl
  dsimp only
  split
  · exact ⟨hkeep.fixed, .inl ⟨rfl, htarget⟩⟩
  · rename_i hres
    obtain ⟨hstaged, hlen, hlast⟩ := hcomplete hres hnot
    obtain ⟨hjob, ⟨hnone, hfs⟩ | ⟨c, spawned, hc, hlaunch, hfile⟩⟩ :=
      install_cases (hkeep.source.trans h.source) serial reaction
        (job.finalizeDirectWrite H.platform fs).fs
    · refine ⟨(congrArg fixed hjob).trans hkeep.fixed, .inl ⟨hnone, ?_⟩⟩
      rw [hfs, htarget]
    · rw [hstaged] at hc
      cases hc
      exact ⟨(congrArg fixed hjob).trans hkeep.fixed,
        .inr ⟨spawned, hlaunch, hfile, hlen, hlast⟩⟩

end Finish

/-- Cleaning up behind an upload leaves the installed tool alone. -/
theorem Uploading.cleanup (h : Uploading H serial size acc job fs) {job' : TransferJob}
    (hfixed : job'.fixed = job.fixed) (fs' : Fs) :
    (DeviceRemote.cleanup H job' fs').lookup (target H) = fs'.lookup (target H) ∧
      (job'.removeDownloadFile H.platform fs').lookup (target H) = fs'.lookup (target H) := by
  have hnot : ¬ job'.Touches H.platform (target H) := fun hq =>
    h.not_touches_target ((touches_congr hfixed).mp hq)
  have hremoved := lookup_removeDownloadFile fs' hnot
  refine ⟨?_, hremoved⟩
  have hne : target H ≠ staging H serial := fun heq =>
    not_touchesAt_target serial (.inr (.inl heq))
  unfold DeviceRemote.cleanup
  dsimp only
  split
  · rename_i path hsource
    rw [(fixed_iff.mp hfixed).2.2.1, h.source] at hsource
    cases hsource
    split_ifs
    · rw [FileSystem.lookup_tryRemove_of_ne hne, hremoved]
    · exact hremoved
  · exact hremoved

section Prepare

/-- Looking for the folder of the tool may make it, nothing else. -/
theorem getDownloadDirStrict_target (fs : Fs) :
    (H.getDownloadDirStrict fs).2.lookup (target H) = fs.lookup (target H) ∧
      ∀ path, (H.getDownloadDirStrict fs).1 = .ok path → path = folder H := by
  unfold Host.getDownloadDirStrict
  split
  · exact ⟨rfl, by rintro _ ⟨⟩⟩
  · rename_i path hdir
    have hfolder : path = folder H := by rw [folder, hdir, Option.getD_some]
    have hprefix : ¬ target H <+: path := by
      intro h
      have hlen := h.length_le
      rw [target, ← hfolder, List.length_append, List.length_singleton] at hlen
      omega
    split_ifs with hempty hthere
    · exact ⟨rfl, by rintro _ ⟨⟩⟩
    · dsimp only
      split_ifs
      · exact ⟨rfl, fun p hp => (Except.ok.inj hp).symm.trans hfolder⟩
      · exact ⟨rfl, by rintro _ ⟨⟩⟩
    · split
      · exact ⟨rfl, by rintro _ ⟨⟩⟩
      · rename_i fs' hmade
        have hsame := FileSystem.lookup_createDirAll_of_not_prefix hmade hprefix
        split_ifs
        · exact ⟨hsame, fun p hp => (Except.ok.inj hp).symm.trans hfolder⟩
        · exact ⟨hsame, by rintro _ ⟨⟩⟩

/-- A new job for the tool has accepted nothing. -/
theorem uploading_newJob {id : Int} {modified : Nat} (hpos : 0 < size) (hsmall : size < 2 ^ 64)
    (h : newJob H fs (folder H) serial id modified size = .ok job) (fs' : Fs) :
    Uploading H serial size [] job fs' := by
  unfold newJob at h
  split at h
  · cases h
  · split at h
    · cases h
    · rename_i job' hset
      obtain ⟨-, rfl⟩ := setFiles_eq hset
      cases h
      refine ⟨rfl, rfl, ⟨modified, rfl⟩, rfl, ?_, hpos, hsmall, nofun, .inr ?_⟩
      · simpa [setStrictDirectTransfer] using Nat.mod_eq_of_lt hsmall
      · exact ⟨rfl, rfl, nofun, Nat.le_refl _, fun _ => .inl ⟨rfl, rfl⟩⟩

/-- An upload is accepted without touching the installed tool. -/
theorem prepare_spec (H : Host) (fs : Fs) (serial : Nat) (path : String) (id fileNum : Int)
    (files : List (String × Nat)) (size : Nat) :
    (prepare H fs serial path id fileNum files size).2.lookup (target H) = fs.lookup (target H) ∧
      ∀ job, (prepare H fs serial path id fileNum files size).1 = .ok job →
        Uploading H serial size [] job (prepare H fs serial path id fileNum files size).2 := by
  unfold prepare
  by_cases hwindows : ¬ H.platform.windows = true
  · rw [if_pos hwindows]
    exact ⟨rfl, fun _ hjob => by cases hjob⟩
  · rw [if_neg hwindows]
    split
    · rename_i name modified
      split_ifs with hbad
      · exact ⟨rfl, fun _ hjob => by cases hjob⟩
      · obtain ⟨htarget, hfolder⟩ := getDownloadDirStrict_target (H := H) fs
        split
        · rename_i hdir
          rw [hdir] at htarget
          exact ⟨htarget, fun _ hjob => by cases hjob⟩
        · rename_i directory fs' hdir
          rw [hdir] at htarget hfolder
          refine ⟨htarget, fun job hjob => ?_⟩
          rw [hfolder directory rfl] at hjob
          exact uploading_newJob (by omega) (by omega) hjob fs'
    · exact ⟨rfl, fun _ hjob => by cases hjob⟩

end Prepare

end DeviceRemote

end MDesk
