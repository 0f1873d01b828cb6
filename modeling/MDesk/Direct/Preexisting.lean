import MDesk.Direct.Download
import MDesk.Transfer.Frame

/-!
# Files that stand before a download

A download keeps to the name it has reserved and to what it makes below it. Its staging file is
part of the reservation, its digest file is not: a file of that name is taken for one of its own.
-/

namespace MDesk

open MDesk.Core Core.FileSystem

section Run

variable {H : Host} {P : Platform} {fs fs' : Fs} {folder q base : PathBuf} {n : Nat}
  {request : DirectFileTransferReceiveRequest} {job : TransferJob} {entry : DirectDownloadJob}
  {c : Bytes} {ending : DirectEnding} {block : FileTransferBlock} {blocks : List FileTransferBlock}

namespace TransferJob

/-- A release leaves the files, apart from the side files of a file. -/
theorem lookup_release {destination : PathBuf} {isDirectory : Bool}
    (hstage : isDirectory = false → q ≠ downloadPath destination)
    (hdigest : isDirectory = false → q ≠ digestPath destination)
    (hq : fs.lookup q = some (.file c)) :
    (releaseDirectDownloadReservation fs destination isDirectory).lookup q = some (.file c) := by
  unfold releaseDirectDownloadReservation
  cases hdir : isDirectory with
  | true => exact lookup_removeAllEmptyDir hq
  | false =>
    rw [if_neg Bool.false_ne_true]
    dsimp only
    rw [lookup_tryRemove_of_ne (hdigest hdir), lookup_tryRemove_of_ne (hstage hdir), hq]

/-- A file beside the names of a download, or in front of it. -/
structure Beside (P : Platform) (job : TransferJob) (entry : DirectDownloadJob) (q : PathBuf) :
    Prop where
  untouched : ¬ job.Touches P q
  stage : entry.isDirectory = false → q ≠ downloadPath entry.destination
  digest : entry.isDirectory = false → q ≠ digestPath entry.destination

theorem Beside.congr {job' : TransferJob} (h : Beside P job entry q)
    (hfixed : job'.fixed = job.fixed) : Beside P job' entry q :=
  ⟨fun ht => h.untouched ((touches_congr hfixed).mp ht), h.stage, h.digest⟩

/-- A file that stands beside a download is still there when the download is over. -/
theorem lookup_endDirect (h : Beside P job entry q) (hs : job.StreamTouches P)
    (ending : DirectEnding) (hq : fs.lookup q = some (.file c)) :
    (job.endDirect P entry fs ending).lookup q = some (.file c) := by
  have habandon : (job.abandonDirect P entry fs).lookup q = some (.file c) := by
    refine lookup_release h.stage h.digest ?_
    rw [lookup_removeDownloadFile fs h.untouched, hq]
  cases ending with
  | done permitted =>
    have hend : ∀ o : Outcome, o.fs.lookup q = some (.file c) → ∀ err : Option String,
        (if err.isSome then
            releaseDirectDownloadReservation o.fs entry.destination entry.isDirectory
          else o.fs).lookup q = some (.file c) := by
      intro o ho err
      split_ifs
      · exact lookup_release h.stage h.digest ho
      · exact ho
    refine hend _ ?_ _
    split_ifs
    · rw [(keepsTo_finalizeDirectWrite hs fs).lookup q h.untouched, hq]
    · rw [Outcome.fail, lookup_removeDownloadFile fs h.untouched, hq]
  | error => exact habandon
  | cancelledBySender => exact habandon
  | digest => exact habandon
  | cancelledByUser => exact habandon
  | revoked => exact habandon
  | disconnected => exact habandon

theorem lookup_receiveDirect (base : PathBuf) (h : Beside P job entry q) (hs : job.StreamTouches P)
    (htype : job.type = .generic) (hsource : job.dataSource = .filePath base)
    (hq : fs.lookup q = some (.file c)) :
    (receiveDirect P entry ending job fs blocks).lookup q = some (.file c) := by
  induction blocks generalizing job fs with
  | nil => exact lookup_endDirect h hs ending hq
  | cons block blocks ih =>
    have hkeep := keepsTo_write hs htype hsource fs block
    have hq' : (job.write P fs block).fs.lookup q = some (.file c) := by
      rw [hkeep.lookup q h.untouched, hq]
    have h' := h.congr hkeep.fixed
    unfold receiveDirect
    split_ifs
    · dsimp only
      split
      · exact ih h' hkeep.stream (hkeep.type.trans htype) (hkeep.source.trans hsource) hq'
      · exact lookup_endDirect h' hkeep.stream .error hq'
    · exact ih h hs htype hsource hq

theorem createStaging_fileNum {path : PathBuf} :
    (job.createStaging fs path).job.fileNum = job.fileNum := by
  unfold createStaging
  dsimp only
  split
  · rfl
  · split
    · rfl
    · split <;> rfl

/-- The file that is opened is the one of the block. -/
theorem openEntry_fileNum {num : Int} : (job.openEntry P fs base num).job.fileNum = num := by
  unfold openEntry
  dsimp only
  split
  · split <;> rfl
  · split
    · rfl
    · exact createStaging_fileNum

theorem openForBlock_fileNum (hsource : job.dataSource = .filePath base)
    (h : (job.openForBlock P fs block).result = .ok ()) :
    (job.openForBlock P fs block).job.fileNum = block.fileNum ∨
      asUsize (job.openForBlock P fs block).job.fileNum = block.fileNum.toNat := by
  unfold openForBlock at h ⊢
  rw [hsource] at h ⊢
  dsimp only at h ⊢
  split_ifs at h ⊢ with hmove
  · rw [(Outcome.andThen_ok h).2]
    exact .inl openEntry_fileNum
  · exact .inr (not_not.mp (not_or.mp hmove).1).symm

/-- What is appended leaves the stream open. -/
theorem appendBlock_open {data : Bytes} (h : (job.appendBlock fs block data).result = .ok ()) :
    (job.appendBlock fs block data).job.dataStream ≠ none ∧
      (job.appendBlock fs block data).job.fileNum = job.fileNum := by
  unfold appendBlock at h ⊢
  split
  · rename_i hnone
    rw [hnone] at h
    cases h
  · rename_i hread
    rw [hread] at h
    cases h
  · exact ⟨nofun, rfl⟩
  · exact ⟨nofun, rfl⟩

/-- A block that is taken is for a file of the list, and leaves that file open. -/
theorem write_ok_open (hstream : job.StreamTouches P) (hsource : job.dataSource = .filePath base)
    (h : (job.write P fs block).result = .ok ()) :
    0 ≤ block.fileNum ∧ block.fileNum.toNat < job.files.length ∧
      (job.write P fs block).job.dataStream ≠ none ∧
      ((job.write P fs block).job.fileNum = block.fileNum ∨
        asUsize (job.write P fs block).job.fileNum = block.fileNum.toNat) := by
  unfold write at h ⊢
  cases hdec : job.decodeBlock P block with
  | error e =>
    rw [hdec] at h
    cases h
  | ok data =>
    rw [hdec] at h
    obtain ⟨-, hpos, hrange⟩ := of_decodeBlock P hsource hdec
    refine ⟨hpos, hrange, ?_⟩
    have hallowed := keepsTo_admitBlock hstream fs block data
    dsimp only at h ⊢
    obtain ⟨-, hrest⟩ := Outcome.andThen_ok h
    rw [hrest] at h ⊢
    obtain ⟨hopen, hrest⟩ := Outcome.andThen_ok h
    rw [hrest] at h ⊢
    obtain ⟨hsome, hnum⟩ := appendBlock_open h
    rw [hnum]
    exact ⟨hsome, openForBlock_fileNum (hallowed.source.trans hsource) hopen⟩

/-- The job of a file root: it has opened its only file, or has seen nothing of it yet. -/
structure AtFile (P : Platform) (job : TransferJob) (destination : PathBuf) : Prop where
  stream : job.StreamTouches P
  type : job.type = .generic
  source : job.dataSource = .filePath destination
  files : ∃ f, job.files = [f] ∧ f.name = ""
  fileNum : asUsize job.fileNum = 0
  state : job.dataStream ≠ none ∨ job.fileNum = 0 ∧ job.directCurrentFileEofSeen = false

theorem AtFile.write {destination : PathBuf} (h : AtFile P job destination)
    (hok : (job.write P fs block).result = .ok ()) :
    AtFile P (job.write P fs block).job destination := by
  have hkeep := keepsTo_write h.stream h.type h.source fs block
  obtain ⟨hpos, hrange, hopen, hnum⟩ := write_ok_open h.stream h.source hok
  obtain ⟨f, hfiles, hname⟩ := h.files
  refine ⟨hkeep.stream, hkeep.type.trans h.type, hkeep.source.trans h.source,
    ⟨f, hkeep.files.trans hfiles, hname⟩, ?_, .inl hopen⟩
  have hzero : block.fileNum.toNat = 0 := by
    rw [hfiles] at hrange
    exact Nat.lt_one_iff.mp hrange
  rcases hnum with hnum | hnum
  · have hnum₀ : block.fileNum = (0 : Nat) := by omega
    rw [hnum, hnum₀, asUsize_natCast (Nat.two_pow_pos 64)]
  · rw [hnum, hzero]

/-- The digest file of a file that takes its final name is removed. -/
theorem lookup_finalizeCurrentFile_digest (job : TransferJob) (c : Bytes) {f : FileEntry}
    (htype : job.type = .generic)
    (hsource : job.dataSource = .filePath base)
    (hentry : job.files[asUsize job.fileNum]? = some f)
    (hok : (job.finalizeCurrentFile P fs).1 = .ok ()) :
    (job.finalizeCurrentFile P fs).2.lookup (digestPath (P.join base f.name)) ≠
      some (.file c) := by
  unfold finalizeCurrentFile at hok ⊢
  simp only [htype, hsource, hentry] at hok ⊢
  split at hok
  · cases hok
  · rename_i path hpath
    have hjoin := join_of_joinValidatedPath hpath
    have hgone : ((fs.removeFile (digestPath path)).toOption.getD fs).lookup (digestPath path) ≠
        some (.file c) := lookup_tryRemove_self
    generalize (fs.removeFile (digestPath path)).toOption.getD fs = fs₁ at hok hgone ⊢
    rw [← hjoin]
    split_ifs at hok ⊢
    cases hrename : fs₁.rename (downloadPath path) path with
    | error e =>
      rw [hrename] at hok
      cases hok
    | ok fs₂ =>
      have hsame := lookup_rename_of_ne hrename (downloadPath_ne_digestPath path path).symm
        (sideNames.side_ne path)
      exact fun hfile => hgone (hsame.symm.trans hfile)

/-- A finished file root has no digest file. -/
theorem AtFile.finalized {destination : PathBuf} (h : AtFile P job destination)
    (hok : (job.finalizeDirectWrite P fs).result = .ok ()) :
    (job.finalizeDirectWrite P fs).fs.lookup (digestPath destination) ≠ some (.file c) := by
  obtain ⟨f, hfiles, hname⟩ := h.files
  have hjoin : P.join destination f.name = destination := by
    rw [hname]
    rfl
  unfold finalizeDirectWrite at hok ⊢
  split_ifs at hok ⊢ with hended
  swap
  · cases hok
  -- The file has been opened, since its end has been seen.
  have hopen : ¬ (job.dataStream.isNone = true ∨ job.type = .printer) := by
    rw [Option.isNone_iff_eq_none, h.type]
    rcases h.state with hopen | ⟨hnum, hunseen⟩
    · exact not_or.mpr ⟨hopen, by rintro ⟨⟩⟩
    · simp [currentFileEnded, hnum, hfiles, hunseen] at hended
  obtain ⟨hfin, hrest⟩ := Outcome.andThen_ok hok
  rw [hrest] at hok ⊢
  simp only [finalizeWrite, if_neg hopen] at hfin hok ⊢
  have hgone := { job with dataStream := none }.lookup_finalizeCurrentFile_digest (f := f) c
    h.type h.source (by simp [h.fileNum, hfiles]) hfin
  rw [hjoin] at hgone
  rw [lookup_verifyDirectFiles]
  · exact hgone
  · intro base hsource entry he
    cases h.source.symm.trans hsource
    rw [hfiles] at he
    rw [List.mem_singleton.mp he, hjoin]
    rintro (habove | hself | hstage)
    · exact not_prefix_dropLast (withSuffix_ne_nil _ _) (withSuffix_dropLast _ _) habove
    · exact sideNames.side_ne destination hself
    · exact downloadPath_ne_digestPath _ _ hstage.symm

/-- A download that is not finished without an error is released. -/
theorem finishDirect_cases (job : TransferJob) (entry : DirectDownloadJob) (fs : Fs)
    (permitted : Bool) :
    (∃ fs₁, (job.finishDirect P entry fs permitted).2 =
        releaseDirectDownloadReservation fs₁ entry.destination entry.isDirectory) ∨
      ((job.finalizeDirectWrite P fs).result = .ok () ∧
        (job.finishDirect P entry fs permitted).2 = (job.finalizeDirectWrite P fs).fs) := by
  unfold finishDirect
  cases permitted with
  | false => exact .inl ⟨_, rfl⟩
  | true =>
    simp only [if_true]
    cases hres : (job.finalizeDirectWrite P fs).result with
    | error e => exact .inl ⟨_, rfl⟩
    | ok u =>
      dsimp only
      split_ifs
      · exact .inl ⟨_, rfl⟩
      · exact .inr ⟨rfl, rfl⟩

/-- When the download of a file is over, no file has the name of its digest file. -/
theorem receiveDirect_digest {destination : PathBuf} (totalSize : Nat)
    (h : AtFile P job destination) (hentry : entry = ⟨destination, false, totalSize⟩) :
    (receiveDirect P entry ending job fs blocks).lookup (digestPath destination) ≠
      some (.file c) := by
  have hrelease : ∀ fs : Fs, (releaseDirectDownloadReservation fs entry.destination
      entry.isDirectory).lookup (digestPath destination) ≠ some (.file c) := by
    intro fs
    rw [hentry]
    exact lookup_tryRemove_self
  induction blocks generalizing job fs with
  | nil =>
    cases ending with
    | done permitted =>
      obtain ⟨fs₁, hend⟩ | ⟨hok, hend⟩ := job.finishDirect_cases entry fs permitted
      · show (job.finishDirect P entry fs permitted).2.lookup _ ≠ _
        rw [hend]
        exact hrelease fs₁
      · show (job.finishDirect P entry fs permitted).2.lookup _ ≠ _
        rw [hend]
        exact h.finalized hok
    | error => exact hrelease _
    | cancelledBySender => exact hrelease _
    | digest => exact hrelease _
    | cancelledByUser => exact hrelease _
    | revoked => exact hrelease _
    | disconnected => exact hrelease _
  | cons block blocks ih =>
    unfold receiveDirect
    split_ifs
    · dsimp only
      split
      · rename_i hok
        exact ih (h.write hok)
      · exact hrelease _
    · exact ih h

end TransferJob

namespace AcceptedDirect

/-- The paths a job may change where a file stood before: only the digest file of a file. -/
theorem digest_of_touches (h : AcceptedDirect H fs request folder n job entry fs')
    (hfs : fs.Rooted) (htouches : job.Touches H.platform q)
    (hq : fs.lookup q = some (.file c)) :
    request.isDirectory = false ∧ q = digestPath entry.destination := by
  have hfree := h.free
  have hbelow : ∀ p, entry.destination <+: p → p ≠ q := by
    rintro p hp rfl
    rw [hfs.none_below hfree hp] at hq
    cases hq
  obtain ⟨base, name, hsource, hname, hat⟩ := htouches
  rw [h.job_eq] at hsource hname
  cases hsource
  obtain ⟨f, hf, rfl⟩ := List.mem_map.mp hname
  cases hdir : request.isDirectory with
  | false =>
    refine ⟨rfl, ?_⟩
    obtain ⟨g, hfiles, hempty⟩ := ((scan_of_accepted h.manifest).2.1 hdir).1
    rw [hfiles, List.mem_singleton] at hf
    have hjoin : H.platform.join entry.destination f.name = entry.destination := by
      rw [hf, hempty]
      rfl
    rw [hjoin] at hat
    rcases hat with habove | rfl | rfl | hdigest
    · rw [h.reserved, directCandidate_dropLast] at habove
      exact absurd hq (h.above q habove c)
    · exact absurd rfl (hbelow _ List.prefix_rfl)
    · rw [h.staging hdir] at hq
      cases hq
    · exact hdigest
  | true =>
    obtain ⟨-, -, scan, hscan, -⟩ := scan_of_accepted h.manifest
    rw [hdir] at hscan
    have hne := components_ne_nil_of_scan hscan f hf
    rw [join_of_components hne] at hat
    obtain ⟨rest, hrest⟩ : ∃ rest, (entry.destination ++ H.platform.components f.name).dropLast =
        entry.destination ++ rest := ⟨_, List.dropLast_append_of_ne_nil hne⟩
    have hdest : ∀ p, p.dropLast = entry.destination ++ rest → entry.destination <+: p := by
      intro p hp
      exact (hp ▸ List.prefix_append _ rest).trans (List.dropLast_prefix p)
    rcases hat with habove | rfl | rfl | rfl
    · rw [hrest] at habove
      rcases List.prefix_or_prefix_of_prefix habove (List.prefix_append entry.destination rest)
        with hq' | hq'
      · by_cases heq : q = entry.destination
        · exact absurd heq.symm (hbelow _ List.prefix_rfl)
        · refine absurd hq (h.above q ?_ c)
          rw [h.reserved] at hq' heq
          exact (List.prefix_concat_iff.mp hq').resolve_left heq
      · exact absurd rfl (hbelow q hq')
    · exact absurd rfl (hbelow _ (hdest _ hrest))
    · exact absurd rfl (hbelow _ (hdest _ ((withSuffix_dropLast _ _).trans hrest)))
    · exact absurd rfl (hbelow _ (hdest _ ((withSuffix_dropLast _ _).trans hrest)))

theorem beside (h : AcceptedDirect H fs request folder n job entry fs') (hfs : fs.Rooted)
    (hq : fs.lookup q = some (.file c))
    (hdigest : request.isDirectory = false → q ≠ digestPath entry.destination) :
    TransferJob.Beside H.platform job entry q := by
  have hdir : entry.isDirectory = request.isDirectory := by rw [h.reserved]
  refine ⟨fun ht => ?_, fun hfile => ?_, fun hfile => hdigest (hdir ▸ hfile)⟩
  · obtain ⟨hfile, rfl⟩ := h.digest_of_touches hfs ht hq
    exact hdigest hfile rfl
  · rintro rfl
    rw [h.staging (hdir ▸ hfile)] at hq
    cases hq

theorem atFile (h : AcceptedDirect H fs request folder n job entry fs')
    (hfile : request.isDirectory = false) :
    TransferJob.AtFile H.platform job entry.destination := by
  rw [h.job_eq]
  refine ⟨nofun, rfl, rfl, ?_, rfl, .inr ⟨rfl, rfl⟩⟩
  exact ((scan_of_accepted h.manifest).2.1 hfile).1

end AcceptedDirect

/-- No file has the name of the digest file of the first free name, where a file is pushed. -/
def DigestNameFree (H : Host) (fs : Fs) (request : DirectFileTransferReceiveRequest) : Prop :=
  request.isDirectory = true ∨ ∀ folder n, H.downloadDir = some folder →
    FirstFree fs folder request.rootName request.isDirectory n →
    ∀ c, fs.lookup (digestPath (directCandidate folder request.rootName request.isDirectory n)) ≠
      some (.file c)

/-- The first free name is one name. -/
theorem FirstFree.unique {rootName : String} {isDirectory : Bool} {m : Nat}
    (hm : FirstFree fs folder rootName isDirectory m)
    (hn : FirstFree fs folder rootName isDirectory n) : m = n := by
  rcases Nat.lt_trichotomy m n with hlt | heq | hgt
  · exact absurd (hn.2 m hlt) hm.1
  · exact heq
  · exact absurd (hm.2 n hgt) hn.1

/-- Whatever blocks come and however a download ends, the files that stood in the Downloads
folder are all there and unchanged exactly if none of them has the name of the digest file. -/
theorem receiveDirect_keeps_iff (hfs : fs.Rooted)
    (h : acceptDirectDownload H fs request = (.ok (job, entry), fs'))
    (blocks : List FileTransferBlock) (ending : DirectEnding) :
    (∀ folder, H.downloadDir = some folder → ∀ q c, folder <+: q →
        fs.lookup q = some (.file c) →
        (TransferJob.receiveDirect H.platform entry ending job fs' blocks).lookup q =
          some (.file c)) ↔
      DigestNameFree H fs request := by
  obtain ⟨folder, n, hacc⟩ := acceptedDirect_of_accept hfs h
  constructor
  · intro hkept
    cases hdir : request.isDirectory with
    | true => exact .inl hdir
    | false =>
      right
      intro folder' m hfolder hfirst c hq
      cases hacc.downloads.symm.trans hfolder
      cases hfirst.unique hacc.first
      have hdest : directCandidate folder request.rootName request.isDirectory n =
          entry.destination := by rw [hacc.reserved]
      rw [hdest] at hq
      refine TransferJob.receiveDirect_digest request.totalSize (hacc.atFile hdir) ?_
        (hkept folder hfolder _ c ?_ hq)
      · rw [hacc.reserved, hdir]
      · rw [← hdest, digestPath, directCandidate, withSuffix_append_singleton]
        exact List.prefix_append _ _
  · intro hfree folder' hfolder q c _ hq
    cases hacc.downloads.symm.trans hfolder
    have hbeside : TransferJob.Beside H.platform job entry q := by
      refine hacc.beside hfs hq fun hfile => ?_
      rintro rfl
      rw [hacc.reserved] at hq
      exact (hfree.resolve_left (by rw [hfile]; rintro ⟨⟩)) folder n hfolder hacc.first c hq
    refine TransferJob.lookup_receiveDirect entry.destination hbeside ?_ ?_ ?_
      (hacc.files q c hq)
    · rw [hacc.job_eq]
      rintro _ _ ⟨⟩
    · rw [hacc.job_eq]
      rfl
    · rw [hacc.job_eq]
      rfl

end Run

/-- A file of another name outlives a push that is cancelled. -/
theorem receiveDirect_keeps_iff_sample :
    ∃ job entry fs', acceptDirectDownload downloadHost (downloadsWith "b") (pushOf "a") =
        (.ok (job, entry), fs') ∧
      (TransferJob.receiveDirect downloadHost.platform entry .cancelledBySender job fs'
        [⟨-1, 0, [5], false⟩]).lookup ["Downloads", "b"] = some (.file [1]) := by
  have hfirst : FirstFree (downloadsWith "b") ["Downloads"] "a" false 0 := by
    refine ⟨?_, nofun⟩
    rintro (hself | ⟨-, hstage⟩)
    · exact hself (by decide)
    · exact hstage (by decide)
  refine ⟨_, _, _, rfl, (receiveDirect_keeps_iff (rooted_downloadsWith "b")
    (show acceptDirectDownload downloadHost (downloadsWith "b") (pushOf "a") = (.ok (_, _), _)
      from rfl) _ _).mpr (.inr fun folder n hfolder hn c => ?_) ["Downloads"] rfl _ _ (by decide)
    (by decide)⟩
  cases hfolder
  cases FirstFree.unique hn hfirst
  have hnone : (downloadsWith "b").lookup ["Downloads", "a.digest"] = none := by decide
  exact fun hfile => nomatch hnone.symm.trans hfile

/-- A file that happens to be called like the digest file of a push is gone when the push is
done. -/
theorem receiveDirect_removes_digest :
    ∃ job entry fs', acceptDirectDownload downloadHost (downloadsWith "a.digest") (pushOf "a") =
        (.ok (job, entry), fs') ∧
      (downloadsWith "a.digest").lookup ["Downloads", "a.digest"] = some (.file [1]) ∧
      (TransferJob.receiveDirect downloadHost.platform entry (.done true) job fs'
        [⟨-1, 0, [5], false⟩, ⟨-1, 0, [], false⟩]).lookup ["Downloads", "a.digest"] = none := by
  refine ⟨_, _, _, rfl, by decide, ?_⟩
  decide

end MDesk
