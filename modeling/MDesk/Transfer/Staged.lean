import MDesk.Core.Staging
import MDesk.Transfer.Write

/-!
# Writing one file

The operations of a write job on the file it works on, as changes of the view of the
file system: opening starts a file under construction, appending extends it and
finalising commits it. These are the only facts about `write` that the results about
whole transfers use.
-/

namespace MDesk

open MDesk.Core

/-- The `.download` and `.digest` names of a path. -/
@[reducible] def sideNames : SideNames String where
  stage := downloadPath
  side := digestPath
  stage_ne_nil := withSuffix_ne_nil _
  side_ne_nil := withSuffix_ne_nil _
  stage_dropLast := withSuffix_dropLast _
  side_dropLast := withSuffix_dropLast _
  stage_ne := withSuffix_ne (by decide)
  side_ne := withSuffix_ne (by decide)
  stage_ne_side := downloadPath_ne_digestPath
  stage_inj := withSuffix_inj

/-- No file stands on the way to `p`. -/
def WayTo (v : View String UInt8) (p : PathBuf) : Prop :=
  ∀ q, q <+: p.dropLast → ∀ c, v q ≠ some (.file c)

section Join

variable (P : Platform)

/-- The walk over the components of a name finds nothing to refuse when no file
stands on the way. -/
theorem validateComponents_ok {fs : Fs} {cs : List String} {current : PathBuf}
    (hdots : ".." ∉ cs)
    (hway : WayTo fs.lookup (current ++ cs.filter fun c => c ≠ "" ∧ c ≠ ".")) :
    validateComponents P fs current cs = .ok () := by
  induction cs generalizing current with
  | nil => rfl
  | cons c cs ih =>
    rw [List.mem_cons, not_or] at hdots
    unfold validateComponents
    by_cases hskip : c = "" ∨ c = "."
    · rw [if_pos hskip]
      refine ih hdots.2 ?_
      rwa [List.filter_cons_of_neg] at hway
      rcases hskip with rfl | rfl <;> decide
    · have hkeep : decide (c ≠ "" ∧ c ≠ ".") = true := by simpa using hskip
      rw [List.filter_cons, if_pos hkeep] at hway
      rw [if_neg hskip, if_neg (Ne.symm hdots.1)]
      have hnext : validateComponents P fs (current ++ [c]) cs = .ok () := by
        refine ih hdots.2 ?_
        rwa [List.append_assoc]
      have hmeta : fs.symlinkMetadata (current ++ [c]) ≠ .error .notADirectory := by
        unfold FileSystem.symlinkMetadata
        rcases hl : fs.lookup (current ++ [c]) with _ | n
        · have htrav : fs.Traversable (current ++ [c]) := by
            intro q hq d hd
            rcases List.prefix_concat_iff.mp hq with rfl | hq
            · rw [hl] at hd
              cases hd
            · refine hway q (hq.trans ?_) d hd
              rw [List.dropLast_append_of_ne_nil (List.cons_ne_nil _ _)]
              exact List.prefix_append _ _
          rw [FileSystem.any_isFile_inits.mpr htrav]
          nofun
        · nofun
      split
      · exact absurd ‹_› hmeta
      · exact hnext

/-- A checked name joins to its path when no file stands on the way. -/
theorem joinValidatedPath_ok {fs : Fs} {base : PathBuf} {name : String}
    (hname : validateFileNameNoTraversal P name = .ok ())
    (hway : WayTo fs.lookup (P.join base name)) :
    joinValidatedPath P fs base name = .ok (P.join base name) := by
  have hcomp : validateNoSymlinkComponents P fs base name = .ok () := by
    unfold validateFileNameNoTraversal at hname
    unfold validateNoSymlinkComponents
    split_ifs at hname with h₁ h₂ h₃ h₄
    by_cases hempty : name.isEmpty
    · rw [if_pos hempty]
    · rw [if_neg hempty, if_neg h₄]
      refine validateComponents_ok P (by simpa using h₂) ?_
      rwa [Platform.join, if_neg hempty] at hway
  simp only [joinValidatedPath, hname, hcomp]

end Join

namespace TransferJob

variable {fs : Fs} {v : View String UInt8} {path : PathBuf}

/-- Making the directories above a reachable path. -/
theorem createDirAll_parents (hway : WayTo fs.lookup path) :
    ∃ fs', fs.createDirAll path.dropLast = .ok fs' ∧
      ∀ q, fs'.lookup q = if q <+: path.dropLast then some .dir else fs.lookup q :=
  FileSystem.createDirAll_eq fun q hq c => hway q hq c

/-- A name next to a path whose directories exist has its parent. -/
theorem hasParent_of_dropLast {q : PathBuf} (hq : q ≠ []) (h : q.dropLast = path.dropLast)
    (hdir : fs.lookup path.dropLast = some .dir) : fs.hasParent q := by
  rw [FileSystem.hasParent_iff, h]
  exact ⟨hq, hdir⟩

/-- Removing a file that may be missing leaves its name free. -/
theorem clear_ok {p : PathBuf} (h : fs.lookup p ≠ some .dir) :
    ∃ fs', (if fs.pathExists p then fs.removeFile p else .ok fs) = .ok fs' ∧
      fs'.lookup = Function.update fs.lookup p none := by
  rcases hl : fs.lookup p with _ | ⟨c | _⟩
  · refine ⟨fs, by simp [FileSystem.pathExists, hl], ?_⟩
    rw [← hl, Function.update_eq_self]
  · refine ⟨fs.erase p, ?_, FileSystem.lookup_erase fs p⟩
    rw [FileSystem.removeFile_eq hl]
    simp [FileSystem.pathExists, hl]
  · exact absurd hl h

/-- Directories at the side names stop the opening of a file. -/
theorem createStaging_blocked (job : TransferJob) (hway : WayTo fs.lookup path)
    (hb : sideNames.Blocked fs.lookup path) :
    ∃ e fs', job.createStaging fs path = .fail e job fs' ∧
      fs'.lookup = sideNames.blocked fs.lookup path := by
  obtain ⟨fs₁, hmk, hfs₁⟩ := createDirAll_parents hway
  have hside : ¬ digestPath path <+: path.dropLast :=
    not_prefix_dropLast (withSuffix_ne_nil _ _) (withSuffix_dropLast _ _)
  have hstage : ¬ downloadPath path <+: path.dropLast :=
    not_prefix_dropLast (withSuffix_ne_nil _ _) (withSuffix_dropLast _ _)
  have hdigest := hfs₁ (digestPath path)
  have hdownload := hfs₁ (downloadPath path)
  rw [if_neg hside] at hdigest
  rw [if_neg hstage] at hdownload
  by_cases hd : fs.lookup (digestPath path) = some .dir
  · refine ⟨FsError.isADirectory.message, fs₁, ?_, ?_⟩
    · simp only [createStaging, hmk, Except.toOption, Option.getD_some]
      rw [hd] at hdigest
      rw [FileSystem.pathExists, hdigest]
      simp only [FileSystem.removeFile, hdigest, Option.isSome_some, if_true]
    · funext q
      have hq : ¬ (q = sideNames.side path ∧ fs.lookup q ≠ some .dir) := by
        rintro ⟨rfl, hq⟩
        exact hq hd
      rw [SideNames.blocked, if_neg hq, hfs₁]
  · have hs : fs.lookup (downloadPath path) = some .dir := hb.resolve_left hd
    obtain ⟨fs₂, hclear, hfs₂⟩ := clear_ok (hdigest ▸ hd)
    have hblocked : fs₂.lookup (downloadPath path) = some .dir := by
      rw [hfs₂, Function.update_of_ne (downloadPath_ne_digestPath _ _), hdownload, hs]
    refine ⟨FsError.isADirectory.message, fs₂, ?_, ?_⟩
    · simp only [createStaging, hmk, Except.toOption, Option.getD_some, hclear,
        FileSystem.create_dir hblocked]
    · funext q
      rw [hfs₂, SideNames.blocked]
      by_cases hq : q = digestPath path
      · subst hq
        rw [Function.update_self, if_pos ⟨rfl, hd⟩]
      · rw [if_neg fun h => hq h.1, Function.update_of_ne hq, hfs₁]

/-- Opening a file whose side names are free. -/
theorem createStaging_ok (job : TransferJob) (hway : WayTo fs.lookup path)
    (hb : ¬ sideNames.Blocked fs.lookup path) :
    ∃ fs', job.createStaging fs path =
        .ok { job with dataStream := some (.fileStream (downloadPath path) 0 .write) } fs' ∧
      fs'.lookup = sideNames.opened fs.lookup path [] job.digest.toJson := by
  obtain ⟨fs₁, hmk, hfs₁⟩ := createDirAll_parents hway
  have hside : ¬ digestPath path <+: path.dropLast :=
    not_prefix_dropLast (withSuffix_ne_nil _ _) (withSuffix_dropLast _ _)
  have hstage : ¬ downloadPath path <+: path.dropLast :=
    not_prefix_dropLast (withSuffix_ne_nil _ _) (withSuffix_dropLast _ _)
  have hne := downloadPath_ne_digestPath path path
  have hdigest := hfs₁ (digestPath path)
  have hdownload := hfs₁ (downloadPath path)
  have hdir := hfs₁ path.dropLast
  rw [if_neg hside] at hdigest
  rw [if_neg hstage] at hdownload
  rw [if_pos (List.prefix_refl _)] at hdir
  obtain ⟨fs₂, hclear, hfs₂⟩ := clear_ok (fun h => hb (.inl (hdigest ▸ h)))
  have hdir₂ : fs₂.lookup path.dropLast = some .dir := by
    rw [hfs₂, Function.update_of_ne, hdir]
    exact fun h => hside (h ▸ List.prefix_refl _)
  have hcreate : fs₂.create (downloadPath path) =
      .ok (fs₂.insert (downloadPath path) (.file [])) := by
    refine FileSystem.create_eq ?_ (hasParent_of_dropLast (withSuffix_ne_nil _ _)
      (withSuffix_dropLast _ _) hdir₂)
    rw [hfs₂, Function.update_of_ne hne, hdownload]
    exact fun h => hb (.inr h)
  have hmark : (fs₂.insert (downloadPath path) (.file [])).create (digestPath path) =
      .ok ((fs₂.insert (downloadPath path) (.file [])).insert (digestPath path) (.file [])) := by
    refine FileSystem.create_eq ?_ (hasParent_of_dropLast (withSuffix_ne_nil _ _)
      (withSuffix_dropLast _ _) ?_)
    · rw [FileSystem.lookup_insert, Function.update_of_ne hne.symm, hfs₂, Function.update_self]
      nofun
    · rw [FileSystem.lookup_insert, Function.update_of_ne, hdir₂]
      exact fun h => hstage (h ▸ List.prefix_refl _)
  refine ⟨((fs₂.insert (downloadPath path) (.file [])).insert (digestPath path)
    (.file [])).insert (digestPath path) (.file job.digest.toJson), ?_, ?_⟩
  · simp only [createStaging, hmk, Except.toOption, Option.getD_some, hclear, hcreate, hmark]
  · funext q
    simp only [FileSystem.lookup_insert, hfs₂]
    rw [SideNames.opened]
    by_cases hq : q = digestPath path
    · subst hq
      rw [Function.update_self, if_neg (Ne.symm hne), if_pos rfl]
    · rw [Function.update_of_ne hq, Function.update_of_ne hq]
      by_cases hq' : q = downloadPath path
      · subst hq'
        rw [Function.update_self, if_pos rfl]
      · rw [Function.update_of_ne hq', if_neg hq', if_neg hq, Function.update_of_ne hq, hfs₁]

section OpenEntry

variable (P : Platform) {job : TransferJob} {base : PathBuf} {entry : FileEntry} {n : Int}

/-- The checked path of an entry is where its file is opened. -/
theorem openEntry_eq (htype : job.type = .generic) (hentry : job.files[asUsize n]? = some entry)
    (hname : validateFileNameNoTraversal P entry.name = .ok ())
    (hpath : P.join base entry.name = path) (hway : WayTo fs.lookup path) :
    job.openEntry P fs base n = createStaging { job with fileNum := n } fs path := by
  have hjoin : joinValidatedPath P fs base entry.name = .ok path := by
    rw [← hpath]
    exact joinValidatedPath_ok P hname (hpath ▸ hway)
  simp only [openEntry, htype, hentry, Option.map_some, Option.getD_some, hjoin]

/-- A block of another file, or of no open file, moves the job. -/
theorem openForBlock_move {block : FileTransferBlock} (hsource : job.dataSource = .filePath base)
    (hmove : block.fileNum.toNat ≠ asUsize job.fileNum ∨ job.dataStream = none) :
    job.openForBlock P fs block =
      (job.finalizeWrite P fs).andThen fun job fs => job.openEntry P fs base block.fileNum := by
  rw [← Option.isNone_iff_eq_none] at hmove
  simp only [openForBlock, hsource, if_pos hmove]

/-- A block of the open file leaves it open. -/
theorem openForBlock_stay {block : FileTransferBlock} {s : DataStream}
    (hsource : job.dataSource = .filePath base)
    (hnum : block.fileNum.toNat = asUsize job.fileNum) (hs : job.dataStream = some s) :
    job.openForBlock P fs block = .ok job fs := by
  have hstay : ¬ (block.fileNum.toNat ≠ asUsize job.fileNum ∨ job.dataStream.isNone) := by
    simp [hnum, hs]
  simp only [openForBlock, hsource, if_neg hstay]

end OpenEntry

/-- The file at `path` is open over the view `v` with `contents` written so far. -/
structure Receiving (v : View String UInt8) (path : PathBuf) (contents mark : Bytes)
    (job : TransferJob) (fs : Fs) : Prop where
  stream : job.dataStream = some (.fileStream (downloadPath path) contents.length .write)
  view : fs.lookup = sideNames.opened v path contents mark

/-- Appending extends the open file. -/
theorem appendBlock_ok {job : TransferJob} {contents mark : Bytes}
    (h : Receiving v path contents mark job fs) (block : FileTransferBlock) (data : Bytes) :
    ∃ fs', job.appendBlock fs block data =
        .ok (job.counted (.fileStream (downloadPath path) (contents ++ data).length .write)
          block data) fs' ∧
      fs'.lookup = sideNames.opened v path (contents ++ data) mark := by
  have hfile : fs.lookup (downloadPath path) = some (.file contents) := by
    rw [h.view, SideNames.opened, if_pos rfl]
  refine ⟨fs.insert (downloadPath path) (.file (contents ++ data)), ?_, ?_⟩
  · have hwrite : fs.writeAt 0 (downloadPath path) contents.length data =
        fs.insert (downloadPath path) (.file (contents ++ data)) := by
      simp [FileSystem.writeAt, hfile, List.drop_eq_nil_of_le]
    simp only [appendBlock, h.stream, hwrite, List.length_append]
  · funext q
    rw [FileSystem.lookup_insert, h.view, SideNames.opened]
    by_cases hq : q = downloadPath path
    · subst hq
      rw [Function.update_self, if_pos rfl]
    · rw [Function.update_of_ne hq, if_neg hq, SideNames.opened, if_neg hq]

/-- Finalising commits the open file. -/
theorem finalizeWrite_ok (P : Platform) {job : TransferJob} {base : PathBuf} {entry : FileEntry}
    {contents mark : Bytes} (htype : job.type = .generic)
    (hsource : job.dataSource = .filePath base)
    (hentry : job.files[asUsize job.fileNum]? = some entry)
    (hname : validateFileNameNoTraversal P entry.name = .ok ())
    (hpath : P.join base entry.name = path) (hne : path ≠ []) (hdir : v path ≠ some .dir)
    (hnever : job.neverOverwriteDestination = true → v path = none)
    (h : Receiving v path contents mark job fs) :
    ∃ fs', job.finalizeWrite P fs = .ok { job with dataStream := none } fs' ∧
      fs'.lookup = sideNames.put v path contents := by
  have hds := downloadPath_ne_digestPath path path
  have hparents : ∀ q, q <+: path.dropLast → fs.lookup q = some .dir := by
    intro q hq
    rw [h.view, SideNames.opened_above _ _ _ _ hq]
  have hjoin : joinValidatedPath P fs base entry.name = .ok path := by
    rw [← hpath]
    refine joinValidatedPath_ok P hname fun q hq c hc => ?_
    rw [hpath] at hq
    rw [hparents q hq] at hc
    cases hc
  have hmark : fs.lookup (digestPath path) = some (.file mark) := by
    rw [h.view]
    exact sideNames.opened_side v path contents mark
  -- What is left once the digest file is gone.
  obtain ⟨fs₁, hfs₁⟩ : ∃ fs₁, fs₁ = fs.erase (digestPath path) := ⟨_, rfl⟩
  have hlook : ∀ q, q ≠ digestPath path → fs₁.lookup q = fs.lookup q := by
    intro q hq
    rw [hfs₁, FileSystem.lookup_erase, Function.update_of_ne hq]
  have hat : fs₁.lookup path = v path := by
    rw [hlook _ (sideNames.side_ne path).symm, h.view, SideNames.opened_self _ _ hne]
  have hstaged : fs₁.lookup (downloadPath path) = some (.file contents) := by
    rw [hlook _ hds, h.view]
    exact sideNames.opened_stage v path contents mark
  have hdrop : path.dropLast ≠ digestPath path := by
    intro he
    exact sideNames.side_not_above path (he ▸ List.prefix_refl path.dropLast)
  have habove : fs₁.lookup path.dropLast = some .dir := by
    rw [hlook _ hdrop, hparents _ (List.prefix_refl _)]
  have hrename := FileSystem.rename_eq hstaged (hat ▸ hdir) (hasParent_of_dropLast hne rfl habove)
  have hfree : ¬ (job.neverOverwriteDestination ∧ fs₁.pathExists path) := by
    rintro ⟨hn, hex⟩
    rw [FileSystem.pathExists, hat, hnever hn] at hex
    cases hex
  refine ⟨(fs₁.erase (downloadPath path)).insert path (.file contents), ?_, ?_⟩
  · simp only [finalizeWrite, h.stream, htype, finalizeCurrentFile, hsource, hentry, hjoin,
      FileSystem.removeFile_eq hmark, Except.toOption, Option.getD_some, ← hfs₁, if_neg hfree,
      hrename]
    rfl
  · funext q
    rw [FileSystem.lookup_insert, FileSystem.lookup_erase]
    by_cases hq : q = path
    · subst hq
      rw [Function.update_self, SideNames.put, if_pos rfl]
    by_cases hq' : q = downloadPath path
    · subst hq'
      rw [Function.update_of_ne hq, Function.update_self, SideNames.put, if_neg hq,
        if_pos (.inl rfl)]
    by_cases hq'' : q = digestPath path
    · subst hq''
      rw [Function.update_of_ne hq, Function.update_of_ne hq', hfs₁, FileSystem.lookup_erase,
        Function.update_self, SideNames.put, if_neg hq, if_pos (.inr rfl)]
    · have hsides : ¬ (q = sideNames.stage path ∨ q = sideNames.side path) := not_or.mpr ⟨hq', hq''⟩
      rw [Function.update_of_ne hq, Function.update_of_ne hq', hlook _ hq'', h.view,
        SideNames.put, if_neg hq, if_neg hsides, SideNames.opened, if_neg hq', if_neg hq'']

end TransferJob

end MDesk
