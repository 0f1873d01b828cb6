import MDesk.Transfer.Read

/-!
# Manifests of a source tree

The walk that lists what a direct transfer is going to send. Every file of a manifest
is a regular file of the tree, with its size and its identity, and passes the checks a
direct job makes when it opens the file.
-/

namespace MDesk

open MDesk.Core

variable (P : Platform)

/-- What `collect_direct_transfer_directory` accumulates. -/
structure SourceWalk where
  files : List FileEntry := []
  sourceIdentities : List DirectSourceIdentity := []
  emptyDirs : List String := []
  metadataBytes : Nat := 0
  totalSize : Nat := 0
  deriving DecidableEq, Repr

/-- Another entry of the manifest fits into its limits. -/
def SourceWalk.addMetadata (walk : SourceWalk) (protocolPath : String) :
    Except String SourceWalk :=
  if 2 ^ 64 ≤ walk.metadataBytes + protocolPath.utf8ByteSize then
    .error "direct transfer metadata overflow"
  else if directTransferMaxEntries ≤ walk.files.length + walk.emptyDirs.length ∨
      directTransferMaxMetadataBytes < walk.metadataBytes + protocolPath.utf8ByteSize then
    .error "direct transfer manifest is too large"
  else .ok { walk with metadataBytes := walk.metadataBytes + protocolPath.utf8ByteSize }

/-- A regular file met by the walk. -/
def SourceWalk.addFile (walk : SourceWalk) (path : PathBuf) (protocolPath : String)
    (size modifiedTime : Nat) : Except String SourceWalk :=
  match walk.addMetadata protocolPath with
  | .error e => .error e
  | .ok walk =>
    if 2 ^ 64 ≤ walk.totalSize + size then .error "direct transfer size overflow"
    else if directTransferMaxTotalBytes < walk.totalSize + size then
      .error "direct transfer exceeds the unattended size limit"
    else .ok { walk with
      totalSize := walk.totalSize + size
      files := walk.files ++ [{ entryType := some .file, name := protocolPath, size, modifiedTime }]
      sourceIdentities := walk.sourceIdentities ++ [directSourceIdentity P path size] }

/-- A directory without entries below the root of the walk. -/
def SourceWalk.addEmptyDir (walk : SourceWalk) (relative : List String) (childCount : Nat) :
    Except String SourceWalk :=
  if childCount = 0 ∧ relative ≠ [] then
    match walk.addMetadata (joinSlash relative) with
    | .error e => .error e
    | .ok walk => .ok { walk with emptyDirs := walk.emptyDirs ++ [joinSlash relative] }
  else .ok walk

/-- One child of a directory; `descend` walks a directory. -/
def collectEntry (fs : Fs) (modified : PathBuf → Nat) (source : PathBuf)
    (descend : List String → SourceWalk → Except String SourceWalk) (relative : List String)
    (walk : SourceWalk) (name : String) : Except String SourceWalk :=
  match fs.symlinkMetadata (source ++ (relative ++ [name])) with
  | .error e => .error e.message
  | .ok node =>
    match validateDirectPathComponent name with
    | .error e => .error e
    | .ok () =>
      if directTransferMaxPathBytes < (joinSlash (relative ++ [name])).utf8ByteSize then
        .error "direct transfer path exceeds safety limit"
      else
        match node with
        | .dir => descend (relative ++ [name]) walk
        | .file contents =>
          walk.addFile P (source ++ (relative ++ [name])) (joinSlash (relative ++ [name]))
            contents.length (modified (source ++ (relative ++ [name])))

/-- `collect_direct_transfer_directory`, `depth` levels above the safety limit. -/
def collectDirectTransferDirectory (fs : Fs) (modified : PathBuf → Nat) (source : PathBuf) :
    Nat → List String → SourceWalk → Except String SourceWalk
  | 0, _, _ => .error "direct transfer directory depth exceeds safety limit"
  | depth + 1, relative, walk =>
    match fs.readDir (source ++ relative) with
    | .error e => .error e.message
    | .ok names =>
      match names.foldlM (collectEntry P fs modified source
          (collectDirectTransferDirectory fs modified source depth) relative) walk with
      | .error e => .error e
      | .ok walk => walk.addEmptyDir relative names.length

/-- `get_direct_transfer_manifest`. -/
def getDirectTransferManifest (fs : Fs) (modified : PathBuf → Nat) (source : PathBuf) :
    Except String DirectTransferManifest :=
  match fs.symlinkMetadata source with
  | .error e => .error e.message
  | .ok node =>
    match source.getLast? with
    | none => .error "direct transfer source has no valid basename"
    | some rootName =>
      match validateDirectPathComponent rootName with
      | .error e => .error e
      | .ok () =>
        let collected : Except String SourceWalk :=
          match node with
          | .file contents => .ok {
              files := [{
                entryType := some .file, size := contents.length, modifiedTime := modified source }]
              sourceIdentities := [directSourceIdentity P source contents.length]
              totalSize := contents.length }
          | .dir =>
            collectDirectTransferDirectory P fs modified source (directTransferMaxDepth + 1) [] {}
        match collected with
        | .error e => .error e
        | .ok walk =>
          match validateDirectTransferLayout P rootName (node = .dir) walk.files walk.emptyDirs
              walk.totalSize with
          | .error e => .error e
          | .ok () => .ok {
              rootName
              isDirectory := node = .dir
              files := walk.files
              emptyDirs := walk.emptyDirs
              totalSize := walk.totalSize
              sourceIdentities := walk.sourceIdentities }

/-- Where the file of a manifest entry is below its source. -/
def sourcePath (source : PathBuf) (name : String) : PathBuf :=
  if name.isEmpty then source else source ++ directComponents name

/-- The contents of the source file of an entry. -/
def sourceContents (fs : Fs) (source : PathBuf) (name : String) : Bytes :=
  match fs.lookup (sourcePath source name) with
  | some (.file contents) => contents
  | _ => []

/-- An entry records a file of the tree, and the file passes the check of its source. -/
structure RecordsFile (fs : Fs) (source : PathBuf) (entry : FileEntry)
    (identity : DirectSourceIdentity) : Prop where
  file : fs.lookup (sourcePath source entry.name) =
    some (.file (sourceContents fs source entry.name))
  size : entry.size = (sourceContents fs source entry.name).length
  identity : identity = directSourceIdentity P (sourcePath source entry.name) entry.size
  valid : validateDirectSourceFile fs source entry.name = .ok (sourcePath source entry.name)

section Walk

variable {P} {fs : Fs} {source : PathBuf} {modified : PathBuf → Nat}

/-- What every successful step keeps, a successful loop keeps. -/
theorem foldlM_keeps {α β ε : Type*} {f : β → α → Except ε β} {Q : β → Prop} {l : List α}
    (hstep : ∀ a ∈ l, ∀ b b', Q b → f b a = .ok b' → Q b') {b b' : β} (hb : Q b)
    (h : l.foldlM f b = .ok b') : Q b' := by
  induction l generalizing b with
  | nil =>
    cases h
    exact hb
  | cons a l ih =>
    rw [List.foldlM_cons] at h
    cases ha : f b a with
    | error e =>
      rw [ha] at h
      cases h
    | ok c =>
      rw [ha] at h
      exact ih (fun x hx => hstep x (List.mem_cons_of_mem a hx))
        (hstep a List.mem_cons_self b c hb ha) h

theorem validateAll_iff {cs : List String} : validateDirectPathComponents cs = .ok () ↔
    ∀ c ∈ cs, validateDirectPathComponent c = .ok () := by
  induction cs with
  | nil => simp [validateDirectPathComponents]
  | cons c cs ih =>
    rw [validateDirectPathComponents, List.forall_mem_cons]
    cases validateDirectPathComponent c with
    | error e => simp
    | ok u => simp [ih]

/-- A component without separators is not split. -/
theorem splitStr_plain {c : String} (h : PlainComponent c) :
    splitStr isDirectSeparator c = [c] := by
  rw [splitStr, List.splitOnP_eq_singleton]
  · simp
  · exact h.separators

/-- The components of a joined path of plain components. -/
theorem directComponents_joinSlash {cs : List String} (hne : cs ≠ [])
    (h : ∀ c ∈ cs, PlainComponent c) : directComponents (joinSlash cs) = cs := by
  have hslash : ∀ c ∈ cs, '/' ∉ c.toList := by
    intro c hc hm
    have hsep := (h c hc).separators '/' hm
    simp [isDirectSeparator] at hsep
  rw [directComponents, splitStr_refine (p := (· == '/')), splitStr_joinSlash hne hslash]
  · clear hslash hne
    induction cs with
    | nil => rfl
    | cons c cs ih =>
      rw [List.flatMap_cons, splitStr_plain (h c List.mem_cons_self),
        ih fun d hd => h d (List.mem_cons_of_mem c hd)]
      rfl
  · intro c hc
    simp [isDirectSeparator, beq_iff_eq.mp hc]

/-- A joined path of plain components starts with a character of the first one. -/
theorem head_joinSlash {c : String} (cs : List String) (h : PlainComponent c) :
    ∃ x, (joinSlash (c :: cs)).toList.head? = some x ∧ isDirectSeparator x = false := by
  obtain ⟨x, xs, hx⟩ := List.exists_cons_of_ne_nil
    (fun hnil => h.ne_empty (String.toList_eq_nil_iff.mp hnil))
  refine ⟨x, ?_, h.separators x (by rw [hx]; exact List.mem_cons_self)⟩
  cases cs with
  | nil => rw [joinSlash_singleton, hx, List.head?_cons]
  | cons d ds =>
    rw [joinSlash_cons c (List.cons_ne_nil d ds), String.toList_append, String.toList_append, hx]
    rfl

theorem directRelativeComponents_joinSlash {cs : List String} (hne : cs ≠ [])
    (h : ∀ c ∈ cs, validateDirectPathComponent c = .ok ()) :
    (joinSlash cs).isEmpty = false ∧ directRelativeComponents (joinSlash cs) = .ok cs := by
  have hplain : ∀ c ∈ cs, PlainComponent c := fun c hc => plain_of_validate (h c hc)
  have hsplit := directComponents_joinSlash hne hplain
  obtain ⟨c, ds, rfl⟩ := List.exists_cons_of_ne_nil hne
  obtain ⟨x, hhead, hx⟩ := head_joinSlash ds (hplain c List.mem_cons_self)
  have hempty : (joinSlash (c :: ds)).isEmpty = false := by
    rw [Bool.eq_false_iff]
    intro he
    rw [String.isEmpty_iff] at he
    rw [he] at hhead
    cases hhead
  rw [directComponents] at hsplit
  refine ⟨hempty, ?_⟩
  simp only [directRelativeComponents, hempty, hhead, Option.any_some, hx, hsplit,
    validateAll_iff.mpr h, Bool.false_eq_true, or_self, if_false]

theorem symlinkMetadata_ok {p : PathBuf} {n : Core.Node UInt8} (h : fs.lookup p = some n) :
    fs.symlinkMetadata p = .ok n := by
  simp only [Core.FileSystem.symlinkMetadata, h]

theorem walkSource_ok {current : PathBuf} {cs : List String}
    (h : ∀ q, q <+: cs → q ≠ [] → ∃ n, fs.lookup (current ++ q) = some n) :
    walkSource fs current cs = .ok () := by
  induction cs generalizing current with
  | nil => rfl
  | cons c cs ih =>
    obtain ⟨n, hn⟩ := h [c] ⟨cs, rfl⟩ (List.cons_ne_nil c [])
    simp only [walkSource, symlinkMetadata_ok hn]
    refine ih fun q hq hne => ?_
    rw [List.append_assoc]
    exact h (c :: q) (List.cons_prefix_cons.mpr ⟨rfl, hq⟩) (List.cons_ne_nil c q)

/-- A file below directories of the tree, as its manifest entry records it. -/
theorem recordsFile_of_walk {relative : List String} {name : String} {contents : Bytes}
    (hdirs : ∀ q, q <+: relative → fs.lookup (source ++ q) = some .dir)
    (hvalid : ∀ c ∈ relative ++ [name], validateDirectPathComponent c = .ok ())
    (hfile : fs.lookup (source ++ (relative ++ [name])) = some (.file contents))
    (modifiedTime : Nat) :
    RecordsFile P fs source
      { entryType := some .file, name := joinSlash (relative ++ [name]), size := contents.length,
        modifiedTime }
      (directSourceIdentity P (source ++ (relative ++ [name])) contents.length) := by
  have hne : relative ++ [name] ≠ [] := by simp
  obtain ⟨hempty, hcomponents⟩ := directRelativeComponents_joinSlash hne hvalid
  have hpath : sourcePath source (joinSlash (relative ++ [name])) =
      source ++ (relative ++ [name]) := by
    rw [sourcePath, hempty, directComponents_joinSlash hne
      fun c hc => plain_of_validate (hvalid c hc)]
    rfl
  have hcontents : sourceContents fs source (joinSlash (relative ++ [name])) = contents := by
    simp only [sourceContents, hpath, hfile]
  have hroot : fs.lookup source = some .dir := by simpa using hdirs [] List.nil_prefix
  have hwalk : walkSource fs source (relative ++ [name]) = .ok () := by
    refine walkSource_ok fun q hq _ => ?_
    rcases List.prefix_concat_iff.mp hq with rfl | hq
    · exact ⟨_, hfile⟩
    · exact ⟨_, hdirs q hq⟩
  refine ⟨?_, ?_, ?_, ?_⟩
  · rw [hcontents, hpath, hfile]
  · rw [hcontents]
  · rw [hpath]
  · simp only [validateDirectSourceFile, symlinkMetadata_ok hroot, hempty, hcomponents, hwalk,
      validateDirectSourceFile.regular, symlinkMetadata_ok hfile, hpath, Bool.false_eq_true,
      if_false]
    rw [if_pos (List.isPrefixOf_iff_prefix.mpr (List.prefix_append _ _))]

/-- Every file of the walk is recorded. -/
def SourceWalk.Records (walk : SourceWalk) (P : Platform) (fs : Fs) (source : PathBuf) : Prop :=
  List.Forall₂ (RecordsFile P fs source) walk.files walk.sourceIdentities

theorem addMetadata_keeps {walk walk' : SourceWalk} {path : String}
    (h : walk.addMetadata path = .ok walk') :
    walk'.files = walk.files ∧ walk'.sourceIdentities = walk.sourceIdentities := by
  unfold SourceWalk.addMetadata at h
  split_ifs at h
  cases h
  exact ⟨rfl, rfl⟩

theorem addEmptyDir_records {walk walk' : SourceWalk} {relative : List String} {n : Nat}
    (hwalk : walk.Records P fs source) (h : walk.addEmptyDir relative n = .ok walk') :
    walk'.Records P fs source := by
  unfold SourceWalk.addEmptyDir at h
  split_ifs at h
  · split at h
    · cases h
    · rename_i hmeta
      obtain ⟨hfiles, hids⟩ := addMetadata_keeps hmeta
      cases h
      rw [SourceWalk.Records, hfiles, hids]
      exact hwalk
  · cases h
    exact hwalk

theorem addFile_records {walk walk' : SourceWalk} {path : PathBuf} {name : String}
    {size modifiedTime : Nat} (hwalk : walk.Records P fs source)
    (hrec : RecordsFile P fs source
      { entryType := some .file, name, size, modifiedTime } (directSourceIdentity P path size))
    (h : walk.addFile P path name size modifiedTime = .ok walk') : walk'.Records P fs source := by
  unfold SourceWalk.addFile at h
  split at h
  · cases h
  · rename_i hmeta
    obtain ⟨hfiles, hids⟩ := addMetadata_keeps hmeta
    split_ifs at h
    cases h
    rw [SourceWalk.Records, hfiles, hids]
    exact List.rel_append hwalk (.cons hrec .nil)

/-- The walk of a directory of the tree keeps what is recorded. -/
theorem collect_records {depth : Nat} {relative : List String} {walk walk' : SourceWalk}
    (hdirs : ∀ q, q <+: relative → fs.lookup (source ++ q) = some .dir)
    (hvalid : ∀ c ∈ relative, validateDirectPathComponent c = .ok ())
    (hwalk : walk.Records P fs source)
    (h : collectDirectTransferDirectory P fs modified source depth relative walk = .ok walk') :
    walk'.Records P fs source := by
  induction depth generalizing relative walk walk' with
  | zero => cases h
  | succ depth ih =>
    rw [collectDirectTransferDirectory] at h
    cases hnames : fs.readDir (source ++ relative) with
    | error e =>
      rw [hnames] at h
      cases h
    | ok names =>
      rw [hnames] at h
      dsimp only at h
      split at h
      · cases h
      · rename_i mid hmid
        refine addEmptyDir_records ?_ h
        refine foldlM_keeps (Q := (·.Records P fs source)) (fun name _ w w' hw hstep => ?_)
          hwalk hmid
        unfold collectEntry at hstep
        split at hstep
        · cases hstep
        · rename_i node hnode
          split at hstep
          · cases hstep
          · rename_i hname
            have hvalid' : ∀ c ∈ relative ++ [name], validateDirectPathComponent c = .ok () := by
              intro c hc
              rcases List.mem_append.mp hc with hc | hc
              · exact hvalid c hc
              · rw [List.mem_singleton.mp hc]
                exact hname
            have hlook : fs.lookup (source ++ (relative ++ [name])) = some node := by
              unfold Core.FileSystem.symlinkMetadata at hnode
              split at hnode
              · rw [← Except.ok.inj hnode]
                assumption
              · split_ifs at hnode
            split_ifs at hstep
            cases node with
            | dir =>
              refine ih (fun q hq => ?_) hvalid' hw hstep
              rcases List.prefix_concat_iff.mp hq with rfl | hq
              · exact hlook
              · exact hdirs q hq
            | file contents =>
              exact addFile_records hw (recordsFile_of_walk hdirs hvalid' hlook _) hstep

/-- A manifest is accepted by its own validation and records files of the tree only. -/
theorem records_of_manifest {manifest : DirectTransferManifest}
    (h : getDirectTransferManifest P fs modified source = .ok manifest) :
    validateDirectTransferLayout P manifest.rootName manifest.isDirectory manifest.files
        manifest.emptyDirs manifest.totalSize = .ok () ∧
      List.Forall₂ (RecordsFile P fs source) manifest.files manifest.sourceIdentities := by
  unfold getDirectTransferManifest at h
  cases hlook : fs.lookup source with
  | none =>
    have hmeta : ∃ e, fs.symlinkMetadata source = .error e := by
      unfold Core.FileSystem.symlinkMetadata
      rw [hlook]
      dsimp only
      split_ifs
      · exact ⟨_, rfl⟩
      · exact ⟨_, rfl⟩
    obtain ⟨e, he⟩ := hmeta
    rw [he] at h
    cases h
  | some node =>
    rw [symlinkMetadata_ok hlook] at h
    dsimp only at h
    split at h
    · cases h
    · split at h
      · cases h
      · split at h
        · cases h
        · rename_i walk hwalk
          split at h
          · cases h
          · cases h
            refine ⟨‹_›, ?_⟩
            cases node with
            | dir =>
              have hnone : SourceWalk.Records {} P fs source := List.Forall₂.nil
              refine collect_records (fun q hq => ?_) (by simp) hnone hwalk
              rw [List.prefix_nil.mp hq, List.append_nil, hlook]
            | file contents =>
              cases hwalk
              have hcontents : sourceContents fs source "" = contents := by
                simp [sourceContents, sourcePath, hlook]
              refine .cons ⟨?_, ?_, ?_, ?_⟩ .nil
              · rw [hcontents]
                exact hlook
              · exact congrArg List.length hcontents.symm
              · rfl
              · simp [validateDirectSourceFile, symlinkMetadata_ok hlook,
                  validateDirectSourceFile.regular, sourcePath]

/-- A job can always be made for a manifest of the tree. -/
theorem newDirectRead_of_manifest {manifest : DirectTransferManifest} (id : Int)
    (h : getDirectTransferManifest P fs modified source = .ok manifest) :
    ∃ job, TransferJob.newDirectRead P id source manifest = .ok job := by
  obtain ⟨hlayout, hrecords⟩ := records_of_manifest h
  have hsizes : (manifest.sourceIdentities.zip manifest.files).any
      (fun e => e.1.fileSize ≠ e.2.size) = false := by
    rw [List.any_eq_false]
    intro e he
    obtain ⟨n, hn, rfl⟩ := List.mem_iff_getElem.mp he
    simp only [List.getElem_zip]
    have hrec := hrecords.get (i := n)
      (by rw [List.length_zip] at hn; omega) (by rw [List.length_zip] at hn; omega)
    have hid := hrec.identity
    simp only [List.get_eq_getElem] at hid
    rw [hid, directSourceIdentity]
    split_ifs <;> simp
  simp only [TransferJob.newDirectRead, hlayout, hrecords.length_eq, hsizes]
  simp

end Walk

end MDesk
