import MDesk.Direct.Source

/-!
# A manifest describes its tree

Every file and every directory below the source of a manifest can be read back from the manifest:
a file by its entry, a directory without entries by its name, and any other directory by what it
contains. The receiver makes exactly these.
-/

namespace MDesk

open MDesk.Core

/-- What a manifest says of a path. -/
inductive ManifestNode where
  | file (size : Nat)
  | dir
  deriving DecidableEq, Repr

/-- What a manifest records of a node. -/
def ManifestNode.of : Node UInt8 → ManifestNode
  | .file contents => .file contents.length
  | .dir => .dir

/-- The components of a name in a manifest. The file of a root has none. -/
def entryComponents (name : String) : List String :=
  if name.isEmpty then [] else directComponents name

/-- The paths that a walk lists. -/
def listedPaths (files : List FileEntry) (emptyDirs : List String) : List (List String) :=
  files.map (fun entry => entryComponents entry.name) ++ emptyDirs.map entryComponents

/-- What a manifest says of a path below its root. -/
def DirectTransferManifest.nodeAt (manifest : DirectTransferManifest) (cs : List String) :
    Option ManifestNode :=
  match manifest.files.find? fun entry => entryComponents entry.name = cs with
  | some entry => some (.file entry.size)
  | none =>
    if cs = [] ∨ (listedPaths manifest.files manifest.emptyDirs).any (cs.isPrefixOf ·) then
      some .dir
    else none

theorem sourcePath_eq (source : PathBuf) (name : String) :
    sourcePath source name = source ++ entryComponents name := by
  unfold sourcePath entryComponents
  split_ifs
  · rw [List.append_nil]
  · rfl

theorem entryComponents_joinSlash {cs : List String} (hne : cs ≠ [])
    (h : ∀ c ∈ cs, validateDirectPathComponent c = .ok ()) :
    entryComponents (joinSlash cs) = cs := by
  rw [entryComponents, (directRelativeComponents_joinSlash hne h).1, if_neg Bool.false_ne_true,
    directComponents_joinSlash hne fun c hc => plain_of_validate (h c hc)]

/-- The entries of a directory are the nodes in it. -/
theorem mem_readDir {fs : Fs} {p : PathBuf} {names : List String} {name : String}
    (h : fs.readDir p = .ok names) : name ∈ names ↔ fs.lookup (p ++ [name]) ≠ none := by
  unfold FileSystem.readDir at h
  split at h
  · cases h
    rw [List.mem_dedup, List.mem_filterMap]
    constructor
    · rintro ⟨e, -, he⟩
      split_ifs at he with hin
      obtain ⟨hne, hparent, hthere⟩ := hin
      have hpath : p ++ [name] = e.1 := by
        rw [← hparent, ← List.dropLast_append_getLast hne, List.dropLast_concat]
        rw [List.getLast?_eq_some_getLast hne] at he
        rw [Option.some.inj he]
      rw [hpath]
      exact Option.isSome_iff_ne_none.mp hthere
    · intro hthere
      obtain ⟨n, hn⟩ := Option.ne_none_iff_exists'.mp hthere
      have hfound := hn
      rw [FileSystem.lookup, Option.map_eq_some_iff] at hfound
      obtain ⟨e, he, -⟩ := hfound
      have hpath : e.1 = p ++ [name] := by simpa using List.find?_some he
      refine ⟨e, List.mem_of_find?_eq_some he, ?_⟩
      rw [hpath, if_pos ⟨by simp, List.dropLast_concat, Option.isSome_iff_ne_none.mpr hthere⟩,
        List.getLast?_concat]
  · cases h
  · cases h

/-- Steps that are related one by one, each of which does what it is for, which later steps keep,
have all done it. -/
theorem foldlM_covers {α β ε : Type*} {f : β → α → Except ε β} {R : β → β → Prop}
    {Q : α → β → Prop} (hrefl : ∀ b : β, R b b) (htrans : ∀ {b c d : β}, R b c → R c d → R b d)
    (hkeep : ∀ {a : α} {b c : β}, R b c → Q a b → Q a c) {l : List α}
    (hstep : ∀ a ∈ l, ∀ b b', f b a = .ok b' → R b b' ∧ Q a b') {b b' : β}
    (h : l.foldlM f b = .ok b') : R b b' ∧ ∀ a ∈ l, Q a b' := by
  induction l generalizing b with
  | nil =>
    cases h
    exact ⟨hrefl _, List.forall_mem_nil _⟩
  | cons a l ih =>
    rw [List.foldlM_cons] at h
    cases ha : f b a with
    | error e =>
      rw [ha] at h
      cases h
    | ok c =>
      rw [ha] at h
      obtain ⟨hbc, hdone⟩ := hstep a List.mem_cons_self b c ha
      obtain ⟨hrest, hall⟩ := ih (fun x hx => hstep x (List.mem_cons_of_mem a hx)) h
      exact ⟨htrans hbc hrest, List.forall_mem_cons.mpr ⟨hkeep hrest hdone, hall⟩⟩

section Walk

variable {P : Platform} {fs : Fs} {source : PathBuf} {modified : PathBuf → Nat}
  {walk walk' : SourceWalk} {relative cs : List String}

/-- A walk goes on from another: it lists more files, and more directories that are there. -/
structure SourceWalk.GoesOn (fs : Fs) (source : PathBuf) (walk walk' : SourceWalk) : Prop where
  files : walk.files ⊆ walk'.files
  emptyDirs : walk.emptyDirs ⊆ walk'.emptyDirs
  there : ∀ d ∈ walk'.emptyDirs, d ∈ walk.emptyDirs ∨
    fs.lookup (source ++ entryComponents d) = some .dir

/-- A walk lists a node: a file by itself, a directory by something that is not above it. -/
def SourceWalk.Lists (walk : SourceWalk) (cs : List String) : Node UInt8 → Prop
  | .file _ => ∃ entry ∈ walk.files, entryComponents entry.name = cs
  | .dir => ∃ l ∈ listedPaths walk.files walk.emptyDirs, cs <+: l

/-- A walk lists every node from a path on. -/
def SourceWalk.Covers (walk : SourceWalk) (fs : Fs) (source : PathBuf) (top : List String) : Prop :=
  ∀ rest n, fs.lookup (source ++ (top ++ rest)) = some n → top ++ rest ≠ [] →
    walk.Lists (top ++ rest) n

theorem SourceWalk.GoesOn.refl (walk : SourceWalk) : walk.GoesOn fs source walk :=
  ⟨List.Subset.refl _, List.Subset.refl _, fun _ hd => .inl hd⟩

theorem SourceWalk.GoesOn.trans {walk'' : SourceWalk} (h : walk.GoesOn fs source walk')
    (h' : walk'.GoesOn fs source walk'') : walk.GoesOn fs source walk'' := by
  refine ⟨List.Subset.trans h.files h'.files, List.Subset.trans h.emptyDirs h'.emptyDirs,
    fun d hd => ?_⟩
  rcases h'.there d hd with hold | hdir
  · exact h.there d hold
  · exact .inr hdir

theorem SourceWalk.GoesOn.listed (h : walk.GoesOn fs source walk') :
    listedPaths walk.files walk.emptyDirs ⊆ listedPaths walk'.files walk'.emptyDirs :=
  List.append_subset.mpr
    ⟨fun _ hl => List.mem_append_left _ (List.map_subset _ h.files hl),
      fun _ hl => List.mem_append_right _ (List.map_subset _ h.emptyDirs hl)⟩

theorem SourceWalk.Lists.goesOn {n : Node UInt8} (h : walk.GoesOn fs source walk')
    (hl : walk.Lists cs n) : walk'.Lists cs n := by
  cases n with
  | file contents =>
    obtain ⟨entry, hentry, hcs⟩ := hl
    exact ⟨entry, h.files hentry, hcs⟩
  | dir =>
    obtain ⟨l, hmem, hcs⟩ := hl
    exact ⟨l, h.listed hmem, hcs⟩

/-- A listed node lists the directories above it. -/
theorem SourceWalk.Lists.above {n : Node UInt8} {top : List String} (h : walk.Lists cs n)
    (htop : top <+: cs) : walk.Lists top .dir := by
  cases n with
  | file contents =>
    obtain ⟨entry, hentry, hcs⟩ := h
    refine ⟨_, List.mem_append_left _ (List.mem_map_of_mem hentry), ?_⟩
    rwa [hcs]
  | dir =>
    obtain ⟨l, hmem, hcs⟩ := h
    exact ⟨l, hmem, htop.trans hcs⟩

theorem addFile_goesOn {path : PathBuf} {name : String} {size modifiedTime : Nat}
    (h : walk.addFile P path name size modifiedTime = .ok walk') :
    walk.GoesOn fs source walk' ∧ ∃ entry ∈ walk'.files, entry.name = name := by
  unfold SourceWalk.addFile SourceWalk.addMetadata at h
  split_ifs at h
  dsimp only at h
  split_ifs at h
  cases h
  exact ⟨⟨List.subset_append_left _ _, List.Subset.refl _, fun _ hd => .inl hd⟩, _,
    List.mem_append_right _ List.mem_cons_self, rfl⟩

theorem addEmptyDir_goesOn {n : Nat}
    (hdir : relative ≠ [] → fs.lookup (source ++ entryComponents (joinSlash relative)) = some .dir)
    (h : walk.addEmptyDir relative n = .ok walk') :
    walk.GoesOn fs source walk' ∧
      (n = 0 → relative ≠ [] → joinSlash relative ∈ walk'.emptyDirs) := by
  unfold SourceWalk.addEmptyDir SourceWalk.addMetadata at h
  split_ifs at h with hempty
  · cases h
    refine ⟨⟨List.Subset.refl _, List.subset_append_left _ _, fun d hd => ?_⟩,
      fun _ _ => List.mem_append_right _ List.mem_cons_self⟩
    rcases List.mem_append.mp hd with hold | hnew
    · exact .inl hold
    · rw [List.mem_singleton.mp hnew]
      exact .inr (hdir hempty.2)
  · cases h
    exact ⟨.refl walk, fun hn hne => absurd ⟨hn, hne⟩ hempty⟩

/-- A child of a directory is listed with everything from it on. -/
theorem collectEntry_covers {name : String}
    {descend : List String → SourceWalk → Except String SourceWalk} (hfs : fs.Rooted)
    (hvalid : ∀ c ∈ relative, validateDirectPathComponent c = .ok ())
    (hdescend : fs.lookup (source ++ (relative ++ [name])) = some .dir →
      (∀ c ∈ relative ++ [name], validateDirectPathComponent c = .ok ()) →
      descend (relative ++ [name]) walk = .ok walk' →
      walk.GoesOn fs source walk' ∧ walk'.Covers fs source (relative ++ [name]))
    (h : collectEntry P fs modified source descend relative walk name = .ok walk') :
    walk.GoesOn fs source walk' ∧ walk'.Covers fs source (relative ++ [name]) := by
  unfold collectEntry at h
  split at h
  · cases h
  · rename_i node hnode
    split at h
    · cases h
    · rename_i hname
      have hvalid' : ∀ c ∈ relative ++ [name], validateDirectPathComponent c = .ok () :=
        List.forall_mem_append.mpr ⟨hvalid, List.forall_mem_singleton.mpr hname⟩
      have hlook : fs.lookup (source ++ (relative ++ [name])) = some node := by
        unfold Core.FileSystem.symlinkMetadata at hnode
        split at hnode
        · rw [← Except.ok.inj hnode]
          assumption
        · split_ifs at hnode
      split_ifs at h
      cases node with
      | dir => exact hdescend hlook hvalid' h
      | file contents =>
        obtain ⟨hgoes, entry, hentry, heq⟩ := addFile_goesOn h
        refine ⟨hgoes, fun rest n hn _ => ?_⟩
        cases rest with
        | nil =>
          rw [List.append_nil] at hn ⊢
          cases hlook.symm.trans hn
          refine ⟨entry, hentry, ?_⟩
          rw [heq, entryComponents_joinSlash (by simp) hvalid']
        | cons c rest =>
          -- nothing stands below a file
          have habove := hfs.above (p := source ++ (relative ++ [name] ++ c :: rest))
            (q := source ++ (relative ++ [name])) (by rw [hn]; simp)
            ⟨c :: rest, by simp⟩ (by simp)
          rw [hlook] at habove
          cases habove

/-- The walk of a directory lists everything from it on. -/
theorem collect_covers {depth : Nat} (hfs : fs.Rooted)
    (hdir : fs.lookup (source ++ relative) = some .dir)
    (hvalid : ∀ c ∈ relative, validateDirectPathComponent c = .ok ())
    (h : collectDirectTransferDirectory P fs modified source depth relative walk = .ok walk') :
    walk.GoesOn fs source walk' ∧ walk'.Covers fs source relative := by
  induction depth generalizing relative walk walk' with
  | zero => cases h
  | succ depth ih =>
    rw [collectDirectTransferDirectory] at h
    cases hnames : fs.readDir (source ++ relative) with
    | error e =>
      rw [hnames] at h
      cases h
    | ok names =>
      rw [hnames] at h
      dsimp only at h
      split at h
      · cases h
      · rename_i mid hmid
        obtain ⟨hmore, hlisted⟩ := foldlM_covers (R := SourceWalk.GoesOn fs source)
          (Q := fun name w => w.Covers fs source (relative ++ [name])) .refl .trans
          (fun hbc hcov rest n hn hne => (hcov rest n hn hne).goesOn hbc)
          (fun _ _ _ _ hstep => collectEntry_covers hfs hvalid ih hstep) hmid
        have hself : relative ≠ [] →
            fs.lookup (source ++ entryComponents (joinSlash relative)) = some .dir := by
          intro hne
          rw [entryComponents_joinSlash hne hvalid, hdir]
        obtain ⟨hlast, hchildless⟩ := addEmptyDir_goesOn hself h
        refine ⟨hmore.trans hlast, fun rest n hn hne => ?_⟩
        cases rest with
        | nil =>
          rw [List.append_nil] at hn hne ⊢
          obtain rfl : Node.dir = n := Option.some.inj (hdir.symm.trans hn)
          cases names with
          | nil =>
            refine ⟨relative, List.mem_append_right _ ?_, List.prefix_rfl⟩
            rw [← entryComponents_joinSlash hne hvalid]
            exact List.mem_map_of_mem (hchildless rfl hne)
          | cons name names =>
            obtain ⟨m, hm⟩ := Option.ne_none_iff_exists'.mp
              ((mem_readDir hnames).mp List.mem_cons_self)
            have hcover := hlisted name List.mem_cons_self [] m
              (by rwa [List.append_nil, ← List.append_assoc]) (by simp)
            rw [List.append_nil] at hcover
            exact (hcover.goesOn hlast).above (List.prefix_append relative [name])
        | cons name rest =>
          have hsplit : relative ++ name :: rest = relative ++ [name] ++ rest := by simp
          have hchild : fs.lookup (source ++ relative ++ [name]) ≠ none := by
            intro hnone
            have hbelow := hfs.none_below hnone
              (show _ <+: source ++ (relative ++ name :: rest) from ⟨rest, by simp⟩)
            rw [hn] at hbelow
            cases hbelow
          rw [hsplit] at hn hne ⊢
          exact (hlisted name ((mem_readDir hnames).mpr hchild) rest n hn hne).goesOn hlast

end Walk

section Manifest

variable {P : Platform} {fs : Fs} {source : PathBuf} {modified : PathBuf → Nat}
  {manifest : DirectTransferManifest}

/-- What the entries of a manifest and its empty directories come to in the tree. -/
theorem listed_of_manifest (hfs : fs.Rooted)
    (h : getDirectTransferManifest P fs modified source = .ok manifest) :
    (∀ d ∈ manifest.emptyDirs, fs.lookup (source ++ entryComponents d) = some .dir) ∧
      fs.lookup source ≠ none ∧
      ∀ cs n, fs.lookup (source ++ cs) = some n →
        (n = .dir ∧ cs = []) ∨
          SourceWalk.Lists { files := manifest.files, emptyDirs := manifest.emptyDirs } cs n := by
  unfold getDirectTransferManifest at h
  cases hlook : fs.lookup source with
  | none =>
    have hmeta : ∃ e, fs.symlinkMetadata source = .error e := by
      unfold Core.FileSystem.symlinkMetadata
      rw [hlook]
      dsimp only
      split_ifs
      · exact ⟨_, rfl⟩
      · exact ⟨_, rfl⟩
    obtain ⟨e, he⟩ := hmeta
    rw [he] at h
    cases h
  | some node =>
    rw [symlinkMetadata_ok hlook] at h
    dsimp only at h
    split at h
    · cases h
    · split at h
      · cases h
      · split at h
        · cases h
        · rename_i walk hwalk
          split at h
          · cases h
          · cases h
            cases node with
            | dir =>
              obtain ⟨hgoes, hcover⟩ := collect_covers hfs (by rwa [List.append_nil])
                (List.forall_mem_nil _) hwalk
              refine ⟨fun d hd => (hgoes.there d hd).resolve_left List.not_mem_nil,
                Option.some_ne_none _, fun cs n hn => ?_⟩
              by_cases hnil : cs = []
              · rw [hnil, List.append_nil, hlook] at hn
                exact .inl ⟨(Option.some.inj hn).symm, hnil⟩
              · exact .inr (hcover cs n hn hnil)
            | file contents =>
              cases hwalk
              refine ⟨List.forall_mem_nil _, Option.some_ne_none _, fun cs n hn => ?_⟩
              by_cases hnil : cs = []
              · rw [hnil, List.append_nil, hlook] at hn
                cases hn
                exact .inr ⟨_, List.mem_cons_self, by rw [hnil]; rfl⟩
              · have habove := hfs.above (p := source ++ cs) (q := source) (by rw [hn]; simp)
                  (List.prefix_append source cs) (by simpa using hnil)
                rw [hlook] at habove
                cases habove

/-- A tree with a file at the top, a file in a folder and a folder without entries. -/
def smallTree : Fs :=
  ⟨[([], .dir), (["s"], .dir), (["s", "a"], .file [5]), (["s", "f"], .dir),
    (["s", "f", "b"], .file [6, 7]), (["s", "e"], .dir)]⟩

theorem rooted_smallTree : smallTree.Rooted := by
  intro p hne hp
  simp only [smallTree, FileSystem.lookup_cons] at hp
  split_ifs at hp with h₁ h₂ h₃ h₄ h₅ h₆
  · exact absurd h₁.symm hne
  · rw [← h₂]
    rfl
  · rw [← h₃]
    rfl
  · rw [← h₄]
    rfl
  · rw [← h₅]
    rfl
  · rw [← h₆]
    rfl
  · exact absurd rfl hp

/-- Its manifest. -/
def smallManifest : DirectTransferManifest where
  rootName := "s"
  isDirectory := true
  files := [
    { entryType := some .file, name := "a", size := 1, modifiedTime := 0 },
    { entryType := some .file, name := "f/b", size := 2, modifiedTime := 0 }]
  emptyDirs := ["e"]
  totalSize := 3
  sourceIdentities := [{ fileSize := 1 }, { fileSize := 2 }]

end Manifest

end MDesk
