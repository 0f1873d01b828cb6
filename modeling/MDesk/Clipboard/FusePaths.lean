import MDesk.Clipboard.FuseTree

/-!
# The paths of the mounted clipboard

The way from the root to a mounted file spells its name, where names are in normal form and a
directory comes before what is in it. The map of the directories goes by components, so other
spellings of a name are mounted under its normal form, and a name without a base is refused.
-/

namespace MDesk.Clipboard.FuseTree

open Core

/-- The names on the way from the root to a node. -/
inductive PathTo (tree : List FuseNode) : Nat → List String → Prop
  | root : PathTo tree fuseRootId []
  | node {c p : Nat} {node : FuseNode} {names : List String} (hnode : node? tree c = some node)
      (hparent : node.parent = some p) (hpath : PathTo tree p names) :
      PathTo tree c (names ++ [node.name])

/-- Nodes keep their places. -/
def Extends (old new : List FuseNode) : Prop := ∀ c node, node? old c = some node →
  ∃ node', node? new c = some node' ∧ node'.parent = node.parent ∧ node'.name = node.name

/-- A name in normal form: plain components joined by single slashes. -/
structure NormalName (name : String) (components : List String) : Prop where
  ne_nil : components ≠ []
  plain : ∀ c ∈ components, c ≠ "" ∧ c ≠ "." ∧ c ≠ ".." ∧ '/' ∉ c.toList
  joined : name = joinSlash components

/-- Every file is at the top, or in a directory listed before. -/
def ParentsFirst (files : List FileDescription) : Prop :=
  ∀ (i : Nat) (file : FileDescription), files[i]? = some file →
    parent (unixPaths.components file.name) = some [] ∨
    ∃ k < i, ∃ dir : FileDescription, files[k]? = some dir ∧ dir.kind = .directory ∧
      parent (unixPaths.components file.name) = some (unixPaths.components dir.name)

/-- The names on the way to every file are the parts of its name. -/
def PathsKept (files : List FileDescription) (tree : List FuseNode) : Prop :=
  ∀ (i : Nat) (file : FileDescription), files[i]? = some file → ∃ names,
    (∀ others, PathTo tree (i + 2) others ↔ others = names) ∧ joinSlash names = file.name

variable {s s' : TreeState} {file : FileDescription} {tree : List FuseNode} {c : Nat}
  {names : List String} {name : String} {done : List FileDescription}

theorem PathTo.extend {old new : List FuseNode} (hext : Extends old new)
    (h : PathTo old c names) : PathTo new c names := by
  induction h with
  | root => exact .root
  | node hnode hparent _ ih =>
    obtain ⟨node', hnew, hsame, hname⟩ := hext _ _ hnode
    rw [← hname]
    exact .node hnew (hsame.trans hparent) ih

/-- There is one way to a node. -/
theorem PathTo.unique {others : List String} (hroot : parentOf tree fuseRootId = none)
    (h : PathTo tree c names) (h' : PathTo tree c others) : names = others := by
  have hno {p : Nat} {node : FuseNode} (hnode : node? tree fuseRootId = some node)
      (hparent : node.parent = some p) : False := by
    unfold parentOf at hroot
    rw [hnode, Option.bind_some, hparent] at hroot
    cases hroot
  induction h generalizing others with
  | root =>
    cases h' with
    | root => rfl
    | node hnode hparent _ => exact (hno hnode hparent).elim
  | node hnode hparent _ ih =>
    cases h' with
    | root => exact (hno hnode hparent).elim
    | node hnode' hparent' hpath' =>
      obtain rfl := Option.some.inj (hnode.symm.trans hnode')
      obtain rfl := Option.some.inj (hparent.symm.trans hparent')
      rw [ih hpath']

/-- The components of a name in normal form are its parts. -/
theorem NormalName.components_eq (h : NormalName name names) :
    unixPaths.components name = names.map .normal := by
  have hsplit : name.toList.splitOnP unixPaths.isSeparator = names.map String.toList := by
    have hparts := splitStr_joinSlash h.ne_nil fun c hc => (h.plain c hc).2.2.2
    rw [← h.joined] at hparts
    have hlists := congrArg (List.map String.toList) hparts
    unfold splitStr at hlists
    rw [List.map_map] at hlists
    change name.toList.splitOnP (· == '/') = names.map String.toList
    simpa [Function.comp_def] using hlists
  have hpiece (c : String) (hc : c ∈ names) :
      PathComponent.ofPiece c.toList = some (.normal c) := by
    obtain ⟨hempty, hdot, hparent, -⟩ := h.plain c hc
    unfold PathComponent.ofPiece
    rw [if_neg, if_neg, String.ofList_toList]
    · exact fun heq => hparent (String.toList_inj.mp heq)
    · rintro (heq | heq)
      · exact hempty (String.toList_inj.mp heq)
      · exact hdot (String.toList_inj.mp heq)
  have hpieces : unixPaths.pieces name.toList = names.map .normal := by
    unfold PathConvention.pieces
    rw [hsplit, List.filterMap_map]
    rw [← List.filterMap_eq_map]
    exact List.filterMap_congr hpiece
  obtain ⟨first, rest, rfl⟩ := List.exists_cons_of_ne_nil h.ne_nil
  have hfirst := h.plain first List.mem_cons_self
  have hroot : unixPaths.hasRoot name.toList = false := by
    cases hlist : name.toList with
    | nil => rfl
    | cons c cs =>
      rw [hlist, List.splitOnP_cons_eq_if_modifyHead] at hsplit
      by_cases hc : unixPaths.isSeparator c = true
      · rw [if_pos hc] at hsplit
        exact absurd (String.toList_inj.mp (List.cons.inj hsplit).1.symm) hfirst.1
      · exact Bool.eq_false_iff.mpr hc
  have hdrive : unixPaths.splitDrive name.toList = (none, name.toList) := by
    unfold PathConvention.splitDrive
    split
    · next letter rest hlist =>
      have hnone : ¬ (unixPaths.drives = true ∧ letter.isAlpha = true) := fun hboth =>
        Bool.false_ne_true hboth.1
      rw [if_neg hnone, hlist]
    · rfl
  have hdot : ¬ first.toList = ['.'] := fun heq => hfirst.2.1 (String.toList_inj.mp heq)
  unfold PathConvention.components
  rw [hdrive]
  simp only [hroot, hpieces, hsplit, List.map_cons, List.head?_cons, Option.some_inj]
  rw [if_neg Bool.false_ne_true, if_neg hdot]
  rfl

theorem normal_inj {others : List String}
    (h : names.map PathComponent.normal = others.map .normal) : names = others :=
  List.map_injective_iff.mpr (fun _ _ heq => PathComponent.normal.inj heq) h

/-- A path below a directory. -/
theorem parent_concat (dir : List String) (base : String) :
    parent ((dir ++ [base]).map .normal) = some (dir.map .normal) := by
  unfold parent
  simp

theorem fileName_concat (dir : List String) (base : String) :
    fileName ((dir ++ [base]).map .normal) = some base := by
  unfold fileName
  simp

theorem Inv.extends_addFile (h : Inv s) (hstep : s.addFile file = .ok s') :
    Extends s.treeList s'.treeList := by
  intro c node hnode
  obtain ⟨-, -, -, hold⟩ := h.node?_addFile hstep
  have hle := node?_eq_some hnode
  have hsame := hold c (by omega)
  rw [hnode, Option.map_some] at hsame
  refine ⟨_, hsame, ?_⟩
  split_ifs <;> exact ⟨rfl, rfl⟩

/-- The paths of the files so far, and of the directories that the map knows. -/
structure Mapped (done : List FileDescription) (s : TreeState) : Prop where
  path : ∀ (i : Nat) (file : FileDescription), done[i]? = some file →
    ∃ names, NormalName file.name names ∧ PathTo s.treeList (i + 2) names
  map : ∀ names, (names = [] ∨ ∃ dir ∈ done, dir.kind = .directory ∧
      unixPaths.components dir.name = names.map .normal) →
    ∃ p, s.subRootMap (names.map .normal) = some p ∧ PathTo s.treeList p names

theorem Mapped.start : Mapped [] .start where
  path i file hfile := by cases hfile
  map names hnames := by
    obtain rfl : names = [] := by simpa using hnames
    exact ⟨fuseRootId, rfl, .root⟩

/-- A file below a directory of the map is put there, under its whole path. -/
theorem Mapped.addFile (hinv : Inv s) (hlen : s.treeList.length = done.length + 1)
    (h : Mapped done s) (hname : NormalName file.name names)
    (hparent : parent (unixPaths.components file.name) = some [] ∨
      ∃ dir ∈ done, dir.kind = .directory ∧
        parent (unixPaths.components file.name) = some (unixPaths.components dir.name)) :
    ∃ s', s.addFile file = .ok s' ∧ Mapped (done ++ [file]) s' := by
  obtain ⟨dir, base, rfl⟩ : ∃ dir base, names = dir ++ [base] := by
    rcases List.eq_nil_or_concat names with hnil | ⟨dir, base, hlast⟩
    · exact absurd hnil hname.ne_nil
    · exact ⟨dir, base, by rw [hlast, List.concat_eq_append]⟩
  have hcomponents := hname.components_eq
  have hbase : fileName (unixPaths.components file.name) = some base := by
    rw [hcomponents, fileName_concat]
  have hdir : parent (unixPaths.components file.name) = some (dir.map .normal) := by
    rw [hcomponents, parent_concat]
  obtain ⟨p, hp, hpath⟩ := h.map dir (by
    rcases hparent with htop | ⟨entry, hentry, hkind, hsame⟩
    · rw [hdir, Option.some_inj] at htop
      exact .inl (List.map_eq_nil_iff.mp htop)
    · rw [hdir, Option.some_inj] at hsame
      exact .inr ⟨entry, hentry, hkind, hsame.symm⟩)
  obtain ⟨s', hstep⟩ : ∃ s', s.addFile file = .ok s' := by
    unfold TreeState.addFile
    simp only [hbase]
    exact ⟨_, rfl⟩
  have hext := hinv.extends_addFile hstep
  obtain ⟨_, hbase', hnew, -⟩ := hinv.node?_addFile hstep
  obtain ⟨_, -, -, hmap⟩ := addFile_ok hstep
  obtain rfl := Option.some.inj (hbase.symm.trans hbase')
  have hpath' : PathTo s'.treeList (s.treeList.length + 1) (dir ++ [base]) := by
    have hinode : s.parentInode (unixPaths.components file.name) = p := by
      unfold TreeState.parentInode
      rw [hdir]
      simp only [hp, Option.getD_some]
    exact .node hnew (congrArg some hinode) (hpath.extend hext)
  refine ⟨s', hstep, ?_, fun others hothers => ?_⟩
  · intro i f hf
    rw [List.getElem?_append] at hf
    split_ifs at hf with hlt
    · obtain ⟨ns, hns, hto⟩ := h.path i f hf
      exact ⟨ns, hns, hto.extend hext⟩
    · obtain ⟨hi, rfl⟩ : i = done.length ∧ file = f := by
        obtain ⟨hbound, hget⟩ := List.getElem?_eq_some_iff.mp hf
        have hzero : i - done.length = 0 := by simpa using hbound
        exact ⟨by omega, by simpa [hzero] using hget⟩
      refine ⟨_, hname, ?_⟩
      rwa [hi, show done.length + 2 = s.treeList.length + 1 by omega]
  · -- the new directory hides an older one of its path
    have hold (hothers : others = [] ∨ ∃ dir ∈ done, dir.kind = .directory ∧
        unixPaths.components dir.name = others.map .normal) :
        ∃ p, s.subRootMap (others.map .normal) = some p ∧ PathTo s'.treeList p others := by
      obtain ⟨p, hp, hto⟩ := h.map others hothers
      exact ⟨p, hp, hto.extend hext⟩
    rw [hmap]
    by_cases hself : file.kind = .directory ∧ others = dir ++ [base]
    · obtain ⟨hkind, rfl⟩ := hself
      rw [if_pos hkind, hcomponents]
      exact ⟨_, Function.update_self _ _ _, hpath'⟩
    · have hsame : (if file.kind = .directory then Function.update s.subRootMap
            (unixPaths.components file.name) (some (s.treeList.length + 1)) else s.subRootMap)
          (others.map .normal) = s.subRootMap (others.map .normal) := by
        split_ifs with hkind
        · refine Function.update_of_ne (fun heq => hself ⟨hkind, ?_⟩) _ _
          rw [hcomponents] at heq
          exact normal_inj heq
        · rfl
      rw [hsame]
      apply hold
      rcases hothers with hnil | ⟨entry, hentry, hkind, hcomps⟩
      · exact .inl hnil
      · rcases List.mem_append.mp hentry with hin | hlast
        · exact .inr ⟨entry, hin, hkind, hcomps⟩
        · obtain rfl := List.mem_singleton.mp hlast
          rw [hcomponents] at hcomps
          exact absurd ⟨hkind, (normal_inj hcomps).symm⟩ hself

theorem Mapped.of_files {files : List FileDescription}
    (hnames : ∀ file ∈ files, ∃ names, NormalName file.name names) (hparents : ParentsFirst files) :
    ∃ s, files.foldlM TreeState.addFile .start = .ok s ∧ Mapped files s := by
  induction files using List.reverseRecOn with
  | nil => exact ⟨_, rfl, Mapped.start⟩
  | append_singleton files file ih =>
    obtain ⟨s, hfiles, hmapped⟩ := ih (fun f hf => hnames f (List.mem_append_left _ hf))
      fun i f hf => by
        have hlt := (List.getElem?_eq_some_iff.mp hf).1
        rcases hparents i f (by rwa [List.getElem?_append_left hlt]) with
          htop | ⟨k, hk, dir, hdir, hrest⟩
        · exact .inl htop
        · rw [List.getElem?_append_left (by omega)] at hdir
          exact .inr ⟨k, hk, dir, hdir, hrest⟩
    obtain ⟨hinv, hlen⟩ := Inv.of_foldlM hfiles
    obtain ⟨names, hname⟩ := hnames file (by simp)
    obtain ⟨s', hstep, hmapped'⟩ := hmapped.addFile hinv hlen hname (by
      rcases hparents files.length file (by simp) with htop | ⟨k, hk, dir, hdir, hkind, hsame⟩
      · exact .inl htop
      · rw [List.getElem?_append_left hk] at hdir
        exact .inr ⟨dir, List.mem_of_getElem? hdir, hkind, hsame⟩)
    refine ⟨s', ?_, hmapped'⟩
    rw [foldlM_concat, hfiles]
    exact hstep

/-- Files with names in normal form, each at the top or in a directory listed before it, are
mounted under their names. -/
theorem buildTree_paths {files : List FileDescription}
    (hnames : ∀ file ∈ files, ∃ names, NormalName file.name names)
    (hparents : ParentsFirst files) :
    ∃ tree, buildTree files = .ok tree ∧ PathsKept files tree := by
  obtain ⟨s, hfiles, hmapped⟩ := Mapped.of_files hnames hparents
  obtain ⟨hinv, -⟩ := Inv.of_foldlM hfiles
  refine ⟨s.treeList, ?_, fun i file hfile => ?_⟩
  · unfold buildTree
    rw [hfiles]
    rfl
  · obtain ⟨names, hname, hpath⟩ := hmapped.path i file hfile
    refine ⟨names, fun others => ⟨fun hothers => hothers.unique hinv.root hpath, ?_⟩,
      hname.joined.symm⟩
    rintro rfl
    exact hpath

/-- A directory in another one, and files in both. -/
def sampleTree : List FileDescription :=
  [sampleFile "a" .directory, sampleFile "a/f" .file, sampleFile "a/b" .directory,
    sampleFile "a/b/f" .file]

theorem buildTree_paths_sample :
    ∃ tree, buildTree sampleTree = .ok tree ∧ PathsKept sampleTree tree := by
  refine buildTree_paths (fun file hfile => ?_) fun i file hfile => ?_
  · simp only [sampleTree, List.mem_cons, List.not_mem_nil, or_false] at hfile
    rcases hfile with rfl | rfl | rfl | rfl
    · exact ⟨["a"], by decide, by decide, by decide +kernel⟩
    · exact ⟨["a", "f"], by decide, by decide, by decide +kernel⟩
    · exact ⟨["a", "b"], by decide, by decide, by decide +kernel⟩
    · exact ⟨["a", "b", "f"], by decide, by decide, by decide +kernel⟩
  · match i with
    | 0 =>
      cases hfile
      exact .inl (by decide +kernel)
    | 1 =>
      cases hfile
      exact .inr ⟨0, by decide, sampleFile "a" .directory, rfl, rfl, by decide +kernel⟩
    | 2 =>
      cases hfile
      exact .inr ⟨0, by decide, sampleFile "a" .directory, rfl, rfl, by decide +kernel⟩
    | 3 =>
      cases hfile
      exact .inr ⟨2, by decide, sampleFile "a/b" .directory, rfl, rfl, by decide +kernel⟩
    | i + 4 => cases hfile

/-- The parent folder is no name to mount a file under. -/
theorem buildTree_refuses_parent : ¬ ∀ files : List FileDescription,
    (files.map FileDescription.name).Nodup → ParentsFirst files →
    ∃ tree, buildTree files = .ok tree ∧ PathsKept files tree := by
  intro h
  obtain ⟨tree, htree, -⟩ := h [sampleFile ".." .file] (by simp) (by
    intro i file hfile
    obtain ⟨rfl, rfl⟩ : i = 0 ∧ sampleFile ".." .file = file := by
      cases i with
      | zero => exact ⟨rfl, Option.some.inj hfile⟩
      | succ i => cases hfile
    exact .inl (by decide +kernel))
  have herror : (buildTree [sampleFile ".." .file]).isOk = false := by decide +kernel
  rw [htree] at herror
  cases herror

end MDesk.Clipboard.FuseTree
