import MDesk.Clipboard.FileList
import MDesk.Core.LexicalPath
import Mathlib.Logic.Function.Basic
import Mathlib.Logic.Relation

/-!
# The tree of the mounted clipboard

The files that a peer offers are mounted as a tree. It is built in one pass over the list, in
which a map from the paths of the directories seen so far finds the parent of a file; a file
whose parent was not seen goes below the root. Inodes are positions: the root is inode 1 and
the file at position `i` of the list is inode `i + 2`.
-/

namespace MDesk.Clipboard.FuseTree

open Core

/-- `FUSE_ROOT_ID`. -/
def fuseRootId : Nat := 1

/-! ## Paths -/

/-- How a Unix system reads paths. -/
def unixPaths : PathConvention where
  isSeparator c := c == '/'
  mainSeparator := '/'
  drives := false
  isSeparator_main := rfl
  isSeparator_colon := rfl
  isSeparator_alpha c hc := by
    obtain rfl := beq_iff_eq.mp hc
    decide

/-- `Path::parent` of a path by its components. -/
def parent (path : List PathComponent) : Option (List PathComponent) :=
  match path.getLast? with
  | some (.normal _) | some .curDir | some .parentDir => some path.dropLast
  | _ => none

/-- `Path::file_name` of a path by its components. -/
def fileName (path : List PathComponent) : Option String :=
  match path.getLast? with
  | some (.normal name) => some name
  | _ => none

/-! ## The tree -/

/-- `InodeAttributes`, without the times. -/
structure InodeAttributes where
  inode : Nat
  size : Nat
  kind : FileType
  perm : Nat
  deriving DecidableEq, Repr

/-- `FuseNode`, as far as the tree goes. -/
structure FuseNode where
  connId : Int
  index : Nat
  parent : Option Nat
  name : String
  attributes : InodeAttributes
  children : List Nat
  deriving DecidableEq, Repr

namespace FuseNode

def fromDescription (inode : Nat) (desc : FileDescription) : FuseNode where
  connId := desc.connId
  index := inode - 2
  name := desc.name
  parent := none
  attributes := { inode, size := desc.size, kind := desc.kind, perm := desc.perm }
  children := []

def newRoot : FuseNode where
  connId := 0
  index := 0
  name := "/"
  parent := none
  attributes := { inode := fuseRootId, size := 0, kind := .directory, perm := permRwx }
  children := []

def addChild (node : FuseNode) (inode : Nat) : FuseNode :=
  { node with children := node.children ++ [inode] }

end FuseNode

/-- `CliprdrError::FileError`. -/
structure FileError where
  path : String
  err : String
  deriving DecidableEq, Repr

/-- The tree so far and the inodes of the directories in it. Paths are equal if their components
are. -/
structure TreeState where
  treeList : List FuseNode
  subRootMap : List PathComponent → Option Nat

/-- The tree of no files. -/
def TreeState.start : TreeState where
  treeList := [.newRoot]
  subRootMap path :=
    if path = unixPaths.components "/" ∨ path = unixPaths.components "" then some fuseRootId
    else none

namespace TreeState

variable (s : TreeState) (file : FileDescription)

/-- The inode that a path goes below. -/
def parentInode (name : List PathComponent) : Nat :=
  match FuseTree.parent name with
  | some parent => (s.subRootMap parent).getD fuseRootId
  | none => fuseRootId

/-- The node of a file under its base name. -/
def fuseNode (inode : Nat) (baseName : String) : FuseNode :=
  { FuseNode.fromDescription inode { file with name := baseName } with
    parent := some (s.parentInode (unixPaths.components file.name)) }

/-- The loop of `build_tree`. -/
def addFile : Except FileError TreeState :=
  let name := unixPaths.components file.name
  let inode := s.treeList.length + fuseRootId
  let treeList := s.treeList.modify (s.parentInode name - 1) (·.addChild inode)
  match fileName name with
  | none => .error { path := file.name, err := "invalid file name " ++ file.name }
  | some baseName => .ok {
      treeList := treeList ++ [s.fuseNode file inode baseName]
      subRootMap := if file.kind = .directory then Function.update s.subRootMap name (some inode)
        else s.subRootMap }

end TreeState

/-- `build_tree`. -/
def buildTree (files : List FileDescription) : Except FileError (List FuseNode) :=
  (files.foldlM TreeState.addFile .start).map TreeState.treeList

/-- The node of an inode. -/
def node? (tree : List FuseNode) : Nat → Option FuseNode
  | 0 => none
  | i + 1 => tree[i]?

/-- The parent that the node of an inode names. -/
def parentOf (tree : List FuseNode) (c : Nat) : Option Nat := (node? tree c).bind (·.parent)

/-- An inode is listed as the child of another one. -/
def Child (tree : List FuseNode) (p c : Nat) : Prop :=
  ∃ node, node? tree p = some node ∧ c ∈ node.children

/-- A tree of so many files. Every inode but the root is listed exactly once, by the node that it
names as its parent, and the way down from the root leads to it. -/
structure WellFormed (files : Nat) (tree : List FuseNode) : Prop where
  length : tree.length = files + 1
  index : ∀ i node, tree[i + 1]? = some node → node.index = i
  parent : ∀ c node, c ≠ fuseRootId → node? tree c = some node → ∃ p parent,
    node.parent = some p ∧ p < c ∧ node? tree p = some parent ∧
      ∀ q other, node? tree q = some other → other.children.count c = if q = p then 1 else 0
  reachable : ∀ c node, node? tree c = some node →
    Relation.ReflTransGen (Child tree) fuseRootId c

/-- What holds of the tree so far. -/
structure Inv (s : TreeState) : Prop where
  root : parentOf s.treeList fuseRootId = none
  pos : 0 < s.treeList.length
  map : ∀ path p, s.subRootMap path = some p → 1 ≤ p ∧ p ≤ s.treeList.length
  index : ∀ i node, s.treeList[i + 1]? = some node → node.index = i
  parent : ∀ i node, s.treeList[i + 1]? = some node →
    ∃ p, node.parent = some p ∧ 1 ≤ p ∧ p ≤ i + 1
  children : ∀ p node c, node? s.treeList p = some node →
    node.children.count c = if parentOf s.treeList c = some p then 1 else 0

variable {s s' : TreeState} {file : FileDescription} {tree : List FuseNode} {node : FuseNode}
  {c p : Nat}

theorem node?_eq_some (h : node? tree c = some node) : 1 ≤ c ∧ c ≤ tree.length := by
  cases c with
  | zero => cases h
  | succ i =>
    have hlt := (List.getElem?_eq_some_iff.mp h).1
    omega

theorem node?_of_le (h : 1 ≤ c) (hle : c ≤ tree.length) : ∃ node, node? tree c = some node := by
  cases c with
  | zero => omega
  | succ i => exact ⟨_, List.getElem?_eq_getElem (by omega)⟩

/-- The parent of a path is a node of the tree. -/
theorem Inv.parentInode (h : Inv s) (name : List PathComponent) :
    1 ≤ s.parentInode name ∧ s.parentInode name ≤ s.treeList.length := by
  have hroot : 1 ≤ fuseRootId ∧ fuseRootId ≤ s.treeList.length := ⟨le_rfl, h.pos⟩
  unfold TreeState.parentInode
  split
  · next path _ =>
    cases hmap : s.subRootMap path with
    | none => exact hroot
    | some p => exact h.map path p hmap
  · exact hroot

/-- What a step makes of the state: a new last node, listed by its parent. -/
theorem addFile_ok (h : s.addFile file = .ok s') : ∃ baseName,
    fileName (unixPaths.components file.name) = some baseName ∧
    s'.treeList = s.treeList.modify (s.parentInode (unixPaths.components file.name) - 1)
      (·.addChild (s.treeList.length + 1)) ++
        [s.fuseNode file (s.treeList.length + 1) baseName] ∧
    s'.subRootMap = if file.kind = .directory then
      Function.update s.subRootMap (unixPaths.components file.name) (some (s.treeList.length + 1))
      else s.subRootMap := by
  unfold TreeState.addFile at h
  dsimp only at h
  split at h
  · cases h
  · next baseName hbase =>
    cases h
    exact ⟨baseName, hbase, rfl, rfl⟩

/-- The nodes behind a step: the new one, and the old ones with one more child of the parent. -/
theorem node?_append (hp : 1 ≤ p) (new : FuseNode) (tree : List FuseNode) (inode c : Nat) :
    node? (tree.modify (p - 1) (·.addChild inode) ++ [new]) c =
      if c = tree.length + 1 then some new
      else (node? tree c).map fun node => if c = p then node.addChild inode else node := by
  cases c with
  | zero => rfl
  | succ i =>
    simp only [node?]
    rw [List.getElem?_append, List.length_modify]
    rcases Nat.lt_trichotomy i tree.length with hlt | rfl | hgt
    · have hsame : p - 1 = i ↔ i + 1 = p := by omega
      rw [if_pos hlt, if_neg (by omega), List.getElem?_modify]
      simp only [hsame]
      cases tree[i]? with
      | none => split_ifs <;> rfl
      | some node => split_ifs <;> rfl
    · rw [if_neg (Nat.lt_irrefl _), if_pos rfl, Nat.sub_self]
      rfl
    · rw [if_neg (by omega), if_neg (by omega), List.getElem?_eq_none hgt.le,
        List.getElem?_eq_none (by simp; omega)]
      rfl

/-- A step keeps the nodes, but for one more child of the parent. -/
theorem Inv.node?_addFile (h : Inv s) (hstep : s.addFile file = .ok s') : ∃ baseName,
    fileName (unixPaths.components file.name) = some baseName ∧
    node? s'.treeList (s.treeList.length + 1) =
      some (s.fuseNode file (s.treeList.length + 1) baseName) ∧
    ∀ c, c ≠ s.treeList.length + 1 → node? s'.treeList c = (node? s.treeList c).map fun node =>
      if c = s.parentInode (unixPaths.components file.name) then
        node.addChild (s.treeList.length + 1)
      else node := by
  obtain ⟨baseName, hbase, htree, -⟩ := addFile_ok hstep
  have hnodes := node?_append (h.parentInode (unixPaths.components file.name)).1
  refine ⟨baseName, hbase, ?_, fun c hne => ?_⟩
  · rw [htree, hnodes, if_pos rfl]
  · rw [htree, hnodes, if_neg hne]

/-- A node behind a step is the new one, or it was there before. -/
theorem Inv.node_cases (h : Inv s) (hstep : s.addFile file = .ok s')
    (hnode : node? s'.treeList c = some node) :
    (c = s.treeList.length + 1 ∧ ∃ baseName,
      node = s.fuseNode file (s.treeList.length + 1) baseName) ∨
    (c ≠ s.treeList.length + 1 ∧ ∃ old, node? s.treeList c = some old ∧
      node = if c = s.parentInode (unixPaths.components file.name) then
        old.addChild (s.treeList.length + 1) else old) := by
  obtain ⟨baseName, -, hnew, hold⟩ := h.node?_addFile hstep
  by_cases hc : c = s.treeList.length + 1
  · subst hc
    rw [hnew] at hnode
    exact .inl ⟨rfl, baseName, (Option.some.inj hnode).symm⟩
  · rw [hold c hc] at hnode
    obtain ⟨old, hsome, rfl⟩ := Option.map_eq_some_iff.mp hnode
    exact .inr ⟨hc, old, hsome, rfl⟩

/-- The parents behind a step. -/
theorem Inv.parentOf_addFile (h : Inv s) (hstep : s.addFile file = .ok s') (c : Nat) :
    parentOf s'.treeList c =
      if c = s.treeList.length + 1 then some (s.parentInode (unixPaths.components file.name))
      else parentOf s.treeList c := by
  obtain ⟨baseName, -, hnew, hold⟩ := h.node?_addFile hstep
  unfold parentOf
  by_cases hc : c = s.treeList.length + 1
  · rw [if_pos hc, hc, hnew]
    rfl
  · rw [if_neg hc, hold c hc]
    cases node? s.treeList c with
    | none => rfl
    | some node =>
      simp only [Option.map_some, Option.bind_some]
      split_ifs <;> rfl

theorem length_addFile (hstep : s.addFile file = .ok s') :
    s'.treeList.length = s.treeList.length + 1 := by
  obtain ⟨_, -, htree, -⟩ := addFile_ok hstep
  rw [htree, List.length_append, List.length_modify]
  rfl

/-- The node of an inode behind the last one is missing, and names no parent. -/
theorem parentOf_of_lt (h : tree.length < c) : parentOf tree c = none := by
  cases c with
  | zero => rfl
  | succ i =>
    unfold parentOf
    simp only [node?]
    rw [List.getElem?_eq_none (by omega)]
    rfl

theorem Inv.start : Inv .start where
  root := rfl
  pos := Nat.one_pos
  map path p hp := by
    unfold TreeState.start at hp ⊢
    dsimp only at hp
    split_ifs at hp
    cases hp
    exact ⟨le_rfl, le_rfl⟩
  index i node hnode := by cases hnode
  parent i node hnode := by cases hnode
  children p node c hnode := by
    have hle := node?_eq_some hnode
    obtain rfl : p = 1 := Nat.le_antisymm hle.2 hle.1
    cases hnode
    have hnone : parentOf TreeState.start.treeList c = none := by
      match c with
      | 0 => rfl
      | 1 => rfl
      | c + 2 => rfl
    rw [hnone]
    rfl

/-- The map of the directories behind a step. -/
theorem map_addFile (hstep : s.addFile file = .ok s') (h : Inv s) :
    ∀ path p, s'.subRootMap path = some p → 1 ≤ p ∧ p ≤ s'.treeList.length := by
  intro path p hp
  obtain ⟨_, -, -, hmap⟩ := addFile_ok hstep
  rw [length_addFile hstep]
  have hold (hp : s.subRootMap path = some p) : 1 ≤ p ∧ p ≤ s.treeList.length + 1 :=
    ⟨(h.map path p hp).1, Nat.le_succ_of_le (h.map path p hp).2⟩
  rw [hmap] at hp
  split_ifs at hp
  · by_cases hsame : path = unixPaths.components file.name
    · rw [hsame, Function.update_self] at hp
      cases hp
      exact ⟨Nat.succ_pos _, le_rfl⟩
    · rw [Function.update_of_ne hsame] at hp
      exact hold hp
  · exact hold hp

/-- The new node is counted where it names its parent, and no other count changes. -/
theorem children_addFile (hstep : s.addFile file = .ok s') (h : Inv s) :
    ∀ p node c, node? s'.treeList p = some node →
      node.children.count c = if parentOf s'.treeList c = some p then 1 else 0 := by
  intro p node c hnode
  have hparent := h.parentInode (unixPaths.components file.name)
  have hnone : parentOf s.treeList (s.treeList.length + 1) = none :=
    parentOf_of_lt (Nat.lt_succ_self _)
  rw [h.parentOf_addFile hstep]
  rcases h.node_cases hstep hnode with ⟨rfl, baseName, rfl⟩ | ⟨hne, old, hold, rfl⟩
  · -- nothing is below the new node
    have hleaf : (s.fuseNode file (s.treeList.length + 1) baseName).children = [] := rfl
    rw [hleaf, List.count_nil, if_neg]
    split_ifs with hc
    · intro heq
      have hlast := Option.some.inj heq
      omega
    · intro heq
      cases c with
      | zero => cases heq
      | succ i =>
        obtain ⟨n, hn, hnp⟩ := Option.bind_eq_some_iff.mp heq
        cases i with
        | zero => exact absurd (h.root.symm.trans heq) nofun
        | succ i =>
          obtain ⟨q, hq, -, hle⟩ := h.parent i n hn
          have hlt := (node?_eq_some hn).2
          rw [hnp] at hq
          have hlast := Option.some.inj hq
          omega
  · have hcount := h.children p old c hold
    by_cases hc : c = s.treeList.length + 1
    · subst hc
      rw [hnone, if_neg nofun] at hcount
      rw [if_pos rfl]
      by_cases hp : p = s.parentInode (unixPaths.components file.name)
      · rw [if_pos hp, if_pos (congrArg some hp.symm), FuseNode.addChild, List.count_append, hcount]
        simp
      · rw [if_neg hp, if_neg fun heq => hp (Option.some.inj heq).symm, hcount]
    · rw [if_neg hc, ← hcount]
      split_ifs
      · rw [FuseNode.addChild, List.count_append, List.count_singleton,
          if_neg (by simpa using Ne.symm hc), Nat.add_zero]
      · rfl

theorem Inv.addFile (h : Inv s) (hstep : s.addFile file = .ok s') : Inv s' where
  root := by
    have hpos := h.pos
    rw [h.parentOf_addFile hstep, if_neg (by unfold fuseRootId; omega)]
    exact h.root
  pos := by
    rw [length_addFile hstep]
    exact Nat.succ_pos _
  map := map_addFile hstep h
  index i node hnode := by
    have hpos := h.pos
    rcases h.node_cases hstep (c := i + 2) hnode with ⟨hlast, baseName, rfl⟩ | ⟨-, old, hold, rfl⟩
    · change s.treeList.length + 1 - 2 = i
      omega
    · have hindex := h.index i old hold
      split_ifs <;> exact hindex
  parent i node hnode := by
    rcases h.node_cases hstep (c := i + 2) hnode with ⟨hlast, baseName, rfl⟩ | ⟨-, old, hold, rfl⟩
    · have hparent := h.parentInode (unixPaths.components file.name)
      exact ⟨_, rfl, hparent.1, by omega⟩
    · have hparent := h.parent i old hold
      split_ifs <;> exact hparent
  children := children_addFile hstep h

/-- The loop goes through the files in order. -/
theorem foldlM_concat {files : List FileDescription} :
    (files ++ [file]).foldlM TreeState.addFile .start =
      (files.foldlM TreeState.addFile .start).bind fun s => s.addFile file := by
  rw [List.foldlM_append]
  refine congrArg _ (funext fun s => ?_)
  cases hstep : s.addFile file with
  | error e => simp [List.foldlM_cons, hstep, bind, Except.bind]
  | ok s' => simp [List.foldlM_cons, hstep, bind, Except.bind, pure, Except.pure]

theorem Inv.of_foldlM {files : List FileDescription}
    (h : files.foldlM TreeState.addFile .start = .ok s) :
    Inv s ∧ s.treeList.length = files.length + 1 := by
  induction files using List.reverseRecOn generalizing s with
  | nil =>
    cases h
    exact ⟨Inv.start, rfl⟩
  | append_singleton files file ih =>
    rw [foldlM_concat] at h
    cases hfiles : files.foldlM TreeState.addFile .start with
    | error e =>
      rw [hfiles] at h
      cases h
    | ok mid =>
      rw [hfiles] at h
      obtain ⟨hinv, hlen⟩ := ih hfiles
      refine ⟨hinv.addFile h, ?_⟩
      rw [length_addFile h, hlen, List.length_append]
      rfl

/-- The parent of a node is a node with a smaller inode, which lists it once and is the only one
that lists it. -/
theorem Inv.parent_node (h : Inv s) {i : Nat} (hnode : node? s.treeList (i + 2) = some node) :
    ∃ p parent, node.parent = some p ∧ p < i + 2 ∧ node? s.treeList p = some parent ∧
      ∀ q other, node? s.treeList q = some other →
        other.children.count (i + 2) = if q = p then 1 else 0 := by
  obtain ⟨p, hp, hpos, hle⟩ := h.parent i node hnode
  have hlast := (node?_eq_some hnode).2
  obtain ⟨parent, hparent⟩ := node?_of_le hpos (show p ≤ s.treeList.length by omega)
  have hof : parentOf s.treeList (i + 2) = some p := by
    unfold parentOf
    rw [hnode]
    exact hp
  refine ⟨p, parent, hp, by omega, hparent, fun q other hother => ?_⟩
  rw [h.children q other (i + 2) hother, hof]
  simp only [Option.some_inj, eq_comm]

/-- The way down to a node goes by its parent. -/
theorem Inv.reachable (h : Inv s) (c : Nat) (node : FuseNode)
    (hnode : node? s.treeList c = some node) :
    Relation.ReflTransGen (Child s.treeList) fuseRootId c := by
  induction c using Nat.strong_induction_on generalizing node with
  | _ c ih =>
    match c with
    | 0 => cases hnode
    | 1 => exact .refl
    | i + 2 =>
      obtain ⟨p, parent, -, hlt, hparent, hlisted⟩ := h.parent_node hnode
      have hcount := hlisted p parent hparent
      rw [if_pos rfl] at hcount
      exact .tail (ih p hlt parent hparent) ⟨parent, hparent, List.count_pos_iff.mp (by omega)⟩

/-- Whatever names a peer sends, the tree that is built of them is well formed. -/
theorem buildTree_wellFormed {files : List FileDescription} (h : buildTree files = .ok tree) :
    WellFormed files.length tree := by
  unfold buildTree at h
  cases hfiles : files.foldlM TreeState.addFile .start with
  | error e =>
    rw [hfiles] at h
    cases h
  | ok s =>
    rw [hfiles] at h
    cases h
    obtain ⟨hinv, hlen⟩ := Inv.of_foldlM hfiles
    refine ⟨hlen, hinv.index, fun c node hroot hnode => ?_, hinv.reachable⟩
    match c with
    | 0 => cases hnode
    | 1 => exact absurd rfl hroot
    | i + 2 => exact hinv.parent_node hnode

/-- A file of a name and a kind. -/
def sampleFile (name : String) (kind : FileType) : FileDescription where
  connId := 0
  name
  kind
  atime := 0
  lastModified := 0
  lastMetadataChanged := 0
  creationTime := 0
  size := 0
  perm := 0

/-- An orphan, a folder listed twice, and a file used as a folder. -/
theorem buildTree_wellFormed_sample : ∃ tree, WellFormed 6 tree := by
  have hok : (buildTree [sampleFile "x/y" .file, sampleFile "d" .directory,
      sampleFile "d/f" .file, sampleFile "d" .directory, sampleFile "d//f" .file,
      sampleFile "d/f/g" .file]).isOk := by decide +kernel
  cases htree : buildTree [sampleFile "x/y" .file, sampleFile "d" .directory,
      sampleFile "d/f" .file, sampleFile "d" .directory, sampleFile "d//f" .file,
      sampleFile "d/f/g" .file] with
  | error e =>
    rw [htree] at hok
    cases hok
  | ok tree => exact ⟨tree, buildTree_wellFormed htree⟩

end MDesk.Clipboard.FuseTree
