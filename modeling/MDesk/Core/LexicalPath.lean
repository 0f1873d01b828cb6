import Mathlib.Data.List.Basic
import Mathlib.Logic.Basic

/-!
# Paths as strings

The components of a path string, the push of one path onto another and the lexical normal form,
under the separators of a platform. A path may begin with a drive where there are drives, and is
rooted if a separator comes first behind it.
-/

namespace MDesk.Core

/-- How a platform reads path strings. -/
structure PathConvention where
  isSeparator : Char → Bool
  mainSeparator : Char
  /-- A letter and a colon in front are a drive. -/
  drives : Bool
  isSeparator_main : isSeparator mainSeparator = true
  isSeparator_colon : isSeparator ':' = false
  isSeparator_alpha : ∀ c, isSeparator c = true → c.isAlpha = false

/-- A component of a path. -/
inductive PathComponent where
  | drive (letter : Char)
  | rootDir
  | curDir
  | parentDir
  | normal (name : String)
  deriving DecidableEq, Repr

/-- What stands between two separators. A dot stands for nothing. -/
def PathComponent.ofPiece (piece : List Char) : Option PathComponent :=
  if piece = [] ∨ piece = ['.'] then none
  else if piece = ['.', '.'] then some .parentDir
  else some (.normal (String.ofList piece))

/-- The lexical normal form of a path. -/
structure NormalPath where
  drive : Option Char := none
  rooted : Bool := false
  names : List String := []
  deriving DecidableEq, Repr

namespace NormalPath

/-- The path behind one more component. The parent of the root is the root. -/
def step (p : NormalPath) : PathComponent → NormalPath
  | .drive letter => { drive := some letter }
  | .rootDir => { p with rooted := true, names := [] }
  | .curDir => p
  | .parentDir =>
    if p.names.getLast?.any (· ≠ "..") then { p with names := p.names.dropLast }
    else if p.rooted then p
    else { p with names := p.names ++ [".."] }
  | .normal name => { p with names := p.names ++ [name] }

/-- The path is `base` or lies below it. -/
def Below (base p : NormalPath) : Prop :=
  p.drive = base.drive ∧ p.rooted = base.rooted ∧ base.names <+: p.names

instance (base p : NormalPath) : Decidable (Below base p) :=
  inferInstanceAs (Decidable (_ ∧ _))

/-- Names that no dots stand for are put behind. -/
theorem foldl_step_normal (p : NormalPath) (names : List String) :
    (names.map PathComponent.normal).foldl step p = { p with names := p.names ++ names } := by
  induction names generalizing p with
  | nil => simp
  | cons name names ih =>
    rw [List.map_cons, List.foldl_cons, ih]
    simp [step]

end NormalPath

namespace PathConvention

variable (C : PathConvention)

/-- The drive in front of a path, and the rest. -/
def splitDrive : List Char → Option Char × List Char
  | letter :: ':' :: rest =>
    if C.drives ∧ letter.isAlpha then (some letter, rest) else (none, letter :: ':' :: rest)
  | path => (none, path)

/-- A separator comes first. -/
def hasRoot (rest : List Char) : Bool := rest.head?.any C.isSeparator

/-- The components behind the root. -/
def pieces (rest : List Char) : List PathComponent :=
  (rest.splitOnP C.isSeparator).filterMap PathComponent.ofPiece

/-- `Path::components`. A dot counts in front of a relative path only. -/
def components (path : String) : List PathComponent :=
  let (drive, rest) := C.splitDrive path.toList
  drive.toList.map .drive ++
    (if C.hasRoot rest then [.rootDir]
    else if (rest.splitOnP C.isSeparator).head? = some ['.'] then [.curDir]
    else []) ++ C.pieces rest

/-- `Path::is_absolute`. -/
def isAbsolute (path : String) : Bool :=
  let (drive, rest) := C.splitDrive path.toList
  C.hasRoot rest && (!C.drives || drive.isSome)

/-- `PathBuf::push`. Behind a drive alone there is no separator; an absolute path and one with a
drive replace the path, and a rooted one what comes behind its drive. -/
def push (path name : String) : String :=
  let (drive, rest) := C.splitDrive path.toList
  let (nameDrive, nameRest) := C.splitDrive name.toList
  if C.isAbsolute name ∨ nameDrive.isSome then name
  else if C.hasRoot nameRest then
    String.ofList (drive.toList.flatMap fun letter => [letter, ':']) ++ name
  else if path.toList.getLast?.any (!C.isSeparator ·) ∧ ¬ (drive.isSome ∧ rest = []) then
    path ++ String.singleton C.mainSeparator ++ name
  else path ++ name

/-- The lexical normal form of a path. -/
def normalize (path : String) : NormalPath := (C.components path).foldl NormalPath.step {}

/-- The path is relative and has no parent component. -/
structure Descends (name : String) : Prop where
  drive : C.splitDrive name.toList = (none, name.toList)
  root : C.hasRoot name.toList = false
  parent : ['.', '.'] ∉ name.toList.splitOnP C.isSeparator

/-- The names of a path, without the dots. -/
def names (path : String) : List String :=
  ((path.toList.splitOnP C.isSeparator).filter fun piece => piece ≠ [] ∧ piece ≠ ['.']).map
    String.ofList

variable {C} {path name : String} {cs : List Char}

/-- The normal form goes by the pieces behind the root. -/
theorem normalize_eq (C : PathConvention) (path : String) : C.normalize path =
    (C.pieces (C.splitDrive path.toList).2).foldl NormalPath.step
      { drive := (C.splitDrive path.toList).1
        rooted := C.hasRoot (C.splitDrive path.toList).2 } := by
  unfold normalize components
  obtain ⟨drive, rest⟩ := C.splitDrive path.toList
  dsimp only
  rw [List.foldl_append, List.foldl_append]
  congr 1
  have hdrive : (drive.toList.map PathComponent.drive).foldl NormalPath.step {} =
      ({ drive } : NormalPath) := by
    cases drive <;> rfl
  rw [hdrive]
  cases C.hasRoot rest with
  | true => rfl
  | false =>
    rw [if_neg (by simp)]
    split_ifs <;> rfl

/-- The pieces in front of a separator and behind it. -/
theorem pieces_append {sep : Char} (hsep : C.isSeparator sep = true) (front back : List Char) :
    C.pieces (front ++ sep :: back) = C.pieces front ++ C.pieces back := by
  unfold pieces
  rw [List.splitOnP_append_cons front back hsep, List.filterMap_append]

theorem pieces_separator {sep : Char} (hsep : C.isSeparator sep = true) (front : List Char) :
    C.pieces (front ++ [sep]) = C.pieces front := by
  rw [pieces_append hsep]
  exact List.append_nil _

/-- A path that descends is made of its names. -/
theorem Descends.pieces_eq (h : C.Descends name) :
    C.pieces name.toList = (C.names name).map PathComponent.normal := by
  unfold pieces names
  have hparent := h.parent
  generalize name.toList.splitOnP C.isSeparator = split at hparent
  induction split with
  | nil => rfl
  | cons piece split ih =>
    rw [List.mem_cons, not_or] at hparent
    rw [List.filterMap_cons, List.filter_cons, ih hparent.2, PathComponent.ofPiece]
    by_cases hnone : piece = [] ∨ piece = ['.']
    · rw [if_pos hnone, if_neg]
      rcases hnone with rfl | rfl <;> simp
    · rw [if_neg hnone, if_neg (Ne.symm hparent.1), if_pos (by simpa [not_or] using hnone)]
      rfl

/-- A drive in front stays the same when a separator and more are put behind. -/
theorem splitDrive_append {sep : Char} (hsep : C.isSeparator sep = true) (cs back : List Char) :
    C.splitDrive (cs ++ sep :: back) =
      ((C.splitDrive cs).1, (C.splitDrive cs).2 ++ sep :: back) := by
  have hcolon : sep ≠ ':' := by
    rintro rfl
    rw [C.isSeparator_colon] at hsep
    cases hsep
  have halpha := C.isSeparator_alpha sep hsep
  match cs with
  | [] =>
    cases back with
    | nil => rfl
    | cons second back =>
      by_cases hsecond : second = ':'
      · subst hsecond
        simp [splitDrive, halpha]
      · simp [splitDrive, hsecond]
  | [letter] => simp [splitDrive, hcolon]
  | letter :: second :: rest =>
    by_cases hsecond : second = ':'
    · subst hsecond
      simp only [List.cons_append, splitDrive]
      split_ifs <;> rfl
    · simp [splitDrive, hsecond]

/-- Nothing behind a drive, or no drive. -/
theorem splitDrive_cases (C : PathConvention) (cs : List Char) :
    (∃ letter, C.splitDrive cs = (some letter, cs.drop 2) ∧ cs = letter :: ':' :: cs.drop 2 ∧
        ∀ back, C.splitDrive (letter :: ':' :: back) = (some letter, back)) ∨
      C.splitDrive cs = (none, cs) := by
  unfold splitDrive
  split
  · rename_i letter rest
    split_ifs with hdrive
    · exact .inl ⟨letter, rfl, rfl, fun back => if_pos hdrive⟩
    · exact .inr rfl
  · exact .inr rfl

theorem hasRoot_append {front : List Char} (h : front ≠ []) (back : List Char) :
    C.hasRoot (front ++ back) = C.hasRoot front := by
  obtain ⟨c, front, rfl⟩ := List.exists_cons_of_ne_nil h
  rfl

/-- The string that a push makes of a path and a name that descends: they are joined by a
separator, unless the path is empty, ends in one or is a drive. -/
theorem push_toList (path : String) (h : C.Descends name) :
    (path.toList = [] ∧ (C.push path name).toList = name.toList) ∨
      (∃ letter, C.splitDrive path.toList = (some letter, []) ∧
        (C.push path name).toList = letter :: ':' :: name.toList ∧
        C.splitDrive (letter :: ':' :: name.toList) = (some letter, name.toList)) ∨
      (∃ front sep, C.isSeparator sep = true ∧ path.toList = front ++ [sep] ∧
        (C.push path name).toList = front ++ sep :: name.toList) ∨
      ((C.splitDrive path.toList).2 ≠ [] ∧
        (C.push path name).toList = path.toList ++ C.mainSeparator :: name.toList) := by
  have habsolute : C.isAbsolute name = false := by
    rw [isAbsolute, h.drive]
    simp [h.root]
  have hpush : C.push path name =
      if path.toList.getLast?.any (!C.isSeparator ·) ∧
          ¬ ((C.splitDrive path.toList).1.isSome ∧ (C.splitDrive path.toList).2 = []) then
        path ++ String.singleton C.mainSeparator ++ name
      else path ++ name := by
    unfold push
    rw [h.drive]
    simp [habsolute, h.root]
  rw [hpush]
  rcases List.eq_nil_or_concat path.toList with hnil | ⟨front, last, hlast⟩
  · refine .inl ⟨hnil, ?_⟩
    rw [hnil, if_neg (by simp), String.toList_append, hnil]
    rfl
  · rw [List.concat_eq_append] at hlast
    have hget : path.toList.getLast? = some last := by rw [hlast, List.getLast?_concat]
    by_cases hsep : C.isSeparator last = true
    · refine .inr (.inr (.inl ⟨front, last, hsep, hlast, ?_⟩))
      rw [hget, if_neg (by simp [hsep]), String.toList_append, hlast]
      simp
    · rcases C.splitDrive_cases path.toList with ⟨letter, hsplit, hpath, hall⟩ | hsplit
      · by_cases hrest : path.toList.drop 2 = []
        · rw [hrest] at hsplit hpath
          refine .inr (.inl ⟨letter, hsplit, ?_, hall _⟩)
          rw [hsplit, if_neg (by simp), String.toList_append, hpath]
          rfl
        · refine .inr (.inr (.inr ⟨by rwa [hsplit], ?_⟩))
          rw [hget, hsplit, if_pos ⟨by simpa using hsep, fun hboth => hrest hboth.2⟩]
          simp
      · refine .inr (.inr (.inr ⟨by rw [hsplit, hlast]; simp, ?_⟩))
        rw [hget, hsplit, if_pos ⟨by simpa using hsep, by simp⟩]
        simp

/-- What is pushed without a drive, a root and a parent is put behind the names of the path. -/
theorem normalize_push (path : String) (h : C.Descends name) :
    C.normalize (C.push path name) =
      { C.normalize path with names := (C.normalize path).names ++ C.names name } := by
  rw [normalize_eq, normalize_eq C path]
  rcases push_toList path h with ⟨hnil, hpush⟩ | ⟨letter, hsplit, hpush, hdrive⟩ |
    ⟨front, sep, hsep, hpath, hpush⟩ | ⟨hne, hpush⟩
  · rw [hpush, h.drive, hnil, h.pieces_eq, NormalPath.foldl_step_normal, h.root]
    rfl
  · rw [hpush, hdrive, hsplit, h.pieces_eq, NormalPath.foldl_step_normal, h.root]
    rfl
  · rw [hpush, hpath, splitDrive_append hsep, splitDrive_append hsep, pieces_append hsep,
      pieces_separator hsep, List.foldl_append, h.pieces_eq, NormalPath.foldl_step_normal]
    have hroot : C.hasRoot ((C.splitDrive front).2 ++ sep :: name.toList) =
        C.hasRoot ((C.splitDrive front).2 ++ [sep]) := by
      rw [List.append_cons, hasRoot_append (by simp)]
    rw [hroot]
  · rw [hpush, splitDrive_append C.isSeparator_main, pieces_append C.isSeparator_main,
      List.foldl_append, h.pieces_eq, NormalPath.foldl_step_normal, hasRoot_append hne]

/-- The first piece in front of a separator is the first of all. -/
theorem head?_splitOnP_append {sep : Char} (hsep : C.isSeparator sep = true)
    (front back : List Char) : ((front ++ sep :: back).splitOnP C.isSeparator).head? =
      (front.splitOnP C.isSeparator).head? := by
  rw [List.splitOnP_append_cons front back hsep,
    List.head?_append_of_ne_nil _ (List.splitOnP_ne_nil _ _)]

/-- What is pushed without a drive, a root, a parent and a dot in front is put behind the
components of the path. -/
theorem components_push (path : String) (h : C.Descends name)
    (hdot : (name.toList.splitOnP C.isSeparator).head? ≠ some ['.']) :
    C.components (C.push path name) = C.components path ++ C.pieces name.toList := by
  have hroot := h.root
  have hroot_nil : C.hasRoot [] = false := rfl
  have hpieces_nil : C.pieces [] = [] := rfl
  unfold components
  rcases push_toList path h with ⟨hnil, hpush⟩ | ⟨letter, hsplit, hpush, hdrive⟩ |
    ⟨front, sep, hsep, hpath, hpush⟩ | ⟨hne, hpush⟩
  · rw [hpush, h.drive, hnil]
    simp [splitDrive, hroot, hdot, hroot_nil, hpieces_nil]
  · rw [hpush, hdrive, hsplit]
    simp [hroot, hdot, hroot_nil, hpieces_nil]
  · rw [hpush, hpath, splitDrive_append hsep, splitDrive_append hsep]
    have hsame : C.hasRoot ((C.splitDrive front).2 ++ sep :: name.toList) =
        C.hasRoot ((C.splitDrive front).2 ++ [sep]) := by
      rw [List.append_cons, hasRoot_append (by simp)]
    simp only [hsame, head?_splitOnP_append hsep, pieces_append hsep, List.append_assoc]
    rfl
  · rw [hpush, splitDrive_append C.isSeparator_main]
    simp only [hasRoot_append hne, head?_splitOnP_append C.isSeparator_main,
      pieces_append C.isSeparator_main, List.append_assoc]

/-- A path that descends leads to where it is pushed on, or below. -/
theorem below_push (path : String) (h : C.Descends name) :
    NormalPath.Below (C.normalize path) (C.normalize (C.push path name)) := by
  rw [normalize_push path h]
  exact ⟨rfl, rfl, List.prefix_append _ _⟩

end PathConvention

end MDesk.Core
