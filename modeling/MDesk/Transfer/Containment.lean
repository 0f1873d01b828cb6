import MDesk.Core.LexicalPath
import MDesk.Transfer.Job

/-!
# Where a received name may lead

`join_validated_path` on path strings, as the platforms read them: with drives and two separators
on Windows. Shares and devices, which begin with two separators, are read as names below the root.
A file system without links gives any answers to the walk over the components.
-/

namespace MDesk

open MDesk.Core

namespace Platform

variable (P : Platform)

/-- `std::path::MAIN_SEPARATOR`. -/
def mainSeparator : Char := if P.windows then '\\' else '/'

/-- How the platform reads path strings. -/
def paths : PathConvention where
  isSeparator := P.isSeparator
  mainSeparator := P.mainSeparator
  drives := P.windows
  isSeparator_main := by
    unfold mainSeparator isSeparator
    cases P.windows <;> rfl
  isSeparator_colon := by
    unfold isSeparator
    cases P.windows <;> rfl
  isSeparator_alpha c hc := by
    unfold isSeparator at hc
    rw [Bool.or_eq_true, beq_iff_eq, Bool.and_eq_true, beq_iff_eq] at hc
    rcases hc with rfl | ⟨-, rfl⟩
    · decide
    · decide

end Platform

/-- What `symlink_metadata` says of a path. -/
inductive PathMetadata where
  | found (symlink : Bool)
  | notFound
  | failed (e : String)
  deriving DecidableEq, Repr

section Strings

variable (P : Platform) (metadata : String → PathMetadata)

/-- The walk of `validate_no_symlink_components` over the components of a name. -/
def validateComponentStrings (current : String) : List PathComponent → Except String Unit
  | [] => .ok ()
  | .normal seg :: components =>
    match metadata (P.paths.push current seg) with
    | .found true => .error "symlink path component is not allowed"
    | .failed e => .error ("failed to validate path component '" ++ P.paths.push current seg ++
        "': " ++ e)
    | .found false | .notFound => validateComponentStrings (P.paths.push current seg) components
  | .curDir :: components => validateComponentStrings current components
  | .drive _ :: _ | .rootDir :: _ | .parentDir :: _ => .error "invalid file name component"

/-- `validate_no_symlink_components` on strings. -/
def validateNoSymlinkStrings (base name : String) : Except String Unit :=
  if name.isEmpty then .ok ()
  else validateComponentStrings P metadata base (P.paths.components name)

/-- `TransferJob::join` on strings. -/
def joinStrings (base name : String) : String :=
  if name.isEmpty then base else P.paths.push base name

/-- `join_validated_path` on strings. -/
def joinValidatedString (base name : String) : Except String String :=
  match validateFileNameNoTraversal P name with
  | .error e => .error e
  | .ok () =>
    match validateNoSymlinkStrings P metadata base name with
    | .error e => .error e
    | .ok () => .ok (joinStrings P base name)

variable {P metadata} {base name joined : String}

/-- A name that passes the check has no drive, no root and no parent. -/
theorem descends_of_validate (h : validateFileNameNoTraversal P name = .ok ()) :
    P.paths.Descends name := by
  unfold validateFileNameNoTraversal at h
  split_ifs at h with hnul hparent hdrive hroot
  refine ⟨?_, ?_, ?_⟩
  · unfold PathConvention.splitDrive
    split
    · rename_i letter rest hname
      have hnone : ¬ (P.paths.drives = true ∧ letter.isAlpha = true) := by
        rintro ⟨hwindows, hletter⟩
        refine hdrive ⟨hwindows, ?_⟩
        rw [hasDrivePrefix, hname]
        exact hletter
      rw [if_neg hnone, hname]
    · rfl
  · exact Bool.eq_false_iff.mpr hroot
  · intro hmem
    refine hparent (List.contains_iff_mem.mpr ?_)
    exact List.mem_map.mpr ⟨_, hmem, rfl⟩

/-- The names of an accepted name are its components in the model of the file system. -/
theorem names_eq_components (name : String) : P.paths.names name = P.components name := by
  unfold PathConvention.names Platform.components splitStr
  rw [List.filter_map]
  congr 1
  refine List.filter_congr fun piece _ => ?_
  have hempty : String.ofList piece = "" ↔ piece = [] := by
    rw [← String.toList_inj, String.toList_ofList]
    rfl
  have hdot : String.ofList piece = "." ↔ piece = ['.'] := by
    rw [← String.toList_inj, String.toList_ofList]
    rfl
  simp [hempty, hdot]

/-- Wherever a peer's name is accepted, the joined path is the base or lies below it. -/
theorem joinValidatedString_below (h : joinValidatedString P metadata base name = .ok joined) :
    NormalPath.Below (P.paths.normalize base) (P.paths.normalize joined) := by
  unfold joinValidatedString at h
  cases hname : validateFileNameNoTraversal P name with
  | error e =>
    rw [hname] at h
    cases h
  | ok u =>
    rw [hname] at h
    dsimp only at h
    split at h
    · cases h
    · cases h
      unfold joinStrings
      split_ifs
      · exact ⟨rfl, rfl, List.prefix_rfl⟩
      · exact PathConvention.below_push base (descends_of_validate hname)

/-- A name with both separators below a folder on a drive. -/
theorem joinValidatedString_below_sample :
    let windows : Platform := { Platform.posix with windows := true }
    NormalPath.Below (windows.paths.normalize "C:\\Users\\..\\Drop")
      (windows.paths.normalize "C:\\Users\\..\\Drop\\a/.\\b") :=
  joinValidatedString_below (show joinValidatedString { Platform.posix with windows := true }
    (fun _ => .notFound) "C:\\Users\\..\\Drop" "a/.\\b" = .ok _ by decide)

end Strings

end MDesk
