import MDesk.Transfer.Staged

/-!
# Destinations of a list of files

Where the files of a job go: below the base directory, or to the base path itself for
a single file without a name. Names that denote different relative paths, none above
another, give a layout of final paths.
-/

namespace MDesk

open MDesk.Core

variable (P : Platform)

/-- The final paths of a list of files. -/
def destinationPaths (base : PathBuf) (files : List FileEntry) : List PathBuf :=
  files.map fun f => P.join base f.name

/-- One file whose path is the base itself. -/
def Nameless (files : List FileEntry) : Prop := ∃ f, files = [f] ∧ f.name = ""

instance (files : List FileEntry) : Decidable (Nameless files) :=
  match files with
  | [f] => decidable_of_iff (f.name = "") ⟨fun h => ⟨f, rfl, h⟩, fun ⟨g, hg, h⟩ => by
      rwa [(List.cons.inj hg).1]⟩
  | [] => .isFalse (by rintro ⟨f, hf, -⟩; cases hf)
  | _ :: _ :: _ => .isFalse (by rintro ⟨f, hf, -⟩; cases hf)

/-- The directory everything is written below. -/
def receiveRoot (base : PathBuf) (files : List FileEntry) : PathBuf :=
  if Nameless files then base.dropLast else base

/-- The names are relative paths of different files, none an ancestor of another. -/
structure RegularNames (files : List FileEntry) : Prop where
  nonempty : ∀ f ∈ files, P.components f.name ≠ []
  nodup : (files.map fun f => P.components f.name).Nodup
  apart : ∀ f ∈ files, ∀ g ∈ files, ¬ P.components f.name <+: (P.components g.name).dropLast

/-- A list of files that can stand side by side under its root. -/
def RegularFiles (base : PathBuf) (files : List FileEntry) : Prop :=
  (Nameless files ∧ base ≠ []) ∨ RegularNames P files

variable {P} {base : PathBuf} {files : List FileEntry}

theorem join_of_components {name : String} (h : P.components name ≠ []) :
    P.join base name = base ++ P.components name := by
  have hname : ¬ name.isEmpty := by
    intro hempty
    rw [String.isEmpty_iff] at hempty
    subst hempty
    refine h ?_
    simp [Platform.components, splitStr]
  rw [Platform.join, if_neg hname]

theorem RegularNames.not_nameless (h : RegularNames P files) : ¬ Nameless files := by
  rintro ⟨f, rfl, hf⟩
  refine h.nonempty f List.mem_cons_self ?_
  rw [hf]
  simp [Platform.components, splitStr]

/-- Regular files have a layout of final paths. -/
theorem layout_of_regular (h : RegularFiles P base files) :
    Layout (receiveRoot base files) (destinationPaths P base files) := by
  rcases h with ⟨hn, hne⟩ | h
  · rw [receiveRoot, if_pos hn]
    obtain ⟨f, rfl, hf⟩ := hn
    have hpath : destinationPaths P base [f] = [base] := by
      simp [destinationPaths, Platform.join, hf]
    rw [hpath]
    constructor
    · simp
    · simpa using hne
    · simp
    · simpa using not_prefix_dropLast hne rfl
  · rw [receiveRoot, if_neg h.not_nameless]
    have hjoin : ∀ f ∈ files, P.join base f.name = base ++ P.components f.name := fun f hf =>
      join_of_components (h.nonempty f hf)
    have hpaths : destinationPaths P base files =
        (files.map fun f => P.components f.name).map (base ++ ·) := by
      rw [destinationPaths, List.map_map]
      exact List.map_congr_left hjoin
    constructor
    · intro p hp
      obtain ⟨f, hf, rfl⟩ := List.mem_map.mp hp
      rw [hjoin f hf, List.dropLast_append_of_ne_nil (h.nonempty f hf)]
      exact List.prefix_append _ _
    · intro p hp
      obtain ⟨f, hf, rfl⟩ := List.mem_map.mp hp
      rw [hjoin f hf]
      exact fun he => h.nonempty f hf (List.append_eq_nil_iff.mp he).2
    · rw [hpaths]
      exact h.nodup.map fun a b hab => List.append_cancel_left hab
    · intro p hp q hq hpre
      obtain ⟨f, hf, rfl⟩ := List.mem_map.mp hp
      obtain ⟨g, hg, rfl⟩ := List.mem_map.mp hq
      rw [hjoin f hf, hjoin g hg, List.dropLast_append_of_ne_nil (h.nonempty g hg),
        List.prefix_append_right_inj] at hpre
      exact h.apart f hf g hg hpre

theorem validateFileNameNoTraversal_empty : validateFileNameNoTraversal P "" = .ok () := by
  simp [validateFileNameNoTraversal, splitStr, hasDrivePrefix]

/-- Every name of an accepted list passes the check of one name. -/
theorem names_of_validate (h : validateTransferFileNames P files = .ok ()) :
    ∀ f ∈ files, validateFileNameNoTraversal P f.name = .ok () := by
  have hgo : ∀ fs : List FileEntry, validateTransferFileNames.go P fs = .ok () →
      ∀ f ∈ fs, validateFileNameNoTraversal P f.name = .ok () := by
    intro fs
    induction fs with
    | nil => simp
    | cons g gs ih =>
      intro hg f hf
      rw [validateTransferFileNames.go] at hg
      split_ifs at hg
      split at hg
      · cases hg
      · rcases List.mem_cons.mp hf with rfl | hf
        · assumption
        · exact ih hg f hf
  unfold validateTransferFileNames at h
  split_ifs at h with hsingle
  · obtain ⟨g, rfl⟩ := List.length_eq_one_iff.mp hsingle.1
    intro f hf
    have hname : g.name = "" := by simpa using hsingle.2
    rw [List.mem_singleton.mp hf, hname]
    exact validateFileNameNoTraversal_empty
  · exact hgo files h

/-- What `set_files` sets. -/
theorem setFiles_eq {job job' : TransferJob} {fs : Fs} (h : job.setFiles P fs files = .ok job') :
    validateTransferFileNames P files = .ok () ∧
      job' = { job with totalSize := (files.map (·.size)).sum % 2 ^ 64, files } := by
  unfold TransferJob.setFiles at h
  split at h
  · cases h
  · refine ⟨‹_›, ?_⟩
    dsimp only at h
    split at h
    · cases h
    · exact (Except.ok.inj h).symm

/-- A root with one empty directory in it. -/
def freshFs : Fs := ⟨[([], .dir), (["r"], .dir)]⟩

theorem vacant_freshFs : Vacant ["r"] freshFs.lookup where
  reachable q _ c := by
    simp only [freshFs, FileSystem.lookup_cons]
    split_ifs <;> simp [FileSystem.lookup]
  empty q hq hne := by
    have hnil : q ≠ [] := by
      rintro rfl
      simp at hq
    simp only [freshFs, FileSystem.lookup_cons]
    rw [if_neg (Ne.symm hnil), if_neg (Ne.symm hne)]
    rfl

/-- A regular file entry. -/
def fileNamed (name : String) (size : Nat) : FileEntry := { entryType := some .file, name, size }

end MDesk
