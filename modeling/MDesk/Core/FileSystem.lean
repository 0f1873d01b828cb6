import Mathlib.Data.List.Infix
import Mathlib.Data.List.Dedup
import Mathlib.Logic.Function.Basic

/-!
# A path-keyed file system

A finite table of nodes keyed by absolute paths, a path being its list of
components. Operations follow the documented behaviour of the usual system calls
in the absence of I/O failures and of links. Every operation is characterised by
the `lookup` function of its result, which is all that later proofs use.
-/

namespace MDesk.Core

/-- What a path may name. -/
inductive Node (β : Type*) where
  | file (contents : List β)
  | dir
  deriving DecidableEq, Repr

/-- The failures an operation reports when the hardware does not fail. -/
inductive FsError where
  | notFound
  | alreadyExists
  | notADirectory
  | isADirectory
  | notEmpty
  | badHandle
  deriving DecidableEq, Repr

structure FileSystem (ν β : Type*) where
  entries : List (List ν × Node β)

namespace FileSystem

variable {ν β : Type*} [DecidableEq ν]

/-- The node a path names, if any. -/
def lookup (fs : FileSystem ν β) (p : List ν) : Option (Node β) :=
  (fs.entries.find? fun e => e.1 = p).map Prod.snd

def erase (fs : FileSystem ν β) (p : List ν) : FileSystem ν β :=
  ⟨fs.entries.filter fun e => e.1 ≠ p⟩

def insert (fs : FileSystem ν β) (p : List ν) (n : Node β) : FileSystem ν β :=
  ⟨(p, n) :: fs.entries.filter fun e => e.1 ≠ p⟩

theorem lookup_cons (e : List ν × Node β) (es : List (List ν × Node β)) (q : List ν) :
    lookup ⟨e :: es⟩ q = if e.1 = q then some e.2 else lookup ⟨es⟩ q := by
  by_cases h : e.1 = q <;> simp [lookup, h]

@[simp] theorem lookup_erase (fs : FileSystem ν β) (p : List ν) :
    (fs.erase p).lookup = Function.update fs.lookup p none := by
  funext q
  obtain ⟨entries⟩ := fs
  induction entries with
  | nil => by_cases h : q = p <;> simp [erase, lookup, h]
  | cons e es ih =>
    simp only [erase] at ih ⊢
    by_cases hp : e.1 = p
    · rw [List.filter_cons_of_neg (by simp [hp]), ih]
      by_cases h : q = p
      · simp [h]
      · rw [Function.update_of_ne h, Function.update_of_ne h, lookup_cons, hp,
          if_neg (Ne.symm h)]
    · rw [List.filter_cons_of_pos (by simp [hp]), lookup_cons, ih]
      by_cases h : q = p
      · simp [h, hp]
      · rw [Function.update_of_ne h, Function.update_of_ne h, lookup_cons]

@[simp] theorem lookup_insert (fs : FileSystem ν β) (p : List ν) (n : Node β) :
    (fs.insert p n).lookup = Function.update fs.lookup p (some n) := by
  funext q
  have herase := congrFun (lookup_erase fs p) q
  by_cases h : q = p
  · subst h
    simp [insert, lookup_cons]
  · rw [Function.update_of_ne h] at herase ⊢
    rw [← herase, insert, lookup_cons, if_neg (Ne.symm h), erase]

/-- `Path::exists`. -/
def pathExists (fs : FileSystem ν β) (p : List ν) : Bool := (fs.lookup p).isSome

/-- `Path::is_file`. -/
def isFile (fs : FileSystem ν β) (p : List ν) : Bool :=
  match fs.lookup p with
  | some (.file _) => true
  | _ => false

/-- `Path::is_dir`. -/
def isDir (fs : FileSystem ν β) (p : List ν) : Bool :=
  match fs.lookup p with
  | some .dir => true
  | _ => false

/-- The containing directory exists. -/
def hasParent (fs : FileSystem ν β) (p : List ν) : Bool := !p.isEmpty && fs.isDir p.dropLast

/-- `File::create`: create or truncate. -/
def create (fs : FileSystem ν β) (p : List ν) : Except FsError (FileSystem ν β) :=
  match fs.lookup p with
  | some .dir => .error .isADirectory
  | some (.file _) => .ok (fs.insert p (.file []))
  | none => if fs.hasParent p then .ok (fs.insert p (.file [])) else .error .notFound

/-- `OpenOptions::create_new`. -/
def createNew (fs : FileSystem ν β) (p : List ν) : Except FsError (FileSystem ν β) :=
  match fs.lookup p with
  | some _ => .error .alreadyExists
  | none => if fs.hasParent p then .ok (fs.insert p (.file [])) else .error .notFound

/-- Open an existing file for writing, keeping its contents. -/
def openWrite (fs : FileSystem ν β) (p : List ν) : Except FsError Unit :=
  match fs.lookup p with
  | some .dir => .error .isADirectory
  | some (.file _) => .ok ()
  | none => .error .notFound

/-- Write at an offset of the file a handle was opened on. A file removed under
the handle keeps its name free: the bytes reach no path. -/
def writeAt (fs : FileSystem ν β) (zero : β) (p : List ν) (pos : Nat) (data : List β) :
    FileSystem ν β :=
  match fs.lookup p with
  | some (.file contents) =>
    fs.insert p (.file (contents.take pos ++ List.replicate (pos - contents.length) zero ++ data ++
      contents.drop (pos + data.length)))
  | _ => fs

/-- `std::fs::remove_file`. -/
def removeFile (fs : FileSystem ν β) (p : List ν) : Except FsError (FileSystem ν β) :=
  match fs.lookup p with
  | some .dir => .error .isADirectory
  | some (.file _) => .ok (fs.erase p)
  | none => .error .notFound

/-- `std::fs::rename` of a file, replacing a file at the destination. Directories
are not renamed. -/
def rename (fs : FileSystem ν β) (src dst : List ν) : Except FsError (FileSystem ν β) :=
  match fs.lookup src with
  | none => .error .notFound
  | some .dir => .error .isADirectory
  | some (.file contents) =>
    match fs.lookup dst with
    | some .dir => .error .isADirectory
    | some (.file _) => .ok ((fs.erase src).insert dst (.file contents))
    | none =>
      if fs.hasParent dst then .ok ((fs.erase src).insert dst (.file contents))
      else .error .notFound

/-- `std::fs::create_dir`. -/
def createDir (fs : FileSystem ν β) (p : List ν) : Except FsError (FileSystem ν β) :=
  match fs.lookup p with
  | some _ => .error .alreadyExists
  | none => if fs.hasParent p then .ok (fs.insert p .dir) else .error .notFound

/-- `std::fs::create_dir_all`. A file on the way fails the call before anything
is created, since everything above a file exists already. -/
def createDirAll (fs : FileSystem ν β) (p : List ν) : Except FsError (FileSystem ν β) :=
  if p.inits.any fs.isFile then .error .notADirectory
  else .ok (p.inits.foldl (fun fs q => fs.insert q .dir) fs)

/-- `std::fs::symlink_metadata`, with the error of a path that leads through a file. -/
def symlinkMetadata (fs : FileSystem ν β) (p : List ν) : Except FsError (Node β) :=
  match fs.lookup p with
  | some n => .ok n
  | none => if p.inits.any fs.isFile then .error .notADirectory else .error .notFound

/-- The names of the entries of a directory. -/
def readDir (fs : FileSystem ν β) (p : List ν) : Except FsError (List ν) :=
  match fs.lookup p with
  | some .dir => .ok ((fs.entries.filterMap fun e =>
      if e.1 ≠ [] ∧ e.1.dropLast = p ∧ fs.pathExists e.1 then e.1.getLast? else none).dedup)
  | some (.file _) => .error .notADirectory
  | none => .error .notFound

/-- `std::fs::remove_dir`: an empty directory only. -/
def removeDir (fs : FileSystem ν β) (p : List ν) : Except FsError (FileSystem ν β) :=
  match fs.readDir p with
  | .error e => .error e
  | .ok [] => .ok (fs.erase p)
  | .ok _ => .error .notEmpty

theorem isFile_iff {fs : FileSystem ν β} {p : List ν} :
    fs.isFile p = true ↔ ∃ c, fs.lookup p = some (.file c) := by
  unfold isFile
  rcases fs.lookup p with _ | ⟨_ | _⟩ <;> simp

theorem isDir_iff {fs : FileSystem ν β} {p : List ν} :
    fs.isDir p = true ↔ fs.lookup p = some .dir := by
  unfold isDir
  rcases fs.lookup p with _ | ⟨_ | _⟩ <;> simp

theorem hasParent_iff {fs : FileSystem ν β} {p : List ν} :
    fs.hasParent p = true ↔ p ≠ [] ∧ fs.lookup p.dropLast = some .dir := by
  simp [hasParent, isDir_iff]

/-- No file stands on the way to `p`. -/
def Traversable (fs : FileSystem ν β) (p : List ν) : Prop :=
  ∀ q, q <+: p → ∀ c, fs.lookup q ≠ some (.file c)

theorem any_isFile_inits {fs : FileSystem ν β} {p : List ν} :
    p.inits.any fs.isFile = false ↔ fs.Traversable p := by
  simp only [List.any_eq_false, List.mem_inits, isFile_iff, not_exists, Traversable]

theorem lookup_foldl_insert (ps : List (List ν)) (fs : FileSystem ν β) (n : Node β) (q : List ν) :
    (ps.foldl (fun fs q => fs.insert q n) fs).lookup q =
      if q ∈ ps then some n else fs.lookup q := by
  induction ps generalizing fs with
  | nil => simp
  | cons p ps ih =>
    rw [List.foldl_cons, ih, lookup_insert]
    by_cases hp : q = p
    · subst hp
      simp
    · simp [hp]

/-- Creating a directory path makes every prefix a directory. -/
theorem createDirAll_eq {fs : FileSystem ν β} {p : List ν} (h : fs.Traversable p) :
    ∃ fs', fs.createDirAll p = .ok fs' ∧
      ∀ q, fs'.lookup q = if q <+: p then some .dir else fs.lookup q := by
  refine ⟨_, by rw [createDirAll, any_isFile_inits.mpr h]; exact if_neg Bool.false_ne_true, ?_⟩
  intro q
  rw [lookup_foldl_insert]
  simp only [List.mem_inits]

theorem create_eq {fs : FileSystem ν β} {p : List ν} (h : fs.lookup p ≠ some .dir)
    (hp : fs.hasParent p) : fs.create p = .ok (fs.insert p (.file [])) := by
  unfold create
  rcases hl : fs.lookup p with _ | ⟨_ | _⟩
  · exact if_pos hp
  · rfl
  · exact absurd hl h

theorem create_dir {fs : FileSystem ν β} {p : List ν} (h : fs.lookup p = some .dir) :
    fs.create p = .error .isADirectory := by
  simp only [create, h]

/-- A successful creation touches its own path only. -/
theorem eq_of_create {fs fs' : FileSystem ν β} {p : List ν} (h : fs.create p = .ok fs') :
    fs' = fs.insert p (.file []) ∧ fs.lookup p ≠ some .dir := by
  unfold create at h
  rcases hl : fs.lookup p with _ | ⟨_ | _⟩
  · rw [hl] at h
    dsimp only at h
    split at h
    · exact ⟨(Except.ok.inj h).symm, nofun⟩
    · cases h
  · rw [hl] at h
    exact ⟨(Except.ok.inj h).symm, nofun⟩
  · rw [hl] at h
    cases h

theorem removeFile_eq {fs : FileSystem ν β} {p : List ν} {c : List β}
    (h : fs.lookup p = some (.file c)) : fs.removeFile p = .ok (fs.erase p) := by
  simp only [removeFile, h]

theorem rename_eq {fs : FileSystem ν β} {src dst : List ν} {c : List β}
    (hs : fs.lookup src = some (.file c)) (hd : fs.lookup dst ≠ some .dir)
    (hp : fs.hasParent dst) :
    fs.rename src dst = .ok ((fs.erase src).insert dst (.file c)) := by
  simp only [rename, hs]
  rcases hl : fs.lookup dst with _ | ⟨_ | _⟩
  · exact if_pos hp
  · rfl
  · exact absurd hl hd

/-- A successful rename moved a file. -/
theorem eq_of_rename {fs fs' : FileSystem ν β} {src dst : List ν}
    (h : fs.rename src dst = .ok fs') :
    ∃ c, fs.lookup src = some (.file c) ∧ fs.lookup dst ≠ some .dir ∧
      fs' = (fs.erase src).insert dst (.file c) := by
  unfold rename at h
  rcases hs : fs.lookup src with _ | ⟨c | _⟩
  · simp [hs] at h
  · simp only [hs] at h
    rcases hd : fs.lookup dst with _ | ⟨_ | _⟩
    · simp only [hd] at h
      split at h
      · exact ⟨c, rfl, nofun, (Except.ok.inj h).symm⟩
      · cases h
    · simp only [hd] at h
      exact ⟨c, rfl, nofun, (Except.ok.inj h).symm⟩
    · simp [hd] at h
  · simp [hs] at h

/-! Each operation leaves the paths alone that it does not name. -/

section Frame

variable {fs fs' : FileSystem ν β} {p q : List ν}

theorem lookup_create_of_ne (h : fs.create p = .ok fs') (hq : q ≠ p) :
    fs'.lookup q = fs.lookup q := by
  rw [(eq_of_create h).1, lookup_insert, Function.update_of_ne hq]

theorem lookup_removeFile_of_ne (h : fs.removeFile p = .ok fs') (hq : q ≠ p) :
    fs'.lookup q = fs.lookup q := by
  unfold removeFile at h
  split at h
  · cases h
  · cases h
    rw [lookup_erase, Function.update_of_ne hq]
  · cases h

/-- A file is removed if it can be. -/
theorem lookup_tryRemove_of_ne (hq : q ≠ p) :
    ((fs.removeFile p).toOption.getD fs).lookup q = fs.lookup q := by
  cases h : fs.removeFile p with
  | error e => rfl
  | ok fs' => exact lookup_removeFile_of_ne h hq

theorem lookup_writeAt_of_ne (zero : β) (pos : Nat) (data : List β) (hq : q ≠ p) :
    (fs.writeAt zero p pos data).lookup q = fs.lookup q := by
  unfold writeAt
  split
  · rw [lookup_insert, Function.update_of_ne hq]
  · rfl

theorem lookup_rename_of_ne {src dst : List ν} (h : fs.rename src dst = .ok fs') (hsrc : q ≠ src)
    (hdst : q ≠ dst) : fs'.lookup q = fs.lookup q := by
  obtain ⟨c, -, -, rfl⟩ := eq_of_rename h
  rw [lookup_insert, Function.update_of_ne hdst, lookup_erase, Function.update_of_ne hsrc]

theorem lookup_createDirAll_of_not_prefix (h : fs.createDirAll p = .ok fs') (hq : ¬ q <+: p) :
    fs'.lookup q = fs.lookup q := by
  unfold createDirAll at h
  split_ifs at h
  cases h
  rw [lookup_foldl_insert, if_neg (by rwa [List.mem_inits])]

/-- Directories are made if they can be. -/
theorem lookup_tryCreateDirAll_of_not_prefix (hq : ¬ q <+: p) :
    ((fs.createDirAll p).toOption.getD fs).lookup q = fs.lookup q := by
  cases h : fs.createDirAll p with
  | error e => rfl
  | ok fs' => exact lookup_createDirAll_of_not_prefix h hq

end Frame

section Rooted

variable {fs fs' : FileSystem ν β} {p q : List ν} {c : List β}

/-- Every node stands in a directory. -/
def Rooted (fs : FileSystem ν β) : Prop :=
  ∀ p, p ≠ [] → fs.lookup p ≠ none → fs.lookup p.dropLast = some .dir

/-- What is above a node is a directory. -/
theorem Rooted.above (h : fs.Rooted) (hp : fs.lookup p ≠ none) (hq : q <+: p) (hne : q ≠ p) :
    fs.lookup q = some .dir := by
  induction p using List.reverseRecOn with
  | nil => exact absurd (List.prefix_nil.mp hq) hne
  | append_singleton p x ih =>
    have hdir := h (p ++ [x]) (by simp) hp
    rw [List.dropLast_concat] at hdir
    rcases List.prefix_concat_iff.mp hq with rfl | hq
    · exact absurd rfl hne
    · by_cases hqp : q = p
      · rw [hqp, hdir]
      · exact ih (by rw [hdir]; nofun) hq hqp

/-- Below a free path nothing stands. -/
theorem Rooted.none_below (h : fs.Rooted) (hp : fs.lookup p = none) (hq : p <+: q) :
    fs.lookup q = none := by
  by_contra hsome
  by_cases hne : p = q
  · exact hsome (hne ▸ hp)
  · have hdir := h.above hsome hq hne
    rw [hp] at hdir
    cases hdir

theorem eq_of_createDir (h : fs.createDir p = .ok fs') :
    fs.lookup p = none ∧ fs' = fs.insert p .dir := by
  unfold createDir at h
  split at h
  · cases h
  · split_ifs at h
    exact ⟨‹_›, (Except.ok.inj h).symm⟩

theorem eq_of_createNew (h : fs.createNew p = .ok fs') :
    fs.lookup p = none ∧ fs' = fs.insert p (.file []) := by
  unfold createNew at h
  split at h
  · cases h
  · split_ifs at h
    exact ⟨‹_›, (Except.ok.inj h).symm⟩

theorem exists_of_createDir (h : fs.createDir p = .error .alreadyExists) : fs.lookup p ≠ none := by
  intro hnone
  rw [createDir, hnone] at h
  dsimp only at h
  split_ifs at h
  cases h

theorem exists_of_createNew (h : fs.createNew p = .error .alreadyExists) : fs.lookup p ≠ none := by
  intro hnone
  rw [createNew, hnone] at h
  dsimp only at h
  split_ifs at h
  cases h

/-- What stands at a path stays when something is made where nothing was. -/
theorem lookup_insert_free {n m : Node β} (hp : fs.lookup p = none) (hq : fs.lookup q = some n) :
    (fs.insert p m).lookup q = some n := by
  have hne : q ≠ p := by
    rintro rfl
    rw [hp] at hq
    cases hq
  rw [lookup_insert, Function.update_of_ne hne, hq]

/-- Making directories leaves the files. -/
theorem lookup_createDirAll_file (h : fs.createDirAll p = .ok fs')
    (hq : fs.lookup q = some (.file c)) : fs'.lookup q = some (.file c) := by
  have htrav : fs.Traversable p := by
    unfold createDirAll at h
    split_ifs at h with hany
    exact any_isFile_inits.mp (Bool.not_eq_true _ ▸ hany)
  rw [ lookup_createDirAll_of_not_prefix h fun hpre => htrav q hpre c hq, hq]

/-- Removing an empty directory leaves the files. -/
theorem lookup_removeDir_file (hq : fs.lookup q = some (.file c)) :
    ((fs.removeDir p).toOption.getD fs).lookup q = some (.file c) := by
  unfold removeDir
  split
  · exact hq
  · rename_i hread
    have hne : q ≠ p := by
      rintro rfl
      rw [readDir, hq] at hread
      cases hread
    show (fs.erase p).lookup q = _
    rw [lookup_erase, Function.update_of_ne hne, hq]
  · exact hq

/-- A file that could be removed is gone. -/
theorem lookup_tryRemove_self : ((fs.removeFile p).toOption.getD fs).lookup p ≠ some (.file c) := by
  unfold removeFile
  rcases hl : fs.lookup p with _ | ⟨b | _⟩
  · show fs.lookup p ≠ _
    rw [hl]
    nofun
  · show (fs.erase p).lookup p ≠ _
    rw [lookup_erase, Function.update_self]
    nofun
  · show fs.lookup p ≠ _
    rw [hl]
    nofun

end Rooted

end FileSystem

end MDesk.Core
