import MDesk.Transfer.Destination

/-!
# Manifests of direct transfers

The validation of an unsolicited push, `validate_direct_transfer_layout`. An accepted
manifest names different files below one root, none inside another, so that its files
have a layout of final paths on every platform.
-/

namespace MDesk

open MDesk.Core

/-- `DIRECT_TRANSFER_MAX_ENTRIES`. -/
def directTransferMaxEntries : Nat := 100000

/-- `DIRECT_TRANSFER_MAX_METADATA_BYTES`. -/
def directTransferMaxMetadataBytes : Nat := 8 * 1024 * 1024

/-- `DIRECT_TRANSFER_MAX_PATH_BYTES`. -/
def directTransferMaxPathBytes : Nat := 4 * 1024

/-- `DIRECT_TRANSFER_MAX_DEPTH`. -/
def directTransferMaxDepth : Nat := 64

/-- `DIRECT_TRANSFER_MAX_TOTAL_BYTES`. -/
def directTransferMaxTotalBytes : Nat := 20 * 1024 * 1024 * 1024

/-- `char::is_control`. -/
def isControl (c : Char) : Bool :=
  c.toNat < 0x20 || (0x7f ≤ c.toNat && c.toNat ≤ 0x9f)

/-- `encode_utf16().count()`. -/
def utf16Count (s : String) : Nat :=
  (s.toList.map fun c => if c.toNat < 0x10000 then 1 else 2).sum

def isDirectSeparator (c : Char) : Bool := c == '/' || c == '\\'

/-- A basename Windows treats as a device. -/
def isReservedComponent (component : String) : Bool :=
  let upper := (component.toList.takeWhile (· ≠ '.')).map Char.toUpper
  ["CON", "PRN", "AUX", "NUL"].contains (String.ofList upper) ||
    match upper with
    | [a, b, c, d] =>
      (String.ofList [a, b, c] == "COM" || String.ofList [a, b, c] == "LPT") && d.isDigit && d ≠ '0'
    | _ => false

/-- `validate_direct_path_component`. -/
def validateDirectPathComponent (component : String) : Except String Unit :=
  if component = "" ∨ component = "." ∨ component = ".." then
    .error "invalid direct transfer path component"
  else if 255 < utf16Count component then .error "direct transfer path component is too long"
  else if component.toList.any fun c => isDirectSeparator c || c == '\x00' || isControl c ||
      ['<', '>', ':', '"', '|', '?', '*'].contains c then
    .error "invalid direct transfer path component"
  else if component.toList.getLast? = some ' ' ∨ component.toList.getLast? = some '.' then
    .error "invalid direct transfer path component"
  else if isReservedComponent component then .error "reserved direct transfer path component"
  else .ok ()

def validateDirectPathComponents : List String → Except String Unit
  | [] => .ok ()
  | component :: components =>
    match validateDirectPathComponent component with
    | .error e => .error e
    | .ok () => validateDirectPathComponents components

/-- `direct_relative_components`. -/
def directRelativeComponents (path : String) : Except String (List String) :=
  if path.isEmpty ∨ path.toList.head?.any isDirectSeparator then
    .error "invalid direct transfer relative path"
  else
    match validateDirectPathComponents (splitStr isDirectSeparator path) with
    | .error e => .error e
    | .ok () => .ok (splitStr isDirectSeparator path)

/-- `normalized_direct_relative_path`. -/
def normalizedDirectRelativePath (path : String) : Except String String :=
  (directRelativeComponents path).map joinSlash

variable (P : Platform)

/-- `direct_collision_key`. -/
def directCollisionKey (path : String) : String := P.toLowercase path

/-- `validate_direct_metadata_budget`, from `count` entries and `bytes` bytes on. -/
def validateDirectMetadataBudget (count bytes : Nat) : List String → Except String Unit
  | [] => .ok ()
  | path :: paths =>
    if directTransferMaxEntries < count + 1 ∨
        directTransferMaxMetadataBytes < bytes + path.utf8ByteSize then
      .error "direct transfer manifest is too large"
    else if directTransferMaxPathBytes < path.utf8ByteSize ∨
        directTransferMaxDepth < (splitStr (· == '/') path).length then
      .error "direct transfer path exceeds safety limits"
    else validateDirectMetadataBudget (count + 1) (bytes + path.utf8ByteSize) paths

/-- What the loops over the entries have collected. -/
structure LayoutScan where
  keys : List String := []
  filePaths : List String := []
  directoryPaths : List String := []
  totalSize : Nat := 0
  deriving DecidableEq, Repr

/-- The normalized path the scan records for a file. -/
def normalizedName (isDirectory : Bool) (file : FileEntry) : Except String String :=
  if isDirectory then normalizedDirectRelativePath file.name else .ok ""

/-- One file of the manifest. -/
def scanFile (isDirectory : Bool) (scan : LayoutScan) (file : FileEntry) :
    Except String LayoutScan :=
  if file.entryType ≠ some .file then .error "direct transfer accepts regular files only"
  else
    match normalizedName isDirectory file with
    | .error e => .error e
    | .ok normalized =>
      if directCollisionKey P normalized ∈ scan.keys then
        .error "duplicate direct transfer file path"
      else if 2 ^ 64 ≤ scan.totalSize + file.size then .error "direct transfer size overflow"
      else .ok { scan with
        keys := directCollisionKey P normalized :: scan.keys
        filePaths := scan.filePaths ++ [normalized]
        totalSize := scan.totalSize + file.size }

/-- One empty directory of the manifest. -/
def scanDirectory (scan : LayoutScan) (dir : String) : Except String LayoutScan :=
  match normalizedDirectRelativePath dir with
  | .error e => .error e
  | .ok normalized =>
    if directCollisionKey P normalized ∈ scan.keys then
      .error "duplicate direct transfer directory path"
    else .ok { scan with
      keys := directCollisionKey P normalized :: scan.keys
      directoryPaths := scan.directoryPaths ++ [normalized] }

/-- The paths the hierarchy check builds up from the components of `path`. -/
def ancestors (path : String) : List String := go "" (splitStr (· == '/') path).dropLast
where
  go (ancestor : String) : List String → List String
    | [] => []
    | component :: components =>
      let next := (if ancestor.isEmpty then "" else ancestor ++ "/") ++ component
      next :: go next components

/-- The loops over the files and the empty directories. -/
def scanLayout (isDirectory : Bool) (files : List FileEntry) (emptyDirs : List String) :
    Except String LayoutScan :=
  match files.foldlM (scanFile P isDirectory) {} with
  | .error e => .error e
  | .ok scan => if isDirectory then emptyDirs.foldlM (scanDirectory P) scan else .ok scan

/-- Some path of the manifest lies inside another. -/
def conflictingHierarchy (scan : LayoutScan) : Bool :=
  let fileKeys := scan.filePaths.map (directCollisionKey P)
  let emptyDirKeys := scan.directoryPaths.map (directCollisionKey P)
  (fileKeys ++ emptyDirKeys).any fun path =>
    (ancestors path).any fun a => a ∈ fileKeys ∨ a ∈ emptyDirKeys

/-- `validate_direct_transfer_layout`. -/
def validateDirectTransferLayout (rootName : String) (isDirectory : Bool)
    (files : List FileEntry) (emptyDirs : List String) (declaredTotalSize : Nat) :
    Except String Unit :=
  match validateDirectPathComponent rootName with
  | .error e => .error e
  | .ok () =>
    if 255 < utf16Count rootName then .error "direct transfer root name is too long"
    else if directTransferMaxEntries < files.length + emptyDirs.length then
      .error "direct transfer manifest has too many entries"
    else if ¬ isDirectory ∧ ¬ (files.length = 1 ∧ (files.head?.any fun f => f.name.isEmpty) ∧
        emptyDirs.isEmpty) then .error "invalid direct file transfer layout"
    else
      match scanLayout P isDirectory files emptyDirs with
      | .error e => .error e
      | .ok scan =>
        match validateDirectMetadataBudget 0 0 (scan.filePaths ++ scan.directoryPaths) with
        | .error e => .error e
        | .ok () =>
          if conflictingHierarchy P scan then
            .error "conflicting direct transfer path hierarchy"
          else if scan.totalSize ≠ declaredTotalSize then .error "direct transfer size mismatch"
          else if directTransferMaxTotalBytes < scan.totalSize then
            .error "direct transfer exceeds the unattended size limit"
          else .ok ()

section Scan

variable {P} {isDirectory : Bool}

/-- What one accepted file adds to the scan. -/
theorem scanFile_ok {scan scan' : LayoutScan} {file : FileEntry}
    (h : scanFile P isDirectory scan file = .ok scan') :
    file.entryType = some .file ∧ ∃ n, normalizedName isDirectory file = .ok n ∧
      directCollisionKey P n ∉ scan.keys ∧
      scan' = { scan with
        keys := directCollisionKey P n :: scan.keys
        filePaths := scan.filePaths ++ [n]
        totalSize := scan.totalSize + file.size } := by
  unfold scanFile at h
  by_cases htype : file.entryType = some .file
  · rw [if_neg (not_not.mpr htype)] at h
    cases hn : normalizedName isDirectory file with
    | error e =>
      rw [hn] at h
      cases h
    | ok n =>
      rw [hn] at h
      dsimp only at h
      split_ifs at h with hkey
      exact ⟨htype, n, rfl, hkey, (Except.ok.inj h).symm⟩
  · rw [if_pos htype] at h
    cases h

/-- What the loop over the files collects: their normalized paths, with different keys. -/
theorem scanFiles_ok {files : List FileEntry} {scan scan' : LayoutScan}
    (h : files.foldlM (scanFile P isDirectory) scan = .ok scan') (hkeys : scan.keys.Nodup) :
    (∀ f ∈ files, f.entryType = some .file) ∧ scan'.keys.Nodup ∧
      scan'.totalSize = scan.totalSize + (files.map (·.size)).sum ∧
      ∃ ns, List.Forall₂ (fun f n => normalizedName isDirectory f = .ok n) files ns ∧
        scan'.filePaths = scan.filePaths ++ ns ∧
        scan'.keys = (ns.map (directCollisionKey P)).reverse ++ scan.keys := by
  induction files generalizing scan with
  | nil =>
    cases h
    exact ⟨by simp, hkeys, by simp, [], .nil, by simp, by simp⟩
  | cons f fs ih =>
    rw [List.foldlM_cons] at h
    cases hf : scanFile P isDirectory scan f with
    | error e =>
      rw [hf] at h
      cases h
    | ok mid =>
      rw [hf] at h
      obtain ⟨htype, n, hn, hkey, rfl⟩ := scanFile_ok hf
      obtain ⟨htypes, hnodup, htotal, ns, hns, hpaths, hks⟩ :=
        ih h (List.nodup_cons.mpr ⟨hkey, hkeys⟩)
      refine ⟨?_, hnodup, ?_, n :: ns, .cons hn hns, ?_, ?_⟩
      · intro g hg
        rcases List.mem_cons.mp hg with rfl | hg
        · exact htype
        · exact htypes g hg
      · rw [htotal]
        simp only [List.map_cons, List.sum_cons]
        omega
      · rw [hpaths]
        simp
      · rw [hks]
        simp

/-- The loop over the empty directories leaves the files alone. -/
theorem scanDirectories_ok {dirs : List String} {scan scan' : LayoutScan}
    (h : dirs.foldlM (scanDirectory P) scan = .ok scan') :
    scan'.filePaths = scan.filePaths ∧ scan'.totalSize = scan.totalSize := by
  induction dirs generalizing scan with
  | nil =>
    cases h
    exact ⟨rfl, rfl⟩
  | cons d ds ih =>
    rw [List.foldlM_cons] at h
    cases hd : scanDirectory P scan d with
    | error e =>
      rw [hd] at h
      cases h
    | ok mid =>
      rw [hd] at h
      unfold scanDirectory at hd
      split at hd
      · cases hd
      · split_ifs at hd
        cases hd
        have hrest := ih h
        exact hrest

end Scan

/-- What `str::to_lowercase` does to a path: it works between the slashes, and makes
neither slashes nor empty names. -/
structure Platform.FoldsPaths (P : Platform) : Prop where
  slash : ∀ a b, P.toLowercase (a ++ "/" ++ b) = P.toLowercase a ++ "/" ++ P.toLowercase b
  noSlash : ∀ a, '/' ∉ a.toList → '/' ∉ (P.toLowercase a).toList
  nonempty : ∀ a, a ≠ "" → P.toLowercase a ≠ ""

private theorem toLower_eq_slash {c : Char} (h : c.toLower = '/') : c = '/' := by
  unfold Char.toLower at h
  split at h
  · rename_i hc
    have hval := congrArg (fun d : Char => d.val.toNat) h
    have hlow := UInt32.le_iff_toNat_le.mp hc.1
    have hhigh := UInt32.le_iff_toNat_le.mp hc.2
    simp only [UInt32.toNat_add, UInt32.toNat_sub] at hval
    have hA : 'A'.val.toNat = 65 := rfl
    have hZ : 'Z'.val.toNat = 90 := rfl
    have ha : 'a'.val.toNat = 97 := rfl
    have hslash : '/'.val.toNat = 47 := rfl
    omega
  · exact h

/-- The concrete platform folds case like that. -/
theorem posix_foldsPaths : Platform.posix.FoldsPaths where
  slash a b := by
    rw [← String.toList_inj]
    simp [Platform.posix]
  noSlash a h := by
    simp only [Platform.posix, String.toList_ofList, List.mem_map, not_exists, not_and]
    intro c hc hl
    exact h (toLower_eq_slash hl ▸ hc)
  nonempty a h := by
    simpa [Platform.posix] using h

/-- A component without separators that is no dot name. -/
structure PlainComponent (c : String) : Prop where
  ne_empty : c ≠ ""
  ne_dot : c ≠ "."
  separators : ∀ x ∈ c.toList, isDirectSeparator x = false

theorem plain_of_validate {c : String} (h : validateDirectPathComponent c = .ok ()) :
    PlainComponent c := by
  unfold validateDirectPathComponent at h
  split_ifs at h with hdots hlen hchars
  rw [not_or, not_or] at hdots
  rw [Bool.not_eq_true, List.any_eq_false] at hchars
  refine ⟨hdots.1, hdots.2.1, fun x hx => ?_⟩
  have hx' := hchars x hx
  simp only [Bool.or_eq_true, not_or, Bool.not_eq_true] at hx'
  exact hx'.1.1.1

theorem plain_of_validateAll {cs : List String} (h : validateDirectPathComponents cs = .ok ()) :
    ∀ c ∈ cs, PlainComponent c := by
  induction cs with
  | nil => simp
  | cons c cs ih =>
    rw [validateDirectPathComponents] at h
    split at h
    · cases h
    · intro d hd
      rcases List.mem_cons.mp hd with rfl | hd
      · exact plain_of_validate ‹_›
      · exact ih h d hd

/-- The components a direct path is checked by. -/
def directComponents (path : String) : List String := splitStr isDirectSeparator path

theorem directComponents_ne_nil (path : String) : directComponents path ≠ [] :=
  splitStr_ne_nil _ _

/-- A normalized path joins plain components. -/
theorem normalized_ok {path n : String} (h : normalizedDirectRelativePath path = .ok n) :
    n = joinSlash (directComponents path) ∧ ∀ c ∈ directComponents path, PlainComponent c := by
  unfold normalizedDirectRelativePath directRelativeComponents at h
  split_ifs at h with hlead
  · cases h
  · cases hv : validateDirectPathComponents (splitStr isDirectSeparator path) with
    | error e =>
      rw [hv] at h
      cases h
    | ok u =>
      rw [hv] at h
      exact ⟨(Except.ok.inj h).symm, plain_of_validateAll hv⟩

section Paths

variable {P}

theorem directSeparator_of_separator (c : Char) (h : P.isSeparator c = true) :
    isDirectSeparator c = true := by
  simp only [Platform.isSeparator, isDirectSeparator, Bool.or_eq_true, Bool.and_eq_true] at h ⊢
  exact h.imp id And.right

/-- The components of the platform are coarser than those of the check. -/
theorem directComponents_eq_flatMap {path : String}
    (h : ∀ c ∈ directComponents path, PlainComponent c) :
    directComponents path = (P.components path).flatMap directComponents := by
  have hsplit : directComponents path = (splitStr P.isSeparator path).flatMap directComponents :=
    splitStr_refine directSeparator_of_separator path
  have hkeep : P.components path = splitStr P.isSeparator path := by
    refine List.filter_eq_self.mpr fun c hc => ?_
    have hpieces : ∀ d ∈ directComponents c, PlainComponent d := fun d hd => h d (by
      rw [hsplit]
      exact List.mem_flatMap.mpr ⟨c, hc, hd⟩)
    have hne : c ≠ "" := by
      rintro rfl
      exact (hpieces "" (by decide)).ne_empty rfl
    have hdot : c ≠ "." := by
      rintro rfl
      exact (hpieces "." (by decide)).ne_dot rfl
    simpa using ⟨hne, hdot⟩
  rw [hkeep]
  exact hsplit

theorem PlainComponent.noSlash {c : String} (h : PlainComponent c) : '/' ∉ c.toList := by
  intro hmem
  exact absurd (h.separators '/' hmem) (by decide)

theorem toLowercase_joinSlash (hP : P.FoldsPaths) {cs : List String} (hne : cs ≠ []) :
    P.toLowercase (joinSlash cs) = joinSlash (cs.map P.toLowercase) := by
  induction cs with
  | nil => exact absurd rfl hne
  | cons c cs ih =>
    cases cs with
    | nil => simp
    | cons d ds =>
      have hmap : (d :: ds).map P.toLowercase ≠ [] := by simp
      rw [joinSlash_cons c (List.cons_ne_nil d ds), hP.slash, ih (List.cons_ne_nil d ds),
        ← joinSlash_cons _ hmap]
      rfl

theorem joinSlash_ne_empty {cs : List String} (hne : cs ≠ []) (h : ∀ c ∈ cs, c ≠ "") :
    joinSlash cs ≠ "" := by
  cases cs with
  | nil => exact absurd rfl hne
  | cons c cs =>
    cases cs with
    | nil => simpa using h c List.mem_cons_self
    | cons d ds =>
      rw [joinSlash_cons c (List.cons_ne_nil d ds)]
      intro he
      have hlen := congrArg (fun s => s.toList.length) he
      simp at hlen

/-- One step of the hierarchy check appends a component. -/
theorem ancestor_next {pre : List String} (hne : ∀ c ∈ pre, c ≠ "") (c : String) :
    (if (joinSlash pre).isEmpty then "" else joinSlash pre ++ "/") ++ c =
      joinSlash (pre ++ [c]) := by
  by_cases hpre : pre = []
  · subst hpre
    simp [joinSlash]
  · have hsome : ¬ (joinSlash pre).isEmpty := by
      rw [String.isEmpty_iff]
      exact joinSlash_ne_empty hpre hne
    rw [if_neg hsome, joinSlash_concat c hpre]

theorem mem_ancestors_go (pre : List String) {mid : List String} (rest : List String)
    (hne : ∀ c ∈ pre ++ mid, c ≠ "") (hmid : mid ≠ []) :
    joinSlash (pre ++ mid) ∈ ancestors.go (joinSlash pre) (mid ++ rest) := by
  induction mid generalizing pre with
  | nil => exact absurd rfl hmid
  | cons c mid ih =>
    rw [List.cons_append, ancestors.go,
      ancestor_next fun d hd => hne d (List.mem_append_left _ hd)]
    by_cases hm : mid = []
    · subst hm
      exact List.mem_cons_self
    · refine List.mem_cons_of_mem _ ?_
      have hrest := ih (pre ++ [c]) (by simpa using hne) hm
      rwa [List.append_assoc] at hrest

/-- The hierarchy check visits every proper prefix of the components. -/
theorem mem_ancestors {pre rest : List String} (hpre : pre ≠ []) (hrest : rest ≠ [])
    (hne : ∀ c ∈ pre ++ rest, c ≠ "") (hslash : ∀ c ∈ pre ++ rest, '/' ∉ c.toList) :
    joinSlash pre ∈ ancestors (joinSlash (pre ++ rest)) := by
  have hall : pre ++ rest ≠ [] := fun h => hpre (List.append_eq_nil_iff.mp h).1
  rw [ancestors, splitStr_joinSlash hall hslash, List.dropLast_append_of_ne_nil hrest]
  have hgo := mem_ancestors_go [] rest.dropLast
    (fun c hc => hne c (List.mem_append_left _ hc)) hpre
  exact hgo

end Paths

section Accepted

variable {P} {rootName : String} {isDirectory : Bool} {files : List FileEntry}
  {emptyDirs : List String} {declaredTotalSize : Nat}

/-- All checks of an accepted manifest. -/
theorem accepted_cases
    (h : validateDirectTransferLayout P rootName isDirectory files emptyDirs
      declaredTotalSize = .ok ()) :
    validateDirectPathComponent rootName = .ok () ∧
      files.length + emptyDirs.length ≤ directTransferMaxEntries ∧
      (isDirectory = false → Nameless files ∧ emptyDirs = []) ∧
      ∃ scan, scanLayout P isDirectory files emptyDirs = .ok scan ∧
        validateDirectMetadataBudget 0 0 (scan.filePaths ++ scan.directoryPaths) = .ok () ∧
        conflictingHierarchy P scan = false ∧ scan.totalSize = declaredTotalSize ∧
        scan.totalSize ≤ directTransferMaxTotalBytes := by
  unfold validateDirectTransferLayout at h
  split at h
  · cases h
  · rename_i hroot
    split_ifs at h with hname hcount hshape
    split at h
    · cases h
    · rename_i scan hscan
      split at h
      · cases h
      · rename_i hbudget
        split_ifs at h with hconf hsize hmax
        refine ⟨hroot, by omega, ?_, scan, hscan, hbudget, by simpa using hconf, not_not.mp hsize,
          by omega⟩
        intro hdir
        simp only [hdir, Bool.false_eq_true, not_false_eq_true, true_and, not_not] at hshape
        obtain ⟨hlen, hhead, hdirs⟩ := hshape
        obtain ⟨f, rfl⟩ := List.length_eq_one_iff.mp hlen
        exact ⟨⟨f, rfl, by simpa using hhead⟩, by simpa using hdirs⟩

/-- What the scan of an accepted manifest satisfied. -/
theorem scan_of_accepted
    (h : validateDirectTransferLayout P rootName isDirectory files emptyDirs
      declaredTotalSize = .ok ()) :
    files.length ≤ directTransferMaxEntries ∧
      (isDirectory = false → Nameless files ∧ emptyDirs = []) ∧
      ∃ scan, scanLayout P isDirectory files emptyDirs = .ok scan ∧
        conflictingHierarchy P scan = false ∧ scan.totalSize = declaredTotalSize ∧
        scan.totalSize ≤ directTransferMaxTotalBytes := by
  obtain ⟨-, hcount, hshape, scan, hscan, -, hrest⟩ := accepted_cases h
  exact ⟨by omega, hshape, scan, hscan, hrest⟩

/-- The files of a scanned manifest: their types, sizes and normalized paths. -/
theorem files_of_scan {scan : LayoutScan}
    (h : scanLayout P isDirectory files emptyDirs = .ok scan) :
    (∀ f ∈ files, f.entryType = some .file) ∧ scan.totalSize = (files.map (·.size)).sum ∧
      (scan.filePaths.map (directCollisionKey P)).Nodup ∧
      List.Forall₂ (fun f n => normalizedName isDirectory f = .ok n) files scan.filePaths := by
  unfold scanLayout at h
  split at h
  · cases h
  · rename_i mid hmid
    obtain ⟨htypes, hnodup, htotal, ns, hns, hpaths, hkeys⟩ := scanFiles_ok hmid List.nodup_nil
    have hkept : scan.filePaths = mid.filePaths ∧ scan.totalSize = mid.totalSize := by
      split_ifs at h
      · exact scanDirectories_ok h
      · cases h
        exact ⟨rfl, rfl⟩
    rw [List.nil_append] at hpaths
    refine ⟨htypes, ?_, ?_, ?_⟩
    · rw [hkept.2, htotal, Nat.zero_add]
    · rw [hkept.1, hpaths]
      rwa [hkeys, List.append_nil, List.nodup_reverse] at hnodup
    · rwa [hkept.1, hpaths]

/-- The total of an accepted manifest is the sum of its sizes, within the limit. -/
theorem total_of_accepted
    (h : validateDirectTransferLayout P rootName isDirectory files emptyDirs
      declaredTotalSize = .ok ()) :
    (files.map (·.size)).sum = declaredTotalSize ∧
      declaredTotalSize ≤ directTransferMaxTotalBytes ∧
      files.length ≤ directTransferMaxEntries := by
  obtain ⟨hcount, -, scan, hscan, -, hsize, hmax⟩ := scan_of_accepted h
  have htotal := (files_of_scan hscan).2.1
  omega

/-- The normalized paths of the files of a directory manifest. -/
theorem filePaths_eq {ns : List String}
    (h : List.Forall₂ (fun f n => normalizedName true f = .ok n) files ns) :
    ns = files.map (fun f => joinSlash (directComponents f.name)) ∧
      ∀ f ∈ files, ∀ c ∈ directComponents f.name, PlainComponent c := by
  induction h with
  | nil => simp
  | cons hn _ ih =>
    obtain ⟨rfl, hplain⟩ := normalized_ok (show normalizedDirectRelativePath _ = _ from hn)
    refine ⟨by rw [List.map_cons, ← ih.1], ?_⟩
    intro g hg
    rcases List.mem_cons.mp hg with rfl | hg
    · exact hplain
    · exact ih.2 g hg

/-- The files of a scanned directory manifest have names. -/
theorem components_ne_nil_of_scan {scan : LayoutScan}
    (hscan : scanLayout P true files emptyDirs = .ok scan) :
    ∀ f ∈ files, P.components f.name ≠ [] := by
  obtain ⟨-, -, -, hforall⟩ := files_of_scan hscan
  intro f hf he
  have hnil := directComponents_eq_flatMap (P := P) ((filePaths_eq hforall).2 f hf)
  rw [he] at hnil
  exact directComponents_ne_nil _ hnil

/-- The files of an accepted directory manifest have regular names. -/
theorem regularNames_of_scan (hP : P.FoldsPaths) {scan : LayoutScan}
    (hscan : scanLayout P true files emptyDirs = .ok scan)
    (hconf : conflictingHierarchy P scan = false) : RegularNames P files := by
  obtain ⟨-, -, hnodup, hforall⟩ := files_of_scan hscan
  obtain ⟨hpaths, hplain⟩ := filePaths_eq hforall
  have hcomps : ∀ f ∈ files, directComponents f.name =
      (P.components f.name).flatMap directComponents := fun f hf =>
    directComponents_eq_flatMap (hplain f hf)
  have hnonempty := components_ne_nil_of_scan hscan
  refine ⟨hnonempty, ?_, ?_⟩
  · have hkeys : scan.filePaths.map (directCollisionKey P) =
        (files.map fun f => P.components f.name).map fun cs =>
          directCollisionKey P (joinSlash (cs.flatMap directComponents)) := by
      rw [hpaths, List.map_map, List.map_map]
      refine List.map_congr_left fun f hf => ?_
      simp only [Function.comp, hcomps f hf]
    rw [hkeys] at hnodup
    exact hnodup.of_map
  · intro f hf g hg hpre
    obtain ⟨rest, hrest⟩ := hpre.trans (List.dropLast_prefix _)
    have hne : rest ≠ [] := by
      rintro rfl
      rw [List.append_nil] at hrest
      exact not_prefix_dropLast (hnonempty f hf) rfl (hrest ▸ hpre)
    have hkey : ∀ f ∈ files, directCollisionKey P (joinSlash (directComponents f.name)) =
        joinSlash ((directComponents f.name).map P.toLowercase) := fun f _ =>
      toLowercase_joinSlash hP (directComponents_ne_nil f.name)
    have hmem : ∀ f ∈ files, joinSlash ((directComponents f.name).map P.toLowercase) ∈
        scan.filePaths.map (directCollisionKey P) := by
      intro f hf
      rw [← hkey f hf, hpaths]
      exact List.mem_map_of_mem (List.mem_map.mpr ⟨f, hf, rfl⟩)
    have happ : directComponents g.name =
        directComponents f.name ++ rest.flatMap directComponents := by
      rw [hcomps g hg, ← hrest, List.flatMap_append, ← hcomps f hf]
    have hrestne : rest.flatMap directComponents ≠ [] := by
      obtain ⟨c, cs, rfl⟩ := List.exists_cons_of_ne_nil hne
      rw [List.flatMap_cons]
      exact fun he => directComponents_ne_nil c (List.append_eq_nil_iff.mp he).1
    have hanc : joinSlash ((directComponents f.name).map P.toLowercase) ∈
        ancestors (joinSlash ((directComponents g.name).map P.toLowercase)) := by
      have hplain' := hplain g hg
      rw [happ] at hplain' ⊢
      rw [List.map_append]
      refine mem_ancestors (by simpa using directComponents_ne_nil f.name)
        (by simpa using hrestne) ?_ ?_
      · rw [← List.map_append]
        intro c hc
        obtain ⟨d, hd, rfl⟩ := List.mem_map.mp hc
        exact hP.nonempty d (hplain' d hd).ne_empty
      · rw [← List.map_append]
        intro c hc
        obtain ⟨d, hd, rfl⟩ := List.mem_map.mp hc
        exact hP.noSlash d (hplain' d hd).noSlash
    have hconflict : conflictingHierarchy P scan = true := by
      refine List.any_eq_true.mpr ⟨_, List.mem_append_left _ (hmem g hg), ?_⟩
      exact List.any_eq_true.mpr ⟨_, hanc, decide_eq_true (.inl (hmem f hf))⟩
    rw [hconf] at hconflict
    cases hconflict

/-- The files of an accepted manifest can stand side by side at their destination. -/
theorem regular_of_accepted {base : PathBuf} (hP : P.FoldsPaths) (hbase : base ≠ [])
    (h : validateDirectTransferLayout P rootName isDirectory files emptyDirs
      declaredTotalSize = .ok ()) : RegularFiles P base files := by
  obtain ⟨-, hshape, scan, hscan, hconf, -⟩ := scan_of_accepted h
  cases isDirectory with
  | true => exact .inr (regularNames_of_scan hP hscan hconf)
  | false => exact .inl ⟨(hshape rfl).1, hbase⟩

end Accepted

end MDesk
