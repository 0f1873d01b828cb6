import MDesk.Codec.BytesCodec
import MDesk.Core.Text

/-!
# Paths and names of transferred files

A `PathBuf` is its list of components. Names sent by a peer are strings; joining a
name to a path splits it at the separators of the platform. Every transferred file
is written through a `.download` file and accompanied by a `.digest` file next to it.
-/

namespace MDesk

/-- What binds an opened source to the file seen by the manifest walk. -/
structure DirectSourceIdentity where
  volumeSerial : Nat := 0
  fileIndex : Nat := 0
  fileSize : Nat := 0
  lastWriteTime : Nat := 0
  deriving DecidableEq, Repr

/-- What the transfer code takes from its target platform, the standard library and
the compression crate. -/
structure Platform where
  /-- `cfg!(windows)`. -/
  windows : Bool
  /-- `GetFileInformationByHandle` on a file opened by its path. -/
  fileInformation : List String → DirectSourceIdentity
  /-- `str::to_lowercase`. -/
  toLowercase : String → String
  /-- `zstd` compression of one block. -/
  compress : Bytes → Bytes
  /-- `zstd::decode_all`, `none` for a malformed frame. -/
  decodeAll : Bytes → Option Bytes

/-- `compress::decompress`: a malformed frame decodes to nothing. -/
def Platform.decompress (P : Platform) (data : Bytes) : Bytes := (P.decodeAll data).getD []

/-- Bytes that decompress to something decode to it. -/
theorem Platform.decodeAll_eq {P : Platform} {wire data : Bytes} (h : P.decompress wire = data)
    (hne : data ≠ []) : P.decodeAll wire = some data := by
  unfold Platform.decompress at h
  cases hdec : P.decodeAll wire with
  | none =>
    rw [hdec] at h
    exact absurd h.symm hne
  | some out =>
    rw [hdec, Option.getD_some] at h
    exact congrArg some h

abbrev PathBuf := List String

/-- `str::split` at the characters satisfying `p`. -/
def splitStr (p : Char → Bool) (s : String) : List String :=
  (s.toList.splitOnP p).map String.ofList

/-- `[String]::join("/")`. -/
def joinSlash (cs : List String) : String :=
  String.ofList (['/'].intercalate (cs.map String.toList))

/-- A platform to run the model on: ASCII case folding, and frames that store their data
behind the `zstd` magic number. -/
def Platform.posix : Platform where
  windows := false
  fileInformation _ := {}
  toLowercase s := String.ofList (s.toList.map Char.toLower)
  compress data := 0x28 :: 0xb5 :: 0x2f :: 0xfd :: data
  decodeAll
    | 0x28 :: 0xb5 :: 0x2f :: 0xfd :: data => some data
    | [] => some []
    | _ => none

@[simp] theorem joinSlash_singleton (c : String) : joinSlash [c] = c := by
  simp [joinSlash]

theorem joinSlash_cons {cs : List String} (c : String) (h : cs ≠ []) :
    joinSlash (c :: cs) = c ++ "/" ++ joinSlash cs := by
  have hne : cs.map String.toList ≠ [] := by simpa using h
  rw [← String.toList_inj, joinSlash, List.map_cons, List.intercalate_cons_of_ne_nil hne]
  simp [joinSlash]

theorem joinSlash_concat {cs : List String} (c : String) (h : cs ≠ []) :
    joinSlash (cs ++ [c]) = joinSlash cs ++ "/" ++ c := by
  induction cs with
  | nil => exact absurd rfl h
  | cons d cs ih =>
    cases cs with
    | nil => rw [List.singleton_append, joinSlash_cons d (List.cons_ne_nil c []),
        joinSlash_singleton, joinSlash_singleton]
    | cons e es =>
      rw [List.cons_append, joinSlash_cons d (by simp), ih (List.cons_ne_nil e es),
        joinSlash_cons d (List.cons_ne_nil e es)]
      simp only [String.append_assoc]

/-- Splitting at a separator undoes a join with it. -/
theorem splitStr_intercalate {sep : Char} {cs : List String} (hne : cs ≠ [])
    (h : ∀ c ∈ cs, sep ∉ c.toList) :
    splitStr (· == sep) (String.ofList ([sep].intercalate (cs.map String.toList))) = cs := by
  have hsplit := List.splitOn_intercalate sep
    (show ∀ l ∈ cs.map String.toList, sep ∉ l by simpa using h) (by simpa using hne)
  rw [List.splitOn_eq_splitOnP] at hsplit
  rw [splitStr, String.toList_ofList, hsplit, List.map_map]
  simp

theorem splitStr_joinSlash {cs : List String} (hne : cs ≠ []) (h : ∀ c ∈ cs, '/' ∉ c.toList) :
    splitStr (· == '/') (joinSlash cs) = cs := splitStr_intercalate hne h

/-- A join undoes a split at the slashes. -/
theorem joinSlash_splitStr (s : String) : joinSlash (splitStr (· == '/') s) = s := by
  have hsplit : ['/'].intercalate (s.toList.splitOn '/') = s.toList := List.intercalate_splitOn '/'
  rw [List.splitOn_eq_splitOnP] at hsplit
  rw [← String.toList_inj, joinSlash, splitStr, String.toList_ofList, List.map_map]
  simpa [Function.comp_def] using hsplit

theorem slash_notMem_splitStr {s part : String} (h : part ∈ splitStr (· == '/') s) :
    '/' ∉ part.toList := by
  obtain ⟨x, hx, rfl⟩ := List.mem_map.mp h
  rw [String.toList_ofList]
  intro hmem
  cases Core.splitOnP_forall hx '/' hmem

theorem splitStr_ne_nil (p : Char → Bool) (s : String) : splitStr p s ≠ [] := by
  simp [splitStr, List.splitOnP_ne_nil p s.toList]

/-- Splitting at fewer separators first and then at the others. -/
theorem splitOnP_refine {p q : Char → Bool} (h : ∀ c, p c = true → q c = true) (l : List Char) :
    l.splitOnP q = (l.splitOnP p).flatMap (List.splitOnP q) := by
  induction l with
  | nil => simp [List.splitOnP_nil]
  | cons c l ih =>
    rw [List.splitOnP_cons_eq_if_modifyHead, List.splitOnP_cons_eq_if_modifyHead, ih]
    by_cases hp : p c
    · simp [hp, h c hp, List.splitOnP_nil]
    · obtain ⟨m, ms, hm⟩ := List.exists_cons_of_ne_nil (List.splitOnP_ne_nil p l)
      rw [if_neg hp, hm, List.modifyHead_cons, List.flatMap_cons, List.flatMap_cons,
        List.splitOnP_cons_eq_if_modifyHead]
      by_cases hq : q c
      · simp [hq]
      · obtain ⟨k, ks, hk⟩ := List.exists_cons_of_ne_nil (List.splitOnP_ne_nil q m)
        simp [hq, hk]

theorem splitStr_refine {p q : Char → Bool} (h : ∀ c, p c = true → q c = true) (s : String) :
    splitStr q s = (splitStr p s).flatMap (splitStr q) := by
  rw [splitStr, splitOnP_refine h, splitStr, List.flatMap_map, List.map_flatMap]
  simp [splitStr]

/-- The path separators of the platform. -/
def Platform.isSeparator (P : Platform) (c : Char) : Bool := c == '/' || (P.windows && c == '\\')

/-- `Path::components` of a relative name: repeated separators and `.` are skipped. -/
def Platform.components (P : Platform) (name : String) : PathBuf :=
  (splitStr P.isSeparator name).filter fun c => c ≠ "" ∧ c ≠ "."

/-- `TransferJob::join`. -/
def Platform.join (P : Platform) (p : PathBuf) (name : String) : PathBuf :=
  if name.isEmpty then p else p ++ P.components name

/-- Append a suffix to the last component, as `format!("{path}{suffix}")` does. -/
def withSuffix (suffix : String) : PathBuf → PathBuf
  | [] => [suffix]
  | [c] => [c ++ suffix]
  | c :: d :: cs => c :: withSuffix suffix (d :: cs)

/-- `{path}.download`. -/
def downloadPath (p : PathBuf) : PathBuf := withSuffix ".download" p

/-- `{path}.digest`. -/
def digestPath (p : PathBuf) : PathBuf := withSuffix ".digest" p

theorem withSuffix_append_singleton (suffix : String) (p : PathBuf) (c : String) :
    withSuffix suffix (p ++ [c]) = p ++ [c ++ suffix] := by
  induction p with
  | nil => rfl
  | cons d p ih =>
    cases p with
    | nil => rfl
    | cons e p =>
      rw [List.cons_append, List.cons_append, withSuffix, ← List.cons_append, ih,
        ← List.cons_append]

@[simp] theorem withSuffix_ne_nil (suffix : String) (p : PathBuf) : withSuffix suffix p ≠ [] := by
  match p with
  | [] => simp [withSuffix]
  | [c] => simp [withSuffix]
  | c :: d :: cs => simp [withSuffix]

/-- A suffix stays in the directory of the path. -/
@[simp] theorem withSuffix_dropLast (suffix : String) (p : PathBuf) :
    (withSuffix suffix p).dropLast = p.dropLast := by
  rcases List.eq_nil_or_concat' p with rfl | ⟨q, c, rfl⟩
  · rfl
  · rw [withSuffix_append_singleton, List.dropLast_concat, List.dropLast_concat]

theorem withSuffix_inj {suffix : String} {p q : PathBuf} (hp : p ≠ []) (hq : q ≠ [])
    (h : withSuffix suffix p = withSuffix suffix q) : p = q := by
  rcases List.eq_nil_or_concat' p with rfl | ⟨p, c, rfl⟩
  · exact absurd rfl hp
  rcases List.eq_nil_or_concat' q with rfl | ⟨q, d, rfl⟩
  · exact absurd rfl hq
  rw [withSuffix_append_singleton, withSuffix_append_singleton] at h
  obtain ⟨rfl, hc⟩ := List.append_inj' h rfl
  rw [List.cons.injEq, String.append_left_inj] at hc
  rw [hc.1]

/-- A nonempty suffix changes the path. -/
theorem withSuffix_ne {suffix : String} (hs : suffix ≠ "") (p : PathBuf) :
    withSuffix suffix p ≠ p := by
  rcases List.eq_nil_or_concat' p with rfl | ⟨q, c, rfl⟩
  · simp [withSuffix]
  · rw [withSuffix_append_singleton]
    intro h
    have hc := (List.append_inj' h rfl).2
    rw [List.cons.injEq] at hc
    have hlen := congrArg (fun s => s.toList.length) hc.1
    simp only [String.toList_append, List.length_append] at hlen
    exact hs (String.toList_eq_nil_iff.mp (List.eq_nil_of_length_eq_zero (by omega)))

/-- The staging file of one path is never the digest file of another. -/
theorem downloadPath_ne_digestPath (p q : PathBuf) : downloadPath p ≠ digestPath q := by
  have hlast (suffix : String) (p : PathBuf) :
      ∃ r c, withSuffix suffix p = r ++ [c ++ suffix] := by
    rcases List.eq_nil_or_concat' p with rfl | ⟨r, c, rfl⟩
    · exact ⟨[], "", by simp [withSuffix]⟩
    · exact ⟨r, c, withSuffix_append_singleton suffix r c⟩
  intro h
  obtain ⟨r, c, hp⟩ := hlast ".download" p
  obtain ⟨s, d, hq⟩ := hlast ".digest" q
  rw [downloadPath, digestPath, hp, hq] at h
  have hcd := (List.append_inj' h rfl).2
  rw [List.cons.injEq, ← String.toList_inj, String.toList_append, String.toList_append] at hcd
  have hrev := congrArg (fun l => l.reverse.head?) hcd.1
  simp at hrev

end MDesk
