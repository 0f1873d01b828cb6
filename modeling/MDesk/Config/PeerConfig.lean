import MDesk.Core.Base64
import MDesk.Core.Utf8
import MDesk.Transfer.Path
import Mathlib.Algebra.Order.BigOperators.Group.List
import Mathlib.Algebra.Order.Ring.Nat
import Mathlib.Data.Finset.Insert
import Mathlib.Data.List.DropRight

/-!
# The files of the peer configurations

Every peer has a file of its own in the directory of the peers. Its name is the id of the
peer, or the id in base64 behind a marker where it has a character that no file name may
have, and the list of the peers is read back from the names of the files. Base64 has a digit
that is a separator itself, and an id may look like an encoded one.
-/

namespace MDesk

open Core

namespace PeerConfig

/-- `Path::file_name`. -/
def fileName (p : PathBuf) : Option String := p.getLast?.filter (· ≠ "..")

/-- A file name around its last dot, unless nothing is in front of that. -/
def splitName (name : List Char) : List Char × Option (List Char) :=
  let before := (name.rdropWhile (· ≠ '.')).dropLast
  let after := name.rtakeWhile (· ≠ '.')
  if before = [] then (name, none) else (before, some after)

/-- `Path::file_stem`. -/
def fileStem (p : PathBuf) : Option String :=
  (fileName p).map fun name => String.ofList (splitName name.toList).1

/-- `Path::extension`. -/
def extension (p : PathBuf) : Option String :=
  (fileName p).bind fun name => (splitName name.toList).2.map String.ofList

/-- `Path::with_extension`, which leaves a path without a file name. -/
def setExtension (p : PathBuf) (ext : String) : PathBuf :=
  match fileStem p with
  | none => p
  | some stem => p.dropLast ++ [if ext = "" then stem else stem ++ "." ++ ext]

/-- `Config::with_extension`. -/
def withExtension (p : PathBuf) : PathBuf :=
  match extension p with
  | some ext => setExtension p (ext ++ ".toml")
  | none => setExtension p "toml"

/-- What the pattern `[<>:/\\|\?\*]` matches. -/
def forbiddenPaths : List Char := ['<', '>', ':', '/', '\\', '|', '?', '*']

def Forbidden (id : String) : Prop := ∃ c ∈ id.toList, c ∈ forbiddenPaths

instance (id : String) : Decidable (Forbidden id) := List.decidableBEx _ _

def marker : List Char := "base64_".toList

/-- `base64::encode` of an id. -/
def idBase64 (id : String) : List Char := base64Encode (utf8Bytes id.toList)

def encodedId (id : String) : String :=
  if Forbidden id then String.ofList (marker ++ idBase64 id) else id

/-- `Config::path(PEERS)`. -/
def peersDir (P : Platform) (configDir : PathBuf) : PathBuf := configDir ++ P.components "peers"

/-- `PeerConfig::path`. The name is never that of an absolute path. -/
def path (P : Platform) (configDir : PathBuf) (id : String) : PathBuf :=
  withExtension (peersDir P configDir ++ P.components (encodedId id))

/-- The id that the stem of a file name stands for. What does not decode stands for the empty
one. -/
def decodedId (stem : String) : String :=
  if marker <+: stem.toList ∧ (utf8Bytes stem.toList).length ≠ 7 then
    String.ofList (utf8Lossy ((base64Decode (stem.toList.drop 7)).getD []))
  else stem

/-- What `read_dir` yields. -/
structure DirEntry where
  path : PathBuf
  isFile : Bool
  modified : Nat
  deriving DecidableEq, Repr

/-- `PeerConfig::get_vec_id_modified_time_path` on the entries of the directory. -/
def getVecIdModifiedTimePath (idFilters : Option (List String)) (entries : List DirEntry) :
    List (String × Nat × PathBuf) :=
  (((entries.filter fun e => e.isFile && extension e.path == some "toml").map fun e =>
    (decodedId ((fileStem e.path).getD ""), e.modified, e.path)).filter fun r =>
      idFilters.all fun filters => filters.contains r.1).mergeSort fun a b => b.2.1 ≤ a.2.1

/-- A file of a directory itself. -/
def Inside (dir p : PathBuf) : Prop := ∃ name, name ≠ ".." ∧ p = dir ++ [name]

/-- The files of the directory of the peers are those that were stored for some ids. -/
structure Holds (P : Platform) (configDir : PathBuf) (ids : Finset String)
    (entries : List DirEntry) : Prop where
  files : ∀ p, (∃ e ∈ entries, e.isFile = true ∧ e.path = p) ↔
    Inside (peersDir P configDir) p ∧ ∃ id ∈ ids, path P configDir id = p
  nodup : (entries.map DirEntry.path).Nodup

/-- The ids are kept apart by their files and come back from them. -/
structure Named (P : Platform) (configDir : PathBuf) (ids : Finset String) : Prop where
  inside : ∀ id ∈ ids, Inside (peersDir P configDir) (path P configDir id)
  distinct : ∀ a ∈ ids, ∀ b ∈ ids, path P configDir a = path P configDir b → a = b
  listed : ∀ entries, Holds P configDir ids entries →
    ((getVecIdModifiedTimePath none entries).map Prod.fst).Perm ids.toList

/-- An id that is encoded has no slash in its base64, and any other one is a file name and
does not look encoded. -/
def Nameable (id : String) : Prop :=
  if Forbidden id then '/' ∉ idBase64 id
  else id ≠ "" ∧ id ≠ "." ∧ id ≠ ".." ∧ (marker <+: id.toList → id.toList = marker)

instance (id : String) : Decidable (Nameable id) :=
  inferInstanceAs (Decidable (if Forbidden id then _ else _))

variable {P : Platform} {configDir dir : PathBuf} {id name : String}

theorem fileName_concat (h : name ≠ "..") : fileName (dir ++ [name]) = some name := by
  rw [fileName, List.getLast?_concat, Option.filter_some, if_pos (by simpa using h)]

/-- A name is what is around its last dot. -/
theorem splitName_join (name : List Char) :
    (splitName name).1 ++ ((splitName name).2.map ('.' :: ·)).getD [] = name := by
  by_cases hbefore : (name.rdropWhile (· ≠ '.')).dropLast = []
  · simp only [splitName, if_pos hbefore]
    exact List.append_nil name
  · simp only [splitName, if_neg hbefore]
    have hne : name.rdropWhile (· ≠ '.') ≠ [] := fun h => hbefore (by rw [h]; rfl)
    have hdot : (name.rdropWhile (· ≠ '.')).getLast hne = '.' := by
      simpa using List.rdropWhile_last_not (· ≠ '.') name hne
    have hbefore' := List.dropLast_append_getLast hne
    rw [hdot] at hbefore'
    calc (name.rdropWhile (· ≠ '.')).dropLast ++ '.' :: name.rtakeWhile (· ≠ '.')
        = ((name.rdropWhile (· ≠ '.')).dropLast ++ ['.']) ++ name.rtakeWhile (· ≠ '.') := by simp
      _ = name.rdropWhile (· ≠ '.') ++ name.rtakeWhile (· ≠ '.') := by rw [hbefore']
      _ = name := List.rdropWhile_append_rtakeWhile ..

theorem splitName_append {stem ext : List Char} (hstem : stem ≠ []) (hext : '.' ∉ ext) :
    splitName (stem ++ '.' :: ext) = (stem, some ext) := by
  have hplain : ∀ c ∈ ext.reverse, decide (c ≠ '.') = true := by
    intro c hc
    simpa using fun h : c = '.' => hext (h ▸ List.mem_reverse.mp hc)
  have hrev : (stem ++ '.' :: ext).reverse = ext.reverse ++ '.' :: stem.reverse := by simp
  have hbefore : (stem ++ '.' :: ext).rdropWhile (· ≠ '.') = stem ++ ['.'] := by
    rw [List.rdropWhile, hrev, List.dropWhile_append_of_pos hplain]
    simp
  have hafter : (stem ++ '.' :: ext).rtakeWhile (· ≠ '.') = ext := by
    rw [List.rtakeWhile, hrev, List.takeWhile_append_of_pos hplain]
    simp
  unfold splitName
  rw [hbefore, hafter, List.dropLast_concat, if_neg hstem]

/-- The name of a configuration file is the name in front and the extension. -/
theorem withExtension_concat (h : name ≠ "..") :
    withExtension (dir ++ [name]) = dir ++ [name ++ ".toml"] := by
  have hjoin := splitName_join name.toList
  unfold withExtension
  cases hext : (splitName name.toList).2 with
  | none =>
    have hextension : extension (dir ++ [name]) = none := by
      rw [extension, fileName_concat h, Option.bind_some, hext]
      rfl
    have hstem : fileStem (dir ++ [name]) = some name := by
      rw [hext] at hjoin
      rw [fileStem, fileName_concat h, Option.map_some]
      congr 1
      rw [← String.toList_inj, String.toList_ofList]
      simpa using hjoin
    simp only [hextension, setExtension, hstem, List.dropLast_concat,
      if_neg (show "toml" ≠ "" by decide), String.append_assoc]
    rfl
  | some ext =>
    have hextension : extension (dir ++ [name]) = some (String.ofList ext) := by
      rw [extension, fileName_concat h, Option.bind_some, hext]
      rfl
    have hname : String.ofList (splitName name.toList).1 ++ "." ++ String.ofList ext = name := by
      rw [hext] at hjoin
      rw [← String.toList_inj]
      simpa using hjoin
    have hstem : fileStem (dir ++ [name]) = some (String.ofList (splitName name.toList).1) := by
      rw [fileStem, fileName_concat h]
      rfl
    have hne : String.ofList ext ++ ".toml" ≠ "" := by simp
    simp only [hextension, setExtension, hstem, List.dropLast_concat, if_neg hne]
    rw [← String.append_assoc, hname]

/-- A path without a file name stays as it is. -/
theorem withExtension_none (h : fileName dir = none) : withExtension dir = dir := by
  have hextension : extension dir = none := by rw [extension, h]; rfl
  have hstem : fileStem dir = none := by rw [fileStem, h]; rfl
  simp only [withExtension, hextension, setExtension, hstem]

theorem append_toml_ne (name : String) : name ++ ".toml" ≠ ".." := by
  intro h
  have hlast := congrArg (fun s : String => s.toList.getLast?) h
  simp at hlast

/-- The stem of the name of a configuration file is the name in front. -/
theorem toml_file (h : name ≠ "") : extension (dir ++ [name ++ ".toml"]) = some "toml" ∧
    fileStem (dir ++ [name ++ ".toml"]) = some name := by
  have hsplit : splitName (name ++ ".toml").toList = (name.toList, some "toml".toList) := by
    rw [String.toList_append]
    exact splitName_append (by simpa using h) (by decide)
  rw [extension, fileStem, fileName_concat (append_toml_ne name), Option.bind_some,
    Option.map_some, hsplit]
  exact ⟨congrArg some String.ofList_toList, congrArg some String.ofList_toList⟩

theorem separator_cases {c : Char} (h : P.isSeparator c = true) : c = '/' ∨ c = '\\' := by
  simp only [Platform.isSeparator, Bool.or_eq_true, beq_iff_eq, Bool.and_eq_true] at h
  exact h.imp_right And.right

theorem no_separator (cs : List Char) (h : (cs.all fun c => c ≠ '/' && c ≠ '\\') = true) {c : Char}
    (hc : c ∈ cs) : ¬ P.isSeparator c = true := by
  have hplain := List.all_eq_true.mp h c hc
  intro hsep
  rcases separator_cases hsep with rfl | rfl <;> simp at hplain

theorem forbidden_of_separator {c : Char} (hc : c ∈ id.toList) (h : P.isSeparator c = true) :
    Forbidden id := by
  refine ⟨c, hc, ?_⟩
  rcases separator_cases h with rfl | rfl <;> decide

/-- A name without a separator is one component. -/
theorem components_plain (h : ∀ c ∈ name.toList, ¬ P.isSeparator c = true) :
    P.components name = [name].filter fun c => c ≠ "" ∧ c ≠ "." := by
  rw [Platform.components, splitStr, List.splitOnP_eq_singleton fun c hc =>
    Bool.eq_false_iff.mpr (h c hc), List.map_singleton, String.ofList_toList]

theorem components_name (h : ∀ c ∈ name.toList, ¬ P.isSeparator c = true) (hne : name ≠ "")
    (hdot : name ≠ ".") : P.components name = [name] := by
  rw [components_plain h]
  simp [hne, hdot]

theorem peersDir_eq (P : Platform) (configDir : PathBuf) :
    peersDir P configDir = configDir ++ ["peers"] := by
  rw [peersDir, components_name (fun c hc hsep => ?_) (by decide) (by decide)]
  exact no_separator "peers".toList (by decide) hc hsep

/-- Where the name of the file is one component, the file is in the directory. -/
theorem path_of_component (h : P.components (encodedId id) = [name]) (hne : name ≠ "..") :
    path P configDir id = peersDir P configDir ++ [name ++ ".toml"] := by
  rw [path, h, withExtension_concat hne]

/-- What base64 is written in is no separator but the slash, and no dot. -/
theorem base64_plain {c : Char} (h : c ∈ idBase64 id) :
    c ≠ '.' ∧ (P.isSeparator c = true → c = '/') := by
  have hall : (('=' :: base64Alphabet).all fun c => c ≠ '.' ∧ c ≠ '\\') = true := by decide
  have hmem : c ∈ '=' :: base64Alphabet := by
    simpa [or_comm] using mem_base64Encode h
  obtain ⟨hdot, hback⟩ := of_decide_eq_true (List.all_eq_true.mp hall c hmem)
  exact ⟨hdot, fun hsep => (separator_cases hsep).resolve_right hback⟩

theorem length_le_utf8Bytes (cs : List Char) : cs.length ≤ (utf8Bytes cs).length := by
  have hlen := utf8Lossy_length (utf8Bytes cs)
  rwa [utf8Lossy_bytes] at hlen

theorem marker_length : marker.length = 7 := by
  decide

theorem marker_plain {c : Char} (hc : c ∈ marker) : ¬ P.isSeparator c = true :=
  no_separator marker (by decide) hc

/-- The bytes of an encoded name are more than those of the marker. -/
theorem marker_lt {cs : List Char} (hne : cs ≠ []) : (utf8Bytes (marker ++ cs)).length ≠ 7 := by
  have hpos := List.length_pos_of_ne_nil hne
  have hlen := length_le_utf8Bytes (marker ++ cs)
  rw [List.length_append, marker_length] at hlen
  omega

theorem idBase64_length (hne : id ≠ "") : 4 ≤ (idBase64 id).length ∧ 4 ∣ (idBase64 id).length := by
  have hbytes := length_le_utf8Bytes id.toList
  have hpos := List.length_pos_of_ne_nil (mt String.toList_eq_nil_iff.mp hne)
  rw [idBase64, base64Encode_length]
  omega

/-- The id of an encoded name. -/
theorem decodedId_encoded (hne : id ≠ "") :
    decodedId (String.ofList (marker ++ idBase64 id)) = id := by
  have hlen := (idBase64_length hne).1
  have hmore : (utf8Bytes (marker ++ idBase64 id)).length ≠ 7 :=
    marker_lt (List.ne_nil_of_length_pos (by omega))
  rw [decodedId, String.toList_ofList, if_pos ⟨List.prefix_append _ _, hmore⟩,
    List.drop_left' marker_length, idBase64, base64Decode_encode, Option.getD_some, utf8Lossy_bytes,
    String.ofList_toList]

theorem decodedId_length {cs : List Char} (hne : cs ≠ []) :
    (decodedId (String.ofList (marker ++ cs))).toList.length ≤
      ((base64Decode cs).getD []).length := by
  rw [decodedId, String.toList_ofList, if_pos ⟨List.prefix_append _ _, marker_lt hne⟩,
    List.drop_left' marker_length, String.toList_ofList]
  exact utf8Lossy_length _

theorem ne_empty_of_forbidden (h : Forbidden id) : id ≠ "" := by
  rintro rfl
  obtain ⟨c, hc, -⟩ := h
  cases hc

/-- A name behind the marker is none of the names with a meaning. -/
theorem marked_ne (cs : List Char) : String.ofList (marker ++ cs) ≠ "" ∧
    String.ofList (marker ++ cs) ≠ "." ∧ String.ofList (marker ++ cs) ≠ ".." := by
  have hlong (s : String) (hs : s.toList.length < 7) : String.ofList (marker ++ cs) ≠ s := by
    rintro rfl
    rw [String.toList_ofList, List.length_append, marker_length] at hs
    omega
  exact ⟨hlong _ (by decide), hlong _ (by decide), hlong _ (by decide)⟩

/-- An id that meets the condition has a file of its own, from which it comes back. -/
theorem nameable_file (P : Platform) (configDir : PathBuf) (h : Nameable id) : encodedId id ≠ "" ∧
    path P configDir id = peersDir P configDir ++ [encodedId id ++ ".toml"] ∧
    decodedId (encodedId id) = id := by
  unfold Nameable at h
  by_cases hforbidden : Forbidden id
  · rw [if_pos hforbidden] at h
    have henc : encodedId id = String.ofList (marker ++ idBase64 id) := if_pos hforbidden
    obtain ⟨hempty, hdot, hdots⟩ := marked_ne (idBase64 id)
    have hplain : ∀ c ∈ (encodedId id).toList, ¬ P.isSeparator c = true := by
      intro c hc hsep
      rw [henc, String.toList_ofList] at hc
      rcases List.mem_append.mp hc with hmarker | hdigits
      · exact marker_plain hmarker hsep
      · exact h ((base64_plain hdigits).2 hsep ▸ hdigits)
    refine ⟨henc ▸ hempty, ?_, ?_⟩
    · exact path_of_component (components_name hplain (henc ▸ hempty) (henc ▸ hdot)) (henc ▸ hdots)
    · rw [henc, decodedId_encoded (ne_empty_of_forbidden hforbidden)]
  · rw [if_neg hforbidden] at h
    obtain ⟨hempty, hdot, hdots, hmarker⟩ := h
    have henc : encodedId id = id := if_neg hforbidden
    rw [henc]
    refine ⟨hempty, ?_, ?_⟩
    · have hplain : ∀ c ∈ id.toList, ¬ P.isSeparator c = true :=
        fun c hc hsep => hforbidden (forbidden_of_separator hc hsep)
      exact path_of_component (henc.symm ▸ components_name hplain hempty hdot) hdots
    · rw [decodedId, if_neg]
      rintro ⟨hmarked, hlen⟩
      rw [hmarker hmarked] at hlen
      exact hlen (by decide)

/-- What is in front of the first separator, and what is in front of the others. -/
theorem splitOnP_append_plain {p : Char → Bool} {m : List Char} (h : ∀ c ∈ m, ¬ p c = true)
    (l : List Char) : (m ++ l).splitOnP p = (l.splitOnP p).modifyHead (m ++ ·) := by
  induction m with
  | nil =>
    obtain ⟨d, ds, hd⟩ := List.exists_cons_of_ne_nil (List.splitOnP_ne_nil p l)
    rw [List.nil_append, hd]
    rfl
  | cons c m ih =>
    have hm := ih fun d hd => h d (List.mem_cons_of_mem c hd)
    rw [List.cons_append, List.splitOnP_cons_eq_if_modifyHead, if_neg (h c List.mem_cons_self), hm,
      List.modifyHead_modifyHead]
    rfl

/-- Where nothing stands between the separators and behind them, they are the end. -/
theorem splitOnP_ends {p : Char → Bool} {l front : List Char} {rest : List (List Char)}
    (h : l.splitOnP p = front :: rest) (hrest : ∀ x ∈ rest, x = []) :
    (∀ c ∈ front, ¬ p c = true) ∧ ∃ s, l = front ++ s ∧ ∀ c ∈ s, p c = true := by
  induction l generalizing front rest with
  | nil =>
    rw [List.splitOnP_nil] at h
    cases h
    exact ⟨nofun, [], rfl, nofun⟩
  | cons c l ih =>
    rw [List.splitOnP_cons_eq_if_modifyHead] at h
    obtain ⟨d, ds, hd⟩ := List.exists_cons_of_ne_nil (List.splitOnP_ne_nil p l)
    split at h
    · rename_i hc
      cases h
      rw [hd] at hrest
      obtain ⟨-, s, hs, hall⟩ := ih hd fun x hx => hrest x (List.mem_cons_of_mem d hx)
      obtain rfl := hrest d List.mem_cons_self
      refine ⟨nofun, c :: s, by rw [hs]; rfl, ?_⟩
      simpa [hc] using hall
    · rename_i hc
      rw [hd, List.modifyHead_cons] at h
      cases h
      obtain ⟨hplain, s, hs, hall⟩ := ih hd hrest
      exact ⟨List.forall_mem_cons.mpr ⟨hc, hplain⟩, s, by rw [hs]; rfl, hall⟩

theorem mem_of_mem_splitOnP {p : Char → Bool} {l x : List Char} {c : Char}
    (hx : x ∈ l.splitOnP p) (hc : c ∈ x) : c ∈ l := by
  induction l generalizing x with
  | nil =>
    rw [List.splitOnP_nil, List.mem_singleton] at hx
    rwa [← hx]
  | cons d l ih =>
    rw [List.splitOnP_cons_eq_if_modifyHead] at hx
    obtain ⟨y, ys, hy⟩ := List.exists_cons_of_ne_nil (List.splitOnP_ne_nil p l)
    split at hx
    · rcases List.mem_cons.mp hx with rfl | hx
      · cases hc
      · exact List.mem_cons_of_mem d (ih hx hc)
    · rw [hy, List.modifyHead_cons] at hx
      rcases List.mem_cons.mp hx with rfl | hx
      · rcases List.mem_cons.mp hc with rfl | hc
        · exact List.mem_cons_self
        · exact List.mem_cons_of_mem d (ih (hy ▸ List.mem_cons_self) hc)
      · exact List.mem_cons_of_mem d (ih (hy ▸ List.mem_cons_of_mem y hx) hc)

theorem withExtension_length (p : PathBuf) : (withExtension p).length = p.length := by
  rcases List.eq_nil_or_concat' p with rfl | ⟨dir, name, rfl⟩
  · rw [withExtension_none rfl]
  · by_cases hname : name = ".."
    · rw [withExtension_none]
      rw [fileName, List.getLast?_concat, hname]
      rfl
    · rw [withExtension_concat hname]
      simp

/-- The name of a file in the directory is one component. -/
theorem component_of_inside (h : Inside (peersDir P configDir) (path P configDir id)) :
    ∃ name, P.components (encodedId id) = [name] := by
  obtain ⟨file, -, hfile⟩ := h
  have hlen := congrArg List.length hfile
  rw [path, withExtension_length, List.length_append, List.length_append] at hlen
  exact List.length_eq_one_iff.mp (by simpa using hlen)

/-- Base64 of an id that leaves one component has one slash, which is its end. -/
theorem slash_at_end (hslash : '/' ∈ idBase64 id)
    (h : P.components (String.ofList (marker ++ idBase64 id)) = [name]) :
    ∃ front, idBase64 id = front ++ ['/'] ∧ name = String.ofList (marker ++ front) := by
  obtain ⟨front, rest, hfront⟩ :=
    List.exists_cons_of_ne_nil (List.splitOnP_ne_nil P.isSeparator (idBase64 id))
  obtain ⟨hempty, hdot, -⟩ := marked_ne front
  have hkeep : decide (String.ofList (marker ++ front) ≠ "" ∧
      String.ofList (marker ++ front) ≠ ".") = true := decide_eq_true ⟨hempty, hdot⟩
  rw [Platform.components, splitStr, String.toList_ofList,
    splitOnP_append_plain fun c hc => marker_plain hc, hfront,
    List.modifyHead_cons, List.map_cons, List.filter_cons, if_pos hkeep] at h
  obtain ⟨hname, hrest⟩ := List.cons.inj h
  have hnothing : ∀ x ∈ rest, x = [] := by
    intro x hx
    have hout := List.filter_eq_nil_iff.mp hrest _ (List.mem_map_of_mem hx)
    by_contra hne
    refine hout (decide_eq_true ⟨fun h => hne (by simpa using h), fun h => ?_⟩)
    obtain rfl : x = ['.'] := by simpa using congrArg String.toList h
    have hmem : ['.'] ∈ (idBase64 id).splitOnP P.isSeparator :=
      hfront ▸ List.mem_cons_of_mem front hx
    exact (base64_plain (P := P) (mem_of_mem_splitOnP hmem List.mem_cons_self)).1 rfl
  obtain ⟨hplain, s, hs, hall⟩ := splitOnP_ends hfront hnothing
  have hslashes : ∀ c ∈ s, c = '/' := by
    intro c hc
    have hdigit : c ∈ idBase64 id := hs ▸ List.mem_append_right front hc
    exact (base64_plain hdigit).2 (hall c hc)
  refine ⟨front, ?_, hname.symm⟩
  rw [hs]
  congr 1
  cases s with
  | nil =>
    rw [hs, List.append_nil] at hslash
    exact absurd rfl (hplain _ hslash)
  | cons c s =>
    cases s with
    | nil => rw [hslashes c List.mem_cons_self]
    | cons d s =>
      -- two slashes would be a byte that no text has
      exfalso
      have hends : c :: d :: s = List.replicate s.length '/' ++ ['/', '/'] := by
        rw [List.eq_replicate_of_mem hslashes]
        exact List.replicate_add s.length 2 '/'
      rw [hends, ← List.append_assoc] at hs
      exact ones_notMem_utf8Bytes _ (ones_of_slashes hs)

/-- The id that comes back from a file in the directory is the one it was stored for, or
shorter. -/
theorem file_of_inside (h : Inside (peersDir P configDir) (path P configDir id)) :
    ∃ name, name ≠ "" ∧ path P configDir id = peersDir P configDir ++ [name ++ ".toml"] ∧
      (Nameable id ∧ decodedId name = id ∨ (decodedId name).toList.length < id.toList.length) := by
  by_cases hname : Nameable id
  · obtain ⟨hne, hpath, hback⟩ := nameable_file P configDir hname
    exact ⟨encodedId id, hne, hpath, .inl ⟨hname, hback⟩⟩
  obtain ⟨name, hcomponent⟩ := component_of_inside h
  unfold Nameable at hname
  by_cases hforbidden : Forbidden id
  · rw [if_pos hforbidden, not_not] at hname
    have henc : encodedId id = String.ofList (marker ++ idBase64 id) := if_pos hforbidden
    have hid := ne_empty_of_forbidden hforbidden
    obtain ⟨front, hfront, rfl⟩ := slash_at_end hname (henc ▸ hcomponent)
    obtain ⟨hne, -, hdots⟩ := marked_ne front
    refine ⟨_, hne, path_of_component hcomponent hdots, .inr ?_⟩
    -- without its last digit it does not decode
    obtain ⟨hlong, hdvd⟩ := idBase64_length hid
    rw [hfront, List.length_append, List.length_singleton] at hlong hdvd
    have hnone : base64Decode front = none := by
      cases hdecode : base64Decode front with
      | none => rfl
      | some bytes =>
        have hfour := (length_of_base64Decode hdecode).1
        omega
    have hlen := decodedId_length (List.ne_nil_of_length_pos (l := front) (by omega))
    rw [hnone] at hlen
    have hpos := List.length_pos_of_ne_nil (mt String.toList_eq_nil_iff.mp hid)
    exact Nat.lt_of_le_of_lt hlen hpos
  · rw [if_neg hforbidden] at hname
    have henc : encodedId id = id := if_neg hforbidden
    have hplain : ∀ c ∈ id.toList, ¬ P.isSeparator c = true :=
      fun c hc hsep => hforbidden (forbidden_of_separator hc hsep)
    rw [henc, components_plain hplain] at hcomponent
    obtain ⟨hne, hdot⟩ : id ≠ "" ∧ id ≠ "." := by
      by_contra hout
      rw [List.filter_cons_of_neg (by simpa using hout)] at hcomponent
      cases hcomponent
    have hcomponents : P.components (encodedId id) = [id] := by
      rw [henc]
      exact components_name hplain hne hdot
    by_cases hdots : id = ".."
    · -- the directory above has no file name
      obtain ⟨file, hfile, hpath⟩ := h
      rw [path, hcomponents, hdots, withExtension_none] at hpath
      · exact absurd (List.cons.inj (List.append_cancel_left hpath)).1.symm hfile
      · rw [fileName, List.getLast?_concat]
        rfl
    · refine ⟨id, hne, path_of_component hcomponents hdots, .inr ?_⟩
      obtain ⟨hmarked, hmore⟩ : marker <+: id.toList ∧ id.toList ≠ marker := by
        by_contra hout
        exact hname ⟨hne, hdot, hdots, fun hp => by_contra fun hm => hout ⟨hp, hm⟩⟩
      obtain ⟨cs, hcs⟩ := hmarked
      have hid : id = String.ofList (marker ++ cs) := by rw [hcs, String.ofList_toList]
      have hcsne : cs ≠ [] := by
        rintro rfl
        exact hmore (by rw [← hcs, List.append_nil])
      have hlen := decodedId_length hcsne
      rw [← hid] at hlen
      rw [← hcs, List.length_append, marker_length]
      cases hdecode : base64Decode cs with
      | none =>
        rw [hdecode] at hlen
        exact Nat.lt_of_le_of_lt hlen (show 0 < 7 + cs.length by omega)
      | some bytes =>
        have hbytes := (length_of_base64Decode hdecode).2
        rw [hdecode, Option.getD_some] at hlen
        omega

theorem holds_of_inside {ids : Finset String}
    (hinside : ∀ id ∈ ids, Inside (peersDir P configDir) (path P configDir id))
    (hdistinct : ∀ a ∈ ids, ∀ b ∈ ids, path P configDir a = path P configDir b → a = b) :
    Holds P configDir ids (ids.toList.map fun id => ⟨path P configDir id, true, 0⟩) where
  files := by
    intro p
    simp only [List.mem_map, Finset.mem_toList]
    constructor
    · rintro ⟨e, ⟨id, hid, rfl⟩, -, rfl⟩
      exact ⟨hinside id hid, id, hid, rfl⟩
    · rintro ⟨-, id, hid, rfl⟩
      exact ⟨_, ⟨id, hid, rfl⟩, rfl, rfl⟩
  nodup := by
    rw [List.map_map]
    refine List.Nodup.map_on (fun a ha b hb h => ?_) ids.nodup_toList
    exact hdistinct a (Finset.mem_toList.mp ha) b (Finset.mem_toList.mp hb) h

/-- The ids that the files of the directory are listed with. -/
theorem listed_ids (entries : List DirEntry) :
    ((getVecIdModifiedTimePath none entries).map Prod.fst).Perm
      ((entries.filter fun e => e.isFile && extension e.path == some "toml").map fun e =>
        decodedId ((fileStem e.path).getD "")) := by
  have hall : ∀ l : List (String × Nat × PathBuf), (l.filter fun r =>
      (none : Option (List String)).all fun filters => filters.contains r.1) = l :=
    fun l => List.filter_eq_self.mpr fun _ _ => rfl
  rw [getVecIdModifiedTimePath, hall]
  refine ((List.mergeSort_perm _ _).map Prod.fst).trans ?_
  rw [List.map_map]
  exact List.Perm.refl _

/-- The ids that are listed for the files of some ids, one by one. -/
theorem listed_of_files {ids : List String} (h : ∀ id ∈ ids, ∃ name, name ≠ "" ∧
      path P configDir id = peersDir P configDir ++ [name ++ ".toml"]) :
    ((getVecIdModifiedTimePath none
      (ids.map fun id => ⟨path P configDir id, true, 0⟩)).map Prod.fst).Perm
      (ids.map fun id => decodedId ((fileStem (path P configDir id)).getD "")) := by
  refine (listed_ids _).trans ?_
  rw [List.filter_eq_self.mpr, List.map_map]
  · exact List.Perm.refl _
  · intro e he
    obtain ⟨id, hid, rfl⟩ := List.mem_map.mp he
    obtain ⟨name, hne, hpath⟩ := h id hid
    simp [hpath, (toml_file hne).1]

/-- Ids that meet the condition are kept apart and come back. -/
theorem named_of_nameable {ids : Finset String} (h : ∀ id ∈ ids, Nameable id) :
    Named P configDir ids := by
  have hfile := fun id hid => nameable_file P configDir (h id hid)
  have hback : ∀ id ∈ ids, extension (path P configDir id) = some "toml" ∧
      decodedId ((fileStem (path P configDir id)).getD "") = id := by
    intro id hid
    obtain ⟨hne, hpath, hid⟩ := hfile id hid
    rw [hpath, (toml_file hne).2]
    exact ⟨(toml_file hne).1, hid⟩
  have hinside : ∀ id ∈ ids, Inside (peersDir P configDir) (path P configDir id) :=
    fun id hid => ⟨_, append_toml_ne _, (hfile id hid).2.1⟩
  refine ⟨hinside, fun a ha b hb heq => ?_, fun entries hentries => ?_⟩
  · rw [← (hback a ha).2, heq, (hback b hb).2]
  · -- every entry that is listed is the file of an id, and is listed with this
    have hentry : ∀ e ∈ entries.filter fun e => e.isFile && extension e.path == some "toml",
        ∃ id ∈ ids, path P configDir id = e.path ∧ decodedId ((fileStem e.path).getD "") = id := by
      intro e he
      obtain ⟨hmem, hkeep⟩ := List.mem_filter.mp he
      obtain ⟨-, id, hid, hpath⟩ :=
        (hentries.files e.path).mp ⟨e, hmem, (Bool.and_eq_true_iff.mp hkeep).1, rfl⟩
      exact ⟨id, hid, hpath, hpath ▸ (hback id hid).2⟩
    refine (listed_ids entries).trans ((List.perm_ext_iff_of_nodup ?_ ids.nodup_toList).mpr ?_)
    · refine List.Nodup.map_on (fun e he e' he' heq => ?_) (hentries.nodup.of_map.filter _)
      obtain ⟨id, -, hpath, hlisted⟩ := hentry e he
      obtain ⟨id', -, hpath', hlisted'⟩ := hentry e' he'
      have hid : id = id' := by rw [← hlisted, heq, hlisted']
      refine List.inj_on_of_nodup_map hentries.nodup (List.mem_of_mem_filter he)
        (List.mem_of_mem_filter he') ?_
      rw [← hpath, hid, hpath']
    · intro id
      rw [Finset.mem_toList]
      constructor
      · intro hid
        obtain ⟨e, he, rfl⟩ := List.mem_map.mp hid
        obtain ⟨id, hid, -, hlisted⟩ := hentry e he
        rw [hlisted]
        exact hid
      · intro hid
        obtain ⟨e, he, hisFile, hpath⟩ :=
          (hentries.files _).mpr ⟨hinside id hid, id, hid, rfl⟩
        refine List.mem_map.mpr ⟨e, List.mem_filter.mpr ⟨he, ?_⟩, ?_⟩
        · rw [hisFile, hpath, (hback id hid).1]
          rfl
        · rw [hpath, (hback id hid).2]

/-- The ids are kept apart and come back if and only if each of them, where it is encoded, has
no slash in its base64, and otherwise is a file name that does not look encoded. -/
theorem named_iff (P : Platform) (configDir : PathBuf) (ids : Finset String) :
    Named P configDir ids ↔ ∀ id ∈ ids, Nameable id := by
  constructor
  · intro h id hid
    by_contra hname
    -- the ids that come back are no longer altogether, and this one is shorter
    have hfile := fun id hid => file_of_inside (h.inside id hid)
    have hperm := (listed_of_files fun id hid =>
      (hfile id (Finset.mem_toList.mp hid)).imp fun _ hf => ⟨hf.1, hf.2.1⟩).symm.trans
        (h.listed _ (holds_of_inside h.inside h.distinct))
    have hsum := (hperm.map fun s : String => s.toList.length).sum_eq
    rw [List.map_map] at hsum
    refine Nat.ne_of_lt (List.sum_lt_sum _ _ (fun a ha => ?_) ⟨id, Finset.mem_toList.mpr hid, ?_⟩)
      hsum
    · obtain ⟨name, hne, hpath, hback⟩ := hfile a (Finset.mem_toList.mp ha)
      simp only [Function.comp, hpath, (toml_file hne).2, Option.getD_some]
      rcases hback with ⟨-, hback⟩ | hless
      · rw [hback]
      · exact Nat.le_of_lt hless
    · obtain ⟨name, hne, hpath, hback⟩ := hfile id hid
      simp only [Function.comp, hpath, (toml_file hne).2, Option.getD_some]
      rcases hback with ⟨hgood, -⟩ | hless
      · exact absurd hgood hname
      · exact hless
  · intro h
    exact named_of_nameable h

/-- An id that looks like an encoded one has the file of the other one, and the base64 of a
third one makes a directory. -/
theorem ids_not_named :
    path .posix ["config"] "a:b" = path .posix ["config"] "base64_YTpi" ∧
    ¬ Named .posix ["config"] {"a:b", "base64_YTpi"} ∧
    ¬ Inside (peersDir .posix ["config"]) (path .posix ["config"] "a:?b") := by
  have hsame : path .posix ["config"] "a:b" = path .posix ["config"] "base64_YTpi" := by
    decide +kernel
  refine ⟨hsame, fun h => ?_, ?_⟩
  · exact absurd (h.distinct "a:b" (by simp) "base64_YTpi" (by simp) hsame) (by decide)
  · have hpath : path .posix ["config"] "a:?b" =
        ["config", "peers", "base64_YTo", "Yg==.toml"] := by
      decide +kernel
    rw [hpath, peersDir_eq]
    rintro ⟨name, -, h⟩
    exact absurd (congrArg List.length h) (by simp)

end PeerConfig

end MDesk
