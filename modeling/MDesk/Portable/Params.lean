import Mathlib.Algebra.GroupWithZero.Nat
import MDesk.Core.Base64
import MDesk.Core.Text
import MDesk.Core.Utf8

/-!
# Parameters in the name of a portable executable

A portable executable takes its parameters from its own file name: behind the first marker the name
is a list of parameters between commas, and a `-` counts as a comma. Texts are lists of characters.
-/

namespace MDesk.Portable

open MDesk.Core

structure PortableParams where
  source : List Char := []
  host : List Char := []
  key : List Char := []
  api : List Char := []
  relay : List Char := []
  password : List Char := []
  id : List Char := []
  agentid : List Char := []
  certno : List Char := []
  certnum : List Char := []
  ipdirect : List Char := []
  portableFlag : Bool := false
  deriving DecidableEq, Repr

/-- `str::trim`. -/
def trim (s : List Char) : List Char := trimEnds isWhiteSpace s

/-- `to_ascii_lowercase`. -/
def asciiLower (s : List Char) : List Char := s.map Char.toLower

/-- `str::find`, in characters. -/
def find (s sub : List Char) : Option Nat := (splitAtFirst sub s).map (·.1.length)

/-- The `strip_known_exe_suffix` function. -/
def stripKnownExeSuffix (source : List Char) : List Char :=
  if ".exe.exe".toList <:+ asciiLower source then source.take (source.length - 8)
  else if ".exe".toList <:+ asciiLower source then source.take (source.length - 4)
  else source

/-! ## Passwords -/

/-- The mask of a password, over its bytes from a place on. -/
def mask (index : Nat) : List UInt8 → List UInt8
  | [] => []
  | value :: rest =>
    (value ^^^ (utf8Bytes "rustdesk".toList).getD (index % 8) 0) :: mask (index + 1) rest

/-- `String::from_utf8`. -/
def fromUtf8 (bytes : List UInt8) : Option (List Char) :=
  if utf8Bytes (utf8Lossy bytes) = bytes then some (utf8Lossy bytes) else none

/-- The `decode_portable_password` function. -/
def decodePortablePassword (encoded : List Char) : List Char :=
  match (base64UrlDecode encoded).orElse fun _ => base64Decode encoded with
  | some bytes => (fromUtf8 (mask 0 bytes)).getD encoded
  | none => encoded

/-- What a password is written as in the name. -/
def encodePassword (password : List Char) : List Char :=
  base64UrlEncode (mask 0 (utf8Bytes password))

/-! ## Parameters -/

/-- The markers that parameters begin at. -/
def markers : List (List Char) :=
  ["host=", "p=[", "portable", "id=", "agentid=", "api=", "certno=", "certnum=", "ipdirect="].map
    String.toList

/-- The parameters with a key, in the order in which the keys are tried. -/
def keyed : List (List Char × (PortableParams → List Char → PortableParams)) :=
  [("host=".toList, fun params value => { params with host := value }),
    ("key=".toList, fun params value => { params with key := value }),
    ("api=".toList, fun params value => { params with api := value }),
    ("relay=".toList, fun params value => { params with relay := value }),
    ("agentid=".toList, fun params value => { params with agentid := value }),
    ("id=".toList, fun params value => { params with id := value }),
    ("password=".toList, fun params value => { params with password := value }),
    ("certno=".toList, fun params value => { params with certno := value }),
    ("certnum=".toList, fun params value => { params with certnum := value }),
    ("ipdirect=".toList, fun params value => { params with ipdirect := value })]

/-- The loop body of `parse_portable_params`. -/
def applyToken (params : PortableParams) (token : List Char) : PortableParams :=
  let lower := asciiLower token
  if lower = "portable".toList then { params with portableFlag := true }
  else
    match keyed.find? fun k => k.1.isPrefixOf lower with
    | some (key, set) => set params (trim (token.drop key.length))
    | none =>
      if "p=[".toList <+: lower ∧ "]".toList <:+ lower ∧ 4 < (token.map Char.utf8Size).sum then
        { params with password := decodePortablePassword (trim (token.dropLast.drop 3)) }
      else if "p=".toList <+: lower then { params with password := trim (token.drop 2) }
      else params

/-- The parameters between commas. -/
def tokens (segment : List Char) : List (List Char) :=
  (((segment.map fun c => if c = '-' then ',' else c).splitOnP (· = ',')).map trim).filter (· ≠ [])

/-- The `parse_portable_params` function. -/
def parsePortableParams (source : List Char) : PortableParams :=
  let stripped := stripKnownExeSuffix source
  let lower := asciiLower stripped
  match (markers.filterMap (find lower)).min? with
  | none => { source }
  | some start => (tokens (stripped.drop start)).foldl applyToken { source }

/-! ## Names with a password -/

/-- The parameter that gives a password. -/
def passwordParam (password : List Char) : List Char :=
  "p=[".toList ++ encodePassword password ++ "]".toList

def isSeparator (c : Char) : Bool := c = '-' ∨ c = ','

/-- A parameter that would give a password, too. -/
def SetsPassword (token : List Char) : Prop :=
  "password=".toList <+: asciiLower token ∨ "p=".toList <+: asciiLower token

/-- Without its suffix the name has the password as one of its parameters. What stands in front
ends with a separator, and what is behind names no password. -/
structure Named (name front password back : List Char) : Prop where
  strip : stripKnownExeSuffix name = front ++ passwordParam password ++ back
  front_sep : front = [] ∨ ∃ before sep, isSeparator sep = true ∧ front = before ++ [sep]
  back_sep : back = [] ∨ ∃ sep rest, isSeparator sep = true ∧ back = sep :: rest ∧
    ∀ token ∈ tokens rest, ¬ SetsPassword token

section Passwords

theorem mask_mask (index : Nat) (bytes : List UInt8) : mask index (mask index bytes) = bytes := by
  induction bytes generalizing index with
  | nil => rfl
  | cons value rest ih => rw [mask, mask, ih, UInt8.xor_assoc, UInt8.xor_self, UInt8.xor_zero]

theorem fromUtf8_bytes (cs : List Char) : fromUtf8 (utf8Bytes cs) = some cs := by
  rw [fromUtf8, utf8Lossy_bytes, if_pos rfl]

/-- What a password is written as decodes to the password. -/
theorem decode_encodePassword (password : List Char) :
    decodePortablePassword (encodePassword password) = password := by
  have hdecode : base64UrlDecode (encodePassword password) = some (mask 0 (utf8Bytes password)) :=
    base64UrlDecode_encode _
  rw [decodePortablePassword, hdecode]
  simp [mask_mask, fromUtf8_bytes]

theorem encodePassword_ne_nil {password : List Char} (h : password ≠ []) :
    encodePassword password ≠ [] := by
  intro hnil
  apply h
  rw [← decode_encodePassword password, hnil]
  decide

/-- The characters of a written password: none is a space, a comma, an equals sign or a bracket. -/
theorem mem_encodePassword {password : List Char} {c : Char} (h : c ∈ encodePassword password) :
    isWhiteSpace c = false ∧ c ≠ ',' ∧ c ≠ '=' ∧ c ≠ ']' := by
  obtain ⟨d, hd, rfl⟩ := mem_base64UrlEncode h
  have hall : ∀ d ∈ base64Alphabet, isWhiteSpace (toUrlDigit d) = false ∧ toUrlDigit d ≠ ',' ∧
      toUrlDigit d ≠ '=' ∧ toUrlDigit d ≠ ']' :=
    forall_mem_of_all (by decide +kernel)
  exact hall d hd

end Passwords

section Tokens

variable {token front back : List Char} {sep c : Char} {params : PortableParams}

theorem trim_eq_self (h : ∀ c ∈ token, isWhiteSpace c = false) : trim token = token := by
  apply trimEnds_eq_self
  · intro c hc
    exact h c (List.mem_of_mem_head? hc)
  · intro c hc
    exact h c (List.mem_of_getLast? hc)

theorem toComma_eq {c : Char} : (if c = '-' then ',' else c) = ',' ↔ isSeparator c = true := by
  unfold isSeparator
  split_ifs with hminus
  · simp [hminus]
  · simp [hminus]

/-- A separator parts the parameters in front of it and behind it. -/
theorem tokens_append (hsep : isSeparator sep = true) :
    tokens (front ++ sep :: back) = tokens front ++ tokens back := by
  unfold tokens
  have hcomma (front back : List Char) : List.splitOnP (· = ',')
      (front ++ (if sep = '-' then ',' else sep) :: back) =
        front.splitOnP (· = ',') ++ back.splitOnP (· = ',') := by
    rw [toComma_eq.mpr hsep]
    exact List.splitOnP_append_cons _ _ (by simp)
  rw [List.map_append, List.map_cons, hcomma, List.map_append, List.filter_append]

@[simp] theorem tokens_nil : tokens [] = [] := by
  decide

/-- Text without separators is one parameter. -/
theorem tokens_eq_singleton (hne : token ≠ [])
    (h : ∀ c ∈ token, isWhiteSpace c = false ∧ isSeparator c = false) : tokens token = [token] := by
  have hmap : (token.map fun c => if c = '-' then ',' else c) = token := by
    conv_rhs => rw [← List.map_id token]
    apply List.map_congr_left
    intro c hc
    have hsep := (h c hc).2
    simp only [isSeparator, decide_eq_false_iff_not, not_or] at hsep
    rw [if_neg hsep.1]
    rfl
  have hsplit : token.splitOnP (· = ',') = [token] := by
    apply List.splitOnP_eq_singleton
    intro c hc
    have hsep := (h c hc).2
    simp only [isSeparator, decide_eq_false_iff_not, not_or] at hsep
    simp [hsep.2]
  unfold tokens
  rw [hmap, hsplit, List.map_singleton, trim_eq_self fun c hc => (h c hc).1]
  simp [hne]

/-- The parameters are made of the characters of the text, but for the separators. -/
theorem mem_of_mem_tokens (htoken : token ∈ tokens front) (hc : c ∈ token) :
    c ∈ front ∨ c = ',' := by
  unfold tokens at htoken
  rw [List.mem_filter, List.mem_map] at htoken
  obtain ⟨⟨piece, hpiece, rfl⟩, -⟩ := htoken
  have hmem := mem_of_mem_splitOnP hpiece (mem_of_mem_trimEnds hc)
  obtain ⟨d, hd, rfl⟩ := List.mem_map.mp hmem
  split_ifs
  · exact .inr rfl
  · exact .inl hd

/-- Of the keys only one is for the password. -/
theorem keyed_password {k : List Char × (PortableParams → List Char → PortableParams)}
    (hk : k ∈ keyed) (hkey : k.1 ≠ "password=".toList) (value : List Char) :
    (k.2 params value).password = params.password := by
  simp only [keyed, List.mem_cons, List.not_mem_nil, or_false] at hk
  rcases hk with rfl | rfl | rfl | rfl | rfl | rfl | rfl | rfl | rfl | rfl
  · rfl
  · rfl
  · rfl
  · rfl
  · rfl
  · rfl
  · exact absurd rfl hkey
  · rfl
  · rfl
  · rfl

/-- Only the parameters of a password change it. -/
theorem applyToken_password (h : ¬ SetsPassword token) :
    (applyToken params token).password = params.password := by
  rw [SetsPassword, not_or] at h
  have hopen : ¬ "p=[".toList <+: asciiLower token := fun hp =>
    h.2 (List.IsPrefix.trans (by decide) hp)
  unfold applyToken
  dsimp only
  by_cases hportable : asciiLower token = "portable".toList
  · rw [if_pos hportable]
  rw [if_neg hportable]
  cases hfind : keyed.find? fun k => k.1.isPrefixOf (asciiLower token) with
  | some k =>
    apply keyed_password (List.mem_of_find?_eq_some hfind)
    intro hkey
    have hprefix := List.find?_some hfind
    rw [hkey, List.isPrefixOf_iff_prefix] at hprefix
    exact h.1 hprefix
  | none =>
    dsimp only
    rw [if_neg fun hp => hopen hp.1, if_neg h.2]

theorem foldl_applyToken_password {ts : List (List Char)} (h : ∀ token ∈ ts, ¬ SetsPassword token) :
    (ts.foldl applyToken params).password = params.password := by
  induction ts generalizing params with
  | nil => rfl
  | cons token ts ih =>
    rw [List.foldl_cons, ih fun t ht => h t (List.mem_cons_of_mem _ ht)]
    exact applyToken_password (h token List.mem_cons_self)

/-- Without an equals sign a text has no parameter for a password. -/
theorem not_setsPassword (h : '=' ∉ front) (htoken : token ∈ tokens front) :
    ¬ SetsPassword token := by
  have hnot : '=' ∉ asciiLower token := by
    intro hmem
    obtain ⟨d, hd, heq⟩ := List.mem_map.mp hmem
    rw [eq_of_toLower (by decide) heq] at hd
    rcases mem_of_mem_tokens htoken hd with hfront | hcomma
    · exact h hfront
    · exact absurd hcomma (by decide)
  rintro (hstart | hstart)
  · exact hnot (hstart.subset (by decide))
  · exact hnot (hstart.subset (by decide))

end Tokens

section Param

variable {password digits : List Char} {params : PortableParams}

theorem asciiLower_append (s t : List Char) : asciiLower (s ++ t) = asciiLower s ++ asciiLower t :=
  List.map_append

/-- No key but the password's own begins a parameter of the form `p=`. -/
theorem keyed_find_none (rest : List Char) :
    keyed.find? (fun k => k.1.isPrefixOf ("p=".toList ++ rest)) = none := rfl

/-- What is made of a parameter that opens a bracket. -/
theorem applyToken_open (digits : List Char) :
    (applyToken params ("p=[".toList ++ digits)).password =
      if "]".toList <:+ asciiLower ("p=[".toList ++ digits) ∧
          4 < (("p=[".toList ++ digits).map Char.utf8Size).sum then
        decodePortablePassword (trim (("p=[".toList ++ digits).dropLast.drop 3))
      else trim ('[' :: digits) := by
  have hlower : asciiLower ("p=[".toList ++ digits) = "p=".toList ++ '[' :: asciiLower digits := rfl
  have hopen : "p=[".toList <+: asciiLower ("p=[".toList ++ digits) := ⟨asciiLower digits, rfl⟩
  have hplain : "p=".toList <+: asciiLower ("p=[".toList ++ digits) :=
    ⟨'[' :: asciiLower digits, rfl⟩
  have hfind : keyed.find? (fun k => k.1.isPrefixOf (asciiLower ("p=[".toList ++ digits))) = none :=
    by rw [hlower, keyed_find_none]
  have hportable : asciiLower ("p=[".toList ++ digits) ≠ "portable".toList := by
    rw [hlower]
    intro heq
    exact absurd (List.cons.inj (List.cons.inj heq).2).1 (by decide)
  unfold applyToken
  dsimp only
  rw [if_neg hportable, hfind]
  dsimp only
  split_ifs with hencoded hclose hclose
  · rfl
  · exact absurd hencoded.2 hclose
  · exact absurd ⟨hopen, hclose⟩ hencoded
  · rfl

/-- The parameter of a whole password is decoded. -/
theorem applyToken_param (hne : password ≠ []) :
    (applyToken params (passwordParam password)).password = password := by
  have hclose : "]".toList <:+ asciiLower ("p=[".toList ++ (encodePassword password ++ [']'])) := by
    rw [← List.append_assoc, asciiLower_append]
    exact List.suffix_append _ _
  have hlen : 4 < (("p=[".toList ++ (encodePassword password ++ [']'])).map Char.utf8Size).sum := by
    obtain ⟨c, rest, hdigits⟩ := List.exists_cons_of_ne_nil (encodePassword_ne_nil hne)
    have hpos := c.utf8Size_pos
    have hsizes : 'p'.utf8Size = 1 ∧ '='.utf8Size = 1 ∧ '['.utf8Size = 1 ∧ ']'.utf8Size = 1 := by
      decide
    rw [hdigits]
    simp [hsizes]
    omega
  have hinner : ("p=[".toList ++ (encodePassword password ++ [']'])).dropLast.drop 3 =
      encodePassword password := by
    rw [← List.append_assoc, List.dropLast_concat]
    rfl
  have hbracket : "]".toList = [']'] := rfl
  rw [passwordParam, hbracket, List.append_assoc, applyToken_open, if_pos ⟨hclose, hlen⟩, hinner,
    trim_eq_self fun c hc => (mem_encodePassword hc).1, decode_encodePassword]

/-- Without digits the brackets are taken for the password. -/
theorem applyToken_empty : (applyToken params (passwordParam [])).password = "[]".toList := by
  rw [passwordParam, List.append_assoc, applyToken_open]
  decide

/-- The front of a parameter that a `-` parts is taken as it is. -/
theorem applyToken_front (hdigits : ∀ c ∈ digits, isWhiteSpace c = false ∧ c ≠ ']') :
    (applyToken params ("p=[".toList ++ digits)).password = '[' :: digits := by
  have hclose : ¬ "]".toList <:+ asciiLower ("p=[".toList ++ digits) := by
    intro hsuffix
    obtain ⟨d, hd, heq⟩ := List.mem_map.mp (hsuffix.subset (List.mem_singleton_self ']'))
    rw [eq_of_toLower (by decide) heq] at hd
    rcases List.mem_append.mp hd with hopen | hd
    · exact absurd hopen (by decide)
    · exact (hdigits _ hd).2 rfl
  rw [applyToken_open, if_neg fun h => hclose h.1]
  apply trim_eq_self
  rw [List.forall_mem_cons]
  exact ⟨by decide, fun c hc => (hdigits c hc).1⟩

end Param

section Names

variable {name front password back : List Char}

/-- The digits of a password in front of the first `-`. -/
def firstDigits (password : List Char) : List Char :=
  (encodePassword password).takeWhile (· ≠ '-')

/-- What the parameter of a password gives by itself. -/
theorem passwordParam_tokens (password : List Char) (params : PortableParams) :
    ((tokens (passwordParam password)).foldl applyToken params).password =
      if password = [] then "[]".toList
      else if '-' ∈ encodePassword password then '[' :: firstDigits password
      else password := by
  by_cases hdash : '-' ∈ encodePassword password
  · have hempty : password ≠ [] := by
      rintro rfl
      exact absurd hdash (by decide)
    obtain ⟨rest, hrest⟩ : ∃ rest, encodePassword password = firstDigits password ++ '-' :: rest :=
      exists_takeWhile_append hdash
    have hfirst : ∀ c ∈ firstDigits password, c ∈ encodePassword password ∧ c ≠ '-' := by
      intro c hc
      refine ⟨(List.takeWhile_prefix _).subset hc, ?_⟩
      simpa using List.mem_takeWhile_imp hc
    have hparts : passwordParam password =
        ("p=[".toList ++ firstDigits password) ++ '-' :: (rest ++ "]".toList) := by
      rw [passwordParam, hrest]
      simp
    have hfront : tokens ("p=[".toList ++ firstDigits password) =
        ["p=[".toList ++ firstDigits password] := by
      apply tokens_eq_singleton (by simp)
      intro c hc
      rcases List.mem_append.mp hc with hopen | hdigit
      · have hplain : ∀ c ∈ "p=[".toList, isWhiteSpace c = false ∧ isSeparator c = false :=
          forall_mem_of_all (by decide)
        exact hplain c hopen
      · obtain ⟨hmem, hne⟩ := hfirst c hdigit
        refine ⟨(mem_encodePassword hmem).1, ?_⟩
        simp [isSeparator, hne, (mem_encodePassword hmem).2.1]
    have hequals : '=' ∉ rest ++ "]".toList := by
      intro hmem
      rcases List.mem_append.mp hmem with hmem | hmem
      · have hencoded : '=' ∈ encodePassword password := by
          rw [hrest]
          exact List.mem_append_right _ (List.mem_cons_of_mem _ hmem)
        exact (mem_encodePassword hencoded).2.2.1 rfl
      · exact absurd hmem (by decide)
    rw [hparts, tokens_append (by decide), hfront, List.foldl_append,
      foldl_applyToken_password fun token => not_setsPassword hequals, List.foldl_cons,
      List.foldl_nil, if_neg hempty, if_pos hdash]
    apply applyToken_front
    intro c hc
    exact ⟨(mem_encodePassword (hfirst c hc).1).1, (mem_encodePassword (hfirst c hc).1).2.2.2⟩
  · have htokens : tokens (passwordParam password) = [passwordParam password] := by
      apply tokens_eq_singleton (by simp [passwordParam])
      intro c hc
      unfold passwordParam at hc
      simp only [List.mem_append] at hc
      have hopen : ∀ c ∈ "p=[".toList, isWhiteSpace c = false ∧ isSeparator c = false :=
        forall_mem_of_all (by decide)
      have hclose : ∀ c ∈ "]".toList, isWhiteSpace c = false ∧ isSeparator c = false :=
        forall_mem_of_all (by decide)
      rcases hc with (hc | hc) | hc
      · exact hopen c hc
      · refine ⟨(mem_encodePassword hc).1, ?_⟩
        have hne : c ≠ '-' := by
          rintro rfl
          exact hdash hc
        simp [isSeparator, hne, (mem_encodePassword hc).2.1]
      · exact hclose c hc
    rw [htokens, List.foldl_cons, List.foldl_nil]
    split_ifs with hempty
    · rw [hempty, applyToken_empty]
    · exact applyToken_param hempty

/-- The parameters of a name begin no later than its password. -/
theorem start_le (h : stripKnownExeSuffix name = front ++ passwordParam password ++ back) :
    ∃ start ≤ front.length,
      (markers.filterMap (find (asciiLower (stripKnownExeSuffix name)))).min? = some start := by
  have hinfix : asciiLower front ++ "p=[".toList <+: asciiLower (stripKnownExeSuffix name) := by
    rw [h, passwordParam, asciiLower_append, asciiLower_append, asciiLower_append,
      asciiLower_append]
    refine ⟨asciiLower (encodePassword password) ++ asciiLower "]".toList ++ asciiLower back, ?_⟩
    have hopen : asciiLower "p=[".toList = "p=[".toList := rfl
    rw [hopen]
    simp only [List.append_assoc]
  obtain ⟨⟨before, rest⟩, hsplit⟩ : ∃ parts, splitAtFirst "p=[".toList
      (asciiLower (stripKnownExeSuffix name)) = some parts := by
    apply Option.ne_none_iff_exists'.mp
    exact splitAtFirst_ne_none ((List.suffix_append _ _).isInfix.trans hinfix.isInfix)
  have hle : before.length ≤ front.length := by
    have hbefore := splitAtFirst_le hsplit hinfix
    simpa [asciiLower] using hbefore
  have hmem : before.length ∈ markers.filterMap (find (asciiLower (stripKnownExeSuffix name))) := by
    apply List.mem_filterMap.mpr
    refine ⟨"p=[".toList, by decide, ?_⟩
    rw [find, hsplit]
    rfl
  cases hmin : (markers.filterMap (find (asciiLower (stripKnownExeSuffix name)))).min? with
  | none =>
    rw [List.min?_eq_none_iff] at hmin
    rw [hmin] at hmem
    cases hmem
  | some start =>
    exact ⟨start, ((List.min?_eq_some_iff.mp hmin).2 _ hmem).trans hle, rfl⟩

/-- What is left of the front are parameters of their own. -/
theorem Named.front_tokens (h : Named name front password back) (start : Nat) :
    ∃ ts, ∀ text, tokens (front.drop start ++ text) = ts ++ tokens text := by
  rcases h.front_sep with hnil | ⟨before, sep, hsep, hfront⟩
  · refine ⟨[], fun text => ?_⟩
    rw [hnil, List.drop_nil, List.nil_append, List.nil_append]
  by_cases hle : start ≤ before.length
  · refine ⟨tokens (before.drop start), fun text => ?_⟩
    rw [hfront, List.drop_append_of_le_length hle, List.append_assoc, List.singleton_append,
      tokens_append hsep]
  · refine ⟨[], fun text => ?_⟩
    rw [hfront, List.drop_eq_nil_of_le (by simp; omega), List.nil_append, List.nil_append]

/-- What is behind the password are parameters that give none. -/
theorem Named.back_tokens (h : Named name front password back) :
    ∃ ts, (∀ text, tokens (text ++ back) = tokens text ++ ts) ∧ ∀ t ∈ ts, ¬ SetsPassword t := by
  rcases h.back_sep with hnil | ⟨sep, rest, hsep, hback, hrest⟩
  · refine ⟨[], fun text => ?_, nofun⟩
    rw [hnil, List.append_nil, List.append_nil]
  · refine ⟨tokens rest, fun text => ?_, hrest⟩
    rw [hback, tokens_append hsep]

/-- The password that is read from a name is what its parameter gives by itself. -/
theorem Named.password_eq (h : Named name front password back) :
    (parsePortableParams name).password =
      if password = [] then "[]".toList
      else if '-' ∈ encodePassword password then '[' :: firstDigits password
      else password := by
  obtain ⟨start, hle, hmin⟩ := start_le h.strip
  obtain ⟨ts, hts⟩ := h.front_tokens start
  obtain ⟨us, hus, hnone⟩ := h.back_tokens
  have htokens : tokens ((stripKnownExeSuffix name).drop start) =
      ts ++ (tokens (passwordParam password) ++ us) := by
    rw [h.strip, List.append_assoc, List.drop_append_of_le_length hle, hts, hus]
  unfold parsePortableParams
  dsimp only
  rw [hmin]
  dsimp only
  rw [htokens, List.foldl_append, List.foldl_append, foldl_applyToken_password hnone,
    passwordParam_tokens]

/-- A password is recovered from every name it is written in just when it is not empty and its
digits have no `-`, or is what stands between the bracket and the first `-` of its own digits. -/
theorem parsePortableParams_password_iff (h : Named name front password back) :
    (parsePortableParams name).password = password ↔
      password ≠ [] ∧
        ('-' ∉ encodePassword password ∨ password = '[' :: firstDigits password) := by
  rw [h.password_eq]
  split_ifs with hempty hdash
  · simp [hempty]
  · simp [hempty, hdash, eq_comm]
  · simp [hempty, hdash]

/-- The digits of a password have a `-`, and the password that is read ends there. -/
theorem parsePortableParams_parts_password :
    Named "rustcli-p=[PxQ-].exe".toList "rustcli-".toList "MaM".toList [] ∧
      (parsePortableParams "rustcli-p=[PxQ-].exe".toList).password ≠ "MaM".toList := by
  have hnamed : Named "rustcli-p=[PxQ-].exe".toList "rustcli-".toList "MaM".toList [] :=
    { strip := by decide
      front_sep := .inr ⟨"rustcli".toList, '-', by decide, by decide⟩
      back_sep := .inl rfl }
  refine ⟨hnamed, ?_⟩
  rw [hnamed.password_eq]
  decide

/-- A password between two other parameters. -/
theorem parsePortableParams_password_iff_sample :
    (parsePortableParams "rustcli-host=a.b-p=[PwwjFRcWQllBQQ]-id=admin.exe".toList).password =
      "MyPass1234".toList := by
  have hnamed : Named "rustcli-host=a.b-p=[PwwjFRcWQllBQQ]-id=admin.exe".toList
      "rustcli-host=a.b-".toList "MyPass1234".toList "-id=admin".toList :=
    { strip := by decide
      front_sep := .inr ⟨"rustcli-host=a.b".toList, '-', by decide, by decide⟩
      back_sep := .inr ⟨'-', "id=admin".toList, by decide, rfl, by
        rw [tokens_eq_singleton (by decide) (forall_mem_of_all (by decide))]
        rintro token htoken (h | h)
        · rw [List.mem_singleton.mp htoken] at h
          exact absurd h (by decide)
        · rw [List.mem_singleton.mp htoken] at h
          exact absurd h (by decide)⟩ }
  exact (parsePortableParams_password_iff hnamed).mpr ⟨by decide, .inl (by decide)⟩

end Names

end MDesk.Portable
