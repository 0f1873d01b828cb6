import MDesk.Core.Checked
import MDesk.Core.Lowercase
import MDesk.Core.MachineInt
import MDesk.Portable.Params

/-!
# A custom server in the name of an executable

The name of an executable gives a custom server, as a list of parameters from the first marker on or
as a signed configuration. The markers are looked for in the name in lower case, and the byte found
there is where the name itself is cut. The text in front of a marker may be longer or shorter in
lower case, and the cut is then at another place, or inside a character, which is a panic.
-/

namespace MDesk

open MDesk.Core
open MDesk.Portable (asciiLower trim find stripKnownExeSuffix decodePortablePassword)

structure CustomServer where
  key : List Char := []
  host : List Char := []
  api : List Char := []
  relay : List Char := []
  password : List Char := []
  id : List Char := []
  agentid : List Char := []
  deriving DecidableEq, Repr

namespace CustomServer

/-! ## Signed configurations -/

/-- What reads a signed configuration. -/
structure Crates where
  /-- `serde_json::from_slice`. -/
  fromSlice : List UInt8 → Option CustomServer
  /-- `sign::verify`, of signed data under a public key. -/
  verify : List UInt8 → List UInt8 → Option (List UInt8)

inductive ConfigError
  | decode
  | json
  /-- `sign:verify failed`. -/
  | verify
  deriving DecidableEq, Repr

def publicKey : List UInt8 :=
  [88, 168, 68, 104, 60, 5, 163, 198, 165, 38, 12, 85, 114, 203, 96, 163, 70, 48, 0, 131, 57, 12,
    46, 129, 83, 17, 84, 193, 119, 197, 130, 103]

/-- `str::replace`, past the rest of an occurrence. -/
def replaceFrom (sep other : List Char) : Nat → List Char → List Char
  | _, [] => []
  | 0, c :: s =>
    if sep <+: c :: s then other ++ replaceFrom sep other (sep.length - 1) s
    else c :: replaceFrom sep other 0 s
  | skip + 1, _ :: s => replaceFrom sep other skip s

/-- `str::split`, past the rest of an occurrence. -/
def splitFrom (sep : List Char) : Nat → List Char → List (List Char)
  | _, [] => [[]]
  | 0, c :: s =>
    if sep <+: c :: s then [] :: splitFrom sep (sep.length - 1) s
    else (splitFrom sep 0 s).modifyHead (c :: ·)
  | skip + 1, _ :: s => splitFrom sep skip s

section Config

variable (C : Crates)

/-- The `get_custom_server_from_config_string` function. -/
def getCustomServerFromConfigString (s : List Char) : Except ConfigError CustomServer :=
  match base64UrlDecode s.reverse with
  | none => .error .decode
  | some data =>
    match C.fromSlice data with
    | some lic => .ok lic
    | none =>
      match C.verify data publicKey with
      | none => .error .verify
      | some data =>
        match C.fromSlice data with
        | some lic => .ok lic
        | none => .error .json

/-- The last part of `get_custom_server_from_string`, for a name without a marker. -/
def fromLicense (s : List Char) : Except String CustomServer :=
  let s := replaceFrom "-licensed---".toList "--".toList 0 s
  let s := replaceFrom "-licensed--".toList "--".toList 0 s
  let s := replaceFrom "-licensed-".toList "--".toList 0 s
  let read (s : List Char) := (getCustomServerFromConfigString C (trim s)).toOption
  let found := (splitFrom "--".toList 0 s).findSome? fun s =>
    (read s).orElse fun _ => if '(' ∈ s then (s.splitOn '(').findSome? read else none
  match found with
  | some lic => .ok lic
  | none => .error "Failed to parse"

end Config

/-! ## Parameters -/

/-- The `decode_password` function, which does what `decode_portable_password` does. -/
def decodePassword (s : List Char) : List Char := decodePortablePassword s

/-- The markers that parameters begin at. -/
def markers : List (List Char) := ["host=", "p=[", "portable", "id="].map String.toList

/-- `str::find`, in bytes. -/
def findByte (s sub : List Char) : Option Nat :=
  (splitAtFirst sub s).map fun parts => byteLength parts.1

/-- The elements between commas and hyphens. -/
def elements (stripped : List Char) : List (List Char) :=
  (stripped.map fun c => if c = '-' then ',' else c).splitOn ','

section Parameters

variable (L : Lowercase) (C : Crates)

/-- `&s[0..s.len() - n]`, where `none` is a panic. -/
def dropBytes (n : Nat) (s : List Char) : Option (List Char) := do
  let length ← checkedSub (byteLength s) n
  (splitAtByte length s).map Prod.fst

/-- The name without its suffix. -/
def stripExe (s : List Char) : Option (List Char) :=
  if ".exe.exe".toList <:+ L.toLowercase s then dropBytes 8 s
  else if ".exe".toList <:+ L.toLowercase s then dropBytes 4 s
  else some s

/-- The password of an element in brackets. -/
def applyBrackets (server : CustomServer) (el : List Char) : Option CustomServer :=
  if "p=[".toList <+: L.toLowercase el ∧ "]".toList <:+ L.toLowercase el then
    (checkedSub (byteLength el) 4).map fun n =>
      { server with password := decodePassword ((el.drop 3).take n) }
  else some server

/-- The loop body of `get_custom_server_from_string`, where `none` is a panic. -/
def applyElement (server : CustomServer) (el : List Char) : Option CustomServer :=
  let lower := L.toLowercase el
  let server := if "host=".toList <+: lower then { server with host := el.drop 5 } else server
  let server := if "key=".toList <+: lower then { server with key := el.drop 4 } else server
  let server := if "api=".toList <+: lower then { server with api := el.drop 4 } else server
  let server := if "relay=".toList <+: lower then { server with relay := el.drop 6 } else server
  -- An `id=` inside of `agentid=` is none.
  let server :=
    if "agentid=".toList <+: lower then { server with agentid := el.drop 8 }
    else if "id=".toList <+: lower then { server with id := el.drop 3 }
    else server
  let server :=
    if "password=".toList <+: lower then { server with password := el.drop 9 } else server
  (applyBrackets L server el).map fun server =>
    if "p=".toList <+: lower ∧ ¬ "p=[".toList <+: lower then
      { server with password := el.drop 2 }
    else server

/-- The parameters from the first marker on. -/
def fromParameters (s : List Char) : Option CustomServer := do
  let start := (markers.filterMap (findByte (L.toLowercase s))).min?.getD 0
  let parts ← splitAtByte start s
  (elements parts.2).foldlM (applyElement L) {}

/-- The `get_custom_server_from_string` function, where `none` is a panic. -/
def getCustomServerFromString (s : List Char) : Option (Except String CustomServer) :=
  (stripExe L s).bind fun s =>
    if ∃ m ∈ markers, m <:+: L.toLowercase s then (fromParameters L s).map .ok
    else some (fromLicense C s)

end Parameters

/-! ## Names with parameters -/

inductive Field
  | host | key | api | relay | id | agentid | password
  deriving DecidableEq, Repr

namespace Field

/-- The fields in the order in which they stand in a name. -/
def all : List Field := [.host, .key, .api, .relay, .id, .agentid, .password]

/-- What stands in front of the value. -/
def label : Field → List Char
  | host => "host=".toList
  | key => "key=".toList
  | api => "api=".toList
  | relay => "relay=".toList
  | id => "id=".toList
  | agentid => "agentid=".toList
  | password => "password=".toList

def set (field : Field) (server : CustomServer) (value : List Char) : CustomServer :=
  match field with
  | host => { server with host := value }
  | key => { server with key := value }
  | api => { server with api := value }
  | relay => { server with relay := value }
  | id => { server with id := value }
  | agentid => { server with agentid := value }
  | password => { server with password := value }

end Field

/-- Values for some of the fields, among them the host. -/
structure Assignment where
  value : Field → Option (List Char)
  host : (value .host).isSome

namespace Assignment

variable (a : Assignment) (front : List Char)

def fields : List (Field × List Char) :=
  Field.all.filterMap fun field => (a.value field).map fun value => (field, value)

/-- The parameters with commas between them. -/
def params : List Char := [','].intercalate (a.fields.map fun f => f.1.label ++ f.2)

/-- The executable's name. -/
def name : List Char := front ++ '-' :: a.params ++ ".exe".toList

/-- The server with these values, and nothing in the other fields. -/
def server : CustomServer where
  key := (a.value .key).getD []
  host := (a.value .host).getD []
  api := (a.value .api).getD []
  relay := (a.value .relay).getD []
  password := (a.value .password).getD []
  id := (a.value .id).getD []
  agentid := (a.value .agentid).getD []

/-- No value has the character. -/
def Free (c : Char) : Prop := ∀ f ∈ a.fields, c ∉ f.2

/-- The value that the suffix of the name stands behind. -/
def last : List Char := (a.fields.getLast?.map Prod.snd).getD []

/-- This value has the suffix of an executable itself. -/
def EndsInExe : Prop := ".exe".toList <:+ asciiLower a.last

end Assignment

/-- A text without markers, in whatever case. -/
def Unmarked (s : List Char) : Prop := ∀ m ∈ markers, ¬ m <:+: asciiLower s

/-- Where the first marker is, in characters. -/
def firstMarker (s : List Char) : Option Nat := (markers.filterMap (find (asciiLower s))).min?

section Suffix

variable {s : List Char} (L : Lowercase)

/-- The last characters of a text that are ASCII are as many bytes. -/
theorem dropBytes_suffix {m : List Char} (hm : ∀ c ∈ m, IsAscii c) (h : m <:+ asciiLower s) :
    dropBytes m.length s = some (s.take (s.length - m.length)) := by
  obtain ⟨back, ⟨front, rfl⟩, hback⟩ := List.suffix_map_iff.mp h
  have hascii := isAscii_of_map hm hback.symm
  have hlen : m.length = back.length := by
    rw [hback, List.length_map]
  have hbytes : byteLength (front ++ back) - m.length = byteLength front := by
    rw [byteLength_append, byteLength_ascii hascii, hlen, Nat.add_sub_cancel]
  have hle : m.length ≤ byteLength (front ++ back) := by
    rw [byteLength_append, byteLength_ascii hascii, hlen]
    exact Nat.le_add_left _ _
  have htake : (front ++ back).take ((front ++ back).length - m.length) = front := by
    rw [hlen, List.length_append, Nat.add_sub_cancel, List.take_left]
  rw [dropBytes, checkedSub_of_le hle, hbytes, htake]
  simp [splitAtByte_append]

/-- The suffix is taken off without a panic. -/
theorem stripExe_eq (s : List Char) : stripExe L s = some (stripKnownExeSuffix s) := by
  have hboth : ∀ c ∈ ".exe.exe".toList, IsAscii c ∧ c ≠ 'k' := forall_mem_of_all (by decide)
  have hone : ∀ c ∈ ".exe".toList, IsAscii c ∧ c ≠ 'k' := forall_mem_of_all (by decide)
  have htwo : ".exe.exe".toList <:+ L.toLowercase s ↔ ".exe.exe".toList <:+ asciiLower s :=
    L.suffix_between hboth
  have hexe : ".exe".toList <:+ L.toLowercase s ↔ ".exe".toList <:+ asciiLower s :=
    L.suffix_between hone
  unfold stripExe stripKnownExeSuffix
  rw [if_congr htwo rfl rfl, if_congr hexe rfl rfl]
  split_ifs with h8 h4
  · exact dropBytes_suffix (fun c hc => (hboth c hc).1) h8
  · exact dropBytes_suffix (fun c hc => (hone c hc).1) h4
  · rfl

end Suffix

section Markers

variable {s m : List Char} (L : Lowercase)

theorem plain_markers : ∀ m ∈ markers, Lowercase.Plain m ∧ m ≠ [] ∧ '-' ∉ m := by
  have hplain (m : List Char) (hascii : (m.all fun c => decide (IsAscii c)) = true)
      (hk : 'k' ∉ m) (hlast : m.getLast? ≠ some 'i') (hne : m ≠ []) (hminus : '-' ∉ m) :
      Lowercase.Plain m ∧ m ≠ [] ∧ '-' ∉ m :=
    ⟨⟨forall_mem_of_all hascii, hk, hlast⟩, hne, hminus⟩
  simp only [markers, List.map_cons, List.map_nil, List.forall_mem_cons]
  refine ⟨?_, ?_, ?_, ?_, nofun⟩
  · apply hplain <;> decide
  · apply hplain <;> decide
  · apply hplain <;> decide
  · apply hplain <;> decide

/-- A marker is found in lower case at the byte to which the text in front of it grows or
shrinks there. -/
theorem findByte_marker (hm : m ∈ markers) (s : List Char) :
    findByte (L.toLowercase s) m =
      (find (asciiLower s) m).map fun n => byteLength (L.toLowercase (s.take n)) := by
  obtain ⟨hplain, hne, -⟩ := plain_markers m hm
  have hsplit : (splitAtFirst m (L.between [] s [])).map Prod.fst = _ :=
    L.splitAtFirst_between hplain hne
  have hbytes : findByte (L.toLowercase s) m =
      ((splitAtFirst m (L.between [] s [])).map Prod.fst).map byteLength := by
    rw [Option.map_map]
    rfl
  rw [hbytes, hsplit, Option.map_map, find, Option.map_map]
  congr 1
  ext parts : 1
  exact L.byteLength_between _ _ _

theorem infix_toLowercase (hm : m ∈ markers) (s : List Char) :
    m <:+: L.toLowercase s ↔ (find (asciiLower s) m).isSome := by
  have hfound (t : List Char) : m <:+: t ↔ (splitAtFirst m t).isSome := by
    constructor
    · intro hinfix
      exact Option.isSome_iff_ne_none.mpr (splitAtFirst_ne_none hinfix)
    · intro hsome
      obtain ⟨parts, hparts⟩ := Option.isSome_iff_exists.mp hsome
      exact ⟨parts.1, parts.2, (splitAtFirst_eq hparts).symm⟩
  have hbyte := congrArg Option.isSome (findByte_marker L hm s)
  rw [findByte, Option.isSome_map, Option.isSome_map] at hbyte
  rw [hfound, hbyte]

/-- A function that grows keeps where the least number of a list is. -/
theorem min?_map {f : Nat → Nat} (hf : Monotone f) (l : List Nat) :
    (l.map f).min? = l.min?.map f := by
  cases hmin : l.min? with
  | none =>
    rw [List.min?_eq_none_iff] at hmin
    rw [hmin]
    rfl
  | some n =>
    rw [List.min?_eq_some_iff] at hmin
    rw [Option.map_some, List.min?_eq_some_iff]
    refine ⟨List.mem_map_of_mem hmin.1, ?_⟩
    intro b hb
    obtain ⟨k, hk, rfl⟩ := List.mem_map.mp hb
    exact hf (hmin.2 k hk)

/-- The parameters are cut off at the byte to which the text in front of the first marker grows
or shrinks in lower case. -/
theorem start_eq (s : List Char) :
    (markers.filterMap (findByte (L.toLowercase s))).min? =
      (firstMarker s).map fun n => byteLength (L.toLowercase (s.take n)) := by
  have hfind : markers.filterMap (findByte (L.toLowercase s)) =
      (markers.filterMap (find (asciiLower s))).map
        fun n => byteLength (L.toLowercase (s.take n)) := by
    rw [List.map_filterMap]
    apply List.filterMap_congr
    intro m hm
    exact findByte_marker L hm s
  rw [hfind, firstMarker]
  apply min?_map
  intro n k hle
  obtain ⟨rest, hrest⟩ : s.take n <+: s.take k := List.take_prefix_take_left hle
  have happend : L.toLowercase (s.take n ++ rest) =
      L.between [] (s.take n) (rest ++ []) ++ L.between ([] ++ s.take n) rest [] :=
    L.between_append _ _ _ _
  dsimp only
  rw [← hrest, happend, byteLength_append, L.byteLength_between]
  exact Nat.le_add_right _ _

theorem exists_marker_iff (s : List Char) :
    (∃ m ∈ markers, m <:+: L.toLowercase s) ↔ (firstMarker s).isSome := by
  rw [Option.isSome_iff_ne_none, firstMarker, Ne, List.min?_eq_none_iff,
    List.filterMap_eq_nil_iff]
  constructor
  · rintro ⟨m, hm, hinfix⟩ hnone
    rw [infix_toLowercase L hm, hnone m hm] at hinfix
    cases hinfix
  · intro hsome
    by_contra hnone
    apply hsome
    intro m hm
    rw [← Option.not_isSome_iff_eq_none, ← infix_toLowercase L hm]
    exact fun hinfix => hnone ⟨m, hm, hinfix⟩

end Markers

section Elements

variable (L : Lowercase)

/-- An element in brackets has the four bytes that they are. -/
theorem applyBrackets_isSome (server : CustomServer) (el : List Char) :
    (applyBrackets L server el).isSome := by
  unfold applyBrackets
  split_ifs with h
  · have hopen : "p=[".toList <+: asciiLower el := by
      apply (L.prefix_between _).mp h.1
      exact (plain_markers _ (by decide)).1
    have hclose : "]".toList <:+ asciiLower el :=
      (L.suffix_between (forall_mem_of_all (by decide))).mp h.2
    have hlen : 4 ≤ (asciiLower el).length := by
      obtain ⟨rest, hrest⟩ := hopen
      rw [← hrest] at hclose ⊢
      cases rest with
      | nil =>
        revert hclose
        decide
      | cons c rest => simp
    rw [asciiLower, List.length_map] at hlen
    rw [checkedSub_of_le (hlen.trans (length_le_byteLength el))]
    rfl
  · rfl

theorem applyElement_isSome (server : CustomServer) (el : List Char) :
    (applyElement L server el).isSome := by
  unfold applyElement
  rw [Option.isSome_map]
  exact applyBrackets_isSome L _ el

/-- The elements are gone through without a panic. -/
theorem foldlM_applyElement_isSome (server : CustomServer) (els : List (List Char)) :
    (els.foldlM (applyElement L) server).isSome := by
  have hloop : els.foldlM (applyElement L) server =
      some (els.foldl (fun server el => (applyElement L server el).getD server) server) := by
    apply foldlM_eq_some (Q := fun _ _ => True)
    · intro server el _ _
      obtain ⟨next, hnext⟩ := Option.isSome_iff_exists.mp (applyElement_isSome L server el)
      simp [hnext]
    · trivial
  rw [hloop]
  rfl

theorem toLowercase_label (field : Field) (value : List Char) :
    L.toLowercase (field.label ++ value) = field.label ++ L.between field.label value [] := by
  have hascii : ∀ c ∈ field.label, IsAscii c := by
    cases field <;> exact forall_mem_of_all (by decide)
  rw [Lowercase.toLowercase, L.between_append, L.between_ascii hascii]
  cases field <;> rfl

/-- An element with the label of a field sets this field alone. -/
theorem applyElement_label (server : CustomServer) (field : Field) (value : List Char) :
    applyElement L server (field.label ++ value) = some (field.set server value) := by
  unfold applyElement applyBrackets
  rw [toLowercase_label]
  cases field <;> rfl

theorem foldlM_applyElement (server : CustomServer) (fields : List (Field × List Char)) :
    (fields.map fun f => f.1.label ++ f.2).foldlM (applyElement L) server =
      some (fields.foldl (fun server f => f.1.set server f.2) server) := by
  rw [List.foldlM_map]
  apply foldlM_eq_some (Q := fun _ _ => True)
  · intro server f _ _
    exact ⟨applyElement_label L server f.1 f.2, trivial⟩
  · trivial

end Elements

section Names

variable {a : Assignment} {front : List Char} (L : Lowercase) (C : Crates)

theorem Assignment.fields_ne_nil (a : Assignment) : a.fields ≠ [] := by
  obtain ⟨value, hvalue⟩ := Option.isSome_iff_exists.mp a.host
  simp [fields, Field.all, hvalue]

/-- The host comes first. -/
theorem Assignment.params_host (a : Assignment) :
    ∃ rest, a.params = Field.host.label ++ rest := by
  obtain ⟨value, hvalue⟩ := Option.isSome_iff_exists.mp a.host
  obtain ⟨fields, hfields⟩ : ∃ fields, a.fields = (.host, value) :: fields := by
    simp [fields, Field.all, hvalue]
  rw [params, hfields, List.map_cons]
  cases fields with
  | nil =>
    refine ⟨value, ?_⟩
    rw [List.map_nil, List.intercalate_singleton]
  | cons f fields =>
    refine ⟨value ++ [','] ++ [','].intercalate ((f :: fields).map fun f => f.1.label ++ f.2), ?_⟩
    rw [List.map_cons, List.intercalate_cons_cons, List.append_assoc, List.append_assoc,
      List.append_assoc]

/-- Set one after another, the values make the server. -/
theorem Assignment.foldl_set (a : Assignment) :
    a.fields.foldl (fun server f => f.1.set server f.2) {} = a.server := by
  have hone (server : CustomServer) (field : Field) (fields : List Field) :
      ((field :: fields).filterMap fun field =>
          (a.value field).map fun value => (field, value)).foldl
        (fun server f => f.1.set server f.2) server =
      (fields.filterMap fun field => (a.value field).map fun value => (field, value)).foldl
        (fun server f => f.1.set server f.2)
        ((a.value field).elim server (field.set server)) := by
    cases hvalue : a.value field <;> simp [hvalue]
  unfold fields Field.all
  iterate 7 rw [hone]
  have hset (o : Option (List Char)) (field : Field) (server : CustomServer)
      (hempty : field.set server [] = server) :
      o.elim server (field.set server) = field.set server (o.getD []) := by
    cases o with
    | none => exact hempty.symm
    | some value => rfl
  rw [hset (a.value .host) .host {} rfl, hset (a.value .key) .key _ rfl,
    hset (a.value .api) .api _ rfl, hset (a.value .relay) .relay _ rfl,
    hset (a.value .id) .id _ rfl, hset (a.value .agentid) .agentid _ rfl,
    hset (a.value .password) .password _ rfl]
  rfl

/-- What is joined is made of the parts and of what stands between them. -/
theorem mem_intercalate {sep : List Char} {ls : List (List Char)} {c : Char}
    (h : c ∈ sep.intercalate ls) : c ∈ sep ∨ ∃ l ∈ ls, c ∈ l := by
  induction ls with
  | nil => cases h
  | cons l ls ih =>
    cases ls with
    | nil =>
      rw [List.intercalate_singleton] at h
      exact .inr ⟨l, List.mem_cons_self, h⟩
    | cons l' ls =>
      rw [List.intercalate_cons_cons, List.mem_append, List.mem_append] at h
      rcases h with (h | h) | h
      · exact .inr ⟨l, List.mem_cons_self, h⟩
      · exact .inl h
      · rcases ih h with hsep | ⟨k, hk, hc⟩
        · exact .inl hsep
        · exact .inr ⟨k, List.mem_cons_of_mem _ hk, hc⟩

/-- Without commas and hyphens in the values the elements are the fields. -/
theorem Assignment.elements_params (hcomma : a.Free ',') (hminus : a.Free '-') :
    elements a.params = a.fields.map fun f => f.1.label ++ f.2 := by
  have hlabel (field : Field) : ',' ∉ field.label ∧ '-' ∉ field.label := by
    cases field <;> decide
  have hmap : (a.params.map fun c => if c = '-' then ',' else c) = a.params := by
    conv_rhs => rw [← List.map_id a.params]
    apply List.map_congr_left
    intro c hc
    apply if_neg
    rintro rfl
    rcases mem_intercalate hc with hsep | ⟨el, hel, hmem⟩
    · exact absurd hsep (by decide)
    · obtain ⟨f, hf, rfl⟩ := List.mem_map.mp hel
      rcases List.mem_append.mp hmem with hmem | hmem
      · exact (hlabel f.1).2 hmem
      · exact hminus f hf hmem
  rw [elements, hmap, params]
  apply List.splitOn_intercalate
  · intro el hel
    obtain ⟨f, hf, rfl⟩ := List.mem_map.mp hel
    rw [List.mem_append, not_or]
    exact ⟨(hlabel f.1).1, hcomma f hf⟩
  · simp [a.fields_ne_nil]

/-- The last field's value is the end of the name without its suffix. -/
theorem Assignment.params_last (a : Assignment) {f : Field × List Char}
    (hlast : a.fields.getLast? = some f) : ∃ before, a.params = before ++ '=' :: f.2 := by
  obtain ⟨fields, hfields⟩ := List.getLast?_eq_some_iff.mp hlast
  have hlabel (field : Field) : ∃ before, field.label = before ++ ['='] := by
    cases field
    · exact ⟨"host".toList, rfl⟩
    · exact ⟨"key".toList, rfl⟩
    · exact ⟨"api".toList, rfl⟩
    · exact ⟨"relay".toList, rfl⟩
    · exact ⟨"id".toList, rfl⟩
    · exact ⟨"agentid".toList, rfl⟩
    · exact ⟨"password".toList, rfl⟩
  have hjoin (ls : List (List Char)) (l : List Char) :
      ∃ before, [','].intercalate (ls ++ [l]) = before ++ l := by
    induction ls with
    | nil => exact ⟨[], by rw [List.nil_append, List.intercalate_singleton, List.nil_append]⟩
    | cons k ls ih =>
      obtain ⟨before, hbefore⟩ := ih
      refine ⟨k ++ [','] ++ before, ?_⟩
      rw [List.cons_append, List.intercalate_cons_of_ne_nil (by simp), hbefore]
      simp only [List.append_assoc]
  obtain ⟨label, hlabel⟩ := hlabel f.1
  obtain ⟨before, hbefore⟩ := hjoin (fields.map fun f => f.1.label ++ f.2) (f.1.label ++ f.2)
  refine ⟨before ++ label, ?_⟩
  rw [params, hfields, List.map_append, List.map_singleton, hbefore, hlabel]
  simp

/-- An equals sign keeps the suffix of a name behind it. -/
theorem exe_suffix (before s : List Char) :
    ".exe".toList <:+ asciiLower (before ++ '=' :: s) ↔ ".exe".toList <:+ asciiLower s := by
  have hsplit : asciiLower (before ++ '=' :: s) = asciiLower before ++ '=' :: asciiLower s :=
    List.map_append
  rw [hsplit]
  constructor
  · intro hsuffix
    rcases List.suffix_or_suffix_of_suffix hsuffix (List.suffix_append _ _) with hexe | hexe
    · rcases List.suffix_cons_iff.mp hexe with heq | hrest
      · have hmem : '=' ∈ ".exe".toList := by
          rw [heq]
          exact List.mem_cons_self
        exact absurd hmem (by decide)
      · exact hrest
    · exact absurd (hexe.subset List.mem_cons_self) (by decide)
  · rintro ⟨rest, hrest⟩
    exact ⟨asciiLower before ++ '=' :: rest, by rw [← hrest]; simp⟩

/-- Of a name only the suffix is taken off where the last value does not end in one. -/
theorem stripKnownExeSuffix_name (h : ¬ a.EndsInExe) :
    stripKnownExeSuffix (a.name front) = front ++ '-' :: a.params := by
  obtain ⟨f, hf⟩ : ∃ f, a.fields.getLast? = some f :=
    ⟨_, List.getLast?_eq_some_getLast a.fields_ne_nil⟩
  obtain ⟨before, hbefore⟩ := a.params_last hf
  have hbare : ¬ ".exe".toList <:+ asciiLower (front ++ '-' :: a.params) := by
    have hparts : front ++ '-' :: a.params = (front ++ '-' :: before) ++ '=' :: f.2 := by
      rw [hbefore]
      simp
    have hvalue : a.last = f.2 := by
      rw [Assignment.last, hf]
      rfl
    rw [hparts, exe_suffix, ← hvalue]
    exact h
  have hlower : asciiLower (a.name front) =
      asciiLower (front ++ '-' :: a.params) ++ ".exe".toList := List.map_append
  have htwo : ¬ ".exe.exe".toList <:+ asciiLower (a.name front) := by
    rintro ⟨rest, hrest⟩
    apply hbare
    refine ⟨rest, ?_⟩
    rw [hlower] at hrest
    have hboth : ".exe.exe".toList = ".exe".toList ++ ".exe".toList := rfl
    rw [hboth, ← List.append_assoc] at hrest
    exact List.append_cancel_right hrest
  have hone : ".exe".toList <:+ asciiLower (a.name front) := by
    rw [hlower]
    exact List.suffix_append _ _
  rw [stripKnownExeSuffix, if_neg htwo, if_pos hone, Assignment.name, List.length_append]
  exact List.take_left

/-- Behind a text without markers and a hyphen the first marker is no earlier. -/
theorem lt_of_splitAtFirst {m p q before rest : List Char} (hm : ¬ m <:+: p) (hminus : '-' ∉ m)
    (h : splitAtFirst m (p ++ '-' :: q) = some (before, rest)) : p.length < before.length := by
  by_contra hlt
  have heq := splitAtFirst_eq h
  rw [List.append_assoc] at heq
  have hprefix : before <+: p := List.prefix_of_prefix_length_le ⟨_, heq.symm⟩
    (List.prefix_append _ _) (by omega)
  obtain ⟨p', rfl⟩ := hprefix
  rw [List.append_assoc] at heq
  rcases List.append_eq_append_iff.mp (List.append_cancel_left heq) with ⟨t, ht, hq⟩ | ⟨t, ht, -⟩
  · cases t with
    | nil =>
      apply hm
      rw [ht, List.append_nil]
      exact (List.suffix_append _ _).isInfix
    | cons c t =>
      apply hminus
      rw [ht, (List.cons.inj hq).1]
      exact List.mem_append_right _ List.mem_cons_self
  · apply hm
    rw [ht]
    exact ⟨before, t, by rw [List.append_assoc]⟩

/-- The parameters of a name begin with the host. -/
theorem firstMarker_name (h : Unmarked front) :
    firstMarker (front ++ '-' :: a.params) = some (front.length + 1) := by
  obtain ⟨rest, hrest⟩ := a.params_host
  have hlower : asciiLower (front ++ '-' :: a.params) =
      asciiLower front ++ '-' :: asciiLower a.params := List.map_append
  have hlen : (asciiLower front).length = front.length := List.length_map _
  have hle : ∀ n ∈ markers.filterMap (find (asciiLower (front ++ '-' :: a.params))),
      front.length + 1 ≤ n := by
    intro n hn
    obtain ⟨m, hm, hfind⟩ := List.mem_filterMap.mp hn
    obtain ⟨⟨before, behind⟩, hsplit, rfl⟩ := Option.map_eq_some_iff.mp hfind
    rw [hlower] at hsplit
    have hlt := lt_of_splitAtFirst (h m hm) (plain_markers m hm).2.2 hsplit
    rw [hlen] at hlt
    exact hlt
  have hprefix : (asciiLower front ++ ['-']) ++ Field.host.label <+:
      asciiLower (front ++ '-' :: a.params) := by
    refine ⟨asciiLower rest, ?_⟩
    have hhost : asciiLower a.params = Field.host.label ++ asciiLower rest := by
      rw [hrest, asciiLower, List.map_append]
      rfl
    rw [hlower, hhost]
    simp
  obtain ⟨⟨before, behind⟩, hsplit⟩ := Option.ne_none_iff_exists'.mp
    (splitAtFirst_ne_none ((List.suffix_append _ _).isInfix.trans hprefix.isInfix))
  have hmem : before.length ∈
      markers.filterMap (find (asciiLower (front ++ '-' :: a.params))) := by
    apply List.mem_filterMap.mpr
    refine ⟨Field.host.label, List.mem_cons_self, ?_⟩
    rw [find, hsplit]
    rfl
  have hbefore : before.length = front.length + 1 := by
    have hfirst := splitAtFirst_le hsplit hprefix
    rw [List.length_append, hlen] at hfirst
    exact Nat.le_antisymm hfirst (hle _ hmem)
  rw [firstMarker, List.min?_eq_some_iff]
  rw [hbefore] at hmem
  exact ⟨hmem, hle⟩

/-- What stands in front of the first marker has as many bytes in lower case. -/
def Steady (s : List Char) : Prop :=
  ∀ n, firstMarker (stripKnownExeSuffix s) = some n → L.Keeps ((stripKnownExeSuffix s).take n)

/-- Where the text in front of the first marker keeps its length, the name is cut at the marker. -/
theorem getCustomServerFromString_steady {s : List Char} (h : Steady L s) :
    getCustomServerFromString L C s =
      match firstMarker (stripKnownExeSuffix s) with
      | some n => ((elements ((stripKnownExeSuffix s).drop n)).foldlM (applyElement L) {}).map .ok
      | none => some (fromLicense C (stripKnownExeSuffix s)) := by
  unfold getCustomServerFromString
  rw [stripExe_eq, Option.bind_some, if_congr (exists_marker_iff L _) rfl rfl]
  cases hfirst : firstMarker (stripKnownExeSuffix s) with
  | none => rfl
  | some n =>
    have hcut : splitAtByte (byteLength ((stripKnownExeSuffix s).take n)) (stripKnownExeSuffix s) =
        some ((stripKnownExeSuffix s).take n, (stripKnownExeSuffix s).drop n) := by
      have happend := splitAtByte_append ((stripKnownExeSuffix s).take n)
        ((stripKnownExeSuffix s).drop n)
      rwa [List.take_append_drop] at happend
    have hkeeps : byteLength (L.toLowercase ((stripKnownExeSuffix s).take n)) =
        byteLength ((stripKnownExeSuffix s).take n) := h n hfirst
    rw [Option.isSome_some, if_pos rfl, fromParameters, start_eq, hfirst, Option.map_some,
      Option.getD_some, hkeeps, hcut]
    rfl

/-- The values of a name are read back where no value has a comma or a hyphen, the last one does
not end in the suffix of an executable, and the text in front keeps its length in lower case. And no
name is a panic in which the text in front of the first marker does. -/
theorem getCustomServerFromString_round_trip :
    (∀ (a : Assignment) (front : List Char), Unmarked front → L.Keeps front → a.Free ',' →
      a.Free '-' → ¬ a.EndsInExe →
        getCustomServerFromString L C (a.name front) = some (.ok a.server)) ∧
    ∀ s, Steady L s → (getCustomServerFromString L C s).isSome := by
  constructor
  · intro a front hfront hkeeps hcomma hminus hexe
    have hfirst := firstMarker_name (a := a) hfront
    have htake : (front ++ '-' :: a.params).take (front.length + 1) = front ++ ['-'] := by
      rw [List.take_length_add_append]
      rfl
    have hdrop : (front ++ '-' :: a.params).drop (front.length + 1) = a.params := by
      rw [List.drop_length_add_append]
      rfl
    have hsteady : Steady L (a.name front) := by
      intro n hn
      rw [stripKnownExeSuffix_name hexe, hfirst] at hn
      rw [stripKnownExeSuffix_name hexe, ← Option.some.inj hn, htake]
      have happend : L.toLowercase (front ++ ['-']) =
          L.between [] front ['-'] ++ L.between ([] ++ front) ['-'] [] :=
        L.between_append _ _ _ _
      have hminus : L.between ([] ++ front) ['-'] [] = ['-'] := by
        apply L.between_ascii
        simp only [List.mem_singleton, forall_eq]
        decide
      rw [Lowercase.Keeps, happend, hminus, byteLength_append, byteLength_append,
        L.byteLength_between, hkeeps]
    rw [getCustomServerFromString_steady L C hsteady, stripKnownExeSuffix_name hexe, hfirst]
    dsimp only
    rw [hdrop, Assignment.elements_params hcomma hminus, foldlM_applyElement,
      Assignment.foldl_set]
    rfl
  · intro s hsteady
    rw [getCustomServerFromString_steady L C hsteady]
    split
    · rw [Option.isSome_map]
      exact foldlM_applyElement_isSome L _ _
    · rfl

end Names

section Samples

/-- Lower case, with the two characters that have an ASCII letter there. -/
def sampleLowercase : Lowercase where
  piece _ c _ :=
    if IsAscii c then [c.toLower]
    else if c = '\u212A' then ['k']
    else if c = '\u0130' then ['i', '\u0307']
    else [c]
  ascii _ c _ h := if_pos h
  other _ c _ h := by
    rw [if_neg h]
    split_ifs
    · exact .inl rfl
    · exact .inr (.inl rfl)
    · simp [h]
  size _ _ _ _ _ := rfl

def sampleCrates : Crates where
  fromSlice _ := none
  verify _ _ := none

def sampleAssignment : Assignment where
  value
    | .host => some "server.example.net".toList
    | .key => some "Zm9vYmFyLiwyCg==".toList
    | .agentid => some "18".toList
    | _ => none
  host := rfl

/-- A host, a key and an agent behind a common name, and a name without parameters. -/
theorem getCustomServerFromString_round_trip_sample :
    getCustomServerFromString sampleLowercase sampleCrates
        "rustdesk-host=server.example.net,key=Zm9vYmFyLiwyCg==,agentid=18.exe".toList =
      some (.ok {
        host := "server.example.net".toList
        key := "Zm9vYmFyLiwyCg==".toList
        agentid := "18".toList }) ∧
    (getCustomServerFromString sampleLowercase sampleCrates "rustdesk.exe".toList).isSome := by
  constructor
  · exact (getCustomServerFromString_round_trip sampleLowercase sampleCrates).1 sampleAssignment
      "rustdesk".toList (forall_mem_of_all (by decide)) rfl (forall_mem_of_all (by decide))
      (forall_mem_of_all (by decide)) (by unfold Assignment.EndsInExe; decide)
  · apply (getCustomServerFromString_round_trip sampleLowercase sampleCrates).2
    have hnone : firstMarker (stripKnownExeSuffix "rustdesk.exe".toList) = none := by decide
    intro n hn
    rw [hnone] at hn
    cases hn

def hyphenAssignment : Assignment where
  value
    | .host => some "my-server.example.net".toList
    | _ => none
  host := rfl

/-- A hyphen ends the host, and the Kelvin sign in front of a marker moves the cut into it. -/
theorem getCustomServerFromString_parts_host :
    ¬ (∀ (a : Assignment) (front : List Char), Unmarked front → a.Free ',' →
      getCustomServerFromString sampleLowercase sampleCrates (a.name front) =
        some (.ok a.server)) ∧
    ¬ ∀ s, (getCustomServerFromString sampleLowercase sampleCrates s).isSome := by
  constructor
  · intro h
    have hmine := h hyphenAssignment "rustdesk".toList (forall_mem_of_all (by decide))
      (forall_mem_of_all (by decide))
    have hpart : getCustomServerFromString sampleLowercase sampleCrates
        (hyphenAssignment.name "rustdesk".toList) = some (.ok { host := "my".toList }) := rfl
    rw [hpart] at hmine
    revert hmine
    decide
  · intro h
    have hpanic : getCustomServerFromString sampleLowercase sampleCrates
        "\u212Ahost=".toList = none := rfl
    have hkelvin := h "\u212Ahost=".toList
    rw [hpanic] at hkelvin
    cases hkelvin

end Samples

end CustomServer

end MDesk
