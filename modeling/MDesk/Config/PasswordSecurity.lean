import MDesk.Core.Base64
import MDesk.Core.Utf8
import MDesk.Net.Encrypt

/-!
# Stored passwords

A password is stored sealed under a key of the machine, as base64 behind the version of the
encryption. A stored value that does not open is taken as it is. The length limit counts the
characters of a text and the bytes of a vector.
-/

namespace MDesk

open Core

/-- `str::as_bytes`. -/
def asBytes (s : String) : Bytes := utf8Bytes s.toList

/-- `String::from_utf8_lossy`. -/
def fromUtf8Lossy (v : Bytes) : String := String.ofList (utf8Lossy v)

/-- `sodiumoxide`: boxes and base64. -/
structure Sodium extends SecretBox where
  encode : Bytes → String
  decode : Bytes → Option Bytes

/-- What the stored passwords rely on: a box has a tag of 16 bytes, and both ways of writing
data are undone. -/
structure Sodium.Lawful (S : Sodium) : Prop where
  open_seal : S.toSecretBox.Lawful
  length_seal : ∀ data nonce key, (S.sealBox data nonce key).length = data.length + 16
  decode_encode : ∀ data, S.decode (asBytes (S.encode data)) = some data
  encode_ne_empty : ∀ data, data ≠ [] → S.encode data ≠ ""

namespace PasswordSecurity

def versionLen : Nat := 2

def passwordEncVersion : String := "00"

section Model

variable (S : Sodium) (uuid : Bytes)

/-- Seal or open data under the key of the machine. -/
def symmetricCrypt (data : Bytes) (encrypt : Bool) : Option Bytes :=
  let key := uuid.takeD 32 0
  let nonce := List.replicate 24 0
  if encrypt then some (S.sealBox data nonce key) else S.openBox data nonce key

def encrypt (v : Bytes) : Option String :=
  if v ≠ [] then (symmetricCrypt S uuid v true).map S.encode else none

def decrypt (v : Bytes) : Option Bytes :=
  if v ≠ [] then (S.decode v).bind fun v => symmetricCrypt S uuid v false else none

/-- The text of a stored one, whether it was decrypted, and whether it should be stored. -/
def decryptStrOrOriginal (s currentVersion : String) : String × Bool × Bool :=
  let original := (s, false, decide (s ≠ ""))
  if versionLen < (asBytes s).length ∧ ['0', '0'] <+: s.toList then
    match decrypt S uuid ((asBytes s).drop versionLen) with
    | some v => (fromUtf8Lossy v, true, decide ("00" ≠ currentVersion))
    | none => original
  else original

def encryptStrOrOriginal (s version : String) (maxLen : Nat) : String :=
  if (decryptStrOrOriginal S uuid s version).2.1 then s
  else if maxLen < s.length then ""
  else if version = "00" then
    match encrypt S uuid (asBytes s) with
    | some text => version ++ text
    | none => s
  else s

def decryptVecOrOriginal (v : Bytes) (currentVersion : String) : Bytes × Bool × Bool :=
  let original := (v, false, decide (v ≠ []))
  if versionLen < v.length then
    let version := fromUtf8Lossy (v.take versionLen)
    if version = "00" then
      match decrypt S uuid (v.drop versionLen) with
      | some v => (v, true, decide (version ≠ currentVersion))
      | none => original
    else original
  else original

def encryptVecOrOriginal (v : Bytes) (version : String) (maxLen : Nat) : Bytes :=
  if (decryptVecOrOriginal S uuid v version).2.1 then v
  else if maxLen < v.length then []
  else if version = "00" then
    match encrypt S uuid v with
    | some text => asBytes version ++ asBytes text
    | none => v
  else v

end Model

variable {S : Sodium} {uuid v : Bytes} {s t version : String} {maxLen : Nat}

theorem asBytes_append (s t : String) : asBytes (s ++ t) = asBytes s ++ asBytes t := by
  unfold asBytes
  rw [String.toList_append, utf8Bytes_append]

theorem fromUtf8Lossy_asBytes (s : String) : fromUtf8Lossy (asBytes s) = s := by
  unfold fromUtf8Lossy asBytes
  rw [utf8Lossy_bytes, String.ofList_toList]

theorem asBytes_inj : asBytes s = asBytes t ↔ s = t := by
  constructor
  · intro h
    rw [← fromUtf8Lossy_asBytes s, h, fromUtf8Lossy_asBytes]
  · rintro rfl
    rfl

theorem asBytes_eq_nil : asBytes s = [] ↔ s = "" := asBytes_inj (t := "")

/-- Only the two digits themselves are read as the version. -/
theorem fromUtf8Lossy_eq_version (v : Bytes) : fromUtf8Lossy v = "00" ↔ v = asBytes "00" := by
  constructor
  · intro h
    have hchars : utf8Lossy v = ['0', '0'] := by
      rw [← String.toList_ofList (l := utf8Lossy v)]
      exact congrArg String.toList h
    have hplain : replacementChar ∉ utf8Lossy v := by
      rw [hchars]
      decide
    rw [bytes_of_utf8Lossy hplain, hchars]
    rfl
  · rintro rfl
    exact fromUtf8Lossy_asBytes _

/-- A text starts with the version where its bytes do. -/
theorem version_prefix_iff (s : String) :
    ['0', '0'] <+: s.toList ↔ (asBytes s).take versionLen = asBytes "00" := by
  constructor
  · rintro ⟨rest, hrest⟩
    unfold asBytes
    rw [← hrest, utf8Bytes_append]
    rfl
  · intro h
    have hbytes : asBytes s = 48 :: 48 :: (asBytes s).drop versionLen :=
      (List.take_append_drop versionLen _).symm.trans (congrArg (· ++ _) h)
    have hchars : s.toList = utf8Lossy (asBytes s) := (utf8Lossy_bytes _).symm
    rw [hchars, hbytes]
    exact ⟨_, rfl⟩

/-- A text is decrypted as its bytes are. -/
theorem decryptStr_eq (s version : String) : decryptStrOrOriginal S uuid s version =
    (fromUtf8Lossy (decryptVecOrOriginal S uuid (asBytes s) version).1,
      (decryptVecOrOriginal S uuid (asBytes s) version).2) := by
  have horiginal : (fromUtf8Lossy (asBytes s), false, decide (asBytes s ≠ [])) =
      (s, false, decide (s ≠ "")) := by
    rw [fromUtf8Lossy_asBytes, decide_eq_decide.mpr (not_congr asBytes_eq_nil)]
  unfold decryptStrOrOriginal decryptVecOrOriginal
  simp only [version_prefix_iff, fromUtf8Lossy_eq_version]
  split_ifs with hboth hlen hver hlen hver
  · rw [hver, fromUtf8Lossy_asBytes]
    cases decrypt S uuid ((asBytes s).drop versionLen) with
    | none => exact horiginal.symm
    | some v => rfl
  · exact absurd hboth.2 hver
  · exact absurd hboth.1 hlen
  · exact absurd ⟨hlen, hver⟩ hboth
  · exact horiginal.symm
  · exact horiginal.symm

theorem encrypt_eq (hne : v ≠ []) : encrypt S uuid v =
    some (S.encode (S.sealBox v (List.replicate 24 0) (uuid.takeD 32 0))) := if_pos hne

/-- What was sealed is opened, and need not be stored again. -/
theorem decryptVec_encrypt (hS : S.Lawful) (h : encrypt S uuid v = some t) :
    decryptVecOrOriginal S uuid (asBytes "00" ++ asBytes t) passwordEncVersion =
      (v, true, false) := by
  have hne : v ≠ [] := by
    rintro rfl
    cases h
  rw [encrypt_eq hne, Option.some_inj] at h
  subst h
  generalize hsealed : S.sealBox v (List.replicate 24 0) (uuid.takeD 32 0) = sealed
  have hsealed_ne : sealed ≠ [] := by
    have hlen := hS.length_seal v (List.replicate 24 0) (uuid.takeD 32 0)
    rw [hsealed] at hlen
    exact List.ne_nil_of_length_pos (by omega)
  have htext : asBytes (S.encode sealed) ≠ [] := by
    rw [Ne, asBytes_eq_nil]
    exact hS.encode_ne_empty sealed hsealed_ne
  have hopen : decrypt S uuid (asBytes (S.encode sealed)) = some v := by
    unfold decrypt symmetricCrypt
    rw [if_pos htext, hS.decode_encode, Option.bind_some, ← hsealed]
    exact hS.open_seal v _ _
  have htake : (asBytes "00" ++ asBytes (S.encode sealed)).take versionLen = asBytes "00" := rfl
  have hdrop : (asBytes "00" ++ asBytes (S.encode sealed)).drop versionLen =
      asBytes (S.encode sealed) := rfl
  have hlong : versionLen < (asBytes "00" ++ asBytes (S.encode sealed)).length := by
    rw [List.length_append]
    exact Nat.lt_add_of_pos_right (List.length_pos_of_ne_nil htext)
  unfold decryptVecOrOriginal
  simp only [if_pos hlong, htake, hdrop, hopen, fromUtf8Lossy_asBytes, passwordEncVersion, ne_eq,
    not_true, decide_false, ↓reduceIte]

/-- A value that is not encrypted is taken as it is. -/
theorem decryptVec_plain (h : (decryptVecOrOriginal S uuid v version).2.1 = false) :
    decryptVecOrOriginal S uuid v version = (v, false, decide (v ≠ [])) := by
  unfold decryptVecOrOriginal at h ⊢
  dsimp only at h ⊢
  split_ifs at h ⊢
  · split at h
    · cases h
    · rfl
  · rfl
  · rfl

theorem encryptVec_plain (hplain : (decryptVecOrOriginal S uuid v passwordEncVersion).2.1 = false)
    (hlen : v.length ≤ maxLen) (h : encrypt S uuid v = some t) :
    encryptVecOrOriginal S uuid v passwordEncVersion maxLen = asBytes "00" ++ asBytes t := by
  unfold encryptVecOrOriginal
  rw [hplain, if_neg Bool.false_ne_true, if_neg (Nat.not_lt.mpr hlen), h]
  rfl

theorem encryptStr_plain (hplain : (decryptStrOrOriginal S uuid s passwordEncVersion).2.1 = false)
    (hlen : s.length ≤ maxLen) (h : encrypt S uuid (asBytes s) = some t) :
    encryptStrOrOriginal S uuid s passwordEncVersion maxLen = "00" ++ t := by
  unfold encryptStrOrOriginal
  rw [hplain, if_neg Bool.false_ne_true, if_neg (Nat.not_lt.mpr hlen), h]
  rfl

/-- A text that is not encrypted comes back from its encryption; as it is, it is to be stored. An
encrypted value is not encrypted again, and a text of few enough bytes is treated as its
bytes are. -/
theorem encrypt_decrypt_or_original (hS : S.Lawful) (hne : s ≠ "") (hlen : s.length ≤ maxLen)
    (hplain : (decryptStrOrOriginal S uuid s passwordEncVersion).2.1 = false) :
    decryptStrOrOriginal S uuid (encryptStrOrOriginal S uuid s passwordEncVersion maxLen)
        passwordEncVersion = (s, true, false) ∧
      (∀ t, (decryptStrOrOriginal S uuid t passwordEncVersion).2.1 = true →
        encryptStrOrOriginal S uuid t passwordEncVersion maxLen = t) ∧
      decryptStrOrOriginal S uuid s passwordEncVersion = (s, false, true) ∧
      ((asBytes s).length ≤ maxLen →
        encryptVecOrOriginal S uuid (asBytes s) passwordEncVersion maxLen =
            asBytes (encryptStrOrOriginal S uuid s passwordEncVersion maxLen) ∧
          decryptVecOrOriginal S uuid (asBytes s) passwordEncVersion = (asBytes s, false, true) ∧
          decryptVecOrOriginal S uuid
              (encryptVecOrOriginal S uuid (asBytes s) passwordEncVersion maxLen)
              passwordEncVersion = (asBytes s, true, false)) := by
  have hbytes : asBytes s ≠ [] := asBytes_eq_nil.not.mpr hne
  have hvec : (decryptVecOrOriginal S uuid (asBytes s) passwordEncVersion).2.1 = false := by
    rwa [decryptStr_eq] at hplain
  have hasis := decryptVec_plain hvec
  rw [decide_eq_true hbytes] at hasis
  have hsealed : encrypt S uuid (asBytes s) = some _ := encrypt_eq hbytes
  have hstr := encryptStr_plain hplain hlen hsealed
  have hback := decryptVec_encrypt hS hsealed
  refine ⟨?_, fun t ht => if_pos ht, ?_, fun hshort => ?_⟩
  · rw [hstr, decryptStr_eq, asBytes_append, hback, fromUtf8Lossy_asBytes]
  · rw [decryptStr_eq, hasis, fromUtf8Lossy_asBytes]
  · have hsame := encryptVec_plain hvec hshort hsealed
    refine ⟨?_, hasis, ?_⟩
    · rw [hsame, hstr, asBytes_append]
    · rw [hsame, hback]

/-- The id of a machine, as long as its key. -/
def sampleUuid : Bytes := asBytes "0123456789abcdef0123456789abcdef"

/-- The box of the text `1` on that machine. -/
def sampleBoxed : Bytes :=
  [71, 133, 36, 46, 167, 127, 14, 158, 202, 236, 21, 129, 157, 59, 116, 24, 180]

/-- Boxes to run on that text: the tag of any other data is zero. -/
def sampleSodium : Sodium where
  sealBox data nonce key :=
    if data = asBytes "1" ∧ nonce = List.replicate 24 0 ∧ key = sampleUuid then sampleBoxed
    else List.replicate 16 0 ++ data
  openBox boxed nonce key :=
    if boxed = sampleBoxed ∧ nonce = List.replicate 24 0 ∧ key = sampleUuid then some (asBytes "1")
    else if List.replicate 16 0 <+: boxed then some (boxed.drop 16) else none
  encode data := String.ofList (base64Encode data)
  decode v := base64Decode (utf8Lossy v)

theorem sampleSodium_lawful : sampleSodium.Lawful where
  open_seal data nonce key := by
    by_cases h : data = asBytes "1" ∧ nonce = List.replicate 24 0 ∧ key = sampleUuid
    · obtain ⟨rfl, hkey⟩ := h
      simp [sampleSodium, hkey]
    · have hboxed : sampleSodium.sealBox data nonce key = List.replicate 16 0 ++ data := if_neg h
      have hother : ¬ (List.replicate 16 0 ++ data = sampleBoxed ∧ nonce = List.replicate 24 0 ∧
          key = sampleUuid) := fun hsame => absurd hsame.1 nofun
      rw [hboxed]
      simp only [sampleSodium, if_neg hother, if_pos (List.prefix_append _ _),
        List.drop_left' (List.length_replicate)]
  length_seal data nonce key := by
    by_cases h : data = asBytes "1" ∧ nonce = List.replicate 24 0 ∧ key = sampleUuid
    · obtain ⟨rfl, hkey⟩ := h
      simp only [sampleSodium, hkey, and_self, if_true]
      rfl
    · simp only [sampleSodium, h, if_false, List.length_append, List.length_replicate]
      exact Nat.add_comm _ _
  decode_encode data := by
    simp only [sampleSodium, asBytes, String.toList_ofList, utf8Lossy_bytes, base64Decode_encode]
  encode_ne_empty data hne h := by
    have hlen : (base64Encode data).length = 0 := by
      have hnil := congrArg String.toList h
      simp only [sampleSodium, String.toList_ofList] at hnil
      rw [hnil]
      rfl
    have hpos := List.length_pos_of_ne_nil hne
    rw [base64Encode_length] at hlen
    omega

theorem encrypt_decrypt_or_original_sample :
    decryptStrOrOriginal sampleSodium sampleUuid
        (encryptStrOrOriginal sampleSodium sampleUuid "1" passwordEncVersion 128)
        passwordEncVersion = ("1", true, false) ∧
      encryptVecOrOriginal sampleSodium sampleUuid (asBytes "1") passwordEncVersion 128 =
        asBytes (encryptStrOrOriginal sampleSodium sampleUuid "1" passwordEncVersion 128) := by
  have h := @encrypt_decrypt_or_original sampleSodium sampleUuid "1" 128 sampleSodium_lawful
    (by decide) (by decide) (by decide +kernel)
  exact ⟨h.1, (h.2.2.2 (by decide +kernel)).1⟩

end PasswordSecurity

end MDesk
