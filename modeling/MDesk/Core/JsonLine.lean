import Mathlib.Data.List.Basic

/-!
# Flat JSON objects

Objects whose members are numbers and strings, written without blanks, and a reader for them.
The reader takes every escape of JSON strings and refuses control characters.
-/

namespace MDesk.Core

/-- The value of a member. -/
inductive JsonScalar where
  | number (n : Nat)
  | string (s : List Char)
  deriving DecidableEq, Repr

/-- A name and a value. -/
abbrev JsonMember := List Char × JsonScalar

namespace JsonLine

/-! ## Writing -/

/-- Four hexadecimal digits. -/
def hex4 (n : Nat) : List Char :=
  [n / 4096 % 16, n / 256 % 16, n / 16 % 16, n % 16].map Nat.digitChar

/-- A character within a string. -/
def escape (c : Char) : List Char :=
  if c = '"' then ['\\', '"']
  else if c = '\\' then ['\\', '\\']
  else if c.toNat ≤ 0x1f then '\\' :: 'u' :: hex4 c.toNat
  else [c]

def writeString (s : List Char) : List Char := '"' :: s.flatMap escape ++ ['"']

def writeScalar : JsonScalar → List Char
  | .number n => Nat.toDigits 10 n
  | .string s => writeString s

def writeMember (m : JsonMember) : List Char := writeString m.1 ++ ':' :: writeScalar m.2

/-- The members behind the first one. -/
def writeRest : List JsonMember → List Char
  | [] => ['}']
  | m :: ms => ',' :: (writeMember m ++ writeRest ms)

def writeObject (m : JsonMember) (ms : List JsonMember) : List Char :=
  '{' :: (writeMember m ++ writeRest ms)

/-! ## Reading -/

/-- The value of a hexadecimal digit. -/
def hexValue (c : Char) : Option Nat :=
  if '0' ≤ c ∧ c ≤ '9' then some (c.toNat - 48)
  else if 'a' ≤ c ∧ c ≤ 'f' then some (c.toNat - 87)
  else if 'A' ≤ c ∧ c ≤ 'F' then some (c.toNat - 55)
  else none

/-- The number of some hexadecimal digits. -/
def hexNumber (cs : List Char) : Option Nat :=
  cs.foldlM (fun n c => (hexValue c).map (16 * n + ·)) 0

/-- What stands behind a backslash. -/
def readEscape : List Char → Option (Char × List Char)
  | 'u' :: cs =>
    if (cs.take 4).length = 4 then (hexNumber (cs.take 4)).map fun n => (.ofNat n, cs.drop 4)
    else none
  | 'n' :: cs => some ('\n', cs)
  | 'r' :: cs => some ('\r', cs)
  | 't' :: cs => some ('\t', cs)
  | 'b' :: cs => some ('\x08', cs)
  | 'f' :: cs => some ('\x0c', cs)
  | '/' :: cs => some ('/', cs)
  | '"' :: cs => some ('"', cs)
  | '\\' :: cs => some ('\\', cs)
  | _ => none

/-- A string behind its quotation mark. -/
def readString : Nat → List Char → Option (List Char × List Char)
  | 0, _ => none
  | _, [] => none
  | fuel + 1, c :: cs =>
    if c = '"' then some ([], cs)
    else if c = '\\' then
      (readEscape cs).bind fun (d, cs) => (readString fuel cs).map fun (s, cs) => (d :: s, cs)
    else if c.toNat ≤ 0x1f then none
    else (readString fuel cs).map fun (s, cs) => (c :: s, cs)

/-- A string, or a number. -/
def readScalar (cs : List Char) : Option (JsonScalar × List Char) :=
  if cs.head? = some '"' then
    (readString cs.length cs.tail).map fun (s, cs) => (.string s, cs)
  else if cs.takeWhile Char.isDigit = [] then none
  else some (.number (Nat.ofDigitChars 10 (cs.takeWhile Char.isDigit) 0),
    cs.dropWhile Char.isDigit)

def readMember (cs : List Char) : Option (JsonMember × List Char) :=
  (readScalar cs).bind fun (key, cs) =>
    match key with
    | .number _ => none
    | .string key =>
      if cs.head? = some ':' then (readScalar cs.tail).map fun (value, cs) => ((key, value), cs)
      else none

/-- The members behind the first one, up to the end of the text. -/
def readRest : Nat → List Char → Option (List JsonMember)
  | 0, _ => none
  | fuel + 1, cs =>
    if cs = ['}'] then some []
    else if cs.head? = some ',' then
      (readMember cs.tail).bind fun (m, cs) => (readRest fuel cs).map (m :: ·)
    else none

def readObject (cs : List Char) : Option (List JsonMember) :=
  if cs.head? = some '{' then
    (readMember cs.tail).bind fun (m, rest) => (readRest cs.length rest).map (m :: ·)
  else none

/-! ## The round trip -/

theorem hexNumber_hex4 : ∀ n ≤ 0x1f, hexNumber (hex4 n) = some n := by decide

/-- The escape of a control character is read. -/
theorem readEscape_control {c : Char} (h : c.toNat ≤ 0x1f) (rest : List Char) :
    readEscape ('u' :: (hex4 c.toNat ++ rest)) = some (c, rest) := by
  have htake : (hex4 c.toNat ++ rest).take 4 = hex4 c.toNat := rfl
  have hdrop : (hex4 c.toNat ++ rest).drop 4 = rest := rfl
  have hlength : (hex4 c.toNat).length = 4 := rfl
  rw [readEscape, htake, hdrop, if_pos hlength, hexNumber_hex4 _ h, Option.map_some,
    Char.ofNat_toNat]

/-- The escape of a character is read. -/
theorem readString_char (fuel : Nat) (c : Char) (rest : List Char) :
    readString (fuel + 1) (escape c ++ rest) =
      (readString fuel rest).map fun (s, cs) => (c :: s, cs) := by
  unfold escape
  split_ifs with hquote hback hcontrol
  · subst hquote
    rfl
  · subst hback
    rfl
  · rw [List.cons_append, readString, if_neg (by decide), if_pos rfl, List.cons_append,
      readEscape_control hcontrol, Option.bind_some]
  · rw [List.singleton_append, readString, if_neg hquote, if_neg hback, if_neg hcontrol]

theorem readString_escape (s rest : List Char) {fuel : Nat} (h : s.length < fuel) :
    readString fuel (s.flatMap escape ++ '"' :: rest) = some (s, rest) := by
  induction s generalizing fuel with
  | nil =>
    cases fuel with
    | zero => cases h
    | succ fuel => rfl
  | cons c s ih =>
    cases fuel with
    | zero => cases h
    | succ fuel =>
      rw [List.flatMap_cons, List.append_assoc, readString_char, ih (Nat.lt_of_succ_lt_succ h)]
      rfl

theorem length_le_flatMap_escape (s : List Char) : s.length ≤ (s.flatMap escape).length := by
  have hpos : ∀ c, 1 ≤ (escape c).length := by
    intro c
    unfold escape
    split_ifs <;> simp
  induction s with
  | nil => exact Nat.le_refl 0
  | cons c s ih =>
    rw [List.flatMap_cons, List.length_cons, List.length_append]
    have hc := hpos c
    omega

theorem readScalar_string (s rest : List Char) :
    readScalar (writeString s ++ rest) = some (.string s, rest) := by
  have htext : writeString s ++ rest = '"' :: (s.flatMap escape ++ '"' :: rest) := by
    simp [writeString]
  have hlength := length_le_flatMap_escape s
  rw [htext, readScalar, List.head?_cons, if_pos rfl, List.tail_cons, readString_escape]
  · rfl
  · simp only [List.length_cons, List.length_append]
    omega

/-- A number is read up to the next character that is no digit. -/
theorem readScalar_number (n : Nat) {rest : List Char}
    (h : ∀ c ∈ rest.head?, Char.isDigit c = false) :
    readScalar (Nat.toDigits 10 n ++ rest) = some (.number n, rest) := by
  have hdigits : ∀ c ∈ Nat.toDigits 10 n, c.isDigit = true := fun c hc =>
    Nat.isDigit_of_mem_toDigits (by decide) (by decide) hc
  have hhead : (Nat.toDigits 10 n ++ rest).head? ≠ some '"' := by
    obtain ⟨c, cs, hcs⟩ := List.exists_cons_of_ne_nil (Nat.toDigits_ne_nil (n := n) (b := 10))
    rw [hcs, List.cons_append, List.head?_cons]
    intro hquote
    have hdigit := hdigits c (hcs ▸ List.mem_cons_self)
    rw [Option.some.inj hquote] at hdigit
    exact absurd hdigit (by decide)
  have htake : rest.takeWhile Char.isDigit = [] := by
    cases rest with
    | nil => rfl
    | cons c cs => rw [List.takeWhile_cons_of_neg (by simp [h c rfl])]
  have hdrop : rest.dropWhile Char.isDigit = rest := by
    cases rest with
    | nil => rfl
    | cons c cs => rw [List.dropWhile_cons_of_neg (by simp [h c rfl])]
  rw [readScalar, if_neg hhead, List.takeWhile_append_of_pos hdigits, htake, List.append_nil,
    if_neg Nat.toDigits_ne_nil, List.dropWhile_append_of_pos hdigits, hdrop,
    Nat.ofDigitChars_ten_toDigits]

theorem readScalar_write (v : JsonScalar) {rest : List Char}
    (h : ∀ c ∈ rest.head?, Char.isDigit c = false) :
    readScalar (writeScalar v ++ rest) = some (v, rest) := by
  cases v with
  | number n => exact readScalar_number n h
  | string s => exact readScalar_string s rest

theorem readMember_write (m : JsonMember) {rest : List Char}
    (h : ∀ c ∈ rest.head?, Char.isDigit c = false) :
    readMember (writeMember m ++ rest) = some (m, rest) := by
  rw [writeMember, List.append_assoc, readMember, readScalar_string, Option.bind_some]
  dsimp only
  rw [List.cons_append, List.head?_cons, if_pos rfl, List.tail_cons, readScalar_write m.2 h]
  rfl

/-- Behind a member stands no digit. -/
theorem head_writeRest (ms : List JsonMember) :
    ∀ c ∈ (writeRest ms).head?, Char.isDigit c = false := by
  intro c hc
  cases ms <;> cases hc <;> decide

theorem readRest_write (ms : List JsonMember) {fuel : Nat} (h : ms.length < fuel) :
    readRest fuel (writeRest ms) = some ms := by
  induction ms generalizing fuel with
  | nil =>
    cases fuel with
    | zero => cases h
    | succ fuel => rfl
  | cons m ms ih =>
    cases fuel with
    | zero => cases h
    | succ fuel =>
      have hmore : writeRest (m :: ms) ≠ ['}'] := by
        intro heq
        cases congrArg List.head? heq
      rw [readRest, if_neg hmore, writeRest, List.head?_cons, if_pos rfl, List.tail_cons,
        readMember_write m (head_writeRest ms), Option.bind_some]
      dsimp only
      rw [ih (Nat.lt_of_succ_lt_succ h), Option.map_some]

theorem length_lt_writeRest (ms : List JsonMember) : ms.length < (writeRest ms).length := by
  induction ms with
  | nil => exact Nat.one_pos
  | cons m ms ih =>
    rw [writeRest, List.length_cons, List.length_cons, List.length_append]
    omega

/-- What is written is read. -/
theorem readObject_write (m : JsonMember) (ms : List JsonMember) :
    readObject (writeObject m ms) = some (m :: ms) := by
  have hfuel : ms.length < (writeObject m ms).length := by
    have hrest := length_lt_writeRest ms
    rw [writeObject, List.length_cons, List.length_append]
    omega
  rw [readObject, writeObject, List.head?_cons, if_pos rfl, List.tail_cons,
    readMember_write m (head_writeRest ms), Option.bind_some]
  dsimp only
  rw [← writeObject, readRest_write ms hfuel, Option.map_some]

/-! ## The characters of an object -/

/-- A line of text has no control characters. -/
def Printable (cs : List Char) : Prop := ∀ c ∈ cs, 0x1f < c.toNat

theorem Printable.append {cs ds : List Char} (h : Printable cs) (h' : Printable ds) :
    Printable (cs ++ ds) := by
  intro c hc
  rcases List.mem_append.mp hc with hc | hc
  · exact h c hc
  · exact h' c hc

theorem Printable.cons {c : Char} {cs : List Char} (hc : 0x1f < c.toNat) (h : Printable cs) :
    Printable (c :: cs) := by
  intro d hd
  rcases List.mem_cons.mp hd with rfl | hd
  · exact hc
  · exact h d hd

theorem printable_digits (n : Nat) : Printable (Nat.toDigits 10 n) := by
  intro c hc
  have hdigit : c.isDigit = true := Nat.isDigit_of_mem_toDigits (by decide) (by decide) hc
  rw [Char.isDigit_iff_toNat] at hdigit
  exact Nat.lt_of_lt_of_le (by decide) hdigit.1

theorem printable_hex4 (n : Nat) : Printable (hex4 n) := by
  intro c hc
  obtain ⟨d, hd, rfl⟩ := List.mem_map.mp hc
  have hdigit : ∀ d < 16, 0x1f < d.digitChar.toNat := by decide
  refine hdigit d ?_
  simp only [List.mem_cons, List.not_mem_nil, or_false] at hd
  omega

theorem printable_escape (c : Char) : Printable (escape c) := by
  unfold escape
  split_ifs with hquote hback hcontrol
  · exact .cons (by decide) (.cons (by decide) (List.forall_mem_nil _))
  · exact .cons (by decide) (.cons (by decide) (List.forall_mem_nil _))
  · exact .cons (by decide) (.cons (by decide) (printable_hex4 c.toNat))
  · exact .cons (Nat.not_le.mp hcontrol) (List.forall_mem_nil _)

theorem printable_writeString (s : List Char) : Printable (writeString s) := by
  refine .append (.cons (by decide) fun c hc => ?_) (.cons (by decide) (List.forall_mem_nil _))
  obtain ⟨d, -, hd⟩ := List.mem_flatMap.mp hc
  exact printable_escape d c hd

theorem printable_writeMember (m : JsonMember) : Printable (writeMember m) := by
  refine (printable_writeString m.1).append (.cons (by decide) ?_)
  cases m.2 with
  | number n => exact printable_digits n
  | string s => exact printable_writeString s

theorem printable_writeRest (ms : List JsonMember) : Printable (writeRest ms) := by
  induction ms with
  | nil => exact .cons (by decide) (List.forall_mem_nil _)
  | cons m ms ih => exact .cons (by decide) ((printable_writeMember m).append ih)

/-- An object occupies one line. -/
theorem printable_writeObject (m : JsonMember) (ms : List JsonMember) :
    Printable (writeObject m ms) :=
  .cons (by decide) ((printable_writeMember m).append (printable_writeRest ms))

end JsonLine

end MDesk.Core
