import MDesk.Core.Text

/-!
# Base64

The standard alphabet with padding, and the alphabet for URLs without. Three bytes are four digits
of six bits each. Decoding is strict: every digit is one of the alphabet, the padding is complete,
and the bits that no byte takes are zero.
-/

namespace MDesk.Core

/-- The digits from 0 to 63. -/
def base64Alphabet : List Char :=
  "ABCDEFGHIJKLMNOPQRSTUVWXYZabcdefghijklmnopqrstuvwxyz0123456789+/".toList

def base64Digit (n : Nat) : Char := base64Alphabet.getD n '='

def base64Value (c : Char) : Option Nat :=
  if base64Alphabet.idxOf c < 64 then some (base64Alphabet.idxOf c) else none

/-- The digits of bytes, padded to a multiple of four. -/
def base64Encode : List UInt8 → List Char
  | [] => []
  | [a] => [base64Digit (a.toNat / 4), base64Digit (a.toNat % 4 * 16), '=', '=']
  | [a, b] => [base64Digit (a.toNat / 4), base64Digit (a.toNat % 4 * 16 + b.toNat / 16),
      base64Digit (b.toNat % 16 * 4), '=']
  | a :: b :: c :: rest => base64Digit (a.toNat / 4) ::
      base64Digit (a.toNat % 4 * 16 + b.toNat / 16) ::
      base64Digit (b.toNat % 16 * 4 + c.toNat / 64) :: base64Digit (c.toNat % 64) ::
      base64Encode rest

/-- The bytes of four digits, of which only the last ones of all may be padding. -/
def base64Group (last : Bool) (w x y z : Char) : Option (List UInt8) := do
  let m ← base64Value w
  let n ← base64Value x
  if last && y == '=' && z == '=' then
    if n % 16 = 0 then some [.ofNat (m * 4 + n / 16)] else none
  else
    let o ← base64Value y
    if last && z == '=' then
      if o % 4 = 0 then some [.ofNat (m * 4 + n / 16), .ofNat (n % 16 * 16 + o / 4)] else none
    else
      let p ← base64Value z
      some [.ofNat (m * 4 + n / 16), .ofNat (n % 16 * 16 + o / 4), .ofNat (o % 4 * 64 + p)]

/-- The bytes of a text, `none` for what is not the digits of bytes. -/
def base64Decode : List Char → Option (List UInt8)
  | [] => some []
  | w :: x :: y :: z :: rest => do
    let bytes ← base64Group rest.isEmpty w x y z
    return bytes ++ (← base64Decode rest)
  | _ => none

variable {bs : List UInt8} {t : List Char} {c : Char} {n : Nat}

/-- The digits are different from each other, from the padding and from those of URLs. -/
theorem base64Alphabet_spec : base64Alphabet.Nodup ∧ base64Alphabet.length = 64 ∧
    base64Digit 63 = '/' ∧
    (base64Alphabet.all fun d => decide (d ≠ '=' ∧ d ≠ '-' ∧ d ≠ '_')) = true := by
  decide +kernel

theorem base64Alphabet_nodup : base64Alphabet.Nodup := base64Alphabet_spec.1

theorem base64Alphabet_length : base64Alphabet.length = 64 := base64Alphabet_spec.2.1

theorem padding_notMem : '=' ∉ base64Alphabet := fun h =>
  (forall_mem_of_all base64Alphabet_spec.2.2.2 '=' h).1 rfl

theorem base64Digit_eq (h : n < base64Alphabet.length) : base64Digit n = base64Alphabet[n] :=
  (List.getElem_eq_getD _).symm

theorem base64Digit_mem (h : n < 64) : base64Digit n ∈ base64Alphabet := by
  rw [base64Digit_eq (base64Alphabet_length.symm ▸ h)]
  exact List.getElem_mem _

theorem base64Value_digit (h : n < 64) : base64Value (base64Digit n) = some n := by
  rw [base64Value, base64Digit_eq (base64Alphabet_length.symm ▸ h),
    base64Alphabet_nodup.idxOf_getElem, if_pos h]

theorem base64Value_padding : base64Value '=' = none := by
  rw [base64Value, List.idxOf_eq_length padding_notMem, base64Alphabet_length]
  rfl

theorem base64Digit_ne_padding (h : n < 64) : base64Digit n ≠ '=' := by
  intro hpad
  have hvalue := base64Value_digit h
  rw [hpad, base64Value_padding] at hvalue
  cases hvalue

/-- What digits stand for is read back from them. -/
theorem base64Group_digits {m n o p : Nat} (last : Bool) (hm : m < 64) (hn : n < 64)
    (ho : o < 64) (hp : p < 64) :
    base64Group last (base64Digit m) (base64Digit n) (base64Digit o) (base64Digit p) =
      some [.ofNat (m * 4 + n / 16), .ofNat (n % 16 * 16 + o / 4), .ofNat (o % 4 * 64 + p)] := by
  simp [base64Group, base64Value_digit, base64Digit_ne_padding, hm, hn, ho, hp]

theorem base64Group_one_byte {m n : Nat} (hm : m < 64) (hn : n < 64) (hbits : n % 16 = 0) :
    base64Group true (base64Digit m) (base64Digit n) '=' '=' = some [.ofNat (m * 4 + n / 16)] := by
  simp [base64Group, base64Value_digit, hm, hn, hbits]

theorem base64Group_two_bytes {m n o : Nat} (hm : m < 64) (hn : n < 64) (ho : o < 64)
    (hbits : o % 4 = 0) :
    base64Group true (base64Digit m) (base64Digit n) (base64Digit o) '=' =
      some [.ofNat (m * 4 + n / 16), .ofNat (n % 16 * 16 + o / 4)] := by
  simp [base64Group, base64Value_digit, base64Digit_ne_padding, hm, hn, ho, hbits]

theorem base64Decode_encode (bs : List UInt8) : base64Decode (base64Encode bs) = some bs := by
  have hbyte (a : UInt8) (k : Nat) (h : k = a.toNat) : UInt8.ofNat k = a := by
    rw [h, UInt8.ofNat_toNat]
  fun_induction base64Encode bs with
  | case1 => rfl
  | case2 a =>
    have ha := a.toNat_lt
    rw [base64Decode, List.isEmpty_nil,
      base64Group_one_byte (by omega) (by omega) (by omega), hbyte a _ (by omega)]
    rfl
  | case3 a b =>
    have ha := a.toNat_lt
    have hb := b.toNat_lt
    rw [base64Decode, List.isEmpty_nil,
      base64Group_two_bytes (by omega) (by omega) (by omega) (by omega), hbyte a _ (by omega),
      hbyte b _ (by omega)]
    rfl
  | case4 a b c rest ih =>
    have ha := a.toNat_lt
    have hb := b.toNat_lt
    have hc := c.toNat_lt
    rw [base64Decode, base64Group_digits _ (by omega) (by omega) (by omega) (by omega), ih,
      hbyte a _ (by omega), hbyte b _ (by omega), hbyte c _ (by omega)]
    rfl

/-- A group is at most three bytes. -/
theorem length_of_base64Group {last : Bool} {w x y z : Char}
    (h : base64Group last w x y z = some bs) : bs.length ≤ 3 := by
  simp only [base64Group, Option.bind_eq_bind, Option.bind_eq_some_iff] at h
  obtain ⟨m, -, n, -, h⟩ := h
  split_ifs at h
  · cases h
    simp
  · obtain ⟨o, -, h⟩ := Option.bind_eq_some_iff.mp h
    split_ifs at h
    cases h
    simp
  · simp only [Option.bind_eq_some_iff] at h
    obtain ⟨o, -, p, -, h⟩ := h
    cases h
    simp

/-- What decodes is groups of four digits, with at most three bytes each. -/
theorem length_of_base64Decode (h : base64Decode t = some bs) :
    4 ∣ t.length ∧ 4 * bs.length ≤ 3 * t.length := by
  fun_induction base64Decode t generalizing bs with
  | case1 =>
    obtain rfl := Option.some.inj h
    simp
  | case2 w x y z rest ih =>
    simp only [Option.bind_eq_bind, Option.bind_eq_some_iff, Option.pure_def] at h
    obtain ⟨bytes, hgroup, more, hmore, hbs⟩ := h
    obtain rfl := Option.some.inj hbs
    have hlen := length_of_base64Group hgroup
    obtain ⟨hdvd, hle⟩ := ih hmore
    simp only [List.length_append, List.length_cons]
    omega
  | case3 => cases h

theorem base64Encode_length (bs : List UInt8) :
    (base64Encode bs).length = 4 * ((bs.length + 2) / 3) := by
  fun_induction base64Encode bs with
  | case1 => rfl
  | case2 => simp
  | case3 => simp
  | case4 a b c rest ih =>
    simp only [List.length_cons, ih]
    omega

/-- The characters that bytes are encoded in. -/
theorem mem_base64Encode (h : c ∈ base64Encode bs) : c ∈ base64Alphabet ∨ c = '=' := by
  have hdigit {n : Nat} (hn : n < 64) (hc : c = base64Digit n) :
      c ∈ base64Alphabet ∨ c = '=' := .inl (hc ▸ base64Digit_mem hn)
  fun_induction base64Encode bs with
  | case1 => cases h
  | case2 a =>
    have ha := a.toNat_lt
    simp only [List.mem_cons, List.not_mem_nil, or_false] at h
    rcases h with h | h | h | h
    · exact hdigit (by omega) h
    · exact hdigit (by omega) h
    · exact .inr h
    · exact .inr h
  | case3 a b =>
    have ha := a.toNat_lt
    have hb := b.toNat_lt
    simp only [List.mem_cons, List.not_mem_nil, or_false] at h
    rcases h with h | h | h | h
    · exact hdigit (by omega) h
    · exact hdigit (by omega) h
    · exact hdigit (by omega) h
    · exact .inr h
  | case4 a b c' rest ih =>
    have ha := a.toNat_lt
    have hb := b.toNat_lt
    have hc' := c'.toNat_lt
    simp only [List.mem_cons] at h
    rcases h with h | h | h | h | h
    · exact hdigit (by omega) h
    · exact hdigit (by omega) h
    · exact hdigit (by omega) h
    · exact hdigit (by omega) h
    · exact ih h

theorem eq_63_of_slash (h : base64Digit n = '/') (hn : n < 64) : n = 63 := by
  have hslash : base64Digit 63 = '/' := base64Alphabet_spec.2.2.1
  have hvalue := base64Value_digit hn
  rw [h, ← hslash, base64Value_digit (by omega)] at hvalue
  exact (Option.some.inj hvalue).symm

/-- Two slashes at the end are a byte of ones. -/
theorem ones_of_slashes (h : base64Encode bs = t ++ ['/', '/']) : 0xFF ∈ bs := by
  fun_induction base64Encode bs generalizing t with
  | case1 => simp at h
  | case2 a =>
    have hlast := congrArg List.getLast? h
    simp at hlast
  | case3 a b =>
    have hlast := congrArg List.getLast? h
    simp at hlast
  | case4 a b c rest ih =>
    cases rest with
    | nil =>
      have hc := c.toNat_lt
      have hb := b.toNat_lt
      have hsplit : [base64Digit (a.toNat / 4), base64Digit (a.toNat % 4 * 16 + b.toNat / 16)] ++
          [base64Digit (b.toNat % 16 * 4 + c.toNat / 64), base64Digit (c.toNat % 64)] =
            t ++ ['/', '/'] := h
      obtain ⟨-, hdigits⟩ := List.append_inj' hsplit rfl
      simp only [List.cons.injEq] at hdigits
      have hlow := eq_63_of_slash hdigits.2.1 (by omega)
      have hhigh := eq_63_of_slash hdigits.1 (by omega)
      have hones : c = 0xFF := UInt8.toNat_inj.mp (by change c.toNat = 255; omega)
      simp [hones]
    | cons d rest =>
      have hlen := base64Encode_length (d :: rest)
      match t with
      | w :: x :: y :: z :: t =>
        simp only [List.cons_append, List.cons.injEq] at h
        have hmem := ih h.2.2.2.2
        exact List.mem_cons_of_mem _ (List.mem_cons_of_mem _ (List.mem_cons_of_mem _ hmem))
      | [] | [w] | [w, x] | [w, x, y] =>
        have hshort := congrArg List.length h
        simp only [List.length_cons, List.length_append, hlen, List.length_nil] at hshort
        omega

/-! ## The alphabet for URLs -/

/-- The digit of the alphabet for URLs. -/
def toUrlDigit (c : Char) : Char := if c = '+' then '-' else if c = '/' then '_' else c

/-- The digit of the standard alphabet. -/
def ofUrlDigit (c : Char) : Char := if c = '-' then '+' else if c = '_' then '/' else c

/-- The digits of bytes in the alphabet for URLs, without padding. -/
def base64UrlEncode (bs : List UInt8) : List Char :=
  ((base64Encode bs).filter (· ≠ '=')).map toUrlDigit

/-- Complete the last group of four digits. -/
def base64Pad (t : List Char) : List Char := t ++ List.replicate ((4 - t.length % 4) % 4) '='

/-- The bytes of digits in the alphabet for URLs. Padding is refused. -/
def base64UrlDecode (t : List Char) : Option (List UInt8) :=
  if '=' ∈ t ∨ '+' ∈ t ∨ '/' ∈ t then none else base64Decode (base64Pad (t.map ofUrlDigit))

theorem ofUrlDigit_toUrlDigit (hminus : c ≠ '-') (hunder : c ≠ '_') :
    ofUrlDigit (toUrlDigit c) = c := by
  unfold toUrlDigit
  split_ifs with hplus hslash
  · rw [hplus]
    rfl
  · rw [hslash]
    rfl
  · rw [ofUrlDigit, if_neg hminus, if_neg hunder]

/-- Dropping the padding loses nothing. -/
theorem base64Pad_filter (bs : List UInt8) :
    base64Pad ((base64Encode bs).filter (· ≠ '=')) = base64Encode bs := by
  fun_induction base64Encode bs with
  | case1 => rfl
  | case2 a =>
    have ha := a.toNat_lt
    simp [base64Pad, base64Digit_ne_padding (n := a.toNat / 4) (by omega),
      base64Digit_ne_padding (n := a.toNat % 4 * 16) (by omega)]
  | case3 a b =>
    have ha := a.toNat_lt
    have hb := b.toNat_lt
    simp [base64Pad, base64Digit_ne_padding (n := a.toNat / 4) (by omega),
      base64Digit_ne_padding (n := a.toNat % 4 * 16 + b.toNat / 16) (by omega),
      base64Digit_ne_padding (n := b.toNat % 16 * 4) (by omega)]
  | case4 a b c rest ih =>
    have ha := a.toNat_lt
    have hb := b.toNat_lt
    have hc := c.toNat_lt
    unfold base64Pad at ih ⊢
    have hmod (l : List Char) : (l.length + 1 + 1 + 1 + 1) % 4 = l.length % 4 := by omega
    simp [base64Digit_ne_padding (n := a.toNat / 4) (by omega),
      base64Digit_ne_padding (n := a.toNat % 4 * 16 + b.toNat / 16) (by omega),
      base64Digit_ne_padding (n := b.toNat % 16 * 4 + c.toNat / 64) (by omega),
      base64Digit_ne_padding (n := c.toNat % 64) (by omega), hmod]
    simpa using ih

theorem mem_base64UrlEncode (h : c ∈ base64UrlEncode bs) :
    ∃ d ∈ base64Alphabet, c = toUrlDigit d := by
  obtain ⟨d, hd, rfl⟩ := List.mem_map.mp h
  rw [List.mem_filter] at hd
  refine ⟨d, (mem_base64Encode hd.1).resolve_right (by simpa using hd.2), rfl⟩

theorem base64UrlDecode_encode (bs : List UInt8) :
    base64UrlDecode (base64UrlEncode bs) = some bs := by
  have hplain := forall_mem_of_all base64Alphabet_spec.2.2.2
  have hurl : ∀ d ∈ base64Alphabet, toUrlDigit d ≠ '=' ∧ toUrlDigit d ≠ '+' ∧
      toUrlDigit d ≠ '/' := by
    intro d hd
    have hne := (hplain d hd).1
    unfold toUrlDigit
    split_ifs <;> simp_all
  rw [base64UrlDecode, if_neg]
  · have hback : (base64UrlEncode bs).map ofUrlDigit = (base64Encode bs).filter (· ≠ '=') := by
      rw [base64UrlEncode, List.map_map]
      conv_rhs => rw [← List.map_id ((base64Encode bs).filter (· ≠ '='))]
      apply List.map_congr_left
      intro d hd
      rw [List.mem_filter] at hd
      have hmem := (mem_base64Encode hd.1).resolve_right (by simpa using hd.2)
      exact ofUrlDigit_toUrlDigit (hplain d hmem).2.1 (hplain d hmem).2.2
    rw [hback, base64Pad_filter, base64Decode_encode]
  · rintro (h | h | h)
    · obtain ⟨d, hd, heq⟩ := mem_base64UrlEncode h
      exact (hurl d hd).1 heq.symm
    · obtain ⟨d, hd, heq⟩ := mem_base64UrlEncode h
      exact (hurl d hd).2.1 heq.symm
    · obtain ⟨d, hd, heq⟩ := mem_base64UrlEncode h
      exact (hurl d hd).2.2 heq.symm

end MDesk.Core
