import Mathlib.Data.List.Basic

/-!
# UTF-8

Text as bytes, and the reading that never fails: where no character can be read, the
longest beginning of one is replaced by U+FFFD. A text without that character is read from
its own bytes only.
-/

namespace MDesk.Core

/-- The bytes of a text. -/
def utf8Bytes (cs : List Char) : List UInt8 := cs.flatMap String.utf8EncodeChar

/-- The bits read so far begin a character that `k` more bytes complete: it is not too
short for its length, not a surrogate and not past the last one. -/
def utf8Begins : Nat → Nat → Bool
  | 1, v => decide (0x20 ≤ v) && !(decide (0x360 ≤ v) && decide (v ≤ 0x37F))
  | 2, v => decide (0x10 ≤ v) && decide (v ≤ 0x10F)
  | _, _ => true

/-- Read `k` more bytes of a character with the bits `v`. -/
def utf8Tails : Nat → Nat → List UInt8 → Option Nat × List UInt8
  | 0, v, bs => (some v, bs)
  | _ + 1, _, [] => (none, [])
  | k + 1, v, c :: bs =>
    if 0x80 ≤ c.toNat ∧ c.toNat ≤ 0xBF ∧ utf8Begins k (64 * v + (c.toNat - 0x80)) then
      utf8Tails k (64 * v + (c.toNat - 0x80)) bs
    else (none, c :: bs)

/-- Read the character that starts with a byte, `none` for a beginning without an end. -/
def utf8Next (b : UInt8) (bs : List UInt8) : Option Nat × List UInt8 :=
  if b.toNat < 0x80 then (some b.toNat, bs)
  else if 0xC2 ≤ b.toNat ∧ b.toNat ≤ 0xDF then utf8Tails 1 (b.toNat - 0xC0) bs
  else if 0xE0 ≤ b.toNat ∧ b.toNat ≤ 0xEF then utf8Tails 2 (b.toNat - 0xE0) bs
  else if 0xF0 ≤ b.toNat ∧ b.toNat ≤ 0xF4 then utf8Tails 3 (b.toNat - 0xF0) bs
  else (none, bs)

/-- `char::REPLACEMENT_CHARACTER`. -/
def replacementChar : Char := Char.ofNat 0xFFFD

/-- At most `n` characters, each invalid part replaced. -/
def utf8LossyUpTo : Nat → List UInt8 → List Char
  | 0, _ => []
  | _, [] => []
  | n + 1, b :: bs =>
    match utf8Next b bs with
    | (some v, rest) => Char.ofNat v :: utf8LossyUpTo n rest
    | (none, rest) => replacementChar :: utf8LossyUpTo n rest

/-- `String::from_utf8_lossy`, as a list of characters. -/
def utf8Lossy (bs : List UInt8) : List Char := utf8LossyUpTo bs.length bs

@[simp] theorem utf8Bytes_cons (c : Char) (cs : List Char) :
    utf8Bytes (c :: cs) = String.utf8EncodeChar c ++ utf8Bytes cs := rfl

theorem utf8Bytes_append (cs ds : List Char) :
    utf8Bytes (cs ++ ds) = utf8Bytes cs ++ utf8Bytes ds := List.flatMap_append

theorem toNat_ofNat_byte {n : Nat} (h : n < 256) : (UInt8.ofNat n).toNat = n := by
  rw [UInt8.toNat_ofNat']
  omega

/-- The bytes of a character, by the number it is. -/
theorem utf8EncodeChar_cases (c : Char) :
    (c.toNat < 0x80 ∧ String.utf8EncodeChar c = [.ofNat c.toNat]) ∨
    (0x80 ≤ c.toNat ∧ c.toNat < 0x800 ∧ String.utf8EncodeChar c =
      [.ofNat (c.toNat / 64 + 0xC0), .ofNat (c.toNat % 64 + 0x80)]) ∨
    (0x800 ≤ c.toNat ∧ c.toNat < 0x10000 ∧ String.utf8EncodeChar c =
      [.ofNat (c.toNat / 4096 + 0xE0), .ofNat (c.toNat / 64 % 64 + 0x80),
       .ofNat (c.toNat % 64 + 0x80)]) ∨
    (0x10000 ≤ c.toNat ∧ c.toNat < 0x110000 ∧ String.utf8EncodeChar c =
      [.ofNat (c.toNat / 262144 + 0xF0), .ofNat (c.toNat / 4096 % 64 + 0x80),
       .ofNat (c.toNat / 64 % 64 + 0x80), .ofNat (c.toNat % 64 + 0x80)]) := by
  have hvalid : c.toNat < 0xD800 ∨ 0xDFFF < c.toNat ∧ c.toNat < 0x110000 := c.valid
  unfold String.utf8EncodeChar
  simp only [show c.val.toNat = c.toNat from rfl]
  split_ifs with h1 h2 h3
  · exact .inl ⟨by omega, rfl⟩
  · refine .inr (.inl ⟨by omega, by omega, ?_⟩)
    rw [Nat.mod_eq_of_lt (show c.toNat / 64 < 0x20 by omega)]
  · refine .inr (.inr (.inl ⟨by omega, by omega, ?_⟩))
    rw [Nat.mod_eq_of_lt (show c.toNat / 4096 < 0x10 by omega)]
  · refine .inr (.inr (.inr ⟨by omega, by omega, ?_⟩))
    rw [Nat.mod_eq_of_lt (show c.toNat / 262144 < 0x08 by omega)]

/-- No byte of a text is all ones. -/
theorem ones_notMem_utf8Bytes (cs : List Char) : 0xFF ∉ utf8Bytes cs := by
  have hbyte (k : Nat) (hk : k < 255) : (0xFF : UInt8) ≠ .ofNat k := by
    intro h
    have hnat := congrArg UInt8.toNat h
    rw [toNat_ofNat_byte (by omega)] at hnat
    change 255 = k at hnat
    omega
  intro hmem
  obtain ⟨c, -, hc⟩ := List.mem_flatMap.mp hmem
  rcases utf8EncodeChar_cases c with ⟨h, he⟩ | ⟨h, h', he⟩ | ⟨h, h', he⟩ | ⟨h, h', he⟩
  all_goals
    simp only [he, List.mem_cons, List.not_mem_nil, or_false] at hc
  · exact hbyte _ (by omega) hc
  · rcases hc with hc | hc <;> exact hbyte _ (by omega) hc
  · rcases hc with hc | hc | hc <;> exact hbyte _ (by omega) hc
  · rcases hc with hc | hc | hc | hc <;> exact hbyte _ (by omega) hc

/-- One more byte of a character is read. -/
theorem utf8Tails_cons {k v n : Nat} {bs : List UInt8} (h : n < 64)
    (hbegins : utf8Begins k (64 * v + n) = true) :
    utf8Tails (k + 1) v (.ofNat (n + 0x80) :: bs) = utf8Tails k (64 * v + n) bs := by
  have hbyte : (UInt8.ofNat (n + 0x80)).toNat = n + 0x80 := toNat_ofNat_byte (by omega)
  rw [utf8Tails, hbyte, Nat.add_sub_cancel, if_pos ⟨by omega, by omega, hbegins⟩]

/-- A character is read back from its bytes, whatever follows. -/
theorem utf8Next_encode (c : Char) (rest : List UInt8) :
    ∃ b bs, String.utf8EncodeChar c = b :: bs ∧ utf8Next b (bs ++ rest) = (some c.toNat, rest) := by
  have hvalid : c.toNat < 0xD800 ∨ 0xDFFF < c.toNat ∧ c.toNat < 0x110000 := c.valid
  rcases utf8EncodeChar_cases c with ⟨h, he⟩ | ⟨h, h', he⟩ | ⟨h, h', he⟩ | ⟨h, h', he⟩
  · refine ⟨_, _, he, ?_⟩
    rw [utf8Next, toNat_ofNat_byte (by omega), if_pos h, List.nil_append]
  · refine ⟨_, _, he, ?_⟩
    rw [utf8Next, toNat_ofNat_byte (by omega), if_neg (by omega), if_pos (by omega),
      Nat.add_sub_cancel, List.singleton_append, utf8Tails_cons (by omega) rfl, utf8Tails,
      Nat.div_add_mod]
  · refine ⟨_, _, he, ?_⟩
    rw [utf8Next, toNat_ofNat_byte (by omega), if_neg (by omega), if_neg (by omega),
      if_pos (by omega), Nat.add_sub_cancel, List.cons_append, List.singleton_append,
      utf8Tails_cons (by omega) (by simp [utf8Begins]; omega), utf8Tails_cons (by omega) rfl,
      utf8Tails]
    congr 2
    omega
  · refine ⟨_, _, he, ?_⟩
    rw [utf8Next, toNat_ofNat_byte (by omega), if_neg (by omega), if_neg (by omega),
      if_neg (by omega), if_pos (by omega), Nat.add_sub_cancel, List.cons_append,
      List.cons_append, List.singleton_append,
      utf8Tails_cons (by omega) (by simp [utf8Begins]; omega),
      utf8Tails_cons (by omega) (by simp [utf8Begins]; omega), utf8Tails_cons (by omega) rfl,
      utf8Tails]
    congr 2
    omega

/-- The byte behind which more of a character was read. -/
theorem cons_of_utf8Tails {k v r : Nat} {bs rest : List UInt8}
    (h : utf8Tails (k + 1) v bs = (some r, rest)) : ∃ n bs', n < 64 ∧
      bs = .ofNat (n + 0x80) :: bs' ∧ utf8Begins k (64 * v + n) = true ∧
      utf8Tails k (64 * v + n) bs' = (some r, rest) := by
  cases bs with
  | nil => cases h
  | cons c bs =>
    rw [utf8Tails] at h
    split_ifs at h with hc
    · refine ⟨c.toNat - 0x80, bs, by omega, ?_, hc.2.2, h⟩
      rw [Nat.sub_add_cancel hc.1, UInt8.ofNat_toNat]
    · cases h

/-- What is read as a character are its bytes. -/
theorem utf8Next_some {b : UInt8} {bs rest : List UInt8} {v : Nat}
    (h : utf8Next b bs = (some v, rest)) :
    b :: bs = String.utf8EncodeChar (Char.ofNat v) ++ rest := by
  have hb : UInt8.ofNat b.toNat = b := UInt8.ofNat_toNat
  have hlt := b.toNat_lt
  -- the character read back is the number, where that is one
  have hchar (hvalid : v.isValidChar) : (Char.ofNat v).toNat = v := by
    rw [Char.ofNat, dif_pos hvalid]
    rfl
  unfold utf8Next at h
  split_ifs at h with h1 h2 h3 h4
  · cases h
    have hv := hchar (Or.inl (by omega))
    rcases utf8EncodeChar_cases (Char.ofNat b.toNat) with ⟨-, he⟩ | ⟨_, _, -⟩ | ⟨_, _, -⟩ |
      ⟨_, _, -⟩
    · rw [he, hv, hb, List.singleton_append]
    all_goals omega
  · obtain ⟨n, bs, hn, rfl, -, htail⟩ := cons_of_utf8Tails h
    cases htail
    have hv := hchar (Or.inl (by omega))
    rcases utf8EncodeChar_cases (Char.ofNat (64 * (b.toNat - 0xC0) + n)) with
      ⟨_, -⟩ | ⟨-, -, he⟩ | ⟨_, _, -⟩ | ⟨_, _, -⟩
    · omega
    · rw [he, hv, show (64 * (b.toNat - 0xC0) + n) / 64 + 0xC0 = b.toNat by omega, hb,
        show (64 * (b.toNat - 0xC0) + n) % 64 = n by omega]
      rfl
    all_goals omega
  · obtain ⟨n, bs, hn, rfl, hbegins, htail⟩ := cons_of_utf8Tails h
    obtain ⟨m, bs, hm, rfl, -, htail⟩ := cons_of_utf8Tails htail
    cases htail
    simp only [utf8Begins, Bool.and_eq_true, Bool.not_eq_true', Bool.and_eq_false_iff,
      decide_eq_true_eq, decide_eq_false_iff_not] at hbegins
    have hv := hchar (by
      unfold Nat.isValidChar
      omega)
    rcases utf8EncodeChar_cases (Char.ofNat (64 * (64 * (b.toNat - 0xE0) + n) + m)) with
      ⟨_, -⟩ | ⟨_, _, -⟩ | ⟨-, -, he⟩ | ⟨_, _, -⟩
    · omega
    · omega
    · rw [he, hv,
        show (64 * (64 * (b.toNat - 0xE0) + n) + m) / 4096 + 0xE0 = b.toNat by omega, hb,
        show (64 * (64 * (b.toNat - 0xE0) + n) + m) / 64 % 64 = n by omega,
        show (64 * (64 * (b.toNat - 0xE0) + n) + m) % 64 = m by omega]
      rfl
    · omega
  · obtain ⟨n, bs, hn, rfl, hbegins, htail⟩ := cons_of_utf8Tails h
    obtain ⟨m, bs, hm, rfl, -, htail⟩ := cons_of_utf8Tails htail
    obtain ⟨l, bs, hl, rfl, -, htail⟩ := cons_of_utf8Tails htail
    cases htail
    simp only [utf8Begins, Bool.and_eq_true, decide_eq_true_eq] at hbegins
    have hv := hchar (by
      unfold Nat.isValidChar
      omega)
    rcases utf8EncodeChar_cases
        (Char.ofNat (64 * (64 * (64 * (b.toNat - 0xF0) + n) + m) + l)) with
      ⟨_, -⟩ | ⟨_, _, -⟩ | ⟨_, _, -⟩ | ⟨-, -, he⟩
    · omega
    · omega
    · omega
    · rw [he, hv,
        show (64 * (64 * (64 * (b.toNat - 0xF0) + n) + m) + l) / 262144 + 0xF0 = b.toNat by omega,
        hb, show (64 * (64 * (64 * (b.toNat - 0xF0) + n) + m) + l) / 4096 % 64 = n by omega,
        show (64 * (64 * (64 * (b.toNat - 0xF0) + n) + m) + l) / 64 % 64 = m by omega,
        show (64 * (64 * (64 * (b.toNat - 0xF0) + n) + m) + l) % 64 = l by omega]
      rfl
  · cases h

theorem utf8Tails_length (k v : Nat) (bs : List UInt8) :
    (utf8Tails k v bs).2.length ≤ bs.length := by
  induction bs generalizing k v with
  | nil => cases k <;> exact Nat.le_refl _
  | cons c bs ih =>
    cases k with
    | zero => exact Nat.le_refl _
    | succ k =>
      rw [utf8Tails]
      split
      · exact Nat.le_trans (ih k _) (Nat.le_succ _)
      · exact Nat.le_refl _

theorem utf8Next_length (b : UInt8) (bs : List UInt8) : (utf8Next b bs).2.length ≤ bs.length := by
  unfold utf8Next
  split_ifs
  all_goals first | exact Nat.le_refl _ | exact utf8Tails_length _ _ _

/-- A text is read back from its bytes. -/
theorem utf8LossyUpTo_bytes {n : Nat} (cs : List Char) (h : (utf8Bytes cs).length ≤ n) :
    utf8LossyUpTo n (utf8Bytes cs) = cs := by
  induction cs generalizing n with
  | nil => cases n <;> rfl
  | cons c cs ih =>
    obtain ⟨b, bs, he, hnext⟩ := utf8Next_encode c (utf8Bytes cs)
    rw [utf8Bytes_cons, he, List.cons_append] at h ⊢
    cases n with
    | zero => cases h
    | succ n =>
      simp only [utf8LossyUpTo, hnext, Char.ofNat_toNat]
      rw [ih]
      rw [List.length_cons, List.length_append] at h
      omega

theorem utf8Lossy_bytes (cs : List Char) : utf8Lossy (utf8Bytes cs) = cs :=
  utf8LossyUpTo_bytes cs (Nat.le_refl _)

theorem bytes_of_utf8LossyUpTo {n : Nat} {bs : List UInt8} (hlen : bs.length ≤ n)
    (h : replacementChar ∉ utf8LossyUpTo n bs) : bs = utf8Bytes (utf8LossyUpTo n bs) := by
  induction n generalizing bs with
  | zero => rw [List.eq_nil_of_length_eq_zero (Nat.le_zero.mp hlen)]; rfl
  | succ n ih =>
    cases bs with
    | nil => rfl
    | cons b bs =>
      have hrest := utf8Next_length b bs
      rw [utf8LossyUpTo] at h ⊢
      split at h
      · rename_i v rest hnext
        rw [hnext] at hrest
        rw [utf8Bytes_cons, utf8Next_some hnext,
          ← ih (Nat.le_trans hrest (Nat.le_of_succ_le_succ hlen)) fun hin =>
            h (List.mem_cons_of_mem _ hin)]
      · exact absurd List.mem_cons_self h

/-- A text without U+FFFD was read from its own bytes. -/
theorem bytes_of_utf8Lossy {bs : List UInt8} (h : replacementChar ∉ utf8Lossy bs) :
    bs = utf8Bytes (utf8Lossy bs) := bytes_of_utf8LossyUpTo (Nat.le_refl _) h

theorem utf8LossyUpTo_length (n : Nat) (bs : List UInt8) :
    (utf8LossyUpTo n bs).length ≤ bs.length := by
  induction n generalizing bs with
  | zero => exact Nat.zero_le _
  | succ n ih =>
    cases bs with
    | nil => exact Nat.le_refl _
    | cons b bs =>
      have hrest := utf8Next_length b bs
      rw [utf8LossyUpTo]
      split
      all_goals
        rename_i hnext
        rw [hnext] at hrest
        exact Nat.succ_le_succ (Nat.le_trans (ih _) hrest)

/-- No more characters than bytes are read. -/
theorem utf8Lossy_length (bs : List UInt8) : (utf8Lossy bs).length ≤ bs.length :=
  utf8LossyUpTo_length _ bs

end MDesk.Core
