import Mathlib.Algebra.GroupWithZero.Nat
import Mathlib.Tactic.SplitIfs
import MDesk.Core.Text

/-!
# Lower case

A text in lower case is made of one piece for each character. An ASCII character is its own small
letter there. Of the others only the Kelvin sign and the capital I with a dot have an ASCII letter
in their piece, so that most ASCII texts are found in lower case just where the text has them. The
bytes in front of them are others, as pieces can be longer or shorter than their characters.
-/

namespace MDesk.Core

variable {s t m : List Char} {c : Char}

/-- The bytes of a text in UTF-8. -/
def byteLength (s : List Char) : Nat := (s.map Char.utf8Size).sum

/-- The two parts of a text at a byte, `none` inside a character and behind the end. -/
def splitAtByte : Nat → List Char → Option (List Char × List Char)
  | 0, s => some ([], s)
  | _ + 1, [] => none
  | n + 1, c :: s =>
    if c.utf8Size ≤ n + 1 then
      (splitAtByte (n + 1 - c.utf8Size) s).map fun parts => (c :: parts.1, parts.2)
    else none

@[simp] theorem byteLength_nil : byteLength [] = 0 := rfl

@[simp] theorem byteLength_cons (c : Char) (s : List Char) :
    byteLength (c :: s) = c.utf8Size + byteLength s := rfl

@[simp] theorem byteLength_append (s t : List Char) :
    byteLength (s ++ t) = byteLength s + byteLength t := by
  simp [byteLength]

theorem length_le_byteLength (s : List Char) : s.length ≤ byteLength s := by
  induction s with
  | nil => exact Nat.le_refl 0
  | cons c s ih =>
    have hpos := c.utf8Size_pos
    rw [byteLength_cons, List.length_cons]
    omega

theorem splitAtByte_append (s t : List Char) :
    splitAtByte (byteLength s) (s ++ t) = some (s, t) := by
  induction s with
  | nil => rw [byteLength_nil, List.nil_append, splitAtByte]
  | cons c s ih =>
    have hpos := c.utf8Size_pos
    obtain ⟨n, hn⟩ : ∃ n, byteLength (c :: s) = n + 1 :=
      Nat.exists_eq_succ_of_ne_zero (by rw [byteLength_cons]; omega)
    have hsize : c.utf8Size ≤ n + 1 := by
      rw [← hn, byteLength_cons]
      omega
    have hrest : n + 1 - c.utf8Size = byteLength s := by
      rw [← hn, byteLength_cons]
      omega
    rw [hn, List.cons_append, splitAtByte, if_pos hsize, hrest, ih]
    rfl

def IsAscii (c : Char) : Prop := c.toNat < 128

instance : DecidablePred IsAscii := fun c => inferInstanceAs (Decidable (c.toNat < 128))

theorem IsAscii.utf8Size (h : IsAscii c) : c.utf8Size = 1 := by
  apply Char.utf8Size_eq_one_iff.mpr
  apply UInt32.le_iff_toNat_le.mpr
  exact Nat.le_of_lt_succ h

theorem byteLength_ascii (h : ∀ c ∈ s, IsAscii c) : byteLength s = s.length := by
  induction s with
  | nil => rfl
  | cons c s ih =>
    rw [List.forall_mem_cons] at h
    rw [byteLength_cons, h.1.utf8Size, ih h.2, List.length_cons, Nat.add_comm]

/-- What is an ASCII character as a small letter is one. -/
theorem isAscii_of_toLower (h : IsAscii c.toLower) : IsAscii c := by
  unfold Char.toLower at h
  split at h
  · next hupper =>
    have hle : c.val.toNat ≤ 90 := hupper.2
    unfold IsAscii Char.toNat
    omega
  · exact h

theorem isAscii_of_map (hm : ∀ c ∈ m, IsAscii c) (h : s.map Char.toLower = m) :
    ∀ c ∈ s, IsAscii c := by
  intro c hc
  apply isAscii_of_toLower
  apply hm
  rw [← h]
  exact List.mem_map_of_mem hc

/-- `char::to_lowercase` as `str::to_lowercase` uses it, which looks at what is in front of a
character and behind it. -/
structure Lowercase where
  piece : List Char → Char → List Char → List Char
  ascii : ∀ before c behind, IsAscii c → piece before c behind = [c.toLower]
  other : ∀ before c behind, ¬ IsAscii c →
    piece before c behind = ['k'] ∨ piece before c behind = ['i', '\u0307'] ∨
      (piece before c behind ≠ [] ∧ ∀ d ∈ piece before c behind, ¬ IsAscii d)
  /-- Only the final sigma depends on its place, and it is as long as the other one. -/
  size : ∀ before c behind before' behind',
    byteLength (piece before c behind) = byteLength (piece before' c behind')

namespace Lowercase

variable (L : Lowercase) {before behind : List Char}

/-- The pieces of a text between two others. -/
def between (before : List Char) : List Char → List Char → List Char
  | [], _ => []
  | c :: s, behind => L.piece before c (s ++ behind) ++ between (before ++ [c]) s behind

/-- `str::to_lowercase`. -/
def toLowercase (s : List Char) : List Char := L.between [] s []

/-- In lower case the text has as many bytes as before. -/
def Keeps (s : List Char) : Prop := byteLength (L.toLowercase s) = byteLength s

theorem between_append (before s t behind : List Char) :
    L.between before (s ++ t) behind =
      L.between before s (t ++ behind) ++ L.between (before ++ s) t behind := by
  induction s generalizing before with
  | nil => rw [List.nil_append, List.append_nil, between, List.nil_append]
  | cons c s ih =>
    rw [List.cons_append, between, between, ih, List.append_assoc, List.append_assoc,
      List.append_assoc]
    rfl

theorem between_ascii (h : ∀ c ∈ s, IsAscii c) :
    L.between before s behind = s.map Char.toLower := by
  induction s generalizing before with
  | nil => rfl
  | cons c s ih =>
    rw [List.forall_mem_cons] at h
    rw [between, L.ascii _ _ _ h.1, ih h.2]
    rfl

/-- A piece has as many bytes wherever it stands. -/
theorem byteLength_between (before s behind : List Char) :
    byteLength (L.between before s behind) = byteLength (L.toLowercase s) := by
  have hall (before before' behind behind' : List Char) :
      byteLength (L.between before s behind) = byteLength (L.between before' s behind') := by
    induction s generalizing before before' with
    | nil => rfl
    | cons c s ih =>
      rw [between, between, byteLength_append, byteLength_append, ih _ (before' ++ [c]),
        L.size _ _ _ before' (s ++ behind')]
  exact hall before [] behind []

/-- An ASCII text is found in lower case only where it stands. -/
structure Plain (m : List Char) : Prop where
  ascii : ∀ c ∈ m, IsAscii c
  notMem : 'k' ∉ m
  /-- A letter that a mark follows could be its end. -/
  getLast? : m.getLast? ≠ some 'i'

theorem Plain.tail {c : Char} {m : List Char} (h : Plain (c :: m)) : Plain m where
  ascii := (List.forall_mem_cons.mp h.ascii).2
  notMem := fun hk => h.notMem (List.mem_cons_of_mem _ hk)
  getLast? := by
    intro hlast
    apply h.getLast?
    rw [List.getLast?_cons, hlast]
    rfl

/-- A piece that goes along with such a text is one of an ASCII character. -/
theorem Plain.isAscii {d : Char} {rest : List Char} (h : Plain (d :: m))
    (hstart : d :: m <+: L.piece before c behind ++ rest) : IsAscii c := by
  by_contra hc
  have hd : IsAscii d := h.ascii d List.mem_cons_self
  rcases L.other before c behind hc with hk | hi | ⟨hne, hother⟩
  · rw [hk] at hstart
    apply h.notMem
    rw [(List.cons_prefix_cons.mp hstart).1]
    exact List.mem_cons_self
  · rw [hi] at hstart
    obtain ⟨rfl, htail⟩ := List.cons_prefix_cons.mp hstart
    cases m with
    | nil => exact h.getLast? rfl
    | cons e m =>
      have he : IsAscii e := h.ascii e (by simp)
      rw [(List.cons_prefix_cons.mp htail).1] at he
      revert he
      decide
  · obtain ⟨e, es, hpiece⟩ := List.exists_cons_of_ne_nil hne
    rw [hpiece] at hstart hother
    apply hother e List.mem_cons_self
    rw [← (List.cons_prefix_cons.mp hstart).1]
    exact hd

/-- The start of a text in lower case is that of its ASCII letters. -/
theorem prefix_between (h : Plain m) :
    m <+: L.between before s behind ↔ m <+: s.map Char.toLower := by
  induction s generalizing before m with
  | nil => rfl
  | cons c s ih =>
    cases m with
    | nil => simp
    | cons d m =>
      have hcons (hc : IsAscii c) : d :: m <+: L.between before (c :: s) behind ↔
          d :: m <+: (c :: s).map Char.toLower := by
        rw [between, L.ascii _ _ _ hc, List.map_cons, List.singleton_append,
          List.cons_prefix_cons, List.cons_prefix_cons, ih h.tail]
      constructor
      · intro hprefix
        exact (hcons (h.isAscii L hprefix)).mp hprefix
      · intro hprefix
        apply (hcons _).mpr hprefix
        apply isAscii_of_toLower
        rw [List.map_cons, List.cons_prefix_cons] at hprefix
        rw [← hprefix.1]
        exact h.ascii d List.mem_cons_self

/-- What begins with no such text is passed over in the search for it. -/
theorem splitAtFirst_skip {p rest : List Char} (hp : ∀ d ∈ p, ¬ IsAscii d)
    (hm : ∀ c ∈ m, IsAscii c) (hne : m ≠ []) :
    splitAtFirst m (p ++ rest) =
      (splitAtFirst m rest).map fun parts => (p ++ parts.1, parts.2) := by
  induction p with
  | nil => simp
  | cons d p ih =>
    rw [List.forall_mem_cons] at hp
    have hnot : ¬ m <+: d :: (p ++ rest) := by
      obtain ⟨e, es, rfl⟩ := List.exists_cons_of_ne_nil hne
      intro hprefix
      apply hp.1
      rw [← (List.cons_prefix_cons.mp hprefix).1]
      exact hm e List.mem_cons_self
    rw [List.cons_append, splitAtFirst, if_neg hnot, ih hp.2, Option.map_map]
    rfl

/-- The first occurrence in lower case is where the text has its own. -/
theorem splitAtFirst_between (h : Plain m) (hne : m ≠ []) :
    (splitAtFirst m (L.between before s behind)).map Prod.fst =
      (splitAtFirst m (s.map Char.toLower)).map fun parts =>
        L.between before (s.take parts.1.length) (s.drop parts.1.length ++ behind) := by
  induction s generalizing before with
  | nil => simp [between, splitAtFirst, hne]
  | cons c s ih =>
    by_cases hprefix : m <+: (c :: s).map Char.toLower
    · have hbetween : m <+: L.between before (c :: s) behind := (L.prefix_between h).mpr hprefix
      obtain ⟨d, rest, hcons⟩ : ∃ d rest, L.between before (c :: s) behind = d :: rest := by
        apply List.exists_cons_of_ne_nil
        rintro hnil
        rw [hnil] at hbetween
        exact hne (List.prefix_nil.mp hbetween)
      rw [hcons] at hbetween ⊢
      rw [List.map_cons] at hprefix ⊢
      rw [splitAtFirst, if_pos hbetween, splitAtFirst, if_pos hprefix]
      rfl
    · have hbetween : ¬ m <+: L.between before (c :: s) behind := fun hbetween =>
        hprefix ((L.prefix_between h).mp hbetween)
      have hskip : splitAtFirst m (L.between before (c :: s) behind) =
          (splitAtFirst m (L.between (before ++ [c]) s behind)).map fun parts =>
            (L.piece before c (s ++ behind) ++ parts.1, parts.2) := by
        have hpiece : ∃ d p, L.piece before c (s ++ behind) = d :: p ∧ ∀ e ∈ p, ¬ IsAscii e := by
          by_cases hc : IsAscii c
          · exact ⟨_, [], L.ascii _ _ _ hc, List.forall_mem_nil _⟩
          · rcases L.other before c (s ++ behind) hc with hk | hi | ⟨hnil, hother⟩
            · exact ⟨_, [], hk, List.forall_mem_nil _⟩
            · refine ⟨_, _, hi, ?_⟩
              simp only [List.mem_singleton, forall_eq]
              decide
            · obtain ⟨d, p, hp⟩ := List.exists_cons_of_ne_nil hnil
              rw [hp] at hother
              exact ⟨d, p, hp, (List.forall_mem_cons.mp hother).2⟩
        obtain ⟨d, p, hp, hother⟩ := hpiece
        rw [between, hp] at hbetween ⊢
        rw [List.cons_append] at hbetween ⊢
        rw [splitAtFirst, if_neg hbetween, splitAtFirst_skip hother h.ascii hne, Option.map_map]
        rfl
      rw [List.map_cons] at hprefix ⊢
      rw [hskip, splitAtFirst, if_neg hprefix, Option.map_map, Option.map_map]
      have hfst : (Prod.fst ∘ fun parts : List Char × List Char =>
          (L.piece before c (s ++ behind) ++ parts.1, parts.2)) =
          (L.piece before c (s ++ behind) ++ ·) ∘ Prod.fst := rfl
      rw [hfst, ← Option.map_map, ih, Option.map_map]
      congr 1
      ext parts : 1
      have hsame : s.take parts.1.length ++ (s.drop parts.1.length ++ behind) = s ++ behind := by
        rw [← List.append_assoc, List.take_append_drop]
      simp [between, hsame]

/-- A text that is nothing but ASCII in lower case, and has no `k` there, is ASCII. -/
theorem isAscii_of_between (h : ∀ d ∈ L.between before s behind, IsAscii d ∧ d ≠ 'k') :
    ∀ c ∈ s, IsAscii c := by
  induction s generalizing before with
  | nil => exact nofun
  | cons c s ih =>
    rw [between, List.forall_mem_append] at h
    rw [List.forall_mem_cons]
    refine ⟨?_, ih h.2⟩
    by_contra hc
    rcases L.other before c (s ++ behind) hc with hk | hi | ⟨hnil, hother⟩
    · exact (h.1 'k' (by rw [hk]; exact List.mem_cons_self)).2 rfl
    · have hmark := (h.1 '\u0307' (by rw [hi]; simp)).1
      revert hmark
      decide
    · obtain ⟨d, hd⟩ := List.exists_mem_of_ne_nil _ hnil
      exact hother d hd (h.1 d hd).1

/-- The end of a text in lower case is that of its ASCII letters. -/
theorem suffix_between (h : ∀ c ∈ m, IsAscii c ∧ c ≠ 'k') :
    m <:+ L.between before s behind ↔ m <:+ s.map Char.toLower := by
  constructor
  · intro hsuffix
    induction s generalizing before with
    | nil => exact hsuffix
    | cons c s ih =>
      rw [between] at hsuffix
      rcases List.suffix_or_suffix_of_suffix hsuffix (List.suffix_append _ _) with hrest | hwhole
      · exact (ih hrest).trans (List.suffix_cons _ _)
      · obtain ⟨q, rfl⟩ := hwhole
        have hs : ∀ c ∈ s, IsAscii c :=
          L.isAscii_of_between fun d hd => h d (List.mem_append_right _ hd)
        have hq : q <:+ L.piece before c (s ++ behind) := by
          obtain ⟨p, hp⟩ := hsuffix
          rw [← List.append_assoc] at hp
          exact ⟨p, List.append_cancel_right hp⟩
        rw [L.between_ascii hs, List.map_cons]
        rcases List.eq_nil_or_concat q with rfl | ⟨q, e, rfl⟩
        · exact List.suffix_cons _ _
        have he := h e (by simp)
        have hmem : e ∈ L.piece before c (s ++ behind) := hq.subset (by simp)
        have hc : IsAscii c := by
          by_contra hc
          rcases L.other before c (s ++ behind) hc with hk | hi | ⟨-, hother⟩
          · rw [hk, List.mem_singleton] at hmem
            exact he.2 hmem
          · rw [hi] at hq
            obtain ⟨p, hp⟩ := hq
            have hlast := congrArg List.getLast? hp
            simp only [List.concat_eq_append, ← List.append_assoc, List.getLast?_concat] at hlast
            have hascii := he.1
            rw [Option.some.inj hlast] at hascii
            revert hascii
            decide
          · exact hother e hmem he.1
        rw [L.ascii _ _ _ hc] at hq
        obtain ⟨p, hp⟩ := hq
        exact ⟨p, by rw [← List.append_assoc, hp, List.singleton_append]⟩
  · intro hsuffix
    obtain ⟨t, ⟨front, rfl⟩, ht⟩ := List.suffix_map_iff.mp hsuffix
    rw [between_append, L.between_ascii (isAscii_of_map (fun c hc => (h c hc).1) ht.symm), ← ht]
    exact List.suffix_append _ _

end Lowercase

end MDesk.Core
