import MDesk.Core.Run
import MDesk.Core.Utf16

/-!
# The soft keyboard

Every change of a hidden text field becomes an edit of the remote text: so many deletions,
then the new end of the text. The difference is taken in UTF-16 units behind a padding that is
never sent, and the edits wait in a queue for the bridge.
-/

namespace MDesk

open Core

namespace SoftKeyboard

/-- A call over the bridge. -/
inductive Call where
  | sendBackspace
  | sendText (text : List Nat)
deriving DecidableEq

/-- What a call does to the remote text. -/
def Call.apply (remote : List Nat) : Call → List Nat
  | .sendBackspace => utf16Backspace remote
  | .sendText text => remote ++ text

/-- The keyboard with its queue of calls, and the remote text they act on. -/
structure SoftKeyboardInput where
  previous : List Nat
  pending : List Call
  remote : List Nat
deriving DecidableEq

/-- Cheonjiin's temporary vowel strokes. -/
def isVowelDot (unit : Nat) : Bool := unit == 0x318d || unit == 0x119e || unit == 0x11a2

/-- The vowel strokes of a stretch of the text are taken out. -/
def dropDots (value : List Nat) (composingStart composingEnd : Nat) : List Nat :=
  value.take composingStart ++
    ((value.take composingEnd).drop composingStart).filter (fun unit => !isVowelDot unit) ++
      value.drop composingEnd

/-- The composing range lies in the text. -/
def validRange (value : List Nat) (composingStart composingEnd : Int) : Prop :=
  0 ≤ composingStart ∧ composingStart < composingEnd ∧ composingEnd ≤ value.length

instance (value : List Nat) (composingStart composingEnd : Int) :
    Decidable (validRange value composingStart composingEnd) :=
  inferInstanceAs (Decidable (_ ∧ _ ∧ _))

def normalise (value : List Nat) (composingStart composingEnd : Int) : List Nat :=
  if validRange value composingStart composingEnd then
    dropDots value composingStart.toNat composingEnd.toNat
  else value

/-- The padding, which begins with `1`, is gone from the field. -/
def externalReplacement (previous value : List Nat) : Bool :=
  previous != [] && value != [] && previous.head? == some 0x31 && value.head? != some 0x31

/-- The length of the common beginning. -/
def common : List Nat → List Nat → Nat
  | u :: us, v :: vs => if u = v then common us vs + 1 else 0
  | _, _ => 0

/-- The calls that turn one text into another. -/
def replay (previous value : List Nat) : List Call :=
  let replacement := value.drop (common value previous)
  List.replicate (previous.length - common value previous) .sendBackspace ++
    if replacement = [] then [] else [.sendText replacement]

namespace SoftKeyboardInput

def reset (input : SoftKeyboardInput) (value : List Nat) : SoftKeyboardInput :=
  { input with previous := value }

def update (input : SoftKeyboardInput) (value : List Nat) (composingStart composingEnd : Int) :
    SoftKeyboardInput :=
  let external := externalReplacement input.previous value
  let value := normalise value composingStart composingEnd
  let previous := if external then [] else input.previous
  { input with
    previous := value
    pending := input.pending ++ if value = previous then [] else replay previous value }

/-- The bridge is through with a call. -/
def complete (input : SoftKeyboardInput) : SoftKeyboardInput :=
  match input.pending with
  | [] => input
  | call :: pending => { input with pending, remote := call.apply input.remote }

/-- The remote text once the bridge is through with all. -/
def settled (input : SoftKeyboardInput) : List Nat := input.pending.foldl Call.apply input.remote

end SoftKeyboardInput

/-- What happens to the keyboard: the field changes behind its padding, or a call is done. -/
inductive Event where
  | update (text : List Nat) (composingStart composingEnd : Int)
  | complete
deriving DecidableEq

def step (padding : List Nat) (input : SoftKeyboardInput) : Event → SoftKeyboardInput
  | .update text composingStart composingEnd =>
    input.update (padding ++ text) composingStart composingEnd
  | .complete => input.complete

/-- The text of a change behind the padding, without the vowel strokes being composed. -/
def typed (padding text : List Nat) (composingStart composingEnd : Int) : List Nat :=
  if validRange (padding ++ text) composingStart composingEnd then
    dropDots text (composingStart.toNat - padding.length) (composingEnd.toNat - padding.length)
  else text

/-- The text of the last change. -/
def lastTyped (padding : List Nat) (events : List Event) : List Nat :=
  events.foldl (fun last event =>
    match event with
    | .update text composingStart composingEnd => typed padding text composingStart composingEnd
    | .complete => last) []

/-- Once the bridge is through with all, the remote text ends with the text of the last change,
behind what it was at the reset. -/
def InStep (padding base : List Nat) (events : List Event) (input : SoftKeyboardInput) : Prop :=
  input.settled = base ++ lastTyped padding events

/-- The change keeps the padding's `1` and, from the last unit that stays, deletes no unit of a
pair, or it deletes all there is. -/
def Replayable (padding base : List Nat) (input : SoftKeyboardInput) : Event → Prop
  | .update text composingStart composingEnd =>
    let old := input.previous.drop padding.length
    let kept := common (typed padding text composingStart composingEnd) old
    externalReplacement input.previous (padding ++ text) = false ∧
      (base ++ old.take kept = [] ∨
        hasSurrogatePair ((base ++ old.take kept).getLast?.toList ++ old.drop kept) = false)
  | .complete => True

instance (padding base : List Nat) (input : SoftKeyboardInput) (event : Event) :
    Decidable (Replayable padding base input event) :=
  match event with
  | .update _ _ _ => inferInstanceAs (Decidable (_ ∧ (_ ∨ _)))
  | .complete => .isTrue trivial

section Texts

variable {padding text us old new remote base : List Nat} {composingStart composingEnd : Int}
  {input : SoftKeyboardInput} {event : Event}

/-- Taking the vowel strokes out leaves the padding alone. -/
theorem dropDots_append (hpadding : ∀ u ∈ padding, isVowelDot u = false) {a b : Nat} (hab : a ≤ b) :
    dropDots (padding ++ text) a b =
      padding ++ dropDots text (a - padding.length) (b - padding.length) := by
  have hsame : ((padding.take b).drop a).filter (fun unit => !isVowelDot unit) =
      (padding.take b).drop a :=
    List.filter_eq_self.mpr fun u hu => by
      rw [hpadding u (List.mem_of_mem_take (List.mem_of_mem_drop hu))]
      rfl
  have hjoin : padding.take a ++ (padding.take b).drop a ++ padding.drop b = padding := by
    have hfront : padding.take a = (padding.take b).take a := by
      rw [List.take_take, Nat.min_eq_left hab]
    rw [hfront, List.take_append_drop, List.take_append_drop]
  unfold dropDots
  rw [List.take_append, List.take_append, List.drop_append, List.filter_append, hsame,
    List.drop_append, List.length_take]
  rcases Nat.lt_or_ge a padding.length with ha | ha
  · have hnone : a - padding.length = 0 := Nat.sub_eq_zero_of_le ha.le
    rcases Nat.lt_or_ge padding.length b with hb | hb
    · rw [List.drop_eq_nil_of_le hb.le, List.append_nil] at hjoin
      rw [hnone, Nat.min_eq_right hb.le, hnone, List.drop_eq_nil_of_le hb.le]
      simp only [List.take_zero, List.append_nil, List.nil_append, List.drop_zero]
      rw [← List.append_assoc (padding.take a), hjoin, List.append_assoc]
    · rw [hnone, Nat.sub_eq_zero_of_le hb]
      simp only [List.take_zero, List.append_nil, List.nil_append, List.drop_zero, List.drop_nil,
        List.filter_nil]
      rw [← List.append_assoc, hjoin]
  · have hb := ha.trans hab
    rw [List.take_of_length_le ha, List.take_of_length_le hb, List.drop_eq_nil_of_le ha,
      List.drop_eq_nil_of_le hb, Nat.min_eq_right hb]
    simp only [List.nil_append, List.append_assoc]

theorem normalise_append (hpadding : ∀ u ∈ padding, isVowelDot u = false) :
    normalise (padding ++ text) composingStart composingEnd =
      padding ++ typed padding text composingStart composingEnd := by
  unfold normalise typed
  split_ifs with hvalid
  · exact dropDots_append hpadding (Int.toNat_le_toNat hvalid.2.1.le)
  · rfl

theorem common_append : common (us ++ new) (us ++ old) = us.length + common new old := by
  induction us with
  | nil => simp
  | cons u us ih =>
    rw [List.cons_append, List.cons_append, common, if_pos rfl, ih, List.length_cons]
    omega

@[simp] theorem common_nil : common new [] = 0 := by
  cases new with
  | nil => rfl
  | cons u us => rfl

@[simp] theorem common_self : common us us = us.length := by
  have happend : common (us ++ []) (us ++ []) = us.length + common [] [] := common_append
  rwa [List.append_nil, common_nil, Nat.add_zero] at happend

/-- Both texts begin with the common part. -/
theorem take_common : new.take (common new old) = old.take (common new old) := by
  fun_induction common new old with
  | case1 u us vs ih => simp [ih]
  | case2 => rfl
  | case3 => simp

@[simp] theorem replay_self : replay us us = [] := by simp [replay]

/-- The calls delete to the common part and append the new end. -/
theorem foldl_replay : (replay old new).foldl Call.apply remote =
    utf16Backspace^[old.length - common new old] remote ++ new.drop (common new old) := by
  have hback (n : Nat) : (List.replicate n Call.sendBackspace).foldl Call.apply remote =
      utf16Backspace^[n] remote := by
    induction n generalizing remote with
    | zero => rfl
    | succ n ih =>
      rw [List.replicate_succ, List.foldl_cons, Function.iterate_succ_apply]
      exact ih
  unfold replay
  rw [List.foldl_append, hback]
  split_ifs with hnone
  · rw [hnone, List.append_nil]
    rfl
  · rfl

/-- A padding makes no difference to the calls. -/
theorem replay_append : replay (us ++ old) (us ++ new) = replay old new := by
  unfold replay
  rw [common_append, List.length_append, Nat.add_sub_add_left, List.drop_append,
    List.drop_eq_nil_of_le (Nat.le_add_right ..), Nat.add_sub_cancel_left, List.nil_append]

/-- An edit is right exactly if its deletions meet units that are characters, or all there
is. -/
theorem foldl_replay_eq_iff : (replay old new).foldl Call.apply (base ++ old) = base ++ new ↔
    base ++ old.take (common new old) = [] ∨ hasSurrogatePair
      ((base ++ old.take (common new old)).getLast?.toList ++ old.drop (common new old)) =
        false := by
  have hold : base ++ old =
      base ++ old.take (common new old) ++ old.drop (common new old) := by
    rw [List.append_assoc, List.take_append_drop]
  have hnew : base ++ new =
      base ++ old.take (common new old) ++ new.drop (common new old) := by
    rw [← take_common, List.append_assoc, List.take_append_drop]
  rw [foldl_replay, hnew, List.append_left_inj, hold, ← List.length_drop]
  rcases eq_or_ne (base ++ old.take (common new old)) [] with hnil | hsome
  · refine iff_of_true ?_ (.inl hnil)
    rw [hnil, List.nil_append]
    exact iterate_backspace_length
  · rw [iterate_backspace_eq_iff hsome, or_iff_right hsome]

/-- A padding of ones is never replaced from outside. -/
theorem externalReplacement_append (h : padding ≠ []) :
    externalReplacement (padding ++ old) (padding ++ new) = false := by
  cases padding with
  | nil => exact absurd rfl h
  | cons u us => simp [externalReplacement]

@[simp] theorem previous_complete : input.complete.previous = input.previous := by
  unfold SoftKeyboardInput.complete
  cases input.pending with
  | nil => rfl
  | cons call pending => rfl

@[simp] theorem settled_complete : input.complete.settled = input.settled := by
  unfold SoftKeyboardInput.complete SoftKeyboardInput.settled
  cases hpending : input.pending with
  | nil => simp [hpending]
  | cons call pending => rfl

theorem settled_update {value : List Nat} :
    (input.update value composingStart composingEnd).settled =
    (replay (if externalReplacement input.previous value then [] else input.previous)
      (normalise value composingStart composingEnd)).foldl Call.apply input.settled := by
  simp only [SoftKeyboardInput.update, SoftKeyboardInput.settled, List.foldl_append]
  generalize (if externalReplacement input.previous value then [] else input.previous) = previous
  split_ifs with hsame
  · rw [hsame, replay_self]
  · rfl

/-- A change leaves the remote text in step exactly if it is replayable. -/
theorem settled_step_iff (hpadding : ∀ u ∈ padding, isVowelDot u = false)
    (hprevious : input.previous = padding ++ old) (hsettled : input.settled = base ++ old) :
    (step padding input (.update text composingStart composingEnd)).settled =
      base ++ typed padding text composingStart composingEnd ↔
        Replayable padding base input (.update text composingStart composingEnd) := by
  rw [step, settled_update, hsettled, normalise_append hpadding, Replayable, hprevious,
    List.drop_left]
  cases hexternal : externalReplacement (padding ++ old) (padding ++ text) with
  | false =>
    rw [if_neg Bool.false_ne_true, replay_append, foldl_replay_eq_iff]
    simp
  | true =>
    refine iff_of_false (fun heq => ?_) (by simp)
    obtain rfl : padding = [] := by
      by_contra hne
      rw [externalReplacement_append hne] at hexternal
      cases hexternal
    have hold : old ≠ [] := by
      rintro rfl
      cases hexternal
    rw [if_pos rfl, foldl_replay, common_nil] at heq
    have hlength := congrArg List.length heq
    rw [List.length_append, List.length_append] at hlength
    exact hold (by simpa using hlength)

theorem previous_step (hpadding : ∀ u ∈ padding, isVowelDot u = false) {events : List Event}
    (h : input.previous = padding ++ lastTyped padding events) :
    (step padding input event).previous = padding ++ lastTyped padding (events ++ [event]) := by
  unfold lastTyped at h ⊢
  rw [List.foldl_append]
  cases event with
  | update text composingStart composingEnd => exact normalise_append hpadding
  | complete => exact previous_complete.trans h

/-- The remote text stays in step, through every run of changes and finished calls, exactly if
every change is replayable. -/
theorem remote_in_step_iff (hpadding : ∀ u ∈ padding, isVowelDot u = false)
    (events : List Event) :
    (∀ pre, pre <+: events →
      InStep padding input.settled pre (run (step padding) (input.reset padding) pre)) ↔
    Allowed (step padding) (Replayable padding input.settled) (input.reset padding) events := by
  have hprevious (pre : List Event) : (run (step padding) (input.reset padding) pre).previous =
      padding ++ lastTyped padding pre := by
    induction pre using List.reverseRecOn with
    | nil => exact (List.append_nil padding).symm
    | append_singleton pre event ih =>
      rw [run_append]
      exact previous_step hpadding ih
  refine allowed_iff_keeps_past (fun pre event h => ?_) (List.append_nil input.settled).symm
  unfold InStep lastTyped
  rw [List.foldl_append]
  cases event with
  | update text composingStart composingEnd =>
    exact settled_step_iff hpadding (hprevious pre) h
  | complete => exact iff_of_true (settled_complete.trans h) trivial

/-- The padding of the app is `1` alone, here three of them for its thousand and more. -/
theorem remote_in_step_sample :
    (∀ pre, pre <+: [.update [0x3139] 0 4, .complete, .update [0x3139, 0x318d] 0 5] →
      InStep [0x31, 0x31, 0x31] [] pre (run (step [0x31, 0x31, 0x31])
        (SoftKeyboardInput.reset ⟨[], [], []⟩ [0x31, 0x31, 0x31]) pre)) ↔
    Allowed (step [0x31, 0x31, 0x31]) (Replayable [0x31, 0x31, 0x31] [])
      (SoftKeyboardInput.reset ⟨[], [], []⟩ [0x31, 0x31, 0x31])
      [.update [0x3139] 0 4, .complete, .update [0x3139, 0x318d] 0 5] :=
  remote_in_step_iff (by decide) _

/-- `a😀` is typed and the emoji deleted: its two units make two deletions, and the `a` goes
with it. -/
theorem emoji_deletes_two :
    (run (step [0x31]) (SoftKeyboardInput.reset ⟨[], [], []⟩ [0x31])
      [.update [0x61, 0xd83d, 0xde00] (-1) (-1), .update [0x61] (-1) (-1), .complete, .complete,
        .complete]).pending = [] ∧
    (run (step [0x31]) (SoftKeyboardInput.reset ⟨[], [], []⟩ [0x31])
      [.update [0x61, 0xd83d, 0xde00] (-1) (-1), .update [0x61] (-1) (-1), .complete, .complete,
        .complete]).remote ≠
    lastTyped [0x31] [.update [0x61, 0xd83d, 0xde00] (-1) (-1), .update [0x61] (-1) (-1),
      .complete, .complete, .complete] := by
  decide

end Texts

end SoftKeyboard

end MDesk
