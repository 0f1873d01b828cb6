import MDesk.Core.Run
import Mathlib.Algebra.Order.Ring.Int

/-!
# The counters of the shared memory

The portable service and the server tell each other of news by two numbers next to each other in
shared memory. The writer increases the first one, and the reader takes it over into the second. The
writer is to step aside where it comes round to the reader's number, but it compares with its own.
-/

namespace MDesk

open Core

namespace PortableService

def i32Max : Int := 2 ^ 31 - 1

/-- The numbers at the two addresses. -/
structure SharedCounter where
  wptr : Int := 0
  rptr : Int := 0
deriving DecidableEq

namespace SharedCounter

/-- The counter behind a call, and the answer. -/
def counterReady (c : SharedCounter) : SharedCounter × Bool :=
  if c.rptr ≠ c.wptr then ({ c with rptr := c.wptr }, true) else (c, false)

def increaseCounter (c : SharedCounter) : SharedCounter :=
  let iw := c.wptr
  -- read at the writer's address
  let ir := c.wptr
  let iwPlus1 := if iw = i32Max then 0 else iw + 1
  let c := { c with wptr := iwPlus1 }
  if ir = iwPlus1 then { c with rptr := iw } else c

end SharedCounter

inductive CounterCall where
  | increaseCounter
  | counterReady
deriving DecidableEq

/-- The counter, and how often it has been increased since an answer has been true. -/
structure CounterRun where
  counter : SharedCounter := {}
  since : Nat := 0
deriving DecidableEq

def CounterRun.take (s : CounterRun) : CounterCall → CounterRun
  | .increaseCounter => { counter := s.counter.increaseCounter, since := s.since + 1 }
  | .counterReady =>
    match s.counter.counterReady with
    | (counter, true) => { counter, since := 0 }
    | (counter, false) => { s with counter }

/-- The next answer is true where the counter has been increased since the last true one, and only
there. -/
def CounterRun.Truthful (s : CounterRun) : Prop := s.counter.counterReady.2 = true ↔ 0 < s.since

/-- How often the counter has been increased since it was last read. -/
def increases (calls : List CounterCall) : Nat :=
  (calls.reverse.takeWhile (· = .increaseCounter)).length

/-- The writer has not come round to the number that was read. -/
def NotRound (n : Nat) : Prop := n = 0 ∨ ¬2 ^ 31 ∣ n

variable {s : CounterRun} {calls pre : List CounterCall}

@[simp] theorem increases_nil : increases [] = 0 := rfl

@[simp] theorem increases_increase (calls : List CounterCall) :
    increases (calls ++ [.increaseCounter]) = increases calls + 1 := by
  simp [increases]

@[simp] theorem increases_ready (calls : List CounterCall) :
    increases (calls ++ [.counterReady]) = 0 := by
  simp [increases]

/-- The writer is ahead of the reader by the number of the increases, modulo the numbers that there
are. -/
structure CounterRun.Ahead (s : CounterRun) : Prop where
  range : 0 ≤ s.counter.wptr ∧ s.counter.wptr ≤ i32Max
  reader : 0 ≤ s.counter.rptr ∧ s.counter.rptr ≤ i32Max
  ahead : (2 : Int) ^ 31 ∣ s.counter.wptr - s.counter.rptr - s.since

namespace CounterRun

theorem increase_eq (s : CounterRun) : s.take .increaseCounter =
    { counter := { s.counter with
        wptr := if s.counter.wptr = i32Max then 0 else s.counter.wptr + 1 }
      since := s.since + 1 } := by
  have hne : ¬s.counter.wptr = if s.counter.wptr = i32Max then 0 else s.counter.wptr + 1 := by
    unfold i32Max
    split_ifs <;> omega
  simp only [take, SharedCounter.increaseCounter, if_neg hne]

theorem ready_eq (s : CounterRun) : s.take .counterReady =
    if s.counter.rptr = s.counter.wptr then s
    else { counter := { s.counter with rptr := s.counter.wptr }, since := 0 } := by
  by_cases hsame : s.counter.rptr = s.counter.wptr
  · simp [take, SharedCounter.counterReady, hsame]
  · simp [take, SharedCounter.counterReady, hsame]

theorem Ahead.take (h : s.Ahead) (call : CounterCall) : (s.take call).Ahead := by
  obtain ⟨hrange, hreader, hahead⟩ := h
  cases call with
  | increaseCounter =>
    rw [increase_eq]
    have hmax : i32Max = 2 ^ 31 - 1 := rfl
    refine ⟨?_, hreader, ?_⟩
    · dsimp only
      split_ifs <;> omega
    · dsimp only
      push_cast
      split_ifs <;> omega
  | counterReady =>
    rw [ready_eq]
    split_ifs
    · exact ⟨hrange, hreader, hahead⟩
    · exact ⟨hrange, hrange, by simp⟩

theorem ahead_run (calls : List CounterCall) : (run take {} calls).Ahead := by
  have hstart : CounterRun.Ahead {} := ⟨by decide, by decide, by simp⟩
  have hall : Allowed take (fun _ _ => True) {} calls :=
    allowed_of_forall (fun _ _ => trivial) _ calls
  exact run_keeps (fun s call h _ => h.take call) hstart hall

/-- The numbers are the same where the writer has come round. -/
theorem Ahead.eq_iff (h : s.Ahead) : s.counter.rptr = s.counter.wptr ↔ 2 ^ 31 ∣ s.since := by
  obtain ⟨hrange, hreader, hahead⟩ := h
  unfold i32Max at *
  omega

theorem Ahead.truthful_iff (h : s.Ahead) : s.Truthful ↔ NotRound s.since := by
  have hanswer : s.counter.counterReady.2 = true ↔ ¬2 ^ 31 ∣ s.since := by
    rw [← h.eq_iff]
    unfold SharedCounter.counterReady
    split_ifs with hsame <;> simp_all
  rw [Truthful, hanswer, NotRound]
  constructor
  · intro htruthful
    by_cases hzero : s.since = 0
    · exact .inl hzero
    · exact .inr (htruthful.mpr (Nat.pos_of_ne_zero hzero))
  · rintro (hzero | hround)
    · simp [hzero]
    · refine iff_of_true hround (Nat.pos_of_ne_zero fun hzero => hround ?_)
      simp [hzero]

/-- The answers have been true to the increases so far. -/
def TruthfulUntil (calls : List CounterCall) : Prop :=
  ∀ pre, pre ++ [.counterReady] <+: calls → (run take {} pre).Truthful

/-- Where the answers have been true, what has been increased since the last true one has been
increased since the last one. -/
theorem since_eq (h : TruthfulUntil calls) : (run take {} calls).since = increases calls := by
  induction calls using List.reverseRecOn with
  | nil => rfl
  | append_singleton calls call ih =>
    have hbefore := ih fun pre hpre => h pre (hpre.trans (List.prefix_append _ _))
    rw [run_append, run_cons, run_nil]
    cases call with
    | increaseCounter =>
      rw [increase_eq, increases_increase, hbefore]
    | counterReady =>
      have htruthful := h calls List.prefix_rfl
      rw [increases_ready, ready_eq]
      split_ifs with hsame
      · have hnone : ¬(run take {} calls).counter.counterReady.2 = true := by
          simp [SharedCounter.counterReady, hsame]
        have hzero := mt htruthful.mpr hnone
        exact Nat.eq_zero_of_not_pos hzero
      · rfl

end CounterRun

/-- The answers are true to the increases along a run of calls if and only if the counter is never
read behind so many increases that the writer has come round to the reader's number. -/
theorem counterReady_iff (calls : List CounterCall) :
    (∀ pre, pre ++ [.counterReady] <+: calls → (run CounterRun.take {} pre).Truthful) ↔
      ∀ pre, pre ++ [.counterReady] <+: calls → NotRound (increases pre) := by
  induction calls using List.reverseRecOn with
  | nil => simp
  | append_singleton calls call ih =>
    have hsplit {P : List CounterCall → Prop} :
        (∀ pre, pre ++ [.counterReady] <+: calls ++ [call] → P pre) ↔
          (∀ pre, pre ++ [.counterReady] <+: calls → P pre) ∧
            (call = .counterReady → P calls) := by
      constructor
      · intro hall
        refine ⟨fun pre hpre => hall pre (hpre.trans (List.prefix_append _ _)), ?_⟩
        rintro rfl
        exact hall calls List.prefix_rfl
      · rintro ⟨hbefore, hlast⟩ pre hpre
        rcases List.prefix_concat_iff.mp hpre with hsame | hpre'
        · obtain ⟨rfl, hcall⟩ := List.append_inj' hsame rfl
          exact hlast (List.singleton_inj.mp hcall).symm
        · exact hbefore pre hpre'
    rw [hsplit, hsplit, ih]
    refine and_congr_right fun hbefore => forall_congr' fun hcall => ?_
    rw [(CounterRun.ahead_run calls).truthful_iff, CounterRun.since_eq (ih.mpr hbefore)]

/-- A reader that comes back after all numbers have passed by hears of nothing. -/
theorem round_not_ready :
    ¬∀ calls pre, pre ++ [.counterReady] <+: calls → (run CounterRun.take {} pre).Truthful := by
  intro hall
  have hsince (n : Nat) :
      (run CounterRun.take {} (List.replicate n .increaseCounter)).since = n := by
    induction n with
    | zero => rfl
    | succ n ih =>
      rw [List.replicate_succ', run_append, run_cons, run_nil, CounterRun.increase_eq, ih]
  have htruthful := hall _ (List.replicate (2 ^ 31) .increaseCounter) List.prefix_rfl
  rw [(CounterRun.ahead_run _).truthful_iff, hsince] at htruthful
  rcases htruthful with hzero | hround
  · exact absurd hzero (by decide)
  · exact hround (dvd_refl _)

end PortableService

end MDesk
