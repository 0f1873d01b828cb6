import Mathlib.Algebra.Order.Monoid.Unbundled.Basic
import Mathlib.Data.List.Pairwise

/-!
# Credit windows

A sender may be ahead of the last acknowledgement it has seen by the width of a window.
Acknowledgements travel in order, the receiver has consumed what it acknowledged, received
what it consumed, and the sender has sent what was received.
-/

namespace MDesk.Core

/-- The counters of a window, in order from the last acknowledgement seen to what was
sent, with the acknowledgements that travel. -/
structure Window {α : Type*} [LE α] [Add α] (width acknowledged : α) (acks : List α)
    (consumed received sent : α) : Prop where
  ladder : (acknowledged :: acks ++ [consumed, received, sent]).Pairwise (· ≤ ·)
  bound : sent ≤ acknowledged + width

namespace Window

theorem ladder_iff {α : Type*} [LE α] {acknowledged consumed received sent : α} {acks : List α} :
    (acknowledged :: acks ++ [consumed, received, sent]).Pairwise (· ≤ ·) ↔
      (acknowledged :: acks).Pairwise (· ≤ ·) ∧
        (consumed ≤ received ∧ consumed ≤ sent ∧ received ≤ sent) ∧
        ∀ a ∈ acknowledged :: acks, a ≤ consumed ∧ a ≤ received ∧ a ≤ sent := by
  rw [List.pairwise_append]
  simp [and_assoc]

section Counters

variable {α : Type*} [LE α] [Add α] {width acknowledged consumed received sent : α} {acks : List α}

variable (h : Window width acknowledged acks consumed received sent)

include h

theorem le_consumed {a : α} (ha : a ∈ acknowledged :: acks) : a ≤ consumed :=
  ((ladder_iff.mp h.ladder).2.2 a ha).1

theorem acknowledged_le_consumed : acknowledged ≤ consumed := h.le_consumed List.mem_cons_self

theorem consumed_le_received : consumed ≤ received := (ladder_iff.mp h.ladder).2.1.1

theorem received_le_sent : received ≤ sent := (ladder_iff.mp h.ladder).2.1.2.2

end Counters

variable {α : Type*} [Preorder α] [Add α] {width acknowledged consumed received sent : α}
  {acks : List α}

/-- A window that just opened. -/
theorem refl {start : α} (h : start ≤ start + width) : Window width start [] start start start where
  ladder := by simp
  bound := h

/-- Counters further on, each still behind the next. -/
theorem mono (h : Window width acknowledged acks consumed received sent)
    {consumed' received' sent' : α} (hconsumed : consumed ≤ consumed')
    (hreceived : consumed' ≤ received') (hsent : received' ≤ sent')
    (hbound : sent' ≤ acknowledged + width) :
    Window width acknowledged acks consumed' received' sent' := by
  refine ⟨ladder_iff.mpr ⟨(ladder_iff.mp h.ladder).1, ?_, ?_⟩, hbound⟩
  · exact ⟨hreceived, hreceived.trans hsent, hsent⟩
  · intro a ha
    have hle := (h.le_consumed ha).trans hconsumed
    exact ⟨hle, hle.trans hreceived, (hle.trans hreceived).trans hsent⟩

/-- The receiver acknowledges what it consumed. -/
theorem acknowledge (h : Window width acknowledged acks consumed received sent) :
    Window width acknowledged (acks ++ [consumed]) consumed received sent := by
  obtain ⟨hacks, hcounters, hle⟩ := ladder_iff.mp h.ladder
  refine ⟨ladder_iff.mpr ⟨?_, hcounters, ?_⟩, h.bound⟩
  · rw [← List.cons_append, List.pairwise_append]
    refine ⟨hacks, List.pairwise_singleton _ _, fun a ha b hb => ?_⟩
    rw [List.mem_singleton.mp hb]
    exact (hle a ha).1
  · intro a ha
    rw [← List.cons_append] at ha
    rcases List.mem_append.mp ha with ha | ha
    · exact hle a ha
    · rw [List.mem_singleton.mp ha]
      exact ⟨le_refl _, hcounters.1, hcounters.2.1⟩

/-- The sender sees an acknowledgement. -/
theorem seen [AddRightMono α] {a : α}
    (h : Window width acknowledged (a :: acks) consumed received sent) :
    acknowledged ≤ a ∧ a ≤ sent ∧ Window width a acks consumed received sent := by
  obtain ⟨hacks, hcounters, hle⟩ := ladder_iff.mp h.ladder
  have hfirst := (List.pairwise_cons.mp hacks).1 a List.mem_cons_self
  refine ⟨hfirst, (hle a (List.mem_cons_of_mem _ List.mem_cons_self)).2.2, ?_, ?_⟩
  · exact (List.pairwise_cons.mp h.ladder).2
  · exact h.bound.trans (add_le_add_left hfirst width)

end Window

end MDesk.Core
