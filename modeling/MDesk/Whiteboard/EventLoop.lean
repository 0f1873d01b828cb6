import Mathlib.Data.Finset.Basic
import MDesk.Core.Run
import MDesk.Core.Table

/-!
# The host's whiteboard

One window of the host shows the cursors and the strokes of all controller connections.
Their events come to its event loop in one queue, each with the key of its connection.
-/

namespace MDesk

open Core

namespace Whiteboard

variable {φ : Type*}

/-- The keys the connections send under. -/
inductive Key where
  | get_key_cursor (conn_id : Int)
  | get_key_draw (conn_id : Int)
deriving DecidableEq

/-- The connection of a key. -/
def Key.connId : Key → Int
  | .get_key_cursor conn_id => conn_id
  | .get_key_draw conn_id => conn_id

structure DrawPoint (φ : Type*) where
  x : φ
  y : φ
deriving DecidableEq

/-- A stroke; the tools are 0 the pen, 1 the highlighter, 2 the eraser. -/
structure DrawStroke (φ : Type*) where
  points : List (DrawPoint φ)
  argb : UInt32
  strokeWidth : φ
  tool : UInt8
deriving DecidableEq

structure Cursor (φ : Type*) where
  x : φ
  y : φ
  argb : UInt32
  btns : Int
  text : String
deriving DecidableEq

inductive CustomEvent (φ : Type*) where
  | cursor (cursor : Cursor φ)
  | draw (stroke : DrawStroke φ)
  | clearDraw
  | undoDraw
  | clear
  | exit
deriving DecidableEq

/-- What the event loop keeps. The connection beside a stroke is for the proofs only, the loop
neither stores nor reads it. -/
structure EventLoop (φ : Type*) where
  lastCursors : Table Key (Cursor φ) := ∅
  drawStrokes : List (Int × DrawStroke φ) := []

/-- One event of the queue. Behind `Exit` the process is gone, and the next one that is started
begins with nothing. -/
def userEvent (loop : EventLoop φ) : Key × CustomEvent φ → EventLoop φ
  | (k, .cursor cursor) => { loop with lastCursors := loop.lastCursors.insert k cursor }
  | (k, .draw stroke) => { loop with drawStrokes := loop.drawStrokes ++ [(k.connId, stroke)] }
  | (_, .clearDraw) => { loop with drawStrokes := [] }
  | (_, .undoDraw) => { loop with drawStrokes := loop.drawStrokes.dropLast }
  | (_, .exit) => {}
  | (_, .clear) => loop

/-- What a connection's calls put into the queue. -/
def sendDrawStroke (conn_id : Int) (points : List (φ × φ)) (argb : UInt32) (stroke_width : φ)
    (tool : UInt8) : Key × CustomEvent φ :=
  (.get_key_draw conn_id, .draw
    { points := points.map fun p => ⟨p.1, p.2⟩, argb, strokeWidth := stroke_width, tool })

def clearDraw (conn_id : Int) : Key × CustomEvent φ := (.get_key_draw conn_id, .clearDraw)

def undoDraw (conn_id : Int) : Key × CustomEvent φ := (.get_key_draw conn_id, .undoDraw)

/-- A key goes, and with the last one the process. (The key of `Exit` is empty in the source;
nothing reads it.) -/
def unregisterWhiteboard (conns : Finset Key) (k : Key) :
    Finset Key × List (Key × CustomEvent φ) :=
  (conns.erase k, (k, .clear) :: if conns.erase k = ∅ then [(k, .exit)] else [])

/-- The strokes of a connection on the screen. -/
def EventLoop.shown (loop : EventLoop φ) (conn_id : Int) : List (DrawStroke φ) :=
  (loop.drawStrokes.filter fun s => s.1 = conn_id).map Prod.snd

/-- The events that concern a connection: its own, and the end of the process. -/
def concerns (conn_id : Int) : Key × CustomEvent φ → Bool
  | (_, .exit) => true
  | (k, _) => k.connId = conn_id

/-- The events of one connection. -/
def alone (conn_id : Int) (es : List (Key × CustomEvent φ)) : List (Key × CustomEvent φ) :=
  es.filter (concerns conn_id)

/-- The last thing a connection did is to unregister. -/
def Closed (conn_id : Int) (es : List (Key × CustomEvent φ)) : Prop :=
  ∃ e ∈ (alone conn_id es).getLast?, e.2 = .clear

/-- Every connection sees what its own events alone would show, and nothing of it is left once
it has unregistered. -/
def Isolated (es : List (Key × CustomEvent φ)) (loop : EventLoop φ) : Prop :=
  ∀ conn_id, loop.shown conn_id = (run userEvent {} (alone conn_id es)).shown conn_id ∧
    (Closed conn_id es → loop.shown conn_id = [])

/-- The event concerns its own connection's strokes only, and unregistering finds none of
them. -/
def Mine (loop : EventLoop φ) : Key × CustomEvent φ → Prop
  | (k, .undoDraw) => ∀ s ∈ loop.drawStrokes.getLast?, s.1 = k.connId
  | (k, .clearDraw) => ∀ s ∈ loop.drawStrokes, s.1 = k.connId
  | (k, .clear) => ∀ s ∈ loop.drawStrokes, s.1 ≠ k.connId
  | _ => True

section Steps

variable {loop : EventLoop φ} {k : Key} {conn_id : Int} {es : List (Key × CustomEvent φ)}
  {e : Key × CustomEvent φ}

theorem shown_eq_nil_iff : loop.shown conn_id = [] ↔ ∀ s ∈ loop.drawStrokes, s.1 ≠ conn_id := by
  simp [EventLoop.shown]

@[simp] theorem shown_cursor {cursor : Cursor φ} :
    (userEvent loop (k, .cursor cursor)).shown conn_id = loop.shown conn_id := rfl

@[simp] theorem shown_clear : (userEvent loop (k, .clear)).shown conn_id = loop.shown conn_id :=
  rfl

@[simp] theorem shown_clearDraw : (userEvent loop (k, .clearDraw)).shown conn_id = [] := rfl

@[simp] theorem shown_exit : (userEvent loop (k, .exit)).shown conn_id = [] := rfl

theorem shown_draw {stroke : DrawStroke φ} : (userEvent loop (k, .draw stroke)).shown conn_id =
    loop.shown conn_id ++ if k.connId = conn_id then [stroke] else [] := by
  split_ifs with hk
  · simp [userEvent, EventLoop.shown, hk]
  · simp [userEvent, EventLoop.shown, hk]

/-- Undoing takes the last stroke, whoever drew it. -/
theorem shown_undoDraw : (userEvent loop (k, .undoDraw)).shown conn_id =
    if ∃ s ∈ loop.drawStrokes.getLast?, s.1 = conn_id then (loop.shown conn_id).dropLast
    else loop.shown conn_id := by
  rcases List.eq_nil_or_concat loop.drawStrokes with hnil | ⟨strokes, last, hlast⟩
  · simp [userEvent, EventLoop.shown, hnil]
  · by_cases hmine : last.1 = conn_id
    · simp [userEvent, EventLoop.shown, hlast, hmine]
    · simp [userEvent, EventLoop.shown, hlast, hmine]

/-- Unregistering takes every connection's strokes with the last key, and none before. -/
theorem shown_unregister {conns : Finset Key} :
    (run userEvent loop (unregisterWhiteboard conns k).2).shown conn_id =
      if conns.erase k = ∅ then [] else loop.shown conn_id := by
  unfold unregisterWhiteboard
  split_ifs with hlast
  · rfl
  · rfl

/-- What an event makes of the strokes of the connection it concerns, by rights. -/
def CustomEvent.own : CustomEvent φ → List (DrawStroke φ) → List (DrawStroke φ)
  | .cursor _, strokes => strokes
  | .draw stroke, strokes => strokes ++ [stroke]
  | .undoDraw, strokes => strokes.dropLast
  | _, _ => []

/-- A connection that is alone is right in all it does but unregistering. -/
theorem shown_own (hown : ∀ s ∈ loop.drawStrokes, s.1 = conn_id) (he : concerns conn_id e)
    (hclear : e.2 ≠ .clear) :
    (userEvent loop e).shown conn_id = e.2.own (loop.shown conn_id) := by
  obtain ⟨k, evt⟩ := e
  cases evt with
  | cursor cursor => rfl
  | draw stroke =>
    have hk : k.connId = conn_id := by simpa [concerns] using he
    rw [shown_draw, if_pos hk, CustomEvent.own]
  | clearDraw => rfl
  | undoDraw =>
    rw [shown_undoDraw, CustomEvent.own]
    split_ifs with hlast
    · rfl
    · have hnil : loop.drawStrokes = [] := by
        rw [← List.getLast?_eq_none_iff, Option.eq_none_iff_forall_not_mem]
        exact fun s hs => hlast ⟨s, hs, hown s (List.mem_of_getLast? hs)⟩
      simp [EventLoop.shown, hnil]
  | clear => exact absurd rfl hclear
  | exit => rfl

/-- On its own events every stroke is the connection's. -/
theorem alone_owner : ∀ s ∈ (run userEvent {} (alone conn_id es)).drawStrokes, s.1 = conn_id := by
  induction es using List.reverseRecOn with
  | nil => simp [alone]
  | append_singleton es e ih =>
    rw [alone, List.filter_append, run_append]
    by_cases he : concerns conn_id e
    · obtain ⟨k, evt⟩ := e
      rw [List.filter_singleton, he]
      cases evt with
      | cursor cursor => exact ih
      | draw stroke =>
        have hk : k.connId = conn_id := by simpa [concerns] using he
        intro s hs
        rcases List.mem_append.mp hs with hs | hs
        · exact ih s hs
        · rw [List.mem_singleton.mp hs]
          exact hk
      | clearDraw => simp [userEvent]
      | undoDraw => exact fun s hs => ih s (List.dropLast_subset _ hs)
      | clear => exact ih
      | exit => simp [userEvent]
    · rw [List.filter_singleton, eq_false_of_ne_true he]
      exact ih

/-- Isolation goes on behind an event exactly if it does right by every connection. -/
theorem isolated_concat (h : Isolated es loop) : Isolated (es ++ [e]) (userEvent loop e) ↔
    ∀ conn_id, (userEvent loop e).shown conn_id =
      if concerns conn_id e then e.2.own (loop.shown conn_id) else loop.shown conn_id := by
  refine forall_congr' fun conn_id => ?_
  obtain ⟨hshown, hclosed⟩ := h conn_id
  have hsplit : alone conn_id (es ++ [e]) = alone conn_id es ++ [e].filter (concerns conn_id) :=
    List.filter_append ..
  rw [Closed, hsplit, run_append, List.filter_singleton]
  split_ifs with he
  · rw [he]
    by_cases hclear : e.2 = .clear
    · obtain ⟨k, evt⟩ := e
      obtain rfl : evt = .clear := hclear
      simp [CustomEvent.own, ← hshown]
    · simp [shown_own alone_owner he hclear, ← hshown, hclear]
  · rw [eq_false_of_ne_true he]
    simp only [cond_false, List.append_nil, run_nil, ← hshown]
    refine ⟨And.left, fun heq => ⟨heq, fun hlast => ?_⟩⟩
    rw [heq]
    exact hclosed hlast

/-- It does so exactly if it concerns no stroke of another connection. -/
theorem mine_iff : (∀ conn_id, (userEvent loop e).shown conn_id =
    if concerns conn_id e then e.2.own (loop.shown conn_id) else loop.shown conn_id) ↔
      Mine loop e := by
  obtain ⟨k, evt⟩ := e
  cases evt with
  | cursor cursor => simp [Mine, CustomEvent.own]
  | draw stroke =>
    refine iff_of_true (fun conn_id => ?_) trivial
    by_cases hk : k.connId = conn_id
    · simp [shown_draw, concerns, CustomEvent.own, hk]
    · simp [shown_draw, concerns, hk]
  | clearDraw =>
    constructor
    · intro h s hs
      by_contra hne
      have hother := h s.1
      simp only [shown_clearDraw, concerns, Ne.symm hne, decide_false] at hother
      exact shown_eq_nil_iff.mp hother.symm s hs rfl
    · intro hmine conn_id
      by_cases hk : k.connId = conn_id
      · simp [concerns, CustomEvent.own, hk]
      · have hnone : loop.shown conn_id = [] := shown_eq_nil_iff.mpr fun s hs heq =>
          hk ((hmine s hs).symm.trans heq)
        simp [concerns, hk, hnone]
  | undoDraw =>
    constructor
    · intro h s hs
      by_contra hne
      have hother := h s.1
      rw [shown_undoDraw, if_pos ⟨s, hs, rfl⟩] at hother
      simp only [concerns, Ne.symm hne, decide_false] at hother
      have hlength := congrArg List.length hother
      have hpos : loop.shown s.1 ≠ [] := fun hnil =>
        shown_eq_nil_iff.mp hnil s (List.mem_of_getLast? hs) rfl
      have := List.length_pos_of_ne_nil hpos
      simp only [List.length_dropLast, Bool.false_eq_true, if_false] at hlength
      omega
    · intro hmine conn_id
      rw [shown_undoDraw]
      by_cases hk : k.connId = conn_id
      · by_cases hlast : ∃ s ∈ loop.drawStrokes.getLast?, s.1 = conn_id
        · simp only [if_pos hlast, concerns, hk, decide_true, if_true, CustomEvent.own]
        · have hnil : loop.drawStrokes = [] := by
            rw [← List.getLast?_eq_none_iff, Option.eq_none_iff_forall_not_mem]
            exact fun s hs => hlast ⟨s, hs, (hmine s hs).trans hk⟩
          simp [concerns, CustomEvent.own, EventLoop.shown, hnil]
      · have hlast : ¬∃ s ∈ loop.drawStrokes.getLast?, s.1 = conn_id := by
          rintro ⟨s, hs, heq⟩
          exact hk ((hmine s hs).symm.trans heq)
        simp [concerns, hk, if_neg hlast]
  | clear =>
    constructor
    · intro h
      have hmine := h k.connId
      simp only [shown_clear, concerns, decide_true, if_true, CustomEvent.own] at hmine
      exact shown_eq_nil_iff.mp hmine
    · intro hmine conn_id
      by_cases hk : k.connId = conn_id
      · subst hk
        simpa [concerns, CustomEvent.own] using shown_eq_nil_iff.mpr hmine
      · simp [concerns, hk]
  | exit => simp [Mine, CustomEvent.own, concerns]

/-- The connections stay apart in every state of a run exactly if each undoing meets a last
stroke, and each clearing only strokes, of its own connection, and each unregistering meets
none. -/
theorem connections_isolated_iff :
    (∀ pre, pre <+: es → Isolated pre (run userEvent {} pre)) ↔ Allowed userEvent Mine {} es :=
  allowed_iff_keeps_past (fun _ _ h => (isolated_concat h).trans mine_iff)
    fun _ => ⟨rfl, fun ⟨_, hlast, _⟩ => by cases hlast⟩

/-- Two connections draw, then the first takes its stroke back: it keeps it, and the second
loses its own. -/
theorem undo_takes_other : ¬Isolated
    [sendDrawStroke 1 [(0, 0), (1, 1)] 0 2 0, sendDrawStroke 2 [(5, 5), (6, 6)] 0 2 0, undoDraw 1]
    (run userEvent {} [sendDrawStroke 1 [(0, 0), (1, 1)] 0 2 0,
      sendDrawStroke 2 [(5, 5), (6, 6)] 0 2 0, undoDraw 1] : EventLoop Nat) := by
  intro h
  exact absurd (h 2).1 (by decide)

end Steps

end Whiteboard

end MDesk
