import Mathlib.Algebra.Order.Ring.Rat
import MDesk.Whiteboard.EventLoop

/-!
# The controller's whiteboard

The controller keeps its own list of strokes and sends a message for each change, without
any name for the stroke. A stroke that lies outside the remote picture is not sent.
-/

namespace MDesk

open Core

namespace Whiteboard

/-- The operations of the floating-point numbers. No law is needed of them. -/
class Double (δ : Type*) extends NatCast δ, Add δ, Sub δ, Mul δ, Div δ, LT δ, LE δ where
  abs : δ → δ
  isFinite : δ → Bool
  decidableLT : DecidableLT δ
  decidableLE : DecidableLE δ

instance instDecidableLT {δ : Type*} [Double δ] : DecidableLT δ := Double.decidableLT

instance instDecidableLE {δ : Type*} [Double δ] : DecidableLE δ := Double.decidableLE

instance : Double Float where
  natCast := Float.ofNat
  abs := Float.abs
  isFinite := Float.isFinite
  decidableLT := inferInstance
  decidableLE := inferInstance

/-- Exact numbers, for runs on fixed inputs. -/
instance : Double ℚ where
  abs x := if x < 0 then -x else x
  isFinite _ := true
  decidableLT := inferInstance
  decidableLE := inferInstance

structure Size (δ : Type*) where
  width : δ
  height : δ
deriving DecidableEq

structure Rect (δ : Type*) where
  left : δ
  top : δ
  width : δ
  height : δ
deriving DecidableEq

inductive WhiteboardTool where
  | pen
  | highlighter
  | eraser
  | text
  | arrow
  | rectangle
  | ellipse
deriving DecidableEq

def WhiteboardTool.index : WhiteboardTool → UInt8
  | .pen => 0
  | .highlighter => 1
  | .eraser => 2
  | .text => 3
  | .arrow => 4
  | .rectangle => 5
  | .ellipse => 6

/-- A stroke of the controller, in points of its canvas. -/
structure DrawingStroke (δ : Type*) where
  points : List (δ × δ)
  color : UInt32
  strokeWidth : δ
  tool : WhiteboardTool
  isEraser : Bool

/-- A stroke on the wire. The two rectangles go with the mark `display-local-v1`. -/
structure StrokeMessage (δ : Type*) where
  points : List (δ × δ)
  color : UInt32
  strokeWidth : δ
  tool : UInt8
  isEraser : Bool
  rects : Option (Rect δ × Rect δ)
deriving DecidableEq

inductive Message (δ : Type*) where
  | stroke (data : StrokeMessage δ)
  | clear
  | undo
deriving DecidableEq

/-- The controller. Beside a stroke stands the message that went out for it, which only the
proofs read, and `sent` is all that went out, in order. -/
structure WhiteboardController (δ : Type*) where
  isEnabled : Bool
  strokes : List (DrawingStroke δ × Option (StrokeMessage δ))
  currentTool : WhiteboardTool
  currentColor : UInt32
  currentStrokeWidth : δ
  currentPoints : List (δ × δ)
  sessionId : Option String
  canvasSize : Size δ
  remoteDisplaySize : Size δ
  remoteDisplayRect : Rect δ
  currentDisplayDesktopRect : Rect δ
  virtualDesktopRect : Rect δ
  sent : List (Message δ)

section Controller

variable {δ : Type*} [Double δ]

def zero : δ := (0 : ℕ)

def Size.visible (size : Size δ) : Bool := zero < size.width && zero < size.height

def Rect.visible (rect : Rect δ) : Bool := zero < rect.width && zero < rect.height

/-- A point of the canvas in shares of the remote picture. -/
def WhiteboardController.normalizePoint (c : WhiteboardController δ) (p : δ × δ) :
    Option (δ × δ) :=
  if c.remoteDisplayRect.visible then
    let relativeX := p.1 - c.remoteDisplayRect.left
    let relativeY := p.2 - c.remoteDisplayRect.top
    if relativeX < zero ∨ relativeY < zero ∨ c.remoteDisplayRect.width < relativeX ∨
        c.remoteDisplayRect.height < relativeY then none
    else some (relativeX / c.remoteDisplayRect.width, relativeY / c.remoteDisplayRect.height)
  else if c.remoteDisplaySize.visible then
    let scaleX := c.canvasSize.width / c.remoteDisplaySize.width
    let scaleY := c.canvasSize.height / c.remoteDisplaySize.height
    let scale := if scaleX < scaleY then scaleX else scaleY
    let offsetX := (c.canvasSize.width - c.remoteDisplaySize.width * scale) / (2 : ℕ)
    let offsetY := (c.canvasSize.height - c.remoteDisplaySize.height * scale) / (2 : ℕ)
    some ((p.1 - offsetX) / scale / c.remoteDisplaySize.width,
      (p.2 - offsetY) / scale / c.remoteDisplaySize.height)
  else
    some (if zero < c.canvasSize.width then p.1 / c.canvasSize.width else p.1,
      if zero < c.canvasSize.height then p.2 / c.canvasSize.height else p.2)

def Rect.isFinite (rect : Rect δ) : Bool :=
  Double.isFinite rect.left && Double.isFinite rect.top && Double.isFinite rect.width &&
    Double.isFinite rect.height

/-- JSON has no infinities: `jsonEncode` throws, and nothing is sent. -/
def StrokeMessage.encodable (data : StrokeMessage δ) : Bool :=
  data.points.all (fun p => Double.isFinite p.1 && Double.isFinite p.2) &&
    Double.isFinite data.strokeWidth &&
    data.rects.all fun r => r.1.isFinite && r.2.isFinite

/-- The message for a stroke, unless there is no session, no point of it lies on the remote
picture or a number of it cannot be written. -/
def WhiteboardController.sendStroke (c : WhiteboardController δ) (stroke : DrawingStroke δ) :
    Option (StrokeMessage δ) :=
  if c.sessionId = none ∨ c.isEnabled = false then none
  else
    let normalizedPoints := stroke.points.filterMap c.normalizePoint
    if normalizedPoints = [] then none
    else
      let data : StrokeMessage δ :=
        { points := normalizedPoints, color := stroke.color, strokeWidth := stroke.strokeWidth,
          tool := stroke.tool.index, isEraser := stroke.isEraser,
          rects := if c.currentDisplayDesktopRect.visible ∧ c.virtualDesktopRect.visible then
            some (c.currentDisplayDesktopRect, c.virtualDesktopRect) else none }
      if data.encodable then some data else none

/-- A command goes out if there is a session. -/
def WhiteboardController.sendCommand (c : WhiteboardController δ) (command : Message δ) :
    WhiteboardController δ :=
  if c.sessionId = none then c else { c with sent := c.sent ++ [command] }

def WhiteboardController.startStroke (c : WhiteboardController δ) (point : δ × δ) :
    WhiteboardController δ :=
  { c with currentPoints := [point] }

def WhiteboardController.addPoint (c : WhiteboardController δ) (point : δ × δ) :
    WhiteboardController δ :=
  { c with currentPoints := c.currentPoints ++ [point] }

/-- The stroke of the points so far. -/
def WhiteboardController.currentStroke (c : WhiteboardController δ) : DrawingStroke δ :=
  let isEraser := decide (c.currentTool = .eraser)
  { points := c.currentPoints
    color := if isEraser then 0 else c.currentColor
    strokeWidth := if isEraser then c.currentStrokeWidth * (3 : ℕ) else c.currentStrokeWidth
    tool := c.currentTool
    isEraser }

def WhiteboardController.endStroke (c : WhiteboardController δ) : WhiteboardController δ :=
  if c.currentPoints = [] then c
  else
    let data := c.sendStroke c.currentStroke
    { c with
      strokes := c.strokes ++ [(c.currentStroke, data)]
      currentPoints := []
      sent := c.sent ++ (data.map Message.stroke).toList }

def WhiteboardController.clear (c : WhiteboardController δ) : WhiteboardController δ :=
  { c with strokes := [], currentPoints := [] }.sendCommand .clear

def WhiteboardController.undo (c : WhiteboardController δ) : WhiteboardController δ :=
  if c.strokes = [] then c else { c with strokes := c.strokes.dropLast }.sendCommand .undo

/-- The remote picture keeps its size: neither side changes by a pixel or more. -/
def WhiteboardController.keepsSize (c : WhiteboardController δ) (rect : Rect δ) : Prop :=
  c.remoteDisplayRect.visible → ¬((1 : ℕ) ≤ Double.abs (rect.width - c.remoteDisplayRect.width) ∨
    (1 : ℕ) ≤ Double.abs (rect.height - c.remoteDisplayRect.height))

instance (c : WhiteboardController δ) (rect : Rect δ) : Decidable (c.keepsSize rect) :=
  inferInstanceAs (Decidable (_ → _))

/-- A picture of another size takes the controller's own strokes away, without a word to the
host. -/
def WhiteboardController.setRemoteDisplayRect (c : WhiteboardController δ) (rect : Rect δ) :
    WhiteboardController δ :=
  if c.keepsSize rect then { c with remoteDisplayRect := rect }
  else { c with strokes := [], currentPoints := [], remoteDisplayRect := rect }

/-- What the user and the window do to the whiteboard. -/
inductive Operation (δ : Type*) where
  | startStroke (point : δ × δ)
  | addPoint (point : δ × δ)
  | endStroke
  | undo
  | clear
  | setTool (tool : WhiteboardTool)
  | setColor (color : UInt32)
  | setStrokeWidth (width : δ)
  | setCanvasSize (size : Size δ)
  | setRemoteDisplaySize (width height : δ)
  | setRemoteDisplayRect (rect : Rect δ)
  | setDesktopGeometry (currentDisplayRect virtualRect : Rect δ)

def WhiteboardController.operate (c : WhiteboardController δ) :
    Operation δ → WhiteboardController δ
  | .startStroke point => c.startStroke point
  | .addPoint point => c.addPoint point
  | .endStroke => c.endStroke
  | .undo => c.undo
  | .clear => c.clear
  | .setTool tool => { c with currentTool := tool }
  | .setColor color => { c with currentColor := color }
  | .setStrokeWidth width => { c with currentStrokeWidth := width }
  | .setCanvasSize size => { c with canvasSize := size }
  | .setRemoteDisplaySize width height => { c with remoteDisplaySize := ⟨width, height⟩ }
  | .setRemoteDisplayRect rect => c.setRemoteDisplayRect rect
  | .setDesktopGeometry currentDisplayRect virtualRect =>
    { c with currentDisplayDesktopRect := currentDisplayRect, virtualDesktopRect := virtualRect }

/-- The strokes of the controller that went out, as they went out. -/
def WhiteboardController.transmitted (c : WhiteboardController δ) : List (StrokeMessage δ) :=
  c.strokes.filterMap Prod.snd

end Controller

section Host

variable {δ φ : Type*} [Double φ]

/-- The host's side of the coordinates: its floats, and its current display with the whole
desktop, for messages that come without them. -/
structure Host (δ φ : Type*) where
  toF32 : δ → φ
  display : Option (Rect φ × Rect φ)

variable (host : Host δ φ)

def clamp (x : φ) : φ := if x < zero then zero else if (1 : ℕ) < x then (1 : ℕ) else x

def Host.parseRect (rect : Rect δ) : Rect φ :=
  ⟨host.toF32 rect.left, host.toF32 rect.top, host.toF32 rect.width, host.toF32 rect.height⟩

/-- The points of a message in shares of the whole desktop. -/
def Host.drawPoints (data : StrokeMessage δ) : List (φ × φ) :=
  let points := data.points.map fun p => (host.toF32 p.1, host.toF32 p.2)
  let rects := (data.rects.map fun r => (host.parseRect r.1, host.parseRect r.2)).or host.display
  match rects with
  | some (d, v) =>
    if d.visible ∧ v.visible then
      points.map fun p =>
        (clamp ((d.left + p.1 * d.width - v.left) / v.width),
          clamp ((d.top + p.2 * d.height - v.top) / v.height))
    else points
  | none => points

def Host.handleWhiteboardMessage (conn_id : Int) : Message δ → Key × CustomEvent φ
  | .stroke data =>
    sendDrawStroke conn_id (host.drawPoints data) data.color (host.toF32 data.strokeWidth)
      data.tool
  | .clear => clearDraw conn_id
  | .undo => undoDraw conn_id

/-- The stroke the host makes of a message. -/
def Host.drawn (data : StrokeMessage δ) : DrawStroke φ :=
  { points := (host.drawPoints data).map fun p => ⟨p.1, p.2⟩
    argb := data.color
    strokeWidth := host.toF32 data.strokeWidth
    tool := data.tool }

/-- The strokes on the host once it has handled all messages of its one controller. -/
def Host.received (conn_id : Int) (sent : List (Message δ)) : List (DrawStroke φ) :=
  (run userEvent {} (sent.map (host.handleWhiteboardMessage conn_id))).drawStrokes.map Prod.snd

variable {host} {conn_id : Int} {sent : List (Message δ)} {data : StrokeMessage δ}

theorem received_stroke : host.received conn_id (sent ++ [.stroke data]) =
    host.received conn_id sent ++ [host.drawn data] := by
  simp [Host.received, run_append, Host.handleWhiteboardMessage, sendDrawStroke, userEvent,
    Host.drawn]

theorem received_clear : host.received conn_id (sent ++ [.clear]) = [] := by
  simp [Host.received, run_append, Host.handleWhiteboardMessage, clearDraw, userEvent]

theorem received_undo : host.received conn_id (sent ++ [.undo]) =
    (host.received conn_id sent).dropLast := by
  simp [Host.received, run_append, Host.handleWhiteboardMessage, undoDraw, userEvent,
    List.map_dropLast]

end Host

/-- Undoing finds the last stroke sent, or none at all that was. -/
def WhiteboardController.paired {δ : Type*} [Double δ] (c : WhiteboardController δ) :
    Operation δ → Prop
  | .undo => ∀ last ∈ c.strokes.getLast?, last.2 = none → c.transmitted = []
  | _ => True

section Agreement

variable {δ φ : Type*} [Double φ] {host : Host δ φ} {conn_id : Int}
  {c : WhiteboardController δ}

/-- The host shows the strokes the controller keeps, as far as they were sent. -/
def Agrees (host : Host δ φ) (conn_id : Int) (c : WhiteboardController δ) : Prop :=
  host.received conn_id c.sent = c.transmitted.map host.drawn

/-- Without a session nothing was sent. -/
def WhiteboardController.silent (c : WhiteboardController δ) : Prop :=
  c.sessionId = none → ∀ s ∈ c.strokes, s.2 = none

theorem transmitted_silent (h : c.silent) (hno : c.sessionId = none) : c.transmitted = [] :=
  List.filterMap_eq_nil_iff.mpr (h hno)

/-- The strokes sent, when the last of all strokes is known. -/
theorem transmitted_concat {strokes : List (DrawingStroke δ × Option (StrokeMessage δ))}
    {last : DrawingStroke δ × Option (StrokeMessage δ)} (h : c.strokes = strokes ++ [last]) :
    c.transmitted = strokes.filterMap Prod.snd ++ last.2.toList := by
  rw [WhiteboardController.transmitted, h, List.filterMap_append]
  obtain ⟨stroke, data⟩ := last
  cases data with
  | none => rfl
  | some data => rfl

theorem Agrees.clear (h : Agrees host conn_id c) (hsilent : c.silent) :
    Agrees host conn_id c.clear := by
  unfold WhiteboardController.clear WhiteboardController.sendCommand
  split_ifs with hno
  · rw [Agrees, h, transmitted_silent hsilent hno]
    rfl
  · exact received_clear

variable [Double δ] {op : Operation δ} {ops : List (Operation δ)}

theorem Agrees.endStroke (h : Agrees host conn_id c) : Agrees host conn_id c.endStroke := by
  unfold WhiteboardController.endStroke
  split_ifs with hnone
  · exact h
  · rw [Agrees, transmitted_concat rfl, List.map_append]
    change _ = c.transmitted.map host.drawn ++ _
    rw [← h]
    cases c.sendStroke c.currentStroke with
    | none => simp
    | some data => simp [received_stroke]

/-- Undoing leaves the two sides agreeing exactly if it finds the last stroke sent, or none. -/
theorem agrees_undo_iff (h : Agrees host conn_id c) (hsilent : c.silent) :
    Agrees host conn_id c.undo ↔ c.paired .undo := by
  unfold WhiteboardController.undo WhiteboardController.paired
  rcases List.eq_nil_or_concat' c.strokes with hnil | ⟨strokes, last, hlast⟩
  · simp [hnil, h]
  · have hsome : c.strokes ≠ [] := by simp [hlast]
    have htransmitted := transmitted_concat hlast
    have hleft : ({ c with strokes := c.strokes.dropLast } : WhiteboardController δ).transmitted =
        strokes.filterMap Prod.snd := by
      rw [WhiteboardController.transmitted, hlast, List.dropLast_concat]
    rw [if_neg hsome, WhiteboardController.sendCommand]
    split_ifs with hno
    · have hnone := transmitted_silent hsilent hno
      refine iff_of_true ?_ fun _ _ _ => hnone
      rw [Agrees, h, hleft, hnone]
      rw [hnone] at htransmitted
      rw [(List.append_eq_nil_iff.mp htransmitted.symm).1]
    · change host.received conn_id (c.sent ++ [.undo]) = List.map host.drawn
        ({ c with strokes := c.strokes.dropLast } : WhiteboardController δ).transmitted ↔ _
      rw [received_undo, h, hleft, hlast, List.getLast?_concat, htransmitted]
      cases hdata : last.2 with
      | none =>
        have hlength (l : List (DrawStroke φ)) : l.dropLast = l ↔ l = [] := by
          refine ⟨fun heq => ?_, fun hnil => by rw [hnil]; rfl⟩
          by_contra hne
          have := congrArg List.length heq
          have := List.length_pos_of_ne_nil hne
          simp only [List.length_dropLast] at *
          omega
        simp [hlength, hdata]
      | some data => simp [hdata]

/-- The remote picture keeps its size. -/
def WhiteboardController.keepsPicture (c : WhiteboardController δ) : Operation δ → Prop
  | .setRemoteDisplayRect rect => c.keepsSize rect
  | _ => True

theorem silent_operate (h : c.silent) : (c.operate op).silent := by
  cases op with
  | endStroke =>
    intro hno
    unfold WhiteboardController.operate WhiteboardController.endStroke at hno ⊢
    split_ifs at hno ⊢ with hnone
    · exact h hno
    · intro s hs
      rcases List.mem_append.mp hs with hs | hs
      · exact h hno s hs
      · rw [List.mem_singleton.mp hs]
        exact if_pos (.inl hno)
  | undo =>
    unfold WhiteboardController.operate WhiteboardController.undo WhiteboardController.sendCommand
    split_ifs
    · exact h
    · exact fun hno s hs => h hno s (List.dropLast_subset _ hs)
    · exact fun hno s hs => h hno s (List.dropLast_subset _ hs)
  | clear =>
    unfold WhiteboardController.operate WhiteboardController.clear
      WhiteboardController.sendCommand
    split_ifs
    · exact fun _ s hs => by cases hs
    · exact fun _ s hs => by cases hs
  | setRemoteDisplayRect rect =>
    change (c.setRemoteDisplayRect rect).silent
    unfold WhiteboardController.setRemoteDisplayRect
    split_ifs
    · exact h
    · exact fun _ s hs => by cases hs
  | _ => exact h

theorem agrees_operate_iff (h : Agrees host conn_id c) (hsilent : c.silent)
    (hsize : c.keepsPicture op) : Agrees host conn_id (c.operate op) ↔ c.paired op := by
  cases op with
  | undo => exact agrees_undo_iff h hsilent
  | endStroke => exact iff_of_true h.endStroke trivial
  | clear => exact iff_of_true (h.clear hsilent) trivial
  | setRemoteDisplayRect rect =>
    have hkeeps : c.keepsSize rect := hsize
    refine iff_of_true ?_ trivial
    rw [WhiteboardController.operate, WhiteboardController.setRemoteDisplayRect, if_pos hkeeps]
    exact h
  | _ => exact iff_of_true h trivial

/-- While the remote picture keeps its size, the two sides agree behind every operation exactly
if every undoing meets a stroke that was sent, or no stroke that was. -/
theorem undo_agrees_iff (hstrokes : c.strokes = []) (hsent : c.sent = [])
    (hsize : Allowed WhiteboardController.operate WhiteboardController.keepsPicture c ops) :
    (∀ pre, pre <+: ops → Agrees host conn_id (run WhiteboardController.operate c pre)) ↔
      Allowed WhiteboardController.operate WhiteboardController.paired c ops := by
  have hagrees : Agrees host conn_id c := by
    rw [Agrees, WhiteboardController.transmitted, hstrokes, hsent]
    rfl
  have hsilent : c.silent := fun _ s hs => by simp [hstrokes] at hs
  have hstep (c : WhiteboardController δ) (op : Operation δ)
      (h : Agrees host conn_id c ∧ c.silent) (hsize : c.keepsPicture op) :
      Agrees host conn_id (c.operate op) ∧ (c.operate op).silent ↔ c.paired op := by
    rw [and_iff_left (silent_operate h.2)]
    exact agrees_operate_iff h.1 h.2 hsize
  have hall : Allowed WhiteboardController.operate (fun _ _ => True) c ops :=
    allowed_of_forall (fun _ _ => trivial) c ops
  rw [← allowed_iff_keeps_of hstep ⟨hagrees, hsilent⟩ hsize]
  refine forall₂_congr fun pre hpre => (and_iff_left ?_).symm
  obtain ⟨rest, rfl⟩ := hpre
  exact run_keeps (fun _ _ h _ => silent_operate h) hsilent (allowed_append.mp hall).1

/-- A controller with a session and the remote picture on a square of its canvas. -/
def onSquare : WhiteboardController ℚ :=
  { isEnabled := true, strokes := [], currentTool := .pen, currentColor := 0xfff44336
    currentStrokeWidth := 3, currentPoints := [], sessionId := some "session"
    canvasSize := ⟨200, 200⟩, remoteDisplaySize := ⟨800, 800⟩
    remoteDisplayRect := ⟨0, 0, 100, 100⟩, currentDisplayDesktopRect := ⟨0, 0, 0, 0⟩
    virtualDesktopRect := ⟨0, 0, 0, 0⟩, sent := [] }

/-- A host that rounds nothing and has no display of its own to add. -/
def exactHost : Host ℚ ℚ := ⟨id, none⟩

theorem undo_agrees_sample :
    (∀ pre, pre <+: [.startStroke (10, 10), .endStroke, .setRemoteDisplayRect ⟨5, 0, 100, 100⟩,
        .undo] → Agrees exactHost 1 (run WhiteboardController.operate onSquare pre)) ↔
      Allowed WhiteboardController.operate WhiteboardController.paired onSquare
        [.startStroke (10, 10), .endStroke, .setRemoteDisplayRect ⟨5, 0, 100, 100⟩, .undo] :=
  undo_agrees_iff rfl rfl ⟨trivial, trivial, fun _ => by decide +kernel, trivial, trivial⟩

/-- A stroke on the picture, a stroke beside it, and an undo: the controller keeps the first
one, and the host shows none. -/
theorem undo_takes_sent :
    Allowed WhiteboardController.operate WhiteboardController.keepsPicture onSquare
      [.startStroke (10, 10), .endStroke, .startStroke (150, 10), .endStroke, .undo] ∧
    ¬Agrees exactHost 1 (run WhiteboardController.operate onSquare
      [.startStroke (10, 10), .endStroke, .startStroke (150, 10), .endStroke, .undo]) := by
  refine ⟨⟨trivial, trivial, trivial, trivial, trivial, trivial⟩, ?_⟩
  unfold Agrees
  decide +kernel

end Agreement

end Whiteboard

end MDesk
