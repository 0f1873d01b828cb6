import Mathlib.Algebra.Group.Nat.Defs
import Mathlib.Algebra.GroupWithZero.Nat
import Mathlib.Data.List.Basic

/-!
# Clipboard messages

The messages of the `clipboard` crate that the file route looks at, with the frames of
the streamed transport and the generation that a list of formats announces.
-/

namespace MDesk.Clipboard

/-- The kind of a frame, a number on the wire. -/
inductive FrameKind where
  | request
  | block
  | «end»
  | credit
  | cancel
  | error
  | descriptorsRequest
  | descriptorsResponse
  | unknown (n : Nat)
  deriving DecidableEq, Repr

/-- The frame asks for a stream or for descriptors. -/
def FrameKind.asks : FrameKind → Bool
  | .request | .descriptorsRequest => true
  | _ => false

/-- The frame steers a stream that was asked for. -/
def FrameKind.controls : FrameKind → Bool
  | .credit | .cancel => true
  | _ => false

/-- The frame answers such a request. -/
def FrameKind.answers : FrameKind → Bool
  | .block | .end | .error | .descriptorsResponse => true
  | _ => false

theorem FrameKind.asks_or (kind : FrameKind) :
    kind.asks = true ∨ kind.controls = true ∨ kind.answers = true ∨ ∃ n, kind = .unknown n := by
  cases kind <;> simp [asks, controls, answers]

theorem FrameKind.asks_of_controls {kind : FrameKind} (h : kind.controls = true) :
    kind.asks = false := by
  cases kind <;> first | rfl | cases h

theorem FrameKind.asks_of_answers {kind : FrameKind} (h : kind.answers = true) :
    kind.asks = false := by
  cases kind <;> first | rfl | cases h

theorem FrameKind.controls_of_answers {kind : FrameKind} (h : kind.answers = true) :
    kind.controls = false := by
  cases kind <;> first | rfl | cases h

/-- `Frame` of the streamed transport. -/
structure Frame where
  kind : FrameKind := .unknown 0
  generation : Nat := 0
  requestId : Nat := 0
  index : Nat := 0
  offset : Nat := 0
  size : Nat := 0
  data : List UInt8 := []
  compressed : Bool := false
  deriving DecidableEq, Repr

/-- `ClipboardFile`, with the messages the route passes on unread as `other`. -/
inductive ClipboardFile where
  | fileStream (frame : Frame)
  | formatList (formatList : List (Int × String))
  | formatDataRequest (requestedFormatId : Int)
  | formatDataResponse (msgFlags : Int) (formatData : List UInt8)
  | fileContentsRequest (streamId listIndex dwFlags nPositionLow nPositionHigh cbRequested : Int)
      (haveClipDataId : Bool) (clipDataId : Int)
  | fileContentsResponse (msgFlags streamId : Int) (requestedData : List UInt8)
  | tryEmpty
  | other (n : Nat)
  deriving DecidableEq, Repr

/-- `FORMAT_PREFIX`. -/
def formatPrefix : List Char := "MDesk.FileStream.v1:".toList

/-- The value of a hexadecimal digit. -/
def hexDigit (c : Char) : Option Nat :=
  if '0' ≤ c ∧ c ≤ '9' then some (c.toNat - '0'.toNat)
  else if 'a' ≤ c ∧ c ≤ 'f' then some (c.toNat - 'a'.toNat + 10)
  else if 'A' ≤ c ∧ c ≤ 'F' then some (c.toNat - 'A'.toNat + 10)
  else none

/-- `u64::from_str_radix(_, 16)`, which takes a leading plus sign. -/
def fromHex (s : List Char) : Option Nat :=
  let digits := match s with
    | '+' :: rest => rest
    | s => s
  if digits = [] then none
  else do
    let ds ← digits.mapM hexDigit
    let n := ds.foldl (fun n d => 16 * n + d) 0
    if n < 2 ^ 64 then some n else none

/-- The generation a format name announces. -/
def formatGeneration (name : List Char) : Option Nat :=
  if formatPrefix.isPrefixOf name then
    let value := name.drop formatPrefix.length
    if (value.map Char.utf8Size).sum ≠ 16 then none
    else (fromHex value).filter (· ≠ 0)
  else none

/-- `generation`: the first one announced, `0` without any. -/
def generation (formats : List (Int × String)) : Nat :=
  (formats.findSome? fun format => formatGeneration format.2.toList).getD 0

example : generation [(0, "CF_TEXT"), (1, "MDesk.FileStream.v1:00000000000000ff")] = 255 := by
  decide

end MDesk.Clipboard
