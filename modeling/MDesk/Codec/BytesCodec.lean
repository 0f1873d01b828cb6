import Mathlib.Algebra.Group.Nat.Defs
import MDesk.Core.Stream

/-!
# The length-prefixed packet codec

`BytesCodec` of `hbb_common` frames every packet on a connection. The low two bits
of the first byte give the header width, the remaining header bits the payload
length in little-endian order. Decoding resumes from `DecodeState.data` when the
payload of a decoded header has not arrived yet.
-/

namespace MDesk

/-- The contents of a `Bytes`, `BytesMut` or `Vec<u8>`. -/
abbrev Bytes := List UInt8

/-- `usize::MAX` on a 64-bit target. -/
def usizeMax : Nat := 2 ^ 64 - 1

/-- The two `std::io::ErrorKind`s the codec reports, with their messages. -/
inductive IoError where
  | invalidData (message : String)
  | invalidInput (message : String)
  deriving DecidableEq, Repr

inductive DecodeState where
  | head
  | data (n : Nat)
  deriving DecidableEq, Repr

structure BytesCodec where
  state : DecodeState
  raw : Bool
  maxPacketLength : Nat
  deriving DecidableEq, Repr

namespace BytesCodec

def new : BytesCodec := ⟨.head, false, usizeMax⟩

def setRaw (c : BytesCodec) : BytesCodec := { c with raw := true }

def setMaxPacketLength (c : BytesCodec) (n : Nat) : BytesCodec := { c with maxPacketLength := n }

/-- The payload length in the header that occupies the first `headLen` bytes. -/
def headValue (src : Bytes) (headLen : Nat) : Nat :=
  let byte (i : Nat) : Nat := (src.getD i 0).toNat
  let n := byte 0
  let n := if headLen > 1 then n ||| (byte 1 <<< 8) else n
  let n := if headLen > 2 then n ||| (byte 2 <<< 16) else n
  let n := if headLen > 3 then n ||| (byte 3 <<< 24) else n
  n >>> 2

/-- Read one header. `none` waits for the rest of it and consumes nothing; the
buffer reservation of the source has no effect on the contents. -/
def decodeHead (c : BytesCodec) (src : Bytes) : Except IoError (Option (Nat × Bytes)) :=
  match src with
  | [] => .ok none
  | first :: _ =>
    let headLen := (first &&& 0x3).toNat + 1
    if src.length < headLen then .ok none
    else if headValue src headLen > c.maxPacketLength then .error (.invalidData "Too big packet")
    else .ok (some (headValue src headLen, src.drop headLen))

/-- Split off a payload of `n` bytes once it has arrived. -/
def decodeData (n : Nat) (src : Bytes) : Option (Bytes × Bytes) :=
  if src.length < n then none else some (src.take n, src.drop n)

/-- The second half of `decode`, for a codec whose header said `n`. -/
def decodePayload (c : BytesCodec) (n : Nat) (src : Bytes) : Option Bytes × BytesCodec × Bytes :=
  match decodeData n src with
  | some (data, rest) => (some data, { c with state := .head }, rest)
  | none => (none, c, src)

/-- `Decoder::decode`. A failing call leaves codec and buffer untouched. -/
def decode (c : BytesCodec) (src : Bytes) : Except IoError (Option Bytes × BytesCodec × Bytes) :=
  if c.raw then
    if src.isEmpty then .ok (none, c, src) else .ok (some src, c, [])
  else
    match c.state with
    | .head =>
      match c.decodeHead src with
      | .error e => .error e
      | .ok none => .ok (none, c, src)
      | .ok (some (n, src)) => .ok ({ c with state := .data n }.decodePayload n src)
    | .data n => .ok (c.decodePayload n src)

/-- `BufMut::put_u8`, `put_u16_le` and `put_u32_le` as the bytes they append. -/
def putU8 (v : UInt8) : Bytes := [v]

def putU16Le (v : UInt16) : Bytes := [v.toUInt8, (v >>> 8).toUInt8]

def putU32Le (v : UInt32) : Bytes :=
  [v.toUInt8, (v >>> 8).toUInt8, (v >>> 16).toUInt8, (v >>> 24).toUInt8]

/-- `Encoder::encode`: the buffer after appending one packet. The `ofNat` casts
truncate like `as u8`, `as u16` and `as u32`. -/
def encode (c : BytesCodec) (data buf : Bytes) : Except IoError Bytes :=
  if c.raw then .ok (buf ++ data)
  else
    let len := data.length
    if len ≤ 0x3F then .ok (buf ++ putU8 (UInt8.ofNat (len <<< 2)) ++ data)
    else if len ≤ 0x3FFF then .ok (buf ++ putU16Le (UInt16.ofNat (len <<< 2) ||| 0x1) ++ data)
    else if len ≤ 0x3FFFFF then
      let h := UInt32.ofNat (len <<< 2) ||| 0x2
      .ok (buf ++ putU16Le (h &&& 0xFFFF).toUInt16 ++ putU8 (h >>> 16).toUInt8 ++ data)
    else if len ≤ 0x3FFFFFFF then .ok (buf ++ putU32Le (UInt32.ofNat (len <<< 2) ||| 0x3) ++ data)
    else .error (.invalidInput "Overflow")

/-- Encode packets one after another into one buffer. -/
def encodeAll (c : BytesCodec) (buf : Bytes) : List Bytes → Except IoError Bytes
  | [] => .ok buf
  | data :: packets =>
    match c.encode data buf with
    | .error e => .error e
    | .ok buf => encodeAll c buf packets

end BytesCodec

end MDesk
