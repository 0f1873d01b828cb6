import Mathlib.Data.List.DropRight
import MDesk.Codec.BytesCodec
import MDesk.Core.Endian

/-!
# Mangled addresses

Some routers rewrite the addresses they see inside packets, so `AddrMangle` hides an
IPv4 address behind a salt taken from the clock: one 128-bit number carries the sum of
address and salt, the salt, and the sum of port and salt, and travels without its
trailing zero bytes. An IPv6 address travels as it is, in 18 bytes.
-/

namespace MDesk

open Core

/-- The octets of an IPv4 address. -/
structure Ipv4Addr where
  a : UInt8
  b : UInt8
  c : UInt8
  d : UInt8
  deriving DecidableEq, Repr

namespace Ipv4Addr

def octets (ip : Ipv4Addr) : Bytes := [ip.a, ip.b, ip.c, ip.d]

/-- The address with four octets. -/
def ofOctets (bytes : Bytes) : Ipv4Addr :=
  ⟨bytes.getD 0 0, bytes.getD 1 0, bytes.getD 2 0, bytes.getD 3 0⟩

@[simp] theorem ofOctets_octets (ip : Ipv4Addr) : ofOctets ip.octets = ip := rfl

end Ipv4Addr

/-- The 16 octets of an IPv6 address. -/
structure Ipv6Addr where
  octets : Bytes
  length_octets : octets.length = 16
  deriving DecidableEq, Repr

namespace Ipv6Addr

/-- `Ipv6Addr::LOCALHOST`. -/
def localhost : Ipv6Addr := ⟨List.replicate 15 0 ++ [1], rfl⟩

/-- `Ipv6Addr::UNSPECIFIED`. -/
def unspecified : Ipv6Addr := ⟨List.replicate 16 0, rfl⟩

/-- `Ipv6Addr::to_ipv4`: the addresses that are compatible with IPv4 or mapped from it. -/
def toIpv4 (ip : Ipv6Addr) : Option Ipv4Addr :=
  if ip.octets.take 12 = List.replicate 12 0 ∨
      ip.octets.take 12 = List.replicate 10 0 ++ [0xff, 0xff] then
    some (.ofOctets (ip.octets.drop 12))
  else none

end Ipv6Addr

/-- `SocketAddr`. -/
inductive SocketAddr where
  | v4 (ip : Ipv4Addr) (port : UInt16)
  | v6 (ip : Ipv6Addr) (port : UInt16) (flowinfo scopeId : UInt32)
  deriving DecidableEq, Repr

namespace SocketAddr

/-- `try_into_v4`. -/
def tryIntoV4 : SocketAddr → SocketAddr
  | .v4 ip port => .v4 ip port
  | .v6 ip port flowinfo scopeId =>
    if ip = .localhost then .v6 ip port flowinfo scopeId
    else
      match ip.toIpv4 with
      | some mapped => .v4 mapped port
      | none => .v6 ip port flowinfo scopeId

/-- The address without flow information and scope. -/
def plain : SocketAddr → SocketAddr
  | .v4 ip port => .v4 ip port
  | .v6 ip port _ _ => .v6 ip port 0 0

end SocketAddr

namespace AddrMangle

/-- The number that carries an IPv4 address, in 128 bits. -/
def mangled (ip : Ipv4Addr) (port : UInt16) (tm : Nat) : Nat :=
  (((leNat ip.octets + tm) <<< 49) % 2 ^ 128) ||| ((tm <<< 17) % 2 ^ 128) |||
    (port.toNat + (tm &&& 0xFFFF))

/-- `AddrMangle::encode` at `now` microseconds after the Unix epoch, zero before it. -/
def encode (now : Nat) (addr : SocketAddr) : Bytes :=
  match addr.tryIntoV4 with
  | .v4 ip port => (leBytes 16 (mangled ip port (now % 2 ^ 32))).rdropWhile (· = 0)
  | .v6 ip port _ _ => ip.octets ++ leBytes 2 port.toNat

/-- A subtraction of unsigned numbers, `none` where it overflows. -/
def checkedSub (a b : Nat) : Option Nat := if b ≤ a then some (a - b) else none

/-- The IPv4 address in a number, `none` where one of the subtractions overflows. -/
def unmangle (number : Nat) : Option SocketAddr := do
  let tm := (number >>> 17) &&& 0xFFFFFFFF
  let ip ← checkedSub (number >>> 49) tm
  let port ← checkedSub (number &&& 0xFFFFFF) (tm &&& 0xFFFF)
  some (.v4 (.ofOctets (leBytes 4 ip)) (UInt16.ofNat port))

/-- `AddrMangle::decode`. -/
def decode (bytes : Bytes) : Option SocketAddr :=
  if h : 16 < bytes.length then
    if bytes.length = 18 then
      some (.v6 ⟨bytes.take 16, by simp; omega⟩ (UInt16.ofNat (leNat (bytes.drop 16))) 0 0)
    else some (.v6 .unspecified 0 0 0)
  else unmangle (leNat (bytes ++ List.replicate (16 - bytes.length) 0))

variable {ip : Ipv4Addr} {port : UInt16} {tm : Nat}

theorem leNat_octets_lt (ip : Ipv4Addr) : leNat ip.octets < 2 ^ 32 :=
  (leNat_lt ip.octets).trans_eq (by norm_num [Ipv4Addr.octets])

theorem leBytes_octets (ip : Ipv4Addr) : leBytes 4 (leNat ip.octets) = ip.octets :=
  leBytes_leNat ip.octets

theorem checkedSub_add (a b : Nat) : checkedSub (a + b) b = some a := by
  rw [checkedSub, if_pos (Nat.le_add_left b a), Nat.add_sub_cancel]

theorem checkedSub_add_add (a b c : Nat) : checkedSub (a + b + c) b = some (a + c) := by
  rw [Nat.add_right_comm, checkedSub_add]

/-- What stands above a port is cut off. -/
theorem port_low (port : UInt16) (c : Nat) : UInt16.ofNat (port.toNat + c * 2 ^ 17) = port := by
  have hport := port.toNat_lt
  apply UInt16.toNat_inj.mp
  rw [UInt16.toNat_ofNat']
  omega

/-- The three parts of the number do not overlap. -/
theorem mangled_eq (htm : tm < 2 ^ 32) : mangled ip port tm =
    (leNat ip.octets + tm) * 2 ^ 49 + tm * 2 ^ 17 + (port.toNat + tm % 2 ^ 16) := by
  have hip := leNat_octets_lt ip
  have hport := port.toNat_lt
  have hlow : tm &&& 0xFFFF = tm % 2 ^ 16 := Nat.and_two_pow_sub_one_eq_mod tm 16
  have hsum : ((leNat ip.octets + tm) <<< 49) % 2 ^ 128 = (leNat ip.octets + tm) <<< 49 :=
    Nat.mod_eq_of_lt (by rw [Nat.shiftLeft_eq]; omega)
  have hsalt : (tm <<< 17) % 2 ^ 128 = tm <<< 17 :=
    Nat.mod_eq_of_lt (by rw [Nat.shiftLeft_eq]; omega)
  have hrest : tm <<< 17 + (port.toNat + tm % 2 ^ 16) < 2 ^ 49 := by
    rw [Nat.shiftLeft_eq]
    omega
  have hinner : tm <<< 17 ||| (port.toNat + tm % 2 ^ 16) =
      tm <<< 17 + (port.toNat + tm % 2 ^ 16) := (Nat.shiftLeft_add_eq_or_of_lt (by omega) tm).symm
  rw [mangled, hlow, hsum, hsalt, Nat.or_assoc, hinner, ← Nat.shiftLeft_add_eq_or_of_lt hrest,
    Nat.shiftLeft_eq, Nat.shiftLeft_eq, Nat.add_assoc]

/-- The salt is taken out again, and nothing overflows. -/
theorem unmangle_mangled (ip : Ipv4Addr) (port : UInt16) (htm : tm < 2 ^ 32) :
    unmangle (mangled ip port tm) = some (.v4 ip port) := by
  have hip := leNat_octets_lt ip
  have hport := port.toNat_lt
  rw [mangled_eq htm]
  generalize hn : (leNat ip.octets + tm) * 2 ^ 49 + tm * 2 ^ 17 + (port.toNat + tm % 2 ^ 16) = n
  have hsalt : (n >>> 17) &&& 0xFFFFFFFF = tm := by
    have hdiv : n / 2 ^ 17 = (leNat ip.octets + tm) * 2 ^ 32 + tm := by omega
    rw [Nat.shiftRight_eq_div_pow, show 0xFFFFFFFF = 2 ^ 32 - 1 by norm_num,
      Nat.and_two_pow_sub_one_eq_mod, hdiv]
    omega
  have hhigh : n >>> 49 = leNat ip.octets + tm := by
    rw [Nat.shiftRight_eq_div_pow]
    omega
  -- the low bits of the salt stand above the port and are cut off with it
  have hlow : n &&& 0xFFFFFF = port.toNat + tm % 2 ^ 16 + (tm % 2 ^ 7) * 2 ^ 17 := by
    rw [show 0xFFFFFF = 2 ^ 24 - 1 by norm_num, Nat.and_two_pow_sub_one_eq_mod]
    omega
  have hsalt16 : tm &&& 0xFFFF = tm % 2 ^ 16 := Nat.and_two_pow_sub_one_eq_mod tm 16
  have hunfold : unmangle n =
      (checkedSub (n >>> 49) ((n >>> 17) &&& 0xFFFFFFFF)).bind fun ip =>
        (checkedSub (n &&& 0xFFFFFF) (((n >>> 17) &&& 0xFFFFFFFF) &&& 0xFFFF)).bind fun port =>
          some (.v4 (.ofOctets (leBytes 4 ip)) (UInt16.ofNat port)) := rfl
  rw [hunfold, hsalt, hhigh, hlow, hsalt16, checkedSub_add, checkedSub_add_add, Option.bind_some,
    Option.bind_some, leBytes_octets, port_low, Ipv4Addr.ofOctets_octets]

theorem leNat_replicate_zero (k : Nat) : leNat (List.replicate k 0) = 0 := by
  induction k with
  | zero => rfl
  | succ k ih =>
    rw [List.replicate_succ, leNat, ih]
    rfl

/-- Trailing zero bytes say nothing. -/
theorem leNat_padded (bytes : Bytes) (k : Nat) :
    leNat (bytes.rdropWhile (· = 0) ++ List.replicate k 0) = leNat bytes := by
  have hzeros : bytes.rtakeWhile (· = 0) =
      List.replicate (bytes.rtakeWhile (· = 0)).length 0 := by
    apply List.eq_replicate_of_mem
    intro b hb
    simpa using List.mem_rtakeWhile_imp hb
  conv_rhs => rw [← List.rdropWhile_append_rtakeWhile (p := (· = 0)) (l := bytes), hzeros]
  rw [leNat_append, leNat_append, leNat_replicate_zero, leNat_replicate_zero]

/-- Every address comes back as the IPv4 address it stands for, or as it was. -/
theorem decode_encode (now : Nat) (addr : SocketAddr) :
    decode (encode now addr) = some addr.tryIntoV4.plain := by
  unfold encode
  cases addr.tryIntoV4 with
  | v4 ip port =>
    have hlen := (List.rdropWhile_prefix (· = 0)
      (leBytes 16 (mangled ip port (now % 2 ^ 32)))).length_le
    rw [leBytes_length] at hlen
    simp only [decode]
    rw [dif_neg (by omega), leNat_padded, leNat_leBytes, unmangle_mangled ip port (by omega)]
    · rfl
    · have hip := leNat_octets_lt ip
      have hport := port.toNat_lt
      rw [mangled_eq (by omega)]
      omega
  | v6 ip port flowinfo scopeId =>
    have hip := ip.length_octets
    have hport : UInt16.ofNat (leNat (leBytes 2 port.toNat)) = port := by
      rw [leNat_leBytes port.toNat_lt, UInt16.ofNat_toNat]
    simp only [decode, List.length_append, hip, leBytes_length, List.take_left' hip,
      List.drop_left' hip, hport]
    rfl

/-- The salt that a number carries. -/
def salt (number : Nat) : Nat := number / 2 ^ 17 % 2 ^ 32

/-- The salt of a number is no larger than what it was added to. -/
def Salted (number : Nat) : Prop :=
  salt number ≤ number / 2 ^ 49 ∧ salt number % 2 ^ 16 ≤ number % 2 ^ 24

instance (number : Nat) : Decidable (Salted number) := inferInstanceAs (Decidable (_ ∧ _))

theorem isSome_checkedSub (a b : Nat) : (checkedSub a b).isSome ↔ b ≤ a := by
  unfold checkedSub
  split_ifs with h
  · exact iff_of_true rfl h
  · exact iff_of_false Bool.false_ne_true h

/-- A number comes apart without an overflow exactly when it is salted. -/
theorem isSome_unmangle (number : Nat) : (unmangle number).isSome ↔ Salted number := by
  have hsalt : (number >>> 17) &&& 0xFFFFFFFF = salt number := by
    rw [show 0xFFFFFFFF = 2 ^ 32 - 1 by norm_num, Nat.and_two_pow_sub_one_eq_mod,
      Nat.shiftRight_eq_div_pow]
    rfl
  have hlow : number &&& 0xFFFFFF = number % 2 ^ 24 := Nat.and_two_pow_sub_one_eq_mod number 24
  have hsalt16 : salt number &&& 0xFFFF = salt number % 2 ^ 16 :=
    Nat.and_two_pow_sub_one_eq_mod _ 16
  have hunfold : unmangle number =
      (checkedSub (number >>> 49) ((number >>> 17) &&& 0xFFFFFFFF)).bind fun ip =>
        (checkedSub (number &&& 0xFFFFFF) (((number >>> 17) &&& 0xFFFFFFFF) &&& 0xFFFF)).bind
          fun port => some (.v4 (.ofOctets (leBytes 4 ip)) (UInt16.ofNat port)) := rfl
  rw [hunfold, hsalt, hlow, hsalt16, Nat.shiftRight_eq_div_pow]
  unfold Salted
  rw [← isSome_checkedSub, ← isSome_checkedSub]
  cases checkedSub (number / 2 ^ 49) (salt number) with
  | none => exact iff_of_false Bool.false_ne_true fun h => Bool.false_ne_true h.1
  | some ip =>
    cases checkedSub (number % 2 ^ 24) (salt number % 2 ^ 16) with
    | none => exact iff_of_false Bool.false_ne_true fun h => Bool.false_ne_true h.2
    | some port => exact iff_of_true rfl ⟨rfl, rfl⟩

/-- Bytes from the network decode without an overflow exactly when they are too many for an IPv4
address, or the number in them is salted. -/
theorem decode_total_iff (bytes : Bytes) :
    (decode bytes).isSome ↔ 16 < bytes.length ∨ Salted (leNat bytes) := by
  have hpad : leNat (bytes ++ List.replicate (16 - bytes.length) 0) = leNat bytes := by
    rw [leNat_append, leNat_replicate_zero]
    omega
  unfold decode
  split_ifs with hlong hv6
  · exact iff_of_true rfl (.inl hlong)
  · exact iff_of_true rfl (.inl hlong)
  · rw [hpad, isSome_unmangle, or_iff_right hlong]

/-- Three bytes that no address is encoded to. -/
theorem decode_overflows : ¬ ∀ bytes : Bytes, (decode bytes).isSome := by
  intro h
  exact absurd (h [0, 0, 2]) (by decide)

end AddrMangle

end MDesk
