import Mathlib.Data.BitVec
import MDesk.Core.Run
import MDesk.Core.Table

/-!
# Failed logins

What is stored of the failed logins of an address, how an attempt is checked against it and
how its outcome is written back. The connections take their steps in any order: the stored
failures are read in one step, the attempt is evaluated in another, and what was read then
is written back, one higher, in a third.
-/

namespace MDesk

open MDesk.Core

/-- The factor that an attempt is about, which picks one of the `LOGIN_FAILURES`. -/
inductive Factor where
  | password
  | totp
  deriving DecidableEq, Repr

/-- The failures of a key: the minute of the last one, those of that minute, and all. -/
structure Failure where
  minute : Int := 0
  inMinute : Int := 0
  total : Int := 0
  deriving DecidableEq, Repr

namespace Failure

/-- One more failure. -/
def bump (cur : Failure) (time : Int) : Failure :=
  if cur.minute = time then
    { cur with inMinute := cur.inMinute + 1, total := cur.total + 1 }
  else
    { minute := time, inMinute := 1, total := cur.total + 1 }

@[simp] theorem bump_total (cur : Failure) (time : Int) :
    (cur.bump time).total = cur.total + 1 := by
  unfold bump
  split_ifs <;> rfl

@[simp] theorem bump_minute (cur : Failure) (time : Int) : (cur.bump time).minute = time := by
  unfold bump
  split_ifs with h
  · exact h
  · rfl

end Failure

/-- The alarms that are posted of an address. -/
inductive AlarmAuditType where
  | exceedThirtyAttempts
  | sixAttemptsWithinOneMinute
  | exceedIPv6PrefixAttempts
  deriving DecidableEq, Repr

/-- Why an attempt is not evaluated: the error sent and the alarm posted. -/
structure Refusal where
  error : String
  alarm : AlarmAuditType
  deriving DecidableEq, Repr

/-- The connections of a host, by the address of each, and how addresses are written. -/
structure LoginHost (ι : Type*) where
  ip : ι → String
  fromStr : String → Option (BitVec 128)
  toStr : BitVec 128 → String

section Check

variable {ι : Type*} (H : LoginHost ι)

/-- Keep the first bits of an address. -/
def maskU128 (addr : BitVec 128) (n : Nat) : BitVec 128 :=
  if n = 0 ∨ n > 128 then 0 else addr &&& (BitVec.allOnes 128 <<< (128 - n))

/-- The networks of an IPv6 address. -/
def LoginHost.getIpv6Prefixes (ip : String) : Option (String × String × String) :=
  (H.fromStr ((ip.splitOn "%").headD ip).trimAscii.toString).map fun addr =>
    (H.toStr (maskU128 addr 64) ++ "/64", H.toStr (maskU128 addr 56) ++ "/56",
      H.toStr (maskU128 addr 48) ++ "/48")

/-- The networks that an address is checked by, with the failures allowed in each. -/
def LoginHost.prefixes (ip : String) : List (String × Nat × Int) :=
  match H.getIpv6Prefixes ip with
  | some (p64, p56, p48) => [(p64, 64, 60), (p56, 56, 80), (p48, 48, 100)]
  | none => []

/-- Check the failures of a network. -/
def checkFailureIpv6Prefix (failure : Failure) (prefixNum : Nat) (thresh : Int) :
    Option Refusal :=
  if failure.total > thresh then
    some {
      error := s!"Too many wrong attempts for IPv6 prefix /{prefixNum}"
      alarm := .exceedIPv6PrefixAttempts }
  else none

/-- Check the failures of an address. -/
def checkFailure (failure : Failure) (time : Int) : Option Refusal :=
  if failure.total > 30 then
    some { error := "Too many wrong attempts", alarm := .exceedThirtyAttempts }
  else if time = failure.minute ∧ failure.inMinute > 6 then
    some { error := "Please try 1 minute later", alarm := .sixAttemptsWithinOneMinute }
  else none

/-- Write an outcome back: a success drops what is stored, a failure stores what was read,
one higher. -/
def LoginHost.updateFailure (m : Table String Failure) (ip : String) (failure : Failure)
    (time : Int) (remove : Bool) : Table String Failure :=
  let keys := (H.prefixes ip).map Prod.fst
  if remove then
    if failure.minute ≠ 0 then (keys.foldl Table.remove m).remove ip else m
  else
    (keys.foldl (fun m key => m.insert key (((m.get key).getD {}).bump time)) m).insert ip
      (failure.bump time)

end Check

/-- How far an attempt has come. -/
inductive LoginStage where
  | checking (time : Int) (left : List (String × Nat × Int))
  | checked (failure : Failure) (time : Int)
  | validated (failure : Failure) (time : Int) (ok : Bool)
  deriving DecidableEq, Repr

/-- An attempt of a connection. -/
structure LoginAttempt where
  factor : Factor
  stage : LoginStage
  deriving DecidableEq, Repr

/-- What has happened to the attempts of an address. -/
inductive LoginMark where
  | evaluated (factor : Factor) (ip : String) (minute : Int) (ok : Bool)
  | recorded (factor : Factor) (ip : String)
  | reset (factor : Factor) (ip : String)
  deriving DecidableEq, Repr

/-- The stored failures, the attempts under way, and all that has happened, the last first. -/
structure Logins (ι : Type*) where
  failures : Factor → Table String Failure := fun _ => ∅
  attempts : Table ι LoginAttempt := ∅
  refused : List (ι × Refusal) := []
  history : List LoginMark := []

/-- The steps of the connections. -/
inductive LoginStep (ι : Type*) where
  | arrive (c : ι) (factor : Factor) (now : Int)
  | look (c : ι)
  | validate (c : ι) (verdict : Option Bool)
  | update (c : ι)

namespace Logins

variable {ι : Type*} [DecidableEq ι] (H : LoginHost ι) (s : Logins ι)

/-- The failures stored of a key. -/
def stored (factor : Factor) (key : String) : Failure := ((s.failures factor).get key).getD {}

/-- An attempt goes on. -/
def goOn (c : ι) (factor : Factor) (stage : LoginStage) : Logins ι :=
  { s with attempts := s.attempts.insert c { factor, stage } }

/-- An attempt is over. -/
def drop (c : ι) : Logins ι := { s with attempts := s.attempts.remove c }

/-- An attempt is refused. -/
def refuse (c : ι) (r : Refusal) : Logins ι :=
  { s.drop c with refused := s.refused ++ [(c, r)] }

/-- The next access of the failures for the check of an attempt. -/
def look (c : ι) : Logins ι :=
  match s.attempts.get c with
  | some ⟨factor, .checking time ((key, prefixNum, thresh) :: left)⟩ =>
    match checkFailureIpv6Prefix (s.stored factor key) prefixNum thresh with
    | some r => s.refuse c r
    | none => s.goOn c factor (.checking time left)
  | some ⟨factor, .checking time []⟩ =>
    match checkFailure (s.stored factor (H.ip c)) time with
    | some r => s.refuse c r
    | none => s.goOn c factor (.checked (s.stored factor (H.ip c)) time)
  | _ => s

/-- The password or the code of an attempt is evaluated; without a verdict, nothing is written
back. -/
def validate (c : ι) (verdict : Option Bool) : Logins ι :=
  match s.attempts.get c with
  | some ⟨factor, .checked failure time⟩ =>
    match verdict with
    | none => s.drop c
    | some ok =>
      { s.goOn c factor (.validated failure time ok) with
        history := .evaluated factor (H.ip c) time ok :: s.history }
  | _ => s

/-- What is put down of an outcome that is written back. -/
def outcome (factor : Factor) (ip : String) (failure : Failure) (ok : Bool) : List LoginMark :=
  if ok then
    if failure.minute ≠ 0 then [.reset factor ip] else []
  else [.recorded factor ip]

/-- The outcome of an attempt is written back. -/
def update (c : ι) : Logins ι :=
  match s.attempts.get c with
  | some ⟨factor, .validated failure time ok⟩ =>
    { s.drop c with
      failures := Function.update s.failures factor
        (H.updateFailure (s.failures factor) (H.ip c) failure time ok)
      history := outcome factor (H.ip c) failure ok ++ s.history }
  | _ => s

/-- A step of a connection, which makes one attempt at a time. -/
def step : LoginStep ι → Logins ι
  | .arrive c factor now =>
    match s.attempts.get c with
    | some _ => s
    | none => s.goOn c factor (.checking now (H.prefixes (H.ip c)))
  | .look c => s.look H c
  | .validate c verdict => s.validate H c verdict
  | .update c => s.update H c

end Logins

end MDesk
