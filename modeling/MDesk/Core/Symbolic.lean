import Mathlib.Data.Set.Basic

/-!
# Ideal cryptography

Messages are terms over the names of the secrets. An adversary takes apart and puts together
what it has seen, with signatures and public-key boxes as its only limits. What it cannot
derive is shown by a set of terms that its rules do not leave.
-/

namespace MDesk.Core.Symbolic

variable {ν : Type*}

/-- The values parties send; a name owns a signing key pair, a box key pair and a symmetric key. -/
inductive Term (ν : Type*)
  | text (s : String)
  | signPk (n : ν)
  | signSk (n : ν)
  | boxPk (n : ν)
  | boxSk (n : ν)
  | key (n : ν)
  | pair (a b : Term ν)
  | signed (body : Term ν) (signer : ν)
  | boxed (body pk : Term ν) (sealer : ν)
  deriving DecidableEq, Repr

namespace Term

/-- The bytes a value takes: a signature has 64 of them, a box 16 beside its body. -/
def size : Term ν → Nat
  | text s => s.utf8ByteSize
  | signPk _ | boxPk _ | boxSk _ | key _ => 32
  | signSk _ => 64
  | pair a b => a.size + b.size + 4
  | signed body _ => body.size + 64
  | boxed body _ _ => body.size + 16

variable [DecidableEq ν]

/-- The body of a signature, if it is one under the key. -/
def verify (sig pk : Term ν) : Option (Term ν) :=
  match sig with
  | signed body n => if pk = signPk n then some body else none
  | _ => none

/-- The body of a box between the two keys; either end opens it. -/
def boxOpen (sealedBody theirPk : Term ν) (ourSk : ν) : Option (Term ν) :=
  match sealedBody with
  | boxed body pk n =>
    if pk = boxPk ourSk ∧ theirPk = boxPk n ∨ n = ourSk ∧ theirPk = pk then some body else none
  | _ => none

theorem verify_eq_some {sig pk body : Term ν} (h : verify sig pk = some body) :
    ∃ n, sig = signed body n ∧ pk = signPk n := by
  unfold verify at h
  split at h
  · split_ifs at h with hpk
    obtain rfl := Option.some.inj h
    exact ⟨_, rfl, hpk⟩
  · cases h

theorem boxOpen_eq_some {sealedBody theirPk body : Term ν} {ourSk : ν}
    (h : boxOpen sealedBody theirPk ourSk = some body) :
    ∃ pk n, sealedBody = boxed body pk n ∧
      (pk = boxPk ourSk ∧ theirPk = boxPk n ∨ n = ourSk ∧ theirPk = pk) := by
  unfold boxOpen at h
  split at h
  · split_ifs at h with hends
    obtain rfl := Option.some.inj h
    exact ⟨_, _, rfl, hends⟩
  · cases h

end Term

open Term

section Derives

variable (bad : ν → Prop)

/-- What an adversary that owns the bad names makes of the terms it knows. -/
inductive Derives (K : Set (Term ν)) : Term ν → Prop
  | known {t : Term ν} : t ∈ K → Derives K t
  | text (s : String) : Derives K (text s)
  | signPk (n : ν) : Derives K (signPk n)
  | boxPk (n : ν) : Derives K (boxPk n)
  | signSk {n : ν} : bad n → Derives K (signSk n)
  | boxSk {n : ν} : bad n → Derives K (boxSk n)
  | key {n : ν} : bad n → Derives K (key n)
  | pair {a b : Term ν} : Derives K a → Derives K b → Derives K (pair a b)
  | fst {a b : Term ν} : Derives K (.pair a b) → Derives K a
  | snd {a b : Term ν} : Derives K (.pair a b) → Derives K b
  | sign {body : Term ν} {n : ν} : Derives K body → Derives K (.signSk n) →
      Derives K (signed body n)
  | unsign {body : Term ν} {n : ν} : Derives K (signed body n) → Derives K body
  | box {body pk : Term ν} {n : ν} : Derives K body → Derives K pk → Derives K (.boxSk n) →
      Derives K (boxed body pk n)
  | unbox {body pk : Term ν} {n : ν} : Derives K (boxed body pk n) → Derives K (.boxSk n) →
      Derives K body
  | unboxTo {body : Term ν} {n m : ν} : Derives K (boxed body (.boxPk m) n) →
      Derives K (.boxSk m) → Derives K body

/-- What the good parties have done with the names. -/
structure Deeds (ν : Type*) where
  /-- Symmetric keys that were sealed to somebody else. -/
  leaked : ν → Prop
  /-- Bodies that were signed. -/
  issued : ν → Term ν → Prop
  /-- Bodies that were boxed. -/
  posted : Term ν → Term ν → ν → Prop

/-- The terms an adversary may hold: secrets stand only in the boxes between good names. -/
def Safe (D : Deeds ν) : Term ν → Prop
  | text _ | signPk _ | boxPk _ => True
  | signSk n | boxSk n => bad n
  | key n => bad n ∨ D.leaked n
  | pair a b => Safe D a ∧ Safe D b
  | signed body n => Safe D body ∧ (bad n ∨ D.issued n body)
  | boxed body pk n =>
    Safe D body ∨ D.posted body pk n ∧ ¬ bad n ∧ ∀ m, pk = boxPk m → ¬ bad m

variable {bad} {D D' : Deeds ν} {K : Set (Term ν)} {t : Term ν}

/-- The adversary's rules do not leave the safe terms. -/
theorem Derives.safe (hK : ∀ t ∈ K, Safe bad D t) (h : Derives bad K t) : Safe bad D t := by
  induction h with
  | known ht => exact hK _ ht
  | text | signPk | boxPk => trivial
  | signSk hn | boxSk hn => exact hn
  | key hn => exact .inl hn
  | pair _ _ iha ihb => exact ⟨iha, ihb⟩
  | fst _ ih => exact ih.1
  | snd _ ih => exact ih.2
  | sign _ _ ihbody ihsk => exact ⟨ihbody, .inl ihsk⟩
  | unsign _ ih => exact ih.1
  | box _ _ _ ihbody _ _ => exact .inl ihbody
  | unbox _ _ ihbox ihsk => exact ihbox.resolve_right fun hgood => hgood.2.1 ihsk
  | unboxTo _ _ ihbox ihsk => exact ihbox.resolve_right fun hgood => hgood.2.2 _ rfl ihsk

/-- More deeds leave the safe terms safe. -/
theorem Safe.mono (hleaked : ∀ n, D.leaked n → D'.leaked n)
    (hissued : ∀ n body, D.issued n body → D'.issued n body)
    (hposted : ∀ body pk n, D.posted body pk n → D'.posted body pk n)
    (h : Safe bad D t) : Safe bad D' t := by
  induction t with
  | text | signPk | boxPk => trivial
  | signSk | boxSk => exact h
  | key n => exact h.imp_right (hleaked n)
  | pair a b iha ihb => exact ⟨iha h.1, ihb h.2⟩
  | signed body n ih => exact ⟨ih h.1, h.2.imp_right (hissued n body)⟩
  | boxed body pk n ih => exact h.imp ih (.imp_left (hposted body pk n))

end Derives

end MDesk.Core.Symbolic
