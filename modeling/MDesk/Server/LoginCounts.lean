import Mathlib.Algebra.Order.Group.Nat
import MDesk.Server.LoginFailures

/-!
# How many logins are evaluated

As long as no attempt reads the failures of its address between the read and the write of
another one, every failure is counted, and the bounds on the attempts hold.
-/

namespace MDesk

open MDesk.Core

namespace LoginMark

variable {factor : Factor} {ip : String} {h : List LoginMark} {m : LoginMark}

/-- A mark is about an address. -/
def About (factor : Factor) (ip : String) : LoginMark → Prop
  | .evaluated f a _ _ => f = factor ∧ a = ip
  | .recorded f a => f = factor ∧ a = ip
  | .reset f a => f = factor ∧ a = ip

/-- A successful evaluation for an address. -/
def succeeds (factor : Factor) (ip : String) : LoginMark → Bool
  | .evaluated f a _ true => f = factor ∧ a = ip
  | _ => false

/-- The minute of a failed evaluation for an address. -/
def failedMinute (factor : Factor) (ip : String) : LoginMark → Option Int
  | .evaluated f a time false => if f = factor ∧ a = ip then some time else none
  | _ => none

/-- The failures that were written back for an address since they were last reset. -/
def recordedSince (factor : Factor) (ip : String) (h : List LoginMark) : Nat :=
  (h.takeWhile (· ≠ .reset factor ip)).count (.recorded factor ip)

/-- The minutes of the attempts that were evaluated for an address without a success since. -/
def failedSince (factor : Factor) (ip : String) (h : List LoginMark) : List Int :=
  (h.takeWhile fun m => !m.succeeds factor ip).filterMap (failedMinute factor ip)

theorem recordedSince_reset : recordedSince factor ip (.reset factor ip :: h) = 0 := by
  simp [recordedSince]

theorem recordedSince_recorded :
    recordedSince factor ip (.recorded factor ip :: h) = recordedSince factor ip h + 1 := by
  simp [recordedSince]

theorem recordedSince_evaluated (f : Factor) (a : String) (time : Int) (ok : Bool) :
    recordedSince factor ip (.evaluated f a time ok :: h) = recordedSince factor ip h := by
  simp [recordedSince]

theorem failedSince_success (time : Int) :
    failedSince factor ip (.evaluated factor ip time true :: h) = [] := by
  have hsucceeds : (evaluated factor ip time true).succeeds factor ip = true := by
    simp [succeeds]
  rw [failedSince, List.takeWhile_cons_of_neg (by simp [hsucceeds]), List.filterMap_nil]

theorem failedSince_cons (hm : m.succeeds factor ip = false) :
    failedSince factor ip (m :: h) =
      (m.failedMinute factor ip).toList ++ failedSince factor ip h := by
  rw [failedSince, List.takeWhile_cons_of_pos (by simp [hm]), List.filterMap_cons]
  cases m.failedMinute factor ip <;> rfl

theorem failedSince_failure (time : Int) :
    failedSince factor ip (.evaluated factor ip time false :: h) =
      time :: failedSince factor ip h := by
  rw [failedSince_cons rfl, failedMinute, if_pos ⟨rfl, rfl⟩, Option.toList_some,
    List.singleton_append]

theorem failedSince_recorded (f : Factor) (a : String) :
    failedSince factor ip (.recorded f a :: h) = failedSince factor ip h :=
  failedSince_cons rfl

theorem failedSince_reset (f : Factor) (a : String) :
    failedSince factor ip (.reset f a :: h) = failedSince factor ip h :=
  failedSince_cons rfl

theorem recordedSince_of_not_about (hm : ¬m.About factor ip) :
    recordedSince factor ip (m :: h) = recordedSince factor ip h := by
  cases m with
  | evaluated f a time ok => exact recordedSince_evaluated f a time ok
  | recorded f a =>
    have hne : ¬(f = factor ∧ a = ip) := hm
    simp [recordedSince, hne]
  | reset f a =>
    have hne : ¬(f = factor ∧ a = ip) := hm
    simp [recordedSince, hne]

theorem failedSince_of_not_about (hm : ¬m.About factor ip) :
    failedSince factor ip (m :: h) = failedSince factor ip h := by
  cases m with
  | evaluated f a time ok =>
    have hne : ¬(f = factor ∧ a = ip) := hm
    have hsucceeds : (evaluated f a time ok).succeeds factor ip = false := by
      cases ok <;> simp [succeeds, hne]
    have hfailed : (evaluated f a time ok).failedMinute factor ip = none := by
      cases ok <;> simp [failedMinute, hne]
    rw [failedSince_cons hsucceeds, hfailed, Option.toList_none, List.nil_append]
  | recorded f a => exact failedSince_recorded f a
  | reset f a => exact failedSince_reset f a

end LoginMark

/-! ## The failures of one address -/

/-- An attempt has read the failures of its address, and has not written back. -/
def LoginStage.reads : LoginStage → Bool
  | .checking _ _ => false
  | .checked _ _ => true
  | .validated _ _ _ => true

/-- What is stored of one address and what has happened to it, with the attempts between their
read and their write. -/
structure AddressView (ι : Type*) where
  stored : Failure
  recorded : Nat
  failed : List Int
  turn : ι → Option LoginStage

/-- The attempts of a minute that the stored failures still account for: a minute that is
over has no more than the ones that were let through. -/
def Failure.allowance (f : Failure) (minute : Int) : Int :=
  if minute < f.minute then 7 else if minute = f.minute then f.inMinute else 0

/-- All attempts are accounted for. -/
structure Settled (stored : Failure) (failed : List Int) : Prop where
  inMinute : 0 ≤ stored.inMinute ∧ stored.inMinute ≤ 7
  total : stored.total ≤ 31
  length : failed.length ≤ stored.total
  count : ∀ minute, failed.count minute ≤ stored.allowance minute

/-- A read that lets an attempt through is still what is stored. -/
structure Fresh (stored failure : Failure) (time : Int) : Prop where
  eq : failure = stored
  passes : checkFailure stored time = none
  minute : stored.total ≠ 0 → stored.minute ≤ time

/-- What holds of the attempt between its read and its write. -/
def StageInv (stored : Failure) (failed : List Int) : LoginStage → Prop
  | .checking _ _ => False
  | .checked failure time => Settled stored failed ∧ Fresh stored failure time
  | .validated failure time true => failed = [] ∧ Settled stored [] ∧ Fresh stored failure time
  | .validated failure time false =>
    ∃ before, failed = time :: before ∧ Settled stored before ∧ Fresh stored failure time

namespace AddressView

variable {ι : Type*}

/-- Attempts take turns. -/
inductive Turns (v : AddressView ι) : Prop
  | idle (hnone : ∀ c, v.turn c = none) (h : Settled v.stored v.failed)
  | held (c : ι) (g : LoginStage) (hc : v.turn c = some g) (hne : ∀ c' ≠ c, v.turn c' = none)
      (h : StageInv v.stored v.failed g)

/-- The failures of an address are all counted, and attempts take turns. -/
structure Inv (v : AddressView ι) : Prop where
  counted : v.stored.total = v.recorded
  turns : v.Turns

end AddressView

/-- The bounds that the check of an attempt gives. -/
theorem checkFailure_eq_none {failure : Failure} {time : Int}
    (h : checkFailure failure time = none) :
    failure.total ≤ 30 ∧ (time = failure.minute → failure.inMinute ≤ 6) := by
  unfold checkFailure at h
  split_ifs at h with htotal hminute
  refine ⟨not_lt.mp htotal, fun htime => ?_⟩
  by_contra hlt
  exact hminute ⟨htime, not_le.mp hlt⟩

section Settled

variable {stored failure : Failure} {failed : List Int} {time : Int}

theorem settled_nil : Settled {} [] :=
  ⟨by decide, by decide, by decide, fun minute => by simp [Failure.allowance]; omega⟩

theorem Settled.clear (h : Settled stored failed) : Settled stored [] := by
  have hlength := h.length
  refine ⟨h.inMinute, h.total, by rw [List.length_nil]; omega, fun minute => ?_⟩
  have hcount := h.count minute
  rw [List.count_nil]
  omega

/-- An attempt that failed is accounted for once it is written back. -/
theorem Settled.bump (h : Settled stored failed) (hf : Fresh stored failure time) :
    Settled (failure.bump time) (time :: failed) := by
  obtain ⟨htotal, hminute⟩ := checkFailure_eq_none hf.passes
  obtain ⟨hin, hin'⟩ := h.inMinute
  have hlength := h.length
  rw [hf.eq]
  refine ⟨?_, ?_, ?_, fun minute => ?_⟩
  · unfold Failure.bump
    split_ifs with htime
    · have hle := hminute htime.symm
      dsimp only
      omega
    · dsimp only
      omega
  · rw [Failure.bump_total]
    omega
  · rw [Failure.bump_total, List.length_cons]
    omega
  · have hcount := h.count minute
    rw [List.count_cons]
    unfold Failure.allowance at hcount ⊢
    by_cases hzero : stored.total = 0
    · -- nothing is stored, so nothing has failed
      obtain rfl : failed = [] := List.eq_nil_of_length_eq_zero (by omega)
      rw [Failure.bump_minute, List.count_nil]
      unfold Failure.bump
      grind
    · have hle := hf.minute hzero
      rw [Failure.bump_minute]
      unfold Failure.bump
      grind

end Settled

namespace AddressView

variable {ι : Type*} {v : AddressView ι}

theorem Inv.of_eq {w : AddressView ι} (h : w.Inv) (hstored : v.stored = w.stored)
    (hrecorded : v.recorded = w.recorded) (hfailed : v.failed = w.failed)
    (hturn : v.turn = w.turn) : v.Inv := by
  have heq : v = w := by
    cases v
    cases w
    rw [AddressView.mk.injEq]
    exact ⟨hstored, hrecorded, hfailed, hturn⟩
  exact heq ▸ h

/-- The bounds on the attempts of an address. -/
theorem Inv.bounds (h : v.Inv) : v.failed.length ≤ 31 ∧ ∀ minute, v.failed.count minute ≤ 7 := by
  have hsettled : ∀ {stored failed}, Settled stored failed →
      failed.length ≤ 31 ∧ ∀ minute, failed.count minute ≤ 7 := by
    intro stored failed hs
    have hlength := hs.length
    have htotal := hs.total
    have hin := hs.inMinute
    refine ⟨by omega, fun minute => ?_⟩
    have hcount := hs.count minute
    unfold Failure.allowance at hcount
    split_ifs at hcount <;> omega
  cases h.turns with
  | idle _ hs => exact hsettled hs
  | held c g _ _ hg =>
    match g with
    | .checking _ _ => exact hg.elim
    | .checked _ _ => exact hsettled hg.1
    | .validated _ _ true =>
      rw [hg.1]
      exact ⟨Nat.zero_le _, fun minute => Nat.zero_le _⟩
    | .validated failure time false =>
      obtain ⟨before, hbefore, hs, hfresh⟩ := hg
      have hbump := hsettled (hs.bump hfresh)
      rw [hbefore]
      exact hbump

variable [DecidableEq ι] {c : ι} {failure : Failure} {time : Int}

/-- The attempt between its read and its write is the only one. -/
theorem Inv.of_turn (h : v.Inv) {g : LoginStage} (hc : v.turn c = some g) :
    (∀ c' ≠ c, v.turn c' = none) ∧ StageInv v.stored v.failed g := by
  cases h.turns with
  | idle hnone _ =>
    rw [hnone c] at hc
    cases hc
  | held c₁ g₁ hc₁ hne hg =>
    by_cases hcc : c = c₁
    · obtain rfl := hcc
      obtain rfl := Option.some.inj (hc₁.symm.trans hc)
      exact ⟨hne, hg⟩
    · rw [hne c hcc] at hc
      cases hc

/-- Another attempt has its turn, or the same one at a later stage. -/
theorem turns_held {w : AddressView ι} {g : LoginStage}
    (hturn : w.turn = Function.update v.turn c (some g)) (hne : ∀ c' ≠ c, v.turn c' = none)
    (hg : StageInv w.stored w.failed g) : w.Turns := by
  refine .held c g ?_ (fun c' hc' => ?_) hg
  · rw [hturn, Function.update_self]
  · rw [hturn, Function.update_of_ne hc']
    exact hne c' hc'

/-- The turn is over. -/
theorem turns_idle {w : AddressView ι} (hturn : w.turn = Function.update v.turn c none)
    (hne : ∀ c' ≠ c, v.turn c' = none) (h : Settled w.stored w.failed) : w.Turns := by
  refine .idle (fun c' => ?_) h
  rw [hturn]
  by_cases hc : c' = c
  · rw [hc, Function.update_self]
  · rw [Function.update_of_ne hc]
    exact hne c' hc

/-- An attempt reads the failures while no other one is between its read and its write. -/
theorem Inv.read (h : v.Inv) (hnone : ∀ c', v.turn c' = none) (hf : Fresh v.stored failure time) :
    ({ v with turn := Function.update v.turn c (some (.checked failure time)) } :
      AddressView ι).Inv := by
  refine ⟨h.counted, turns_held rfl (fun c' _ => hnone c') ?_⟩
  cases h.turns with
  | idle _ hs => exact ⟨hs, hf⟩
  | held c₁ g hc₁ _ _ =>
    rw [hnone c₁] at hc₁
    cases hc₁

/-- An attempt without a verdict is over. -/
theorem Inv.dropped (h : v.Inv) (hc : v.turn c = some (.checked failure time)) :
    ({ v with turn := Function.update v.turn c none } : AddressView ι).Inv := by
  obtain ⟨hne, hsettled, -⟩ := h.of_turn hc
  exact ⟨h.counted, turns_idle rfl hne hsettled⟩

/-- An attempt is evaluated. -/
theorem Inv.evaluated (h : v.Inv) (hc : v.turn c = some (.checked failure time)) (ok : Bool) :
    ({ v with
      failed := if ok then [] else time :: v.failed
      turn := Function.update v.turn c (some (.validated failure time ok)) } :
      AddressView ι).Inv := by
  obtain ⟨hne, hsettled, hfresh⟩ := h.of_turn hc
  refine ⟨h.counted, turns_held rfl hne ?_⟩
  cases ok with
  | true => exact ⟨rfl, hsettled.clear, hfresh⟩
  | false => exact ⟨v.failed, rfl, hsettled, hfresh⟩

/-- A failure is written back. -/
theorem Inv.failed (h : v.Inv) (hc : v.turn c = some (.validated failure time false)) :
    ({ v with
      stored := failure.bump time
      recorded := v.recorded + 1
      turn := Function.update v.turn c none } : AddressView ι).Inv := by
  obtain ⟨hne, before, hbefore, hsettled, hfresh⟩ := h.of_turn hc
  refine ⟨?_, turns_idle rfl hne ?_⟩
  · have hcounted := h.counted
    dsimp only
    rw [Failure.bump_total, hfresh.eq]
    omega
  · have hbump := hsettled.bump hfresh
    rw [← hbefore] at hbump
    exact hbump

/-- A success is written back. -/
theorem Inv.succeeded (h : v.Inv) (hc : v.turn c = some (.validated failure time true)) :
    ({ v with turn := Function.update v.turn c none } : AddressView ι).Inv ∧
      ({ v with stored := {}, recorded := 0, turn := Function.update v.turn c none } :
        AddressView ι).Inv := by
  obtain ⟨hne, hfailed, hsettled, -⟩ := h.of_turn hc
  refine ⟨⟨h.counted, turns_idle rfl hne ?_⟩, ⟨rfl, turns_idle rfl hne ?_⟩⟩
  · rw [hfailed]
    exact hsettled
  · rw [hfailed]
    exact settled_nil

end AddressView

/-! ## The steps of the connections -/

section Update

variable {ι : Type*} {H : LoginHost ι} {m : Table String Failure} {ip ip' : String}
  {keys : List String}

theorem get_foldl_remove (h : ip ∉ keys) : (keys.foldl Table.remove m).get ip = m.get ip := by
  induction keys generalizing m with
  | nil => rfl
  | cons key keys ih =>
    obtain ⟨hne, hkeys⟩ := not_or.mp (List.mem_cons.not.mp h)
    rw [List.foldl_cons, ih hkeys, Table.get_remove, if_neg hne]

theorem get_foldl_bump {time : Int} (h : ip ∉ keys) :
    (keys.foldl (fun m key => m.insert key (((m.get key).getD {}).bump time)) m).get ip =
      m.get ip := by
  induction keys generalizing m with
  | nil => rfl
  | cons key keys ih =>
    obtain ⟨hne, hkeys⟩ := not_or.mp (List.mem_cons.not.mp h)
    rw [List.foldl_cons, ih hkeys, Table.get_insert, if_neg hne]

/-- No address is a network. -/
theorem not_mem_prefixes (h : '/' ∉ ip'.toList) : ip' ∉ (H.prefixes ip).map Prod.fst := by
  unfold LoginHost.prefixes LoginHost.getIpv6Prefixes
  intro hmem
  cases hparse : H.fromStr ((ip.splitOn "%").headD ip).trimAscii.toString with
  | none =>
    rw [hparse] at hmem
    cases hmem
  | some addr =>
    rw [hparse] at hmem
    simp only [Option.map_some, List.map_cons, List.map_nil, List.mem_cons, List.not_mem_nil,
      or_false] at hmem
    rcases hmem with rfl | rfl | rfl <;> exact h (by simp)

/-- What an outcome leaves of an address. -/
theorem get_updateFailure (h : '/' ∉ ip'.toList) (failure : Failure) (time : Int)
    (remove : Bool) : (H.updateFailure m ip failure time remove).get ip' =
      if ip' = ip then
        if remove then if failure.minute ≠ 0 then none else m.get ip
        else some (failure.bump time)
      else m.get ip' := by
  have hkeys : ip' ∉ (H.prefixes ip).map Prod.fst := not_mem_prefixes h
  unfold LoginHost.updateFailure
  by_cases hip : ip' = ip
  · obtain rfl := hip
    cases remove <;> simp [apply_ite (Table.get · ip'), Table.get_remove]
  · cases remove <;>
      simp [apply_ite (Table.get · ip'), Table.get_remove, Table.get_insert, hip,
        get_foldl_remove hkeys, get_foldl_bump hkeys]

end Update

namespace Logins

variable {ι : Type*} [DecidableEq ι] (H : LoginHost ι) (s : Logins ι)

/-- An attempt on an address that is between its read and its write. -/
def turn (factor : Factor) (ip : String) (c : ι) : Option LoginStage :=
  match s.attempts.get c with
  | some a =>
    if a.factor = factor ∧ H.ip c = ip ∧ a.stage.reads = true then some a.stage else none
  | none => none

/-- What the state says of one address. -/
def view (factor : Factor) (ip : String) : AddressView ι where
  stored := s.stored factor ip
  recorded := LoginMark.recordedSince factor ip s.history
  failed := LoginMark.failedSince factor ip s.history
  turn := s.turn H factor ip

/-- If the next access lets the attempt through, then no other attempt on the address is between
its read and its write, and the stored failures are not of a later minute. -/
def ReadsAlone (c : ι) : Prop :=
  match s.attempts.get c with
  | some ⟨factor, .checking time []⟩ =>
    checkFailure (s.stored factor (H.ip c)) time = none →
      (∀ c', s.turn H factor (H.ip c) c' = none) ∧
        ((s.stored factor (H.ip c)).total ≠ 0 → (s.stored factor (H.ip c)).minute ≤ time)
  | _ => True

instance [Fintype ι] (c : ι) : Decidable (s.ReadsAlone H c) :=
  match h : s.attempts.get c with
  | some ⟨factor, .checking time []⟩ =>
    decidable_of_iff (checkFailure (s.stored factor (H.ip c)) time = none →
      (∀ c', s.turn H factor (H.ip c) c' = none) ∧
        ((s.stored factor (H.ip c)).total ≠ 0 → (s.stored factor (H.ip c)).minute ≤ time))
      (by rw [ReadsAlone, h])
  | some ⟨_, .checking _ (_ :: _)⟩ => .isTrue (by rw [ReadsAlone, h]; trivial)
  | some ⟨_, .checked _ _⟩ => .isTrue (by rw [ReadsAlone, h]; trivial)
  | some ⟨_, .validated _ _ _⟩ => .isTrue (by rw [ReadsAlone, h]; trivial)
  | none => .isTrue (by rw [ReadsAlone, h]; trivial)

/-- Attempts on an address do not overlap between their read and their write. -/
def Calm (s : Logins ι) : LoginStep ι → Prop
  | .look c => s.ReadsAlone H c
  | _ => True

instance [Fintype ι] (e : LoginStep ι) : Decidable (Calm H s e) :=
  match e with
  | .look c => inferInstanceAs (Decidable (s.ReadsAlone H c))
  | .arrive _ _ _ => .isTrue trivial
  | .validate _ _ => .isTrue trivial
  | .update _ => .isTrue trivial

/-- The failures of an address are not under-counted: what is stored is what was written back
since the last reset, and no more attempts are evaluated than the limits say. -/
def NotUnderCounted (factor : Factor) (ip : String) : Prop :=
  (s.stored factor ip).total = LoginMark.recordedSince factor ip s.history ∧
    (LoginMark.failedSince factor ip s.history).length ≤ 31 ∧
      ∀ minute, (LoginMark.failedSince factor ip s.history).count minute ≤ 7

variable {H s} {factor factor' : Factor} {ip : String} {c : ι} {stage : LoginStage}

theorem turn_goOn : (s.goOn c factor stage).turn H factor' ip =
    Function.update (s.turn H factor' ip) c
      (if factor = factor' ∧ H.ip c = ip ∧ stage.reads = true then some stage else none) := by
  funext c'
  unfold turn goOn
  by_cases hc : c' = c
  · obtain rfl := hc
    rw [Table.get_insert_self, Function.update_self]
  · rw [Table.get_insert_ne hc, Function.update_of_ne hc]

theorem turn_drop :
    (s.drop c).turn H factor' ip = Function.update (s.turn H factor' ip) c none := by
  funext c'
  unfold turn drop
  by_cases hc : c' = c
  · obtain rfl := hc
    rw [Table.get_remove, if_pos rfl, Function.update_self]
  · rw [Table.get_remove, if_neg hc, Function.update_of_ne hc]

/-- The turn of an attempt on the address. -/
theorem turn_of_get (H : LoginHost ι) (factor' : Factor) (ip : String)
    (h : s.attempts.get c = some ⟨factor, stage⟩) :
    s.turn H factor' ip c =
      if factor = factor' ∧ H.ip c = ip ∧ stage.reads = true then some stage else none := by
  rw [turn, h]

theorem turn_of_none (h : s.attempts.get c = none) : s.turn H factor' ip c = none := by
  rw [turn, h]

/-- Nothing changes for an address that the step is not about. -/
theorem inv_of_turn {s' : Logins ι} {t : Option LoginStage} (h : (s.view H factor' ip).Inv)
    (hturn : s'.turn H factor' ip = Function.update (s.turn H factor' ip) c t)
    (ht : s.turn H factor' ip c = t) (hstored : s'.stored factor' ip = s.stored factor' ip)
    (hrecorded : LoginMark.recordedSince factor' ip s'.history =
      LoginMark.recordedSince factor' ip s.history)
    (hfailed : LoginMark.failedSince factor' ip s'.history =
      LoginMark.failedSince factor' ip s.history) : (s'.view H factor' ip).Inv := by
  refine h.of_eq hstored hrecorded hfailed ?_
  dsimp only [view]
  rw [hturn, ← ht, Function.update_eq_self]

theorem inv_look (hcalm : s.ReadsAlone H c) (h : (s.view H factor' ip).Inv) :
    ((s.look H c).view H factor' ip).Inv := by
  unfold ReadsAlone at hcalm
  unfold look
  split
  · -- a network is checked
    rename_i factor time key prefixNum thresh left hget
    have hc : s.turn H factor' ip c = none := by
      rw [turn_of_get H factor' ip hget]
      simp [LoginStage.reads]
    split
    · exact inv_of_turn h turn_drop hc rfl rfl rfl
    · exact inv_of_turn h turn_goOn (hc.trans (by simp [LoginStage.reads])) rfl rfl rfl
  · -- the address itself
    rename_i factor time hget
    rw [hget] at hcalm
    have hc : s.turn H factor' ip c = none := by
      rw [turn_of_get H factor' ip hget]
      simp [LoginStage.reads]
    split
    · exact inv_of_turn h turn_drop hc rfl rfl rfl
    · rename_i hpasses
      obtain ⟨hnone, hminute⟩ := hcalm hpasses
      by_cases hkey : factor = factor' ∧ H.ip c = ip
      · obtain ⟨rfl, rfl⟩ := hkey
        refine (h.read (c := c) hnone ⟨rfl, hpasses, hminute⟩).of_eq rfl rfl rfl ?_
        exact turn_goOn.trans (by rw [if_pos ⟨rfl, rfl, rfl⟩]; rfl)
      · have ht : ¬(factor = factor' ∧ H.ip c = ip ∧
            LoginStage.reads (.checked (s.stored factor (H.ip c)) time) = true) :=
          fun hall => hkey ⟨hall.1, hall.2.1⟩
        exact inv_of_turn h turn_goOn (hc.trans (if_neg ht).symm) rfl rfl rfl
  · exact h

theorem inv_validate (verdict : Option Bool) (h : (s.view H factor' ip).Inv) :
    ((s.validate H c verdict).view H factor' ip).Inv := by
  unfold validate
  split
  · rename_i factor failure time hget
    have hc := turn_of_get H factor' ip hget
    by_cases hkey : factor = factor' ∧ H.ip c = ip
    · obtain ⟨rfl, rfl⟩ := hkey
      rw [if_pos ⟨rfl, rfl, rfl⟩] at hc
      cases verdict with
      | none => exact (h.dropped hc).of_eq rfl rfl rfl turn_drop
      | some ok =>
        refine (h.evaluated hc ok).of_eq rfl
          (LoginMark.recordedSince_evaluated factor (H.ip c) time ok) ?_ ?_
        · cases ok
          · exact LoginMark.failedSince_failure time
          · exact LoginMark.failedSince_success time
        · exact turn_goOn.trans (by rw [if_pos ⟨rfl, rfl, rfl⟩]; rfl)
    · have hnot : ∀ stage : LoginStage,
          ¬(factor = factor' ∧ H.ip c = ip ∧ stage.reads = true) :=
        fun stage hall => hkey ⟨hall.1, hall.2.1⟩
      rw [if_neg (hnot _)] at hc
      cases verdict with
      | none => exact inv_of_turn h turn_drop hc rfl rfl rfl
      | some ok =>
        have hmark : ¬(LoginMark.evaluated factor (H.ip c) time ok).About factor' ip := hkey
        exact inv_of_turn h turn_goOn (hc.trans (if_neg (hnot _)).symm) rfl
          (LoginMark.recordedSince_of_not_about hmark) (LoginMark.failedSince_of_not_about hmark)
  · exact h

/-- What is stored of an address behind an outcome. -/
theorem stored_update (H : LoginHost ι) (factor' : Factor) {failure : Failure} {time : Int}
    {ok : Bool} (hip : '/' ∉ ip.toList)
    (hget : s.attempts.get c = some ⟨factor, .validated failure time ok⟩) :
    (s.update H c).stored factor' ip =
      if factor = factor' ∧ H.ip c = ip then
        if ok then if failure.minute ≠ 0 then {} else s.stored factor' ip
        else failure.bump time
      else s.stored factor' ip := by
  unfold update
  rw [hget]
  dsimp only
  unfold stored
  by_cases hfactor : factor' = factor
  · obtain rfl := hfactor
    dsimp only
    rw [Function.update_self, get_updateFailure hip]
    by_cases hipc : ip = H.ip c
    · obtain rfl := hipc
      cases ok <;> simp [apply_ite (Option.getD · ({} : Failure))]
    · rw [if_neg hipc, if_neg fun hkey => hipc hkey.2.symm]
  · dsimp only
    rw [Function.update_of_ne hfactor, if_neg fun hkey => hfactor hkey.1.symm]

theorem inv_update (hip : '/' ∉ ip.toList) (h : (s.view H factor' ip).Inv) :
    ((s.update H c).view H factor' ip).Inv := by
  unfold update
  split
  · rename_i factor failure time ok hget
    have hstored := stored_update H factor' hip hget
    unfold update at hstored
    rw [hget] at hstored
    have hc := turn_of_get H factor' ip hget
    by_cases hkey : factor = factor' ∧ H.ip c = ip
    · rw [if_pos hkey] at hstored
      obtain ⟨rfl, rfl⟩ := hkey
      rw [if_pos ⟨rfl, rfl, rfl⟩] at hc
      cases ok with
      | false =>
        refine (h.failed hc).of_eq hstored ?_ ?_ turn_drop
        · exact LoginMark.recordedSince_recorded
        · exact LoginMark.failedSince_recorded factor (H.ip c)
      | true =>
        obtain ⟨hkept, hreset⟩ := h.succeeded hc
        by_cases hminute : failure.minute ≠ 0
        · have hmarks : outcome factor (H.ip c) failure true = [.reset factor (H.ip c)] := by
            rw [outcome, if_pos rfl, if_pos hminute]
          rw [if_pos rfl, if_pos hminute] at hstored
          refine hreset.of_eq hstored ?_ ?_ turn_drop
          · dsimp only [view]
            rw [hmarks]
            exact LoginMark.recordedSince_reset
          · dsimp only [view]
            rw [hmarks]
            exact LoginMark.failedSince_reset factor (H.ip c)
        · have hmarks : outcome factor (H.ip c) failure true = [] := by
            rw [outcome, if_pos rfl, if_neg hminute]
          rw [if_pos rfl, if_neg hminute] at hstored
          refine hkept.of_eq hstored ?_ ?_ turn_drop
          · dsimp only [view]
            rw [hmarks]
            rfl
          · dsimp only [view]
            rw [hmarks]
            rfl
    · rw [if_neg hkey] at hstored
      rw [if_neg fun hall => hkey ⟨hall.1, hall.2.1⟩] at hc
      have hmarks : outcome factor (H.ip c) failure ok = [] ∨
          ∃ m : LoginMark, ¬m.About factor' ip ∧ outcome factor (H.ip c) failure ok = [m] := by
        unfold outcome
        split_ifs
        · exact .inr ⟨.reset factor (H.ip c), hkey, rfl⟩
        · exact .inl rfl
        · exact .inr ⟨.recorded factor (H.ip c), hkey, rfl⟩
      rcases hmarks with hnil | ⟨m, hm, hone⟩
      · refine inv_of_turn h turn_drop hc hstored ?_ ?_ <;> rw [hnil] <;> rfl
      · refine inv_of_turn h turn_drop hc hstored ?_ ?_ <;> rw [hone]
        · exact LoginMark.recordedSince_of_not_about hm
        · exact LoginMark.failedSince_of_not_about hm
  · exact h

/-- Every calm step keeps the failures of an address counted. -/
theorem inv_step (hip : '/' ∉ ip.toList) {e : LoginStep ι} (he : Calm H s e)
    (h : (s.view H factor' ip).Inv) : ((s.step H e).view H factor' ip).Inv := by
  cases e with
  | arrive c factor now =>
    unfold step
    dsimp only
    split
    · exact h
    · rename_i hget
      refine inv_of_turn h turn_goOn ?_ rfl rfl rfl
      rw [turn_of_none hget]
      simp [LoginStage.reads]
  | look c => exact inv_look he h
  | validate c verdict => exact inv_validate verdict h
  | update c => exact inv_update hip h

theorem inv_start : (({} : Logins ι).view H factor' ip).Inv :=
  ⟨rfl, .idle (fun _ => rfl) settled_nil⟩

theorem notUnderCounted (h : (s.view H factor' ip).Inv) : s.NotUnderCounted factor' ip :=
  ⟨h.counted, h.bounds⟩

/-- Failed logins are not under-counted in any run without overlapping attempts: of the address
of any connection, what is stored is what was recorded since the last reset, at most 31
attempts are evaluated without a success, and at most 7 of one minute. -/
theorem failures_counted (hip : ∀ c, '/' ∉ (H.ip c).toList) {es : List (LoginStep ι)}
    (hes : Allowed (step H) (Calm H) {} es) (factor : Factor) (c : ι) :
    (run (step H) {} es).NotUnderCounted factor (H.ip c) :=
  have hinv : ((run (step H) {} es).view H factor (H.ip c)).Inv :=
    run_keeps (Q := fun s => (s.view H factor (H.ip c)).Inv)
      (fun _ _ h he => inv_step (hip c) he h) inv_start hes
  notUnderCounted hinv

/-- Two connections from one address. -/
def twoConnections : LoginHost Bool where
  ip _ := "203.0.113.7"
  fromStr _ := none
  toStr _ := ""

/-- One connection fails, then the other one. -/
theorem failures_counted_sample :
    (run (step twoConnections) {} [.arrive true .password 100, .look true,
      .validate true (some false), .update true, .arrive false .password 100, .look false,
      .validate false (some false), .update false]).NotUnderCounted .password "203.0.113.7" :=
  have hip : '/' ∉ "203.0.113.7".toList := by decide
  failures_counted (H := twoConnections) (fun _ => hip) (by decide) .password true

/-- Two connections that fail at the same time are counted once. -/
theorem overlap_under_counted : ¬∀ es : List (LoginStep Bool),
    (run (step twoConnections) {} es).NotUnderCounted .password "203.0.113.7" := by
  intro h
  have hcounted := (h [.arrive true .password 100, .arrive false .password 100, .look true,
    .look false, .validate true (some false), .update true, .validate false (some false),
    .update false]).1
  revert hcounted
  decide

end Logins

end MDesk
