import MDesk.Server.Session

/-!
# The queue in front of the connection manager

What is on its way to a write job, followed from message to message. A job that is closed
behind the queue and untouched by it writes nothing more.
-/

namespace MDesk

open MDesk.Core

namespace WriteView

variable {id : Int} {n : Nat} {v w : WriteView} {m : ToCm} {q : List ToCm}

/-- A view that sees the job open only where another one does. -/
structure Below (v w : WriteView) : Prop where
  isOpen : v.isOpen = true → w.isOpen = true
  opened : v.opened = w.opened

theorem Below.step (h : v.Below w) (m : ToCm) : (v.step id n m).Below (w.step id n m) where
  isOpen := by
    simp only [WriteView.step, Bool.or_eq_true, Bool.and_eq_true]
    rw [h.opened]
    exact Or.imp_left (And.imp_left h.isOpen)
  opened := by
    simp only [WriteView.step]
    rw [h.opened]

theorem Below.run (h : v.Below w) (q : List ToCm) :
    (run (WriteView.step id n) v q).Below (Core.run (WriteView.step id n) w q) := by
  induction q generalizing v w with
  | nil => exact h
  | cons m q ih => exact ih (h.step m)

theorem Below.spares (h : v.Below w) (hw : w.Spares id m) : v.Spares id m :=
  fun hv => hw ⟨h.isOpen hv.1, hv.2⟩

theorem Below.allowed (h : v.Below w)
    (hw : Allowed (WriteView.step id n) (WriteView.Spares id) w q) :
    Allowed (WriteView.step id n) (WriteView.Spares id) v q := by
  induction q generalizing v w with
  | nil => exact trivial
  | cons m q ih => exact ⟨h.spares hw.1, ih (h.step m) hw.2⟩

/-- The jobs that have been opened behind a queue. -/
theorem run_opened (v : WriteView) (q : List ToCm) :
    (run (WriteView.step id n) v q).opened = v.opened + (q.filterMap ToCm.opensId).length := by
  induction q generalizing v with
  | nil => rfl
  | cons m q ih =>
    rw [run_cons, ih]
    cases hm : m.opensId with
    | none => rw [List.filterMap_cons_none hm, WriteView.step, hm]; rfl
    | some id' =>
      rw [List.filterMap_cons_some hm, WriteView.step, hm, List.length_cons]
      simp only [Option.toList_some, List.length_singleton]
      omega

/-- A job that has been closed stays closed. -/
theorem step_closed (id : Int) (hv : v.isOpen = false) (hn : n < v.opened) (m : ToCm) :
    (v.step id n m).isOpen = false ∧ n < (v.step id n m).opened := by
  have hne : v.opened ≠ n := by omega
  simp only [WriteView.step, hv, Bool.false_and, Bool.false_or, decide_eq_false hne,
    Bool.and_false, true_and]
  omega

/-- A job that has been closed is untouched by any queue. -/
theorem allowed_closed (id : Int) (hv : v.isOpen = false) (hn : n < v.opened)
    (q : List ToCm) :
    Allowed (WriteView.step id n) (WriteView.Spares id) v q ∧
      (run (WriteView.step id n) v q).isOpen = false := by
  induction q generalizing v with
  | nil => exact ⟨trivial, hv⟩
  | cons m q ih =>
    obtain ⟨hclosed, hlt⟩ := step_closed id hv hn m
    obtain ⟨hall, hend⟩ := ih hclosed hlt
    refine ⟨⟨fun hopen => ?_, hall⟩, hend⟩
    rw [hv] at hopen
    exact Bool.false_ne_true hopen.1

/-- A message that ends a job closes it. -/
theorem step_ends (hm : m.endsId = some id) (hn : n < v.opened) :
    (v.step id n m).isOpen = false := by
  have hne : v.opened ≠ n := by omega
  simp [WriteView.step, hm, hne]

end WriteView

/-! ## Ids -/

section Ids

variable {ids ids' : List Int} {q : List ToCm} {id : Int}

theorem mem_idsAfter {m : ToCm} : id ∈ idsAfter ids m ↔
    (id ∈ ids ∧ m.endsId ≠ some id) ∨ m.opensId = some id := by
  rw [idsAfter, List.mem_append, List.mem_filter, decide_eq_true_eq, Option.mem_toList]

/-- A queue opens every job under an id that no open job has. -/
def Clear (ids : List Int) (q : List ToCm) : Prop :=
  Allowed idsAfter (fun ids m => ∀ id, m.opensId = some id → id ∉ ids) ids q

theorem idsAfter_subset (h : ids ⊆ ids') (m : ToCm) : idsAfter ids m ⊆ idsAfter ids' m := by
  intro id hid
  rw [mem_idsAfter] at hid ⊢
  exact hid.imp_left (And.imp_left fun hin => h hin)

theorem Clear.of_subset (h : ids ⊆ ids') (hq : Clear ids' q) : Clear ids q := by
  induction q generalizing ids ids' with
  | nil => exact trivial
  | cons m q ih =>
    exact ⟨fun id hid hin => hq.1 id hid (h hin), ih (idsAfter_subset h m) hq.2⟩

end Ids

/-! ## One message -/

namespace Cm

variable {cm cm' : Cm} {m : FsMessage} {answers : List CmAnswer} {id : Int} {n : Nat}

theorem view_isOpen : (cm.view n).isOpen = true ↔ n ∈ cm.keys.map Prod.fst := by
  simp [view]

theorem mem_keys_of_getJob (hget : (getJob id cm.jobs).map CmJob.serial = some n) :
    (n, id) ∈ cm.keys := by
  obtain ⟨j, hj, hserial⟩ := Option.map_eq_some_iff.mp hget
  obtain ⟨hmem, hid⟩ := of_getJob hj
  exact List.mem_map.mpr ⟨j, hmem, by rw [CmJob.key, hserial, hid]⟩

/-- The job of a message, by its number. -/
theorem writes_about (hwrites : m.writesId = some id) (habout : cm.about m = some n) :
    (n, id) ∈ cm.keys := by
  have hget : (getJob id cm.jobs).map CmJob.serial = some n := by
    cases m with
    | writeBlock id' fileNum data compressed =>
      cases hwrites
      exact habout
    | writeDone id' fileNum =>
      cases hwrites
      exact habout
    | _ => cases hwrites
  exact mem_keys_of_getJob hget

/-- The job of an ending message, by its number. -/
theorem ends_about (hends : m.endsId = some id) (habout : cm.about m = some n) :
    (n, id) ∈ cm.keys := by
  have hget : (getJob id cm.jobs).map CmJob.serial = some n := by
    cases m with
    | cancelWrite id' =>
      cases hends
      exact habout
    | writeDone id' fileNum =>
      cases hends
      exact habout
    | writeError id' fileNum err =>
      cases hends
      exact habout
    | _ => cases hends
  exact mem_keys_of_getJob hget

/-- The jobs that a message leaves. -/
theorem Handled.mem_keys (h : Handled cm m cm' answers) {k : Nat × Int} (hk : k ∈ cm'.keys) :
    k ∈ cm.keys ∨ (k.1 = cm.opened ∧ m.opensId = some k.2) := by
  rcases List.mem_append.mp (h.keys.subset hk) with hin | hin
  · exact .inl hin
  · obtain ⟨id, hid, rfl⟩ := List.mem_map.mp hin
    exact .inr ⟨rfl, Option.mem_toList.mp hid⟩

/-- With ids of their own, the jobs behind an ending message do not bear its id. -/
theorem Handled.not_mem_ended (h : Handled cm m cm' answers)
    (hids : (cm.keys.map Prod.snd).Nodup) (hends : m.endsId = some id) :
    id ∉ cm'.keys.map Prod.snd := by
  have hpred : (fun k : Nat × Int => decide (k.2 = id)) = (id == ·) ∘ Prod.snd := by
    funext k
    rw [Function.comp_apply, ← decide_eq_decide.mpr (eq_comm (a := id) (b := k.2))]
    rfl
  have herase : cm'.keys.map Prod.snd = (cm.keys.map Prod.snd).erase id := by
    rw [h.ends id hends, hpred, List.erase_eq_eraseP, List.eraseP_map]
  rw [herase]
  exact hids.not_mem_erase

/-- The view of a job behind a message. -/
theorem Handled.view (h : Handled cm m cm' answers) (hids : (cm.keys.map Prod.snd).Nodup)
    (hkey : ∀ k ∈ cm.keys, k.1 = n → k.2 = id) :
    (cm'.view n).Below ((cm.view n).step id n (.fs m)) where
  isOpen := by
    intro hopen
    rw [view_isOpen] at hopen
    obtain ⟨k, hk, rfl⟩ := List.mem_map.mp hopen
    simp only [WriteView.step, Bool.or_eq_true, Bool.and_eq_true, decide_eq_true_eq]
    rcases h.mem_keys hk with hin | ⟨hserial, hopens⟩
    · refine .inl ⟨view_isOpen.mpr (List.mem_map_of_mem hin), fun hends => ?_⟩
      refine h.not_mem_ended hids hends (?_ : id ∈ _)
      rw [← hkey k hin rfl]
      exact List.mem_map_of_mem hk
    · refine .inr ⟨?_, hserial.symm⟩
      rw [ToCm.opensId, hopens, Option.isSome_some]
  opened := h.opened

/-- A job that a message spares writes nothing. -/
theorem Handled.work_spared (h : Handled cm m cm' answers)
    (hkey : ∀ k ∈ cm.keys, k.1 = n → k.2 = id) (hspares : (cm.view n).Spares id (.fs m)) :
    cm'.work n = cm.work n := by
  refine h.work n fun id' hwrites habout => ?_
  have hin := writes_about hwrites habout
  obtain rfl : id' = id := hkey _ hin rfl
  exact hspares ⟨view_isOpen.mpr (List.mem_map_of_mem (f := Prod.fst) hin), hwrites⟩

/-- The ids that are open behind a message. -/
theorem Handled.ids_subset (h : Handled cm m cm' answers)
    (hids : (cm.keys.map Prod.snd).Nodup) :
    cm'.keys.map Prod.snd ⊆ idsAfter (cm.keys.map Prod.snd) (.fs m) := by
  intro id hid
  rw [mem_idsAfter]
  obtain ⟨k, hk, rfl⟩ := List.mem_map.mp hid
  rcases h.mem_keys hk with hin | ⟨-, hopens⟩
  · refine .inl ⟨List.mem_map_of_mem hin, fun hends => ?_⟩
    exact h.not_mem_ended hids hends hid
  · exact .inr hopens

end Cm

end MDesk
