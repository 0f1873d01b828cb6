import Mathlib.Data.List.Induction

/-!
# Runs of a machine

A machine takes events one after another, which may come in any order. What every
allowed event preserves holds in every state that a run of allowed events reaches.
-/

namespace MDesk.Core

variable {σ ε : Type*}

/-- The state behind a list of events. -/
def run (step : σ → ε → σ) (s : σ) (es : List ε) : σ := es.foldl step s

/-- Every event of a run is allowed in the state it meets. -/
def Allowed (step : σ → ε → σ) (ok : σ → ε → Prop) : σ → List ε → Prop
  | _, [] => True
  | s, e :: es => ok s e ∧ Allowed step ok (step s e) es

instance {step : σ → ε → σ} {ok : σ → ε → Prop} [∀ s e, Decidable (ok s e)] (s : σ)
    (es : List ε) : Decidable (Allowed step ok s es) :=
  match es with
  | [] => .isTrue trivial
  | e :: es =>
    have : Decidable (Allowed step ok (step s e) es) := instDecidableAllowed (step s e) es
    inferInstanceAs (Decidable (_ ∧ _))

variable {step : σ → ε → σ} {ok : σ → ε → Prop} {s : σ}

@[simp] theorem run_nil : run step s [] = s := rfl

@[simp] theorem run_cons (e : ε) (es : List ε) : run step s (e :: es) = run step (step s e) es :=
  rfl

theorem run_append (es fs : List ε) : run step s (es ++ fs) = run step (run step s es) fs :=
  List.foldl_append

/-- An invariant of the allowed steps is one of the allowed runs. -/
theorem run_keeps {Q : σ → Prop} (hstep : ∀ s e, Q s → ok s e → Q (step s e)) (h : Q s)
    {es : List ε} (hes : Allowed step ok s es) : Q (run step s es) := by
  induction es generalizing s with
  | nil => exact h
  | cons e es ih => exact ih (hstep s e h hes.1) hes.2

/-- A condition that every event meets holds along every run. -/
theorem allowed_of_forall (hok : ∀ s e, ok s e) (s : σ) (es : List ε) : Allowed step ok s es := by
  induction es generalizing s with
  | nil => trivial
  | cons e es ih => exact ⟨hok s e, ih (step s e)⟩

/-- Where the allowed events of a kind are exactly the ones that keep an invariant, the allowed
runs of the kind are exactly the ones with the invariant in every state they reach. -/
theorem allowed_iff_keeps_of {kind : σ → ε → Prop} {Q : σ → Prop}
    (hstep : ∀ s e, Q s → kind s e → (Q (step s e) ↔ ok s e)) (h : Q s) {es : List ε}
    (hes : Allowed step kind s es) :
    (∀ pre, pre <+: es → Q (run step s pre)) ↔ Allowed step ok s es := by
  induction es generalizing s with
  | nil =>
    refine ⟨fun _ => trivial, fun _ pre hpre => ?_⟩
    rw [List.prefix_nil.mp hpre]
    exact h
  | cons e es ih =>
    obtain ⟨he, hrest⟩ := hes
    constructor
    · intro hall
      have hnext : Q (step s e) := hall [e] (List.prefix_cons_inj e |>.mpr es.nil_prefix)
      refine ⟨(hstep s e h he).mp hnext, (ih hnext hrest).mp fun pre hpre => ?_⟩
      exact hall (e :: pre) ((List.prefix_cons_inj e).mpr hpre)
    · rintro ⟨hok, hes⟩ pre hpre
      cases pre with
      | nil => exact h
      | cons e' pre =>
        obtain ⟨rfl, hpre'⟩ := List.cons_prefix_cons.mp hpre
        exact (ih ((hstep s e' h he).mpr hok) hrest).mpr hes pre hpre'

/-- The same for events of all kinds. -/
theorem allowed_iff_keeps {Q : σ → Prop} (hstep : ∀ s e, Q s → (Q (step s e) ↔ ok s e)) (h : Q s)
    {es : List ε} : (∀ pre, pre <+: es → Q (run step s pre)) ↔ Allowed step ok s es := by
  have hall : Allowed step (fun _ _ => True) s es := allowed_of_forall (fun _ _ => trivial) s es
  exact allowed_iff_keeps_of (fun s e hs _ => hstep s e hs) h hall

/-- Conditions that agree on every event under an invariant, which the allowed events keep, agree
on every run. -/
theorem allowed_congr_of_keeps {Q : σ → Prop} {ok' : σ → ε → Prop}
    (hstep : ∀ s e, Q s → ok s e → Q (step s e)) (hiff : ∀ s e, Q s → (ok s e ↔ ok' s e))
    (h : Q s) {es : List ε} : Allowed step ok s es ↔ Allowed step ok' s es := by
  induction es generalizing s with
  | nil => exact Iff.rfl
  | cons e es ih =>
    rw [Allowed, Allowed, ← hiff s e h]
    exact and_congr_right fun hok => ih (hstep s e h hok)

/-- Under an invariant, conditions that agree on every event agree on every run. -/
theorem allowed_congr {Q : σ → Prop} {ok' : σ → ε → Prop} (hstep : ∀ s e, Q s → Q (step s e))
    (hiff : ∀ s e, Q s → (ok s e ↔ ok' s e)) (h : Q s) {es : List ε} :
    Allowed step ok s es ↔ Allowed step ok' s es :=
  allowed_congr_of_keeps (fun s e hs _ => hstep s e hs) hiff h

/-- The events of a run may be cut anywhere. -/
theorem allowed_append {es fs : List ε} : Allowed step ok s (es ++ fs) ↔
    Allowed step ok s es ∧ Allowed step ok (run step s es) fs := by
  induction es generalizing s with
  | nil => simp [Allowed]
  | cons e es ih => rw [List.cons_append, Allowed, ih, Allowed, and_assoc, run_cons]

/-- What two conditions on every event of a run give together. -/
theorem Allowed.both {ok₁ ok₂ : σ → ε → Prop} (himp : ∀ s e, ok₁ s e → ok₂ s e → ok s e)
    {es : List ε} (h₁ : Allowed step ok₁ s es) (h₂ : Allowed step ok₂ s es) :
    Allowed step ok s es := by
  induction es generalizing s with
  | nil => trivial
  | cons e es ih => exact ⟨himp s e h₁.1 h₂.1, ih h₁.2 h₂.2⟩

/-- An invariant may speak of the events so far. -/
theorem run_keeps_past {Q : List ε → σ → Prop}
    (hstep : ∀ pre e, Q pre (run step s pre) → ok (run step s pre) e →
      Q (pre ++ [e]) (step (run step s pre) e)) (h : Q [] s)
    {es : List ε} (hes : Allowed step ok s es) : Q es (run step s es) := by
  induction es using List.reverseRecOn with
  | nil => exact h
  | append_singleton pre e ih =>
    obtain ⟨hpre, he⟩ := allowed_append.mp hes
    rw [run_append]
    exact hstep pre e (ih hpre) he.1

/-- The same, where the invariant speaks of the events so far. -/
theorem allowed_iff_keeps_past {Q : List ε → σ → Prop}
    (hstep : ∀ pre e, Q pre (run step s pre) →
      (Q (pre ++ [e]) (step (run step s pre) e) ↔ ok (run step s pre) e)) (h : Q [] s)
    {es : List ε} : (∀ pre, pre <+: es → Q pre (run step s pre)) ↔ Allowed step ok s es := by
  induction es using List.reverseRecOn with
  | nil =>
    refine ⟨fun _ => trivial, fun _ pre hpre => ?_⟩
    rw [List.prefix_nil.mp hpre]
    exact h
  | append_singleton es e ih =>
    have hlast : run step s (es ++ [e]) = step (run step s es) e := run_append es [e]
    rw [allowed_append, ← ih]
    constructor
    · intro hall
      have hes : ∀ pre, pre <+: es → Q pre (run step s pre) := fun pre hpre =>
        hall pre (hpre.trans (List.prefix_append es [e]))
      have hnext := hall (es ++ [e]) List.prefix_rfl
      rw [hlast] at hnext
      exact ⟨hes, (hstep es e (hes es List.prefix_rfl)).mp hnext, trivial⟩
    · rintro ⟨hes, hok, -⟩ pre hpre
      rcases List.prefix_concat_iff.mp hpre with rfl | hpre'
      · rw [hlast]
        exact (hstep es e (hes es List.prefix_rfl)).mpr hok
      · exact hes pre hpre'

/-- Where an invariant gives a property, an event that keeps the property is allowed, and the
allowed events keep the invariant, the allowed runs are exactly the ones with the property in
every state they reach. -/
theorem allowed_iff_holds_past {P Q : List ε → σ → Prop} (himp : ∀ pre s, Q pre s → P pre s)
    (hok : ∀ pre e, Q pre (run step s pre) → P (pre ++ [e]) (step (run step s pre) e) →
      ok (run step s pre) e)
    (hkeep : ∀ pre e, Q pre (run step s pre) → ok (run step s pre) e →
      Q (pre ++ [e]) (step (run step s pre) e)) (h : Q [] s) {es : List ε} :
    (∀ pre, pre <+: es → P pre (run step s pre)) ↔ Allowed step ok s es := by
  have hkeeps : (∀ pre, pre <+: es → Q pre (run step s pre)) ↔ Allowed step ok s es :=
    allowed_iff_keeps_past
      (fun pre e hQ => ⟨fun hnext => hok pre e hQ (himp _ _ hnext), hkeep pre e hQ⟩) h
  rw [← hkeeps]
  refine ⟨fun hall pre => ?_, fun hall pre hpre => himp pre _ (hall pre hpre)⟩
  induction pre using List.reverseRecOn with
  | nil => exact fun _ => h
  | append_singleton pre e ih =>
    intro hpre
    have hQ := ih ((List.prefix_append pre [e]).trans hpre)
    have hP := hall (pre ++ [e]) hpre
    rw [run_append, run_cons, run_nil] at hP ⊢
    exact hkeep pre e hQ (hok pre e hQ hP)

section Log

variable {α : Type*} {l l' : List α} {a b : α} {i : Nat}

/-- The entries of a log stay where they are while it grows. -/
theorem getElem?_extend (h : l <+: l') (hi : l[i]? = some a) : l'[i]? = some a := by
  obtain ⟨t, rfl⟩ := h
  rw [List.getElem?_append_left (List.getElem?_eq_some_iff.mp hi).1]
  exact hi

/-- An entry of a log that has grown by one is an old one or the last. -/
theorem getElem?_concat (h : (l ++ [a])[i]? = some b) : l[i]? = some b ∨ i = l.length ∧ a = b := by
  rcases Nat.lt_or_ge i l.length with hlt | hge
  · rw [List.getElem?_append_left hlt] at h
    exact .inl h
  · rw [List.getElem?_append_right hge, List.getElem?_singleton] at h
    split_ifs at h with hlast
    exact .inr ⟨by omega, Option.some.inj h⟩

end Log

end MDesk.Core
