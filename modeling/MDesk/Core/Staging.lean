import MDesk.Core.FileSystem

/-!
# Writing files through side files

A batch of files is written one after another. Each file is built up under a staging
name, a second side file stands next to it meanwhile, and committing the file renames
the staging file and deletes the side file. A file whose side names are taken by
directories cannot be opened and is passed over. The whole batch arrives exactly
when no earlier path stands in the way of a later file's side names.
-/

namespace MDesk.Core

/-- What every path names. -/
abbrev View (ν β : Type*) := List ν → Option (Node β)

/-- Two side names for every path, in the directory of the path. -/
structure SideNames (ν : Type*) where
  stage : List ν → List ν
  side : List ν → List ν
  stage_ne_nil : ∀ p, stage p ≠ []
  side_ne_nil : ∀ p, side p ≠ []
  stage_dropLast : ∀ p, (stage p).dropLast = p.dropLast
  side_dropLast : ∀ p, (side p).dropLast = p.dropLast
  stage_ne : ∀ p, stage p ≠ p
  side_ne : ∀ p, side p ≠ p
  stage_ne_side : ∀ p q, stage p ≠ side q
  stage_inj : ∀ {p q}, p ≠ [] → q ≠ [] → stage p = stage q → p = q

/-- A path is not inside a directory of the same depth. -/
theorem not_prefix_dropLast {ν : Type*} {p q : List ν} (hp : p ≠ [])
    (h : p.dropLast = q.dropLast) : ¬ p <+: q.dropLast := by
  intro hpre
  have hlen := hpre.length_le
  rw [← h, List.length_dropLast] at hlen
  have := List.length_pos_iff.mpr hp
  omega

/-- Paths that can all be files under one root. -/
structure Layout {ν : Type*} (root : List ν) (paths : List (List ν)) : Prop where
  below : ∀ p ∈ paths, root <+: p.dropLast
  ne_nil : ∀ p ∈ paths, p ≠ []
  nodup : paths.Nodup
  apart : ∀ p ∈ paths, ∀ q ∈ paths, ¬ p <+: q.dropLast

/-- Nothing stands under the root, and no file on the way to it. -/
structure Vacant {ν β : Type*} (root : List ν) (v : View ν β) : Prop where
  reachable : ∀ q, q <+: root → ∀ c, v q ≠ some (.file c)
  empty : ∀ q, root <+: q → q ≠ root → v q = none

/-- Nothing stands under the root but files at the listed paths and the directories
above them, and no file stands on the way to the root. -/
structure Tidy {ν β : Type*} (root : List ν) (paths : List (List ν)) (v : View ν β) : Prop where
  reachable : ∀ {q c}, q <+: root → v q ≠ some (.file c)
  file : ∀ {q c}, root <+: q → v q = some (.file c) → q ∈ paths
  dir : ∀ {q}, root <+: q → q ≠ root → v q = some .dir → ∃ p ∈ paths, q <+: p.dropLast

section Tidy

variable {ν β : Type*} {root : List ν} {paths : List (List ν)} {v : View ν β}

theorem Layout.below' (hl : Layout root paths) {p : List ν} (hp : p ∈ paths) : root <+: p :=
  (hl.below p hp).trans (List.dropLast_prefix p)

theorem Layout.ne_root (hl : Layout root paths) {p : List ν} (hp : p ∈ paths) : p ≠ root := by
  rintro rfl
  have hlen := (hl.below p hp).length_le
  have hpos := List.length_pos_iff.mpr (hl.ne_nil p hp)
  rw [List.length_dropLast] at hlen
  omega

/-- A name in the directory of a listed path stays under the root. -/
theorem Layout.below_of_dropLast (hl : Layout root paths) {p q : List ν} (hp : p ∈ paths)
    (hq : q ≠ []) (h : q.dropLast = p.dropLast) : root <+: q ∧ q ≠ root := by
  have hroot : root <+: q.dropLast := h ▸ hl.below p hp
  refine ⟨hroot.trans (List.dropLast_prefix q), ?_⟩
  rintro rfl
  have hlen := hroot.length_le
  have hpos := List.length_pos_iff.mpr hq
  rw [List.length_dropLast] at hlen
  omega

/-- A function of the index is a function of the path. -/
theorem Layout.exists_of_index (hl : Layout root paths) {α : Type*} (g : Nat → α) :
    ∃ f : List ν → α, ∀ i q, paths[i]? = some q → f q = g i := by
  classical
  refine ⟨fun q => g (paths.idxOf q), fun i q hq => ?_⟩
  obtain ⟨hi, rfl⟩ := List.getElem?_eq_some_iff.mp hq
  simp only [hl.nodup.idxOf_getElem i hi]

theorem Tidy.mono (h : Tidy root [] v) : Tidy root paths v where
  reachable := h.reachable
  file hq hf := absurd (h.file hq hf) List.not_mem_nil
  dir hq hne hd := by
    obtain ⟨p, hp, -⟩ := h.dir hq hne hd
    exact absurd hp List.not_mem_nil

theorem Vacant.tidy (h : Vacant root v) : Tidy root [] v where
  reachable {q c} hq := h.reachable q hq c
  file {q c} hq hf := by
    by_cases hne : q = root
    · exact absurd hf (h.reachable q (hne ▸ List.prefix_refl _) c)
    · rw [h.empty q hq hne] at hf
      cases hf
  dir {q} hq hne hd := by
    rw [h.empty q hq hne] at hd
    cases hd

/-- No file blocks the way to a listed path. -/
theorem Tidy.way (h : Tidy root paths v) (hl : Layout root paths) {p q : List ν} {c : List β}
    (hp : p ∈ paths) (hq : q <+: p.dropLast) : v q ≠ some (.file c) := by
  rcases List.prefix_or_prefix_of_prefix hq (hl.below p hp) with hqr | hrq
  · exact h.reachable hqr
  · intro hf
    exact hl.apart q (h.file hrq hf) p hp hq

/-- No listed path is a directory. -/
theorem Tidy.not_dir (h : Tidy root paths v) (hl : Layout root paths) {p : List ν}
    (hp : p ∈ paths) : v p ≠ some .dir := by
  intro hd
  obtain ⟨q, hq, hpre⟩ := h.dir (hl.below' hp) (hl.ne_root hp) hd
  exact hl.apart p hp q hq hpre

/-- A member of a batch that runs along a list of different paths has one index. -/
theorem index_of_front {batch : List (List ν × List β)} (hnodup : paths.Nodup)
    (hfront : batch.map Prod.fst = paths.take batch.length) {f : List ν × List β} {e : Nat}
    (hf : f ∈ batch) (hp : paths[e]? = some f.1) : batch[e]? = some f := by
  obtain ⟨i, hi, rfl⟩ := List.mem_iff_getElem.mp hf
  have hpi : paths[i]? = some batch[i].1 := by
    have hget := congrArg (·[i]?) hfront
    simpa [List.getElem?_take, hi] using hget.symm
  have hei : e = i := (List.getElem?_inj (List.getElem?_eq_some_iff.mp hp).1 hnodup).mp
    (hp.trans hpi.symm)
  rw [hei, List.getElem?_eq_getElem hi]

theorem mem_of_front {batch : List (List ν × List β)}
    (hfront : batch.map Prod.fst = paths.take batch.length) : ∀ f ∈ batch, f.1 ∈ paths := by
  intro f hf
  have hmem := List.mem_map_of_mem (f := Prod.fst) hf
  rw [hfront] at hmem
  exact List.mem_of_mem_take hmem

end Tidy

namespace SideNames

section Names

variable {ν : Type*} (S : SideNames ν)

theorem stage_not_above (p : List ν) : ¬ S.stage p <+: p.dropLast :=
  not_prefix_dropLast (S.stage_ne_nil p) (S.stage_dropLast p)

theorem side_not_above (p : List ν) : ¬ S.side p <+: p.dropLast :=
  not_prefix_dropLast (S.side_ne_nil p) (S.side_dropLast p)

end Names

variable {ν β : Type*} [DecidableEq ν] (S : SideNames ν)

/-- A file under construction: contents at the staging name, `mark` beside it. -/
def opened (v : View ν β) (p : List ν) (contents mark : List β) : View ν β := fun q =>
  if q = S.stage p then some (.file contents)
  else if q = S.side p then some (.file mark)
  else if q <+: p.dropLast then some .dir
  else v q

/-- A file written and committed. -/
def put (v : View ν β) (p : List ν) (contents : List β) : View ν β := fun q =>
  if q = p then some (.file contents)
  else if q = S.stage p ∨ q = S.side p then none
  else if q <+: p.dropLast then some .dir
  else v q

@[simp] theorem opened_stage (v : View ν β) (p : List ν) (c m : List β) :
    S.opened v p c m (S.stage p) = some (.file c) := if_pos rfl

@[simp] theorem opened_side (v : View ν β) (p : List ν) (c m : List β) :
    S.opened v p c m (S.side p) = some (.file m) := by
  rw [opened, if_neg (S.stage_ne_side p p).symm, if_pos rfl]

/-- The directories above an open file are there. -/
theorem opened_above (v : View ν β) {p q : List ν} (c m : List β) (hq : q <+: p.dropLast) :
    S.opened v p c m q = some .dir := by
  have hstage : q ≠ S.stage p := fun h => S.stage_not_above p (h ▸ hq)
  have hside : q ≠ S.side p := fun h => S.side_not_above p (h ▸ hq)
  rw [opened, if_neg hstage, if_neg hside, if_pos hq]

/-- The path of an open file shows what was there before. -/
theorem opened_self (v : View ν β) {p : List ν} (hp : p ≠ []) (c m : List β) :
    S.opened v p c m p = v p := by
  rw [opened, if_neg (S.stage_ne p).symm, if_neg (S.side_ne p).symm,
    if_neg (not_prefix_dropLast hp rfl)]

/-- A batch of committed files, first file first. -/
def putAll (v : View ν β) (batch : List (List ν × List β)) : View ν β :=
  batch.foldl (fun v e => S.put v e.1 e.2) v

@[simp] theorem putAll_nil (v : View ν β) : S.putAll v [] = v := rfl

@[simp] theorem putAll_cons (v : View ν β) (e : List ν × List β) (es : List (List ν × List β)) :
    S.putAll v (e :: es) = S.putAll (S.put v e.1 e.2) es := rfl

theorem putAll_append (v : View ν β) (es fs : List (List ν × List β)) :
    S.putAll v (es ++ fs) = S.putAll (S.putAll v es) fs := List.foldl_append

/-- Every file seen after a batch was there before or is one of the batch. -/
theorem file_of_putAll {v : View ν β} {batch : List (List ν × List β)} {q : List ν} {c : List β}
    (h : S.putAll v batch q = some (.file c)) : (q, c) ∈ batch ∨ v q = some (.file c) := by
  induction batch generalizing v with
  | nil => exact .inr h
  | cons e es ih =>
    rcases ih (v := S.put v e.1 e.2) h with hmem | hput
    · exact .inl (List.mem_cons_of_mem e hmem)
    · dsimp only [put] at hput
      split_ifs at hput with hq hs hd
      · cases hput
        exact .inl (by rw [hq]; exact List.mem_cons_self)
      · cases hput
      · exact .inr hput

/-- Every directory seen after a batch was there before or contains a file of it. -/
theorem dir_of_putAll {v : View ν β} {batch : List (List ν × List β)} {q : List ν}
    (h : S.putAll v batch q = some .dir) :
    (∃ e ∈ batch, q <+: e.1.dropLast) ∨ v q = some .dir := by
  induction batch generalizing v with
  | nil => exact .inr h
  | cons e es ih =>
    rcases ih (v := S.put v e.1 e.2) h with ⟨f, hf, hq⟩ | hput
    · exact .inl ⟨f, List.mem_cons_of_mem e hf, hq⟩
    · dsimp only [put] at hput
      split_ifs at hput with hq hs hd
      · cases hput
      · exact .inl ⟨e, List.mem_cons_self, hd⟩
      · exact .inr hput

/-- Files and directories of a batch that keep clear of a path, apart from its
side names, decide what becomes of it. -/
theorem putAll_of_clear {v : View ν β} {batch : List (List ν × List β)} {q : List ν}
    (h : ∀ e ∈ batch, q ≠ e.1 ∧ ¬ q <+: e.1.dropLast) :
    S.putAll v batch q = if ∃ e ∈ batch, q = S.stage e.1 ∨ q = S.side e.1 then none else v q := by
  induction batch generalizing v with
  | nil => simp
  | cons e es ih =>
    rw [putAll_cons, ih fun f hf => h f (List.mem_cons_of_mem e hf)]
    obtain ⟨hne, hpre⟩ := h e List.mem_cons_self
    by_cases hlater : ∃ f ∈ es, q = S.stage f.1 ∨ q = S.side f.1
    · obtain ⟨f, hf, hq⟩ := hlater
      rw [if_pos ⟨f, hf, hq⟩, if_pos ⟨f, List.mem_cons_of_mem e hf, hq⟩]
    · rw [if_neg hlater]
      by_cases hnow : q = S.stage e.1 ∨ q = S.side e.1
      · rw [if_pos ⟨e, List.mem_cons_self, hnow⟩, put, if_neg hne, if_pos hnow]
      · rw [if_neg, put, if_neg hne, if_neg hnow, if_neg hpre]
        rintro ⟨f, hf, hq⟩
        rcases List.mem_cons.mp hf with rfl | hf
        · exact hnow hq
        · exact hlater ⟨f, hf, hq⟩

/-- A committed file survives the rest of the batch unless its path is a side name
of a later file. -/
theorem putAll_at {v : View ν β} {before after : List (List ν × List β)} {p : List ν}
    {c : List β} (h : ∀ e ∈ after, p ≠ e.1 ∧ ¬ p <+: e.1.dropLast) :
    S.putAll v (before ++ (p, c) :: after) p =
      if ∃ e ∈ after, p = S.stage e.1 ∨ p = S.side e.1 then none else some (.file c) := by
  rw [putAll_append, putAll_cons, S.putAll_of_clear h, put, if_pos rfl]

/-- Opening the side files of a path fails on a directory. -/
def Blocked (v : View ν β) (p : List ν) : Prop :=
  v (S.side p) = some .dir ∨ v (S.stage p) = some .dir

instance (n : Option (Node β)) : Decidable (n = some .dir) :=
  match n with
  | none => .isFalse nofun
  | some (.file _) => .isFalse nofun
  | some .dir => .isTrue rfl

instance (v : View ν β) (p : List ν) : Decidable (S.Blocked v p) :=
  inferInstanceAs (Decidable (_ ∨ _))

/-- What a blocked opening leaves: the directories above, and no file at the side name. -/
def blocked (v : View ν β) (p : List ν) : View ν β := fun q =>
  if q = S.side p ∧ v q ≠ some .dir then none
  else if q <+: p.dropLast then some .dir
  else v q

/-- A blocked opening leaves the directories that are there. -/
theorem dir_blocked {v : View ν β} {p q : List ν} (hd : v q = some .dir) :
    S.blocked v p q = some .dir := by
  rw [blocked, if_neg fun h => h.2 hd, hd]
  split_ifs <;> rfl

/-- A file written and committed, or passed over. -/
def attempt (v : View ν β) (p : List ν) (contents : List β) : View ν β :=
  if S.Blocked v p then S.blocked v p else S.put v p contents

/-- A batch received file by file. -/
def attemptAll (v : View ν β) (batch : List (List ν × List β)) : View ν β :=
  batch.foldl (fun v e => S.attempt v e.1 e.2) v

@[simp] theorem attemptAll_nil (v : View ν β) : S.attemptAll v [] = v := rfl

@[simp] theorem attemptAll_cons (v : View ν β) (e : List ν × List β)
    (es : List (List ν × List β)) :
    S.attemptAll v (e :: es) = S.attemptAll (S.attempt v e.1 e.2) es := rfl

theorem attemptAll_append (v : View ν β) (es fs : List (List ν × List β)) :
    S.attemptAll v (es ++ fs) = S.attemptAll (S.attemptAll v es) fs := List.foldl_append

variable {root : List ν} {paths : List (List ν)}

theorem tidy_put {v : View ν β} {p : List ν} {c : List β} (h : Tidy root paths v)
    (hl : Layout root paths) (hp : p ∈ paths) : Tidy root paths (S.put v p c) where
  reachable {q d} hq := by
    unfold put
    split_ifs with hqp
    · rintro -
      have hlen := (hq.trans (hl.below p hp)).length_le
      have hpos := List.length_pos_iff.mpr (hl.ne_nil p hp)
      rw [hqp, List.length_dropLast] at hlen
      omega
    · nofun
    · nofun
    · exact h.reachable hq
  file {q d} hq := by
    unfold put
    split_ifs with hqp
    · exact fun _ => hqp ▸ hp
    · nofun
    · nofun
    · exact h.file hq
  dir {q} hq hne := by
    unfold put
    split_ifs with hqp hs hd
    · nofun
    · nofun
    · exact fun _ => ⟨p, hp, hd⟩
    · exact h.dir hq hne

theorem tidy_blocked {v : View ν β} {p : List ν} (h : Tidy root paths v) (hp : p ∈ paths) :
    Tidy root paths (S.blocked v p) where
  reachable {q d} hq := by
    unfold blocked
    split_ifs
    · nofun
    · nofun
    · exact h.reachable hq
  file {q d} hq := by
    unfold blocked
    split_ifs
    · nofun
    · nofun
    · exact h.file hq
  dir {q} hq hne := by
    unfold blocked
    split_ifs with hs hd
    · nofun
    · exact fun _ => ⟨p, hp, hd⟩
    · exact h.dir hq hne

theorem tidy_attempt {v : View ν β} {p : List ν} {c : List β} (h : Tidy root paths v)
    (hl : Layout root paths) (hp : p ∈ paths) : Tidy root paths (S.attempt v p c) := by
  unfold attempt
  split_ifs
  · exact S.tidy_blocked h hp
  · exact S.tidy_put h hl hp

theorem tidy_putAll {v : View ν β} {batch : List (List ν × List β)} (h : Tidy root paths v)
    (hl : Layout root paths) (hb : ∀ e ∈ batch, e.1 ∈ paths) :
    Tidy root paths (S.putAll v batch) := by
  induction batch generalizing v with
  | nil => exact h
  | cons e es ih =>
    exact ih (S.tidy_put h hl (hb e List.mem_cons_self))
      fun f hf => hb f (List.mem_cons_of_mem e hf)

/-- A listed path that the batch does not contain is free. -/
theorem putAll_free {v : View ν β} {batch : List (List ν × List β)} {p : List ν}
    (hv : Vacant root v) (hl : Layout root paths) (hb : ∀ e ∈ batch, e.1 ∈ paths)
    (hp : p ∈ paths) (hne : ∀ e ∈ batch, e.1 ≠ p) : S.putAll v batch p = none := by
  have hnone : v p = none := hv.empty p (hl.below' hp) (hl.ne_root hp)
  rcases hat : S.putAll v batch p with _ | ⟨c | _⟩
  · rfl
  · rcases S.file_of_putAll hat with hmem | hfile
    · exact absurd rfl (hne _ hmem)
    · rw [hnone] at hfile
      cases hfile
  · exact absurd hat ((S.tidy_putAll hv.tidy.mono hl hb).not_dir hl hp)

/-- After the first `n` files of a list, file `e` is not there: its turn has not come, or
a later one of them had its path as side name. -/
def Lost (paths : List (List ν)) (n e : Nat) : Prop :=
  n ≤ e ∨ ∃ j p q, e < j ∧ j < n ∧ paths[e]? = some p ∧ paths[j]? = some q ∧
    (p = S.stage q ∨ p = S.side q)

/-- A file of the batch shows its own contents. -/
theorem content_of_putAll {v : View ν β} {batch : List (List ν × List β)} (hv : Vacant root v)
    (hl : Layout root paths) (hfront : batch.map Prod.fst = paths.take batch.length) {p : List ν}
    {e : Nat} {c : List β} (hp : paths[e]? = some p) (h : S.putAll v batch p = some (.file c)) :
    batch[e]? = some (p, c) := by
  rcases S.file_of_putAll h with hmem | hfile
  · exact index_of_front hl.nodup hfront hmem hp
  · have hmem := List.mem_of_getElem? hp
    rw [hv.empty p (hl.below' hmem) (hl.ne_root hmem)] at hfile
    cases hfile

/-- Which files of the list are there after the batch. -/
theorem putAll_none_iff {v : View ν β} {batch : List (List ν × List β)} (hv : Vacant root v)
    (hl : Layout root paths) (hfront : batch.map Prod.fst = paths.take batch.length) {p : List ν}
    {e : Nat} (hp : paths[e]? = some p) :
    S.putAll v batch p = none ↔ S.Lost paths batch.length e := by
  have hmem := List.mem_of_getElem? hp
  have hb := mem_of_front hfront
  have hget : ∀ i (hi : i < batch.length), paths[i]? = some batch[i].1 := by
    intro i hi
    have h := congrArg (·[i]?) hfront
    simpa [List.getElem?_take, hi] using h.symm
  by_cases he : e < batch.length
  · have hpe : batch[e].1 = p := Option.some.inj ((hget e he).symm.trans hp)
    have hpair : batch[e] = (p, batch[e].2) := Prod.ext hpe rfl
    have hsplit : batch = batch.take e ++ (p, batch[e].2) :: batch.drop (e + 1) := by
      rw [← hpair, List.getElem_cons_drop, List.take_append_drop]
    have hlater : ∀ f ∈ batch.drop (e + 1), ∃ j, e < j ∧ j < batch.length ∧
        paths[j]? = some f.1 := by
      intro f hf
      obtain ⟨i, hi, rfl⟩ := List.mem_iff_getElem.mp hf
      rw [List.length_drop] at hi
      refine ⟨e + 1 + i, by omega, by omega, ?_⟩
      rw [List.getElem_drop]
      exact hget _ (by omega)
    have hclear : ∀ f ∈ batch.drop (e + 1), p ≠ f.1 ∧ ¬ p <+: f.1.dropLast := by
      intro f hf
      obtain ⟨j, hej, -, hj⟩ := hlater f hf
      refine ⟨?_, hl.apart p hmem f.1 (List.mem_of_getElem? hj)⟩
      rintro rfl
      have := (List.getElem?_inj (List.getElem?_eq_some_iff.mp hp).1 hl.nodup).mp (hp.trans hj.symm)
      omega
    have hat : S.putAll v (batch.take e ++ (p, batch[e].2) :: batch.drop (e + 1)) p = _ :=
      S.putAll_at hclear
    rw [← hsplit] at hat
    rw [hat]
    constructor
    · intro hnone
      split_ifs at hnone with hside
      obtain ⟨f, hf, hs⟩ := hside
      obtain ⟨j, hej, hjn, hj⟩ := hlater f hf
      exact .inr ⟨j, p, f.1, hej, hjn, hp, hj, hs⟩
    · rintro (hle | ⟨j, p', q, hej, hjn, hp', hq, hs⟩)
      · omega
      · rw [hp] at hp'
        cases hp'
        refine if_pos ⟨batch[j], ?_, ?_⟩
        · refine List.mem_iff_getElem.mpr ⟨j - (e + 1), by rw [List.length_drop]; omega, ?_⟩
          rw [List.getElem_drop]
          congr 1
          omega
        · rwa [Option.some.inj ((hget j hjn).symm.trans hq)]
  · have hfree : S.putAll v batch p = none := by
      refine S.putAll_free hv hl hb hmem ?_
      rintro f hf rfl
      have := (List.getElem?_eq_some_iff.mp (index_of_front hl.nodup hfront hf hp)).1
      omega
    exact iff_of_true hfree (.inl (by omega))

/-- Passing a file over makes no file. -/
theorem file_of_blocked {v : View ν β} {p q : List ν} {c : List β}
    (h : S.blocked v p q = some (.file c)) : v q = some (.file c) := by
  unfold blocked at h
  split_ifs at h
  · cases h
  · exact h

theorem file_of_put {v : View ν β} {p q : List ν} {c d : List β}
    (h : S.put v p c q = some (.file d)) (hne : q ≠ p) : v q = some (.file d) := by
  unfold put at h
  rw [if_neg hne] at h
  split_ifs at h
  · cases h
  · exact h

/-- A blocked file stays blocked, and trying it again changes nothing. -/
theorem blocked_again {v : View ν β} {p : List ν} (h : S.Blocked v p) :
    S.Blocked (S.blocked v p) p ∧ S.blocked (S.blocked v p) p = S.blocked v p := by
  refine ⟨h.imp S.dir_blocked S.dir_blocked, ?_⟩
  funext q
  by_cases hq : q = S.side p ∧ v q ≠ some .dir
  · have hfree : S.blocked v p q ≠ some .dir := by
      rw [blocked, if_pos hq]
      nofun
    rw [blocked, if_pos ⟨hq.1, hfree⟩, blocked, if_pos hq]
  · have hkeep : ¬ (q = S.side p ∧ S.blocked v p q ≠ some .dir) := by
      rintro ⟨hs, hne⟩
      exact hq ⟨hs, fun hd => hne (S.dir_blocked hd)⟩
    rw [blocked, if_neg hkeep, blocked, if_neg hq]
    split_ifs <;> rfl

/-- Passing a file over takes no listed path but a file at its side name. -/
theorem blocked_of_mem {v : View ν β} {p q : List ν} (hl : Layout root paths) (hp : p ∈ paths)
    (hq : q ∈ paths) (h : p = S.side q → v p = some .dir) : S.blocked v q p = v p := by
  have hkeep : ¬ (p = S.side q ∧ v p ≠ some .dir) := fun hs => hs.2 (h hs.1)
  rw [blocked, if_neg hkeep, if_neg (hl.apart p hp q hq)]

/-- A path outside the batch gets no file from it. -/
theorem file_of_attemptAll {v : View ν β} {batch : List (List ν × List β)} {q : List ν}
    {c : List β} (h : S.attemptAll v batch q = some (.file c)) (hq : ∀ e ∈ batch, q ≠ e.1) :
    v q = some (.file c) := by
  induction batch generalizing v with
  | nil => exact h
  | cons e es ih =>
    have hput := ih (v := S.attempt v e.1 e.2) h fun f hf => hq f (List.mem_cons_of_mem e hf)
    unfold attempt at hput
    split_ifs at hput
    · exact S.file_of_blocked hput
    · exact S.file_of_put hput (hq e List.mem_cons_self)

/-- Directories stay. -/
theorem dir_attemptAll {v : View ν β} {batch : List (List ν × List β)} {q : List ν}
    (h : v q = some .dir) (hq : ∀ e ∈ batch, q ≠ e.1) : S.attemptAll v batch q = some .dir := by
  induction batch generalizing v with
  | nil => exact h
  | cons e es ih =>
    refine ih (v := S.attempt v e.1 e.2) ?_ fun f hf => hq f (List.mem_cons_of_mem e hf)
    unfold attempt
    split_ifs with hb
    · exact S.dir_blocked h
    · unfold put
      rw [if_neg (hq e List.mem_cons_self), if_neg]
      · split_ifs
        · rfl
        · exact h
      · rintro (rfl | rfl)
        · exact hb (.inr h)
        · exact hb (.inl h)

/-- Writing a file, or passing it over, makes the directories above it. -/
theorem dir_of_attempt {v : View ν β} {p q : List ν} {c : List β} (hp : p ≠ [])
    (hq : q <+: p.dropLast) : S.attempt v p c q = some .dir := by
  have hne : ∀ r, r ≠ [] → r.dropLast = p.dropLast → q ≠ r := by
    rintro r hr hdir rfl
    exact not_prefix_dropLast hr hdir hq
  have hside := hne _ (S.side_ne_nil p) (S.side_dropLast p)
  unfold attempt
  split_ifs
  · simp only [blocked, hside, hq, false_and, if_false, if_true]
  · simp only [put, hne p hp rfl, hne _ (S.stage_ne_nil p) (S.stage_dropLast p), hside, hq,
      or_self, if_false, if_true]

/-- No file of the batch is blocked when its turn comes. -/
def Unblocked (v : View ν β) : List (List ν × List β) → Prop
  | [] => True
  | e :: es => ¬ S.Blocked v e.1 ∧ Unblocked (S.put v e.1 e.2) es

theorem unblocked_concat {v : View ν β} {es : List (List ν × List β)} {f : List ν × List β} :
    S.Unblocked v (es ++ [f]) ↔ S.Unblocked v es ∧ ¬ S.Blocked (S.putAll v es) f.1 := by
  induction es generalizing v with
  | nil => simp [Unblocked]
  | cons e es ih =>
    rw [List.cons_append, Unblocked, ih, Unblocked, putAll_cons, and_assoc]

variable {S} in
theorem Unblocked.attemptAll {v : View ν β} {es : List (List ν × List β)}
    (h : S.Unblocked v es) : S.attemptAll v es = S.putAll v es := by
  induction es generalizing v with
  | nil => rfl
  | cons e es ih =>
    rw [attemptAll_cons, putAll_cons, attempt, if_neg h.1, ih h.2]

variable {S} in
/-- The directories above the files of such a batch are there. -/
theorem Unblocked.above {v : View ν β} {es : List (List ν × List β)} (h : S.Unblocked v es)
    (hl : Layout root paths) (hb : ∀ e ∈ es, e.1 ∈ paths) {e : List ν × List β} (he : e ∈ es)
    {q : List ν} (hq : q <+: e.1.dropLast) : S.putAll v es q = some .dir := by
  rw [← h.attemptAll]
  obtain ⟨before, after, rfl⟩ := List.append_of_mem he
  rw [attemptAll_append, attemptAll_cons]
  refine S.dir_attemptAll (S.dir_of_attempt (hl.ne_nil _ (hb e he)) hq) ?_
  rintro f hf rfl
  exact hl.apart f.1 (hb f (by simp [hf])) e.1 (hb e he) hq

/-- A batch is unblocked exactly when no earlier path lies below the side names of a
later one. -/
theorem unblocked_iff {v : View ν β} {es : List (List ν × List β)} (hv : Vacant root v)
    (hl : Layout root paths) (hb : ∀ e ∈ es, e.1 ∈ paths) :
    S.Unblocked v es ↔ es.Pairwise fun e f =>
      ¬ S.stage f.1 <+: e.1.dropLast ∧ ¬ S.side f.1 <+: e.1.dropLast := by
  induction es using List.reverseRecOn with
  | nil => simp [Unblocked]
  | append_singleton es f ih =>
    have hb' : ∀ e ∈ es, e.1 ∈ paths := fun e he => hb e (List.mem_append_left _ he)
    have hf : f.1 ∈ paths := hb f (by simp)
    rw [unblocked_concat, List.pairwise_append, ih hb']
    simp only [List.pairwise_singleton, List.mem_singleton, forall_eq, true_and]
    refine and_congr_right fun hpair => ?_
    have hopen := (ih hb').mpr hpair
    -- A directory at a side name is one above an earlier file.
    have hdir : ∀ r, r ≠ [] → r.dropLast = f.1.dropLast →
        (S.putAll v es r = some .dir ↔ ∃ e ∈ es, r <+: e.1.dropLast) := by
      intro r hr hrdir
      constructor
      · intro hd
        refine (S.dir_of_putAll hd).resolve_right fun hvr => ?_
        obtain ⟨hroot, hne⟩ := hl.below_of_dropLast hf hr hrdir
        rw [hv.empty r hroot hne] at hvr
        cases hvr
      · rintro ⟨e, he, hpre⟩
        exact hopen.above hl hb' he hpre
    rw [Blocked, hdir _ (S.side_ne_nil _) (S.side_dropLast _),
      hdir _ (S.stage_ne_nil _) (S.stage_dropLast _)]
    constructor
    · intro h e he
      exact ⟨fun hs => h (.inr ⟨e, he, hs⟩), fun hs => h (.inl ⟨e, he, hs⟩)⟩
    · rintro h (⟨e, he, hs⟩ | ⟨e, he, hs⟩)
      · exact (h e he).2 hs
      · exact (h e he).1 hs

/-- The path of an earlier file keeps clear of the side names of a later one. -/
def Clear (p q : List ν) : Prop :=
  p ≠ S.stage q ∧ p ≠ S.side q ∧ ¬ S.stage q <+: p.dropLast ∧ ¬ S.side q <+: p.dropLast

instance (p q : List ν) : Decidable (S.Clear p q) :=
  inferInstanceAs (Decidable (_ ∧ _))

/-- In front of files clear of it, nothing blocks a file. -/
theorem not_blocked_of_clear {v : View ν β} {batch : List (List ν × List β)} {q : List ν}
    (hv : Tidy root [] v) (hl : Layout root paths) (hq : q ∈ paths)
    (hclear : ∀ e ∈ batch, S.Clear e.1 q) : ¬ S.Blocked (S.putAll v batch) q := by
  have hno : ∀ r, r ≠ [] → r.dropLast = q.dropLast → (∀ e ∈ batch, ¬ r <+: e.1.dropLast) →
      S.putAll v batch r ≠ some .dir := by
    intro r hr hdir hpre hd
    rcases S.dir_of_putAll hd with ⟨e, he, hre⟩ | hvr
    · exact hpre e he hre
    · obtain ⟨hroot, hne⟩ := hl.below_of_dropLast hq hr hdir
      obtain ⟨p, hp, -⟩ := hv.dir hroot hne hvr
      exact List.not_mem_nil hp
  rintro (hside | hstage)
  · exact hno _ (S.side_ne_nil q) (S.side_dropLast q) (fun e he => (hclear e he).2.2.2) hside
  · exact hno _ (S.stage_ne_nil q) (S.stage_dropLast q) (fun e he => (hclear e he).2.2.1) hstage

/-- A batch of mutually clear files is written file by file. -/
theorem attemptAll_eq_putAll {v : View ν β} (done : List (List ν × List β))
    {batch : List (List ν × List β)} (hv : Tidy root [] v) (hl : Layout root paths)
    (hb : ∀ e ∈ batch, e.1 ∈ paths)
    (hclear : (done ++ batch).Pairwise fun e f => S.Clear e.1 f.1) :
    S.attemptAll (S.putAll v done) batch = S.putAll v (done ++ batch) := by
  induction batch generalizing done with
  | nil => simp
  | cons e es ih =>
    have hfree : ¬ S.Blocked (S.putAll v done) e.1 :=
      S.not_blocked_of_clear hv hl (hb e List.mem_cons_self) fun d hd =>
        (List.pairwise_append.mp hclear).2.2 d hd e List.mem_cons_self
    have happ : done ++ e :: es = (done ++ [e]) ++ es := by simp
    rw [attemptAll_cons, attempt, if_neg hfree, happ,
      ← ih (done ++ [e]) (fun f hf => hb f (List.mem_cons_of_mem e hf)) (happ ▸ hclear),
        putAll_append]
    rfl

/-- When a file arrives and an earlier one is still there, they are clear. -/
theorem clear_of_attempt {v : View ν β} {p q : List ν} {c d d' : List β} (hpq : p ≠ q)
    (hnew : ∀ c, v q ≠ some (.file c)) (hq : S.attempt v q d q = some (.file d'))
    (hp : S.attempt v q d p = some (.file c)) (hdir : ∀ r, r <+: p.dropLast → v r = some .dir) :
    S.Clear p q := by
  have hfree : ¬ S.Blocked v q := by
    intro hb
    rw [attempt, if_pos hb] at hq
    exact hnew d' (S.file_of_blocked hq)
  rw [attempt, if_neg hfree, put, if_neg hpq] at hp
  have hsides : ¬ (p = S.stage q ∨ p = S.side q) := by
    intro hs
    rw [if_pos hs] at hp
    cases hp
  exact ⟨fun h => hsides (.inl h), fun h => hsides (.inr h),
    fun h => hfree (.inr (hdir _ h)), fun h => hfree (.inl (hdir _ h))⟩

/-- The files of a batch all arrive exactly when every path is clear of the side names
of the files behind it. -/
theorem attemptAll_iff {v : View ν β} {batch : List (List ν × List β)} (hv : Tidy root [] v)
    (hl : Layout root (batch.map Prod.fst)) :
    (∀ e ∈ batch, S.attemptAll v batch e.1 = some (.file e.2)) ↔
      batch.Pairwise fun e f => S.Clear e.1 f.1 := by
  have hmem : ∀ e ∈ batch, e.1 ∈ batch.map Prod.fst := fun e he => List.mem_map_of_mem he
  have hnodup : batch.Pairwise fun e f => e.1 ≠ f.1 := List.pairwise_map.mp hl.nodup
  constructor
  · intro hall
    rw [List.pairwise_iff_forall_sublist]
    intro e f hsub
    obtain ⟨r, r', rfl, her, hfr⟩ := List.cons_sublist_iff.mp hsub
    obtain ⟨l₁, l₂, rfl⟩ := List.append_of_mem her
    obtain ⟨l₃, l₄, rfl⟩ := List.append_of_mem (List.singleton_sublist.mp hfr)
    have hefs : e.1 ≠ f.1 := (List.pairwise_append.mp hnodup).2.2 e her f (by simp)
    have hafter : ∀ g ∈ l₄, f.1 ≠ g.1 := fun g hg =>
      (List.pairwise_cons.mp (List.pairwise_append.mp (List.pairwise_append.mp hnodup).2.1).2.1).1
        g hg
    have hafter' : ∀ g ∈ l₄, e.1 ≠ g.1 := fun g hg =>
      (List.pairwise_append.mp hnodup).2.2 e her g (by simp [hg])
    have hbefore : ∀ g ∈ (l₁ ++ e :: l₂) ++ l₃, f.1 ≠ g.1 := by
      intro g hg
      rw [← List.append_assoc] at hnodup
      exact ((List.pairwise_append.mp hnodup).2.2 g hg f (by simp)).symm
    -- `w` is what the later file meets.
    have hsplit : S.attemptAll v ((l₁ ++ e :: l₂) ++ (l₃ ++ f :: l₄)) =
        S.attemptAll (S.attempt (S.attemptAll v ((l₁ ++ e :: l₂) ++ l₃)) f.1 f.2) l₄ := by
      rw [← List.append_assoc, attemptAll_append, attemptAll_cons]
    have hwdir : ∀ q, q <+: e.1.dropLast →
        S.attemptAll v ((l₁ ++ e :: l₂) ++ l₃) q = some .dir := by
      intro q hq
      have happ : (l₁ ++ e :: l₂) ++ l₃ = l₁ ++ (e :: (l₂ ++ l₃)) := by simp
      rw [happ, attemptAll_append, attemptAll_cons]
      refine S.dir_attemptAll (S.dir_of_attempt (hl.ne_nil _ (hmem e (by simp))) hq) ?_
      rintro g hg rfl
      refine hl.apart g.1 (hmem g ?_) e.1 (hmem e (by simp)) hq
      rcases List.mem_append.mp hg with hg | hg <;> simp [hg]
    have hf := hall f (by simp)
    have he := hall e (by simp)
    rw [hsplit] at hf he
    refine S.clear_of_attempt hefs (fun c hc => ?_) (S.file_of_attemptAll hf hafter)
      (S.file_of_attemptAll he hafter') hwdir
    have hfile := S.file_of_attemptAll hc hbefore
    exact List.not_mem_nil (hv.file (hl.below' (hmem f (by simp))) hfile)
  · intro hclear e he
    rw [show S.attemptAll v batch = S.putAll v batch from
      S.attemptAll_eq_putAll [] hv hl hmem hclear]
    obtain ⟨before, after, rfl⟩ := List.append_of_mem he
    have hafter : ∀ f ∈ after, S.Clear e.1 f.1 := fun f hf =>
      (List.pairwise_cons.mp (List.pairwise_append.mp hclear).2.1).1 f hf
    have hne : ∀ f ∈ after, e.1 ≠ f.1 := fun f hf =>
      (List.pairwise_cons.mp (List.pairwise_append.mp hnodup).2.1).1 f hf
    rw [S.putAll_at fun f hf => ⟨hne f hf, hl.apart _ (hmem e he) _ (hmem f (by simp [hf]))⟩,
      if_neg]
    rintro ⟨f, hf, hs | hs⟩
    · exact (hafter f hf).1 hs
    · exact (hafter f hf).2.1 hs

end SideNames

end MDesk.Core
