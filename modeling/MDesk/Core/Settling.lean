import MDesk.Core.Staging

/-!
# A last pass over a batch

After a batch the files are visited once more in order. A file that is missing must be
an empty one and is made from its staging name; what it takes may be another file of
the batch. At the end a file is missing exactly when a missing file behind it in the
list had its path as staging name.
-/

namespace MDesk.Core

namespace SideNames

section Missing

variable {ν β : Type*} (S : SideNames ν)

/-- The indices of the files that are missing when the pass reaches them: missing from
the start, or taken by a missing file in front. -/
inductive Missing (paths : List (List ν)) (gone : Nat → Prop) : Nat → Prop where
  | gone {e : Nat} (h : gone e) : Missing paths gone e
  | taken {d e : Nat} {p q : List ν} (hlt : d < e) (hp : paths[d]? = some p)
      (hq : paths[e]? = some q) (hstage : q = S.stage p) (h : Missing paths gone d) :
      Missing paths gone e

theorem Missing.mono {paths : List (List ν)} {gone gone' : Nat → Prop} {e : Nat}
    (h : S.Missing paths gone e) (hsub : ∀ e, gone e → gone' e) : S.Missing paths gone' e := by
  induction h with
  | gone h => exact .gone (hsub _ h)
  | taken hlt hp hq hstage _ ih => exact .taken hlt hp hq hstage ih

/-- When the pass has visited the first `i` files, a file is missing that it has not
reached and that was gone, or that a missing file took from it. -/
def Gap (paths : List (List ν)) (gone : Nat → Prop) (i : Nat) (v : View ν β) : Prop :=
  ∀ e p, paths[e]? = some p → (v p = none ↔ (i ≤ e ∧ gone e) ∨
    ∃ d q, d < i ∧ (e < d ∨ i ≤ e) ∧ paths[d]? = some q ∧ p = S.stage q ∧ S.Missing paths gone d)

variable {S} {paths : List (List ν)} {v : View ν β} {gone : Nat → Prop} {i : Nat} {p : List ν}

theorem gap_zero (h : ∀ e p, paths[e]? = some p → (v p = none ↔ gone e)) :
    S.Gap paths gone 0 v := by
  intro e p hp
  rw [h e p hp]
  constructor
  · exact fun hg => .inl ⟨Nat.zero_le e, hg⟩
  · rintro (⟨-, hg⟩ | ⟨d, q, hd, -⟩)
    · exact hg
    · exact absurd hd (Nat.not_lt_zero d)

/-- The file the pass is at is missing exactly when the rules say so. -/
theorem Gap.here (h : S.Gap paths gone i v) (hp : paths[i]? = some p) :
    v p = none ↔ S.Missing paths gone i := by
  rw [h i p hp]
  constructor
  · rintro (⟨-, hg⟩ | ⟨d, q, hd, -, hq, hstage, hm⟩)
    · exact .gone hg
    · exact .taken hd hq hp hstage hm
  · rintro (hg | ⟨hd, hq, hp', hstage, hm⟩)
    · exact .inl ⟨le_rfl, hg⟩
    · rw [hp] at hp'
      cases hp'
      exact .inr ⟨_, _, hd, .inr le_rfl, hq, hstage, hm⟩

/-- A file that is there is left alone. -/
theorem Gap.step_present (h : S.Gap paths gone i v) (hp : paths[i]? = some p) {c : List β}
    (hfile : v p = some (.file c)) : S.Gap paths gone (i + 1) v := by
  have hhere : ¬ S.Missing paths gone i := by
    rw [← h.here hp, hfile]
    nofun
  intro e q hq
  by_cases he : e = i
  · subst he
    rw [hp] at hq
    cases hq
    rw [hfile]
    refine iff_of_false nofun ?_
    rintro (⟨hle, -⟩ | ⟨d, q, hd, hor, -⟩) <;> omega
  · rw [h e q hq]
    constructor
    · rintro (⟨hle, hg⟩ | ⟨d, r, hd, hor, hr, hstage, hm⟩)
      · exact .inl ⟨by omega, hg⟩
      · exact .inr ⟨d, r, by omega, by omega, hr, hstage, hm⟩
    · rintro (⟨hle, hg⟩ | ⟨d, r, hd, hor, hr, hstage, hm⟩)
      · exact .inl ⟨by omega, hg⟩
      · have hdi : d ≠ i := by
          rintro rfl
          exact hhere hm
        exact .inr ⟨d, r, by omega, by omega, hr, hstage, hm⟩

theorem cons_of_drop {e : List ν × Nat} {es : List (List ν × Nat)}
    (h : (e :: es).map Prod.fst = paths.drop i) :
    paths[i]? = some e.1 ∧ es.map Prod.fst = paths.drop (i + 1) := by
  have hhead := congrArg List.head? h
  have htail := congrArg List.tail h
  rw [List.head?_drop] at hhead
  rw [List.tail_drop] at htail
  exact ⟨hhead.symm, htail⟩

end Missing

variable {ν β : Type*} [DecidableEq ν] (S : SideNames ν)

/-- A missing empty file made at `p`, from the staging name if there is one. -/
def adopt (v : View ν β) (p : List ν) : View ν β := fun q =>
  if q = p then some (.file [])
  else if q = S.stage p then none
  else if q <+: p.dropLast then some .dir
  else v q

/-- A pass over the entries, paths with their sizes, that ends without an error. -/
inductive Settles : List (List ν × Nat) → View ν β → View ν β → Prop where
  | nil (v : View ν β) : Settles [] v v
  | present {p : List ν} {c : List β} {es : List (List ν × Nat)} {v v' : View ν β}
      (hfile : v p = some (.file c)) (rest : Settles es v v') :
      Settles ((p, c.length) :: es) v v'
  | adopted {p : List ν} {es : List (List ν × Nat)} {v v' : View ν β} (hfree : v p = none)
      (hdir : v (S.stage p) ≠ some .dir) (hstage : ∀ c, v (S.stage p) = some (.file c) → c = [])
      (rest : Settles es (S.adopt v p) v') : Settles ((p, 0) :: es) v v'

section Pass

variable {root : List ν} {paths : List (List ν)} {v v' : View ν β}

theorem tidy_adopt {p : List ν} (h : Tidy root paths v) (hl : Layout root paths)
    (hp : p ∈ paths) : Tidy root paths (S.adopt v p) where
  reachable {q d} hq := by
    unfold adopt
    split_ifs with hqp
    · rintro -
      have hlen := (hq.trans (hl.below p hp)).length_le
      have hpos := List.length_pos_iff.mpr (hl.ne_nil p hp)
      rw [hqp, List.length_dropLast] at hlen
      omega
    · nofun
    · nofun
    · exact h.reachable hq
  file {q d} hq := by
    unfold adopt
    split_ifs with hqp
    · exact fun _ => hqp ▸ hp
    · nofun
    · nofun
    · exact h.file hq
  dir {q} hq hne := by
    unfold adopt
    split_ifs with hqp hs hd
    · nofun
    · nofun
    · exact fun _ => ⟨p, hp, hd⟩
    · exact h.dir hq hne

/-- Adopting a file changes the other listed paths in one way only. -/
theorem adopt_of_mem {p q : List ν} (hl : Layout root paths) (hp : p ∈ paths) (hq : q ∈ paths)
    (hne : q ≠ p) : S.adopt v p q = if q = S.stage p then none else v q := by
  rw [adopt, if_neg hne, if_neg (hl.apart q hq p hp)]

theorem Settles.tidy {es : List (List ν × Nat)} (h : S.Settles es v v')
    (hv : Tidy root paths v) (hl : Layout root paths) (hes : ∀ e ∈ es, e.1 ∈ paths) :
    Tidy root paths v' := by
  induction h with
  | nil => exact hv
  | present _ _ ih => exact ih hv fun e he => hes e (List.mem_cons_of_mem _ he)
  | adopted _ _ _ _ ih =>
    exact ih (S.tidy_adopt hv hl (hes _ List.mem_cons_self))
      fun e he => hes e (List.mem_cons_of_mem _ he)

variable {gone : Nat → Prop} {i : Nat} {p : List ν}

/-- A missing file is made, and takes what stands at its staging name. -/
theorem Gap.step_adopted (h : S.Gap paths gone i v) (hl : Layout root paths)
    (hp : paths[i]? = some p) (hfree : v p = none) : S.Gap paths gone (i + 1) (S.adopt v p) := by
  have hhere : S.Missing paths gone i := (h.here hp).mp hfree
  have hmem := List.mem_of_getElem? hp
  intro e q hq
  by_cases he : e = i
  · subst he
    rw [hp] at hq
    cases hq
    rw [adopt, if_pos rfl]
    refine iff_of_false nofun ?_
    rintro (⟨hle, -⟩ | ⟨d, q, hd, hor, -⟩) <;> omega
  · have hne : q ≠ p := by
      rintro rfl
      exact he ((List.getElem?_inj (List.getElem?_eq_some_iff.mp hq).1 hl.nodup).mp
        (hq.trans hp.symm))
    rw [S.adopt_of_mem hl hmem (List.mem_of_getElem? hq) hne]
    by_cases hstage : q = S.stage p
    · rw [if_pos hstage]
      exact iff_of_true rfl (.inr ⟨i, p, by omega, by omega, hp, hstage, hhere⟩)
    · rw [if_neg hstage, h e q hq]
      constructor
      · rintro (⟨hle, hg⟩ | ⟨d, r, hd, hor, hr, hs, hm⟩)
        · exact .inl ⟨by omega, hg⟩
        · exact .inr ⟨d, r, by omega, by omega, hr, hs, hm⟩
      · rintro (⟨hle, hg⟩ | ⟨d, r, hd, hor, hr, hs, hm⟩)
        · exact .inl ⟨by omega, hg⟩
        · have hdi : d ≠ i := by
            rintro rfl
            rw [hp] at hr
            cases hr
            exact hstage hs
          exact .inr ⟨d, r, by omega, by omega, hr, hs, hm⟩

/-- The pass from file `i` on. -/
theorem Settles.gap {es : List (List ν × Nat)} (hs : S.Settles es v v') (hl : Layout root paths)
    (hes : es.map Prod.fst = paths.drop i) (h : S.Gap paths gone i v) :
    S.Gap paths gone (i + es.length) v' := by
  induction hs generalizing i with
  | nil => exact h
  | @present p c es v v' hfile _ ih =>
    obtain ⟨hp, hrest⟩ := cons_of_drop hes
    have hend := ih hrest (h.step_present hp hfile)
    rwa [Nat.add_assoc, Nat.add_comm 1, ← List.length_cons] at hend
  | @adopted p es v v' hfree _ _ _ ih =>
    obtain ⟨hp, hrest⟩ := cons_of_drop hes
    have hend := ih hrest (h.step_adopted S hl hp hfree)
    rwa [Nat.add_assoc, Nat.add_comm 1, ← List.length_cons] at hend

/-- After the pass a file is missing exactly when a missing file behind it took it. -/
theorem Settles.missing_iff {es : List (List ν × Nat)} (hs : S.Settles es v v')
    (hl : Layout root paths) (hes : es.map Prod.fst = paths)
    (hgone : ∀ e p, paths[e]? = some p → (v p = none ↔ gone e)) {e : Nat}
    (hp : paths[e]? = some p) :
    v' p = none ↔ ∃ d q, e < d ∧ paths[d]? = some q ∧ p = S.stage q ∧ S.Missing paths gone d := by
  have hend := hs.gap S hl (by rwa [List.drop_zero]) (gap_zero hgone) e p hp
  have hlen : es.length = paths.length := by rw [← hes, List.length_map]
  have he := (List.getElem?_eq_some_iff.mp hp).1
  rw [hend]
  constructor
  · rintro (⟨hle, -⟩ | ⟨d, q, hd, hor, hq, hstage, hm⟩)
    · omega
    · exact ⟨d, q, by omega, hq, hstage, hm⟩
  · rintro ⟨d, q, hlt, hq, hstage, hm⟩
    have hd := (List.getElem?_eq_some_iff.mp hq).1
    exact .inr ⟨d, q, by omega, .inl hlt, hq, hstage, hm⟩

/-- No file the pass has to make has a directory at its staging name. -/
theorem Settles.stage_free {es : List (List ν × Nat)} (hs : S.Settles es v v')
    (hl : Layout root paths) (hv : Tidy root paths v) (hes : ∀ e ∈ es, e.1 ∈ paths)
    (hnodup : (es.map Prod.fst).Nodup) :
    ∀ e ∈ es, v e.1 = none → v (S.stage e.1) ≠ some .dir := by
  induction hs with
  | nil => simp
  | @present p c es v v' hfile _ ih =>
    intro e he hfree
    rcases List.mem_cons.mp he with rfl | he
    · rw [hfile] at hfree
      cases hfree
    · exact ih hv (fun e he => hes e (List.mem_cons_of_mem _ he)) (List.nodup_cons.mp hnodup).2
        e he hfree
  | @adopted p es v v' hfree' hdir _ _ ih =>
    have hp := hes _ List.mem_cons_self
    intro e he hfree
    rcases List.mem_cons.mp he with rfl | he'
    · exact hdir
    · have hep := hes e he
      have hne : e.1 ≠ p := fun h =>
        (List.nodup_cons.mp hnodup).1 (List.mem_map.mpr ⟨e, he', h⟩)
      intro hd
      have hfree₁ : S.adopt v p e.1 = none := by
        rw [S.adopt_of_mem hl hp hep hne, hfree]
        split_ifs <;> rfl
      have hstage : S.stage e.1 ≠ S.stage p := fun h =>
        hne (S.stage_inj (hl.ne_nil _ hep) (hl.ne_nil _ hp) h)
      have hself : S.stage e.1 ≠ p := by
        intro h
        exact hv.not_dir hl hp (h ▸ hd)
      have hd₁ : S.adopt v p (S.stage e.1) = some .dir := by
        rw [adopt, if_neg hself, if_neg hstage, hd]
        split_ifs <;> rfl
      exact ih (S.tidy_adopt hv hl hp) (fun e he => hes e (List.mem_cons_of_mem _ he))
        (List.nodup_cons.mp hnodup).2 e he' hfree₁ hd₁

/-- Adopting a file leaves the directories alone. -/
theorem dir_adopt {p q : List ν} (hfree : v p = none) (hdir : v (S.stage p) ≠ some .dir)
    (hd : v q = some .dir) : S.adopt v p q = some .dir := by
  have hself : q ≠ p := by
    rintro rfl
    rw [hfree] at hd
    cases hd
  have hstage : q ≠ S.stage p := by
    rintro rfl
    exact hdir hd
  rw [adopt, if_neg hself, if_neg hstage, hd]
  split_ifs <;> rfl

/-- Every file the pass has to make is declared empty and has no directory at its
staging name. -/
theorem Settles.made {es : List (List ν × Nat)} (hs : S.Settles es v v') (hl : Layout root paths)
    (hes : es.map Prod.fst = paths.drop i) (h : S.Gap paths gone i v) {e n : Nat}
    (he : es[e]? = some (p, n)) (hm : S.Missing paths gone (i + e)) :
    n = 0 ∧ v (S.stage p) ≠ some .dir := by
  induction hs generalizing i e with
  | nil => simp at he
  | @present r c es v v' hfile _ ih =>
    obtain ⟨hr, hrest⟩ := cons_of_drop hes
    cases e with
    | zero =>
      have hnone := (h.here hr).mpr hm
      rw [hfile] at hnone
      cases hnone
    | succ e =>
      exact ih hrest (h.step_present hr hfile) he (by rwa [Nat.add_right_comm, Nat.add_assoc])
  | @adopted r es v v' hfree hdir _ _ ih =>
    obtain ⟨hr, hrest⟩ := cons_of_drop hes
    cases e with
    | zero =>
      cases he
      exact ⟨rfl, hdir⟩
    | succ e =>
      obtain ⟨hn, hd⟩ := ih hrest (h.step_adopted S hl hr hfree) he
        (by rwa [Nat.add_right_comm, Nat.add_assoc])
      exact ⟨hn, fun hv => hd (S.dir_adopt hfree hdir hv)⟩

/-- A pass over files whose directories are all there succeeds when every file it has to
make is an empty one and takes no file or directory it has dealt with. -/
theorem settles_of_made {es : List (List ν × Nat)} (hl : Layout root paths)
    (hv : Tidy root paths v) (hes : es.map Prod.fst = paths.drop i) (h : S.Gap paths gone i v)
    (habove : ∀ p ∈ paths, ∀ q, q <+: p.dropLast → v q = some .dir)
    (hsizes : ∀ e ∈ es, ∀ c, v e.1 = some (.file c) → c.length = e.2)
    (hmade : ∀ (e : Nat) (p : List ν) (n : Nat), es[e]? = some (p, n) →
      S.Missing paths gone (i + e) →
      n = 0 ∧ v (S.stage p) ≠ some .dir ∧ ∀ j < i + e, paths[j]? ≠ some (S.stage p)) :
    ∃ v', S.Settles es v v' := by
  induction es generalizing i v with
  | nil => exact ⟨v, .nil v⟩
  | cons r es ih =>
    obtain ⟨p, n⟩ := r
    obtain ⟨hp, hrest⟩ := cons_of_drop hes
    have hpmem := List.mem_of_getElem? hp
    have hlater : ∀ (e : Nat) (q : List ν) (m : Nat), es[e]? = some (q, m) →
        S.Missing paths gone (i + 1 + e) →
        m = 0 ∧ v (S.stage q) ≠ some .dir ∧ ∀ j < i + 1 + e, paths[j]? ≠ some (S.stage q) := by
      intro e q m he hm
      rw [Nat.add_right_comm, Nat.add_assoc] at hm ⊢
      exact hmade (e + 1) q m he hm
    rcases hat : v p with _ | ⟨c | _⟩
    · obtain ⟨rfl, hdir, hfirst⟩ := hmade 0 p n rfl ((h.here hp).mp hat)
      have hm := (h.here hp).mp hat
      -- What stands at the staging name is a later file, missing on its turn and empty.
      have hstage : ∀ c, v (S.stage p) = some (.file c) → c = [] := by
        intro c hc
        have hroot := (hl.below_of_dropLast hpmem (S.stage_ne_nil p) (S.stage_dropLast p)).1
        obtain ⟨j, hj⟩ := List.getElem?_of_mem (hv.file hroot hc)
        have hij : i < j := by
          refine Nat.lt_of_not_le fun hle => ?_
          rcases Nat.lt_or_eq_of_le hle with hlt | rfl
          · exact hfirst j (by omega) hj
          · rw [hp] at hj
            exact S.stage_ne p (Option.some.inj hj).symm
        obtain ⟨e, rfl⟩ := Nat.exists_eq_add_of_lt hij
        have hentry := congrArg (·[e]?) hrest
        simp only [List.getElem?_map, List.getElem?_drop] at hentry
        rw [Nat.add_right_comm, hj] at hentry
        obtain ⟨⟨q, m⟩, he, rfl⟩ := Option.map_eq_some_iff.mp hentry
        obtain ⟨hzero, -⟩ := hlater e (S.stage p) m he (.taken (by omega) hp
          (by rwa [Nat.add_right_comm]) rfl hm)
        have hlen := hsizes _ (List.mem_cons_of_mem _ (List.mem_of_getElem? he)) c hc
        exact List.eq_nil_of_length_eq_zero (hlen.trans hzero)
      have hback : ∀ q, S.adopt v p q = some .dir → v q = some .dir := by
        intro q hq
        unfold adopt at hq
        split_ifs at hq with hself hstaged hpre
        · cases hq
        · exact habove p hpmem q hpre
        · exact hq
      obtain ⟨v', hs⟩ := ih (S.tidy_adopt hv hl hpmem) hrest (h.step_adopted S hl hp hat)
        (fun q hq r hr => S.dir_adopt hat hdir (habove q hq r hr))
        (fun e he c hc => by
          have hq : e.1 ∈ paths := by
            have hmem := List.mem_map_of_mem (f := Prod.fst) he
            rw [hrest] at hmem
            exact List.mem_of_mem_drop hmem
          have hne : e.1 ≠ p := by
            intro heq
            have hnodup := hl.nodup.sublist (List.drop_sublist i paths)
            rw [← hes, List.map_cons] at hnodup
            exact (List.nodup_cons.mp hnodup).1 (List.mem_map.mpr ⟨e, he, heq⟩)
          rw [S.adopt_of_mem hl hpmem hq hne] at hc
          split_ifs at hc
          exact hsizes e (List.mem_cons_of_mem _ he) c hc)
        (fun e q m he hm => by
          obtain ⟨hzero, hd, hj⟩ := hlater e q m he hm
          exact ⟨hzero, fun hd' => hd (hback _ hd'), hj⟩)
      exact ⟨v', .adopted hat hdir hstage hs⟩
    · obtain ⟨v', hs⟩ := ih hv hrest (h.step_present hp hat) habove
        (fun e he => hsizes e (List.mem_cons_of_mem _ he)) hlater
      have hlen : c.length = n := hsizes _ List.mem_cons_self c hat
      exact ⟨v', hlen ▸ .present hat hs⟩
    · exact absurd hat (hv.not_dir hl hpmem)

/-- A pass over files whose directories are all there ends with all files, exactly when
every file missing on its turn is an empty one and its staging name is neither a directory
nor an earlier file. -/
theorem settles_all_iff {es : List (List ν × Nat)} (hl : Layout root paths)
    (hv : Tidy root paths v) (hes : es.map Prod.fst = paths)
    (hgone : ∀ e p, paths[e]? = some p → (v p = none ↔ gone e))
    (habove : ∀ p ∈ paths, ∀ q, q <+: p.dropLast → v q = some .dir)
    (hsizes : ∀ e ∈ es, ∀ c, v e.1 = some (.file c) → c.length = e.2) :
    (∃ v', S.Settles es v v' ∧ ∀ p ∈ paths, v' p ≠ none) ↔
      ∀ (e : Nat) (p : List ν) (n : Nat), es[e]? = some (p, n) → S.Missing paths gone e →
        n = 0 ∧ v (S.stage p) ≠ some .dir ∧ ∀ i < e, paths[i]? ≠ some (S.stage p) := by
  have hpath : ∀ (e : Nat) (p : List ν) (n : Nat), es[e]? = some (p, n) →
      paths[e]? = some p := by
    intro e p n he
    rw [← hes, List.getElem?_map, he, Option.map_some]
  constructor
  · rintro ⟨v', hs, hall⟩ e p n he hm
    obtain ⟨hn, hd⟩ := hs.made S hl (by rwa [List.drop_zero]) (gap_zero hgone) he
      (by rwa [Nat.zero_add])
    refine ⟨hn, hd, fun i hi hstage => ?_⟩
    exact hall _ (List.mem_of_getElem? hstage) ((hs.missing_iff S hl hes hgone hstage).mpr
      ⟨e, p, hi, hpath e p n he, rfl, hm⟩)
  · intro hmade
    obtain ⟨v', hs⟩ := S.settles_of_made hl hv (by rwa [List.drop_zero]) (gap_zero hgone) habove
      hsizes fun e p n he hm => by
        rw [Nat.zero_add] at hm ⊢
        exact hmade e p n he hm
    refine ⟨v', hs, fun q hq hnone => ?_⟩
    obtain ⟨e, he⟩ := List.getElem?_of_mem hq
    obtain ⟨d, r, hlt, hr, hstage, hm⟩ := (hs.missing_iff S hl hes hgone he).mp hnone
    obtain ⟨⟨r', n⟩, hentry, rfl⟩ : ∃ f, es[d]? = some f ∧ f.1 = r := by
      rw [← hes, List.getElem?_map] at hr
      exact Option.map_eq_some_iff.mp hr
    exact (hmade d r' n hentry hm).2.2 e hlt (hstage ▸ he)

/-- Files keep their contents through the pass, and all have their sizes. -/
theorem Settles.contents {es : List (List ν × Nat)} {content : List ν → List β}
    (hs : S.Settles es v v') (hl : Layout root paths) (hes : ∀ e ∈ es, e.1 ∈ paths)
    (hv : ∀ q ∈ paths, ∀ c, v q = some (.file c) → c = content q)
    (hempty : ∀ e ∈ es, e.2 = 0 → content e.1 = []) :
    (∀ q ∈ paths, ∀ c, v' q = some (.file c) → c = content q) ∧
      ∀ e ∈ es, (content e.1).length = e.2 := by
  induction hs with
  | nil => exact ⟨hv, by simp⟩
  | @present p c es v v' hfile _ ih =>
    have hc := hv p (hes _ List.mem_cons_self) c hfile
    obtain ⟨hend, hlens⟩ := ih (fun e he => hes e (List.mem_cons_of_mem _ he)) hv
      fun e he => hempty e (List.mem_cons_of_mem _ he)
    refine ⟨hend, fun e he => ?_⟩
    rcases List.mem_cons.mp he with rfl | he
    · rw [← hc]
    · exact hlens e he
  | @adopted p es v v' hfree _ _ _ ih =>
    have hp := hes _ List.mem_cons_self
    have hnil : content p = [] := hempty _ List.mem_cons_self rfl
    have hnext : ∀ q ∈ paths, ∀ c, S.adopt v p q = some (.file c) → c = content q := by
      intro q hq c hc
      by_cases hqp : q = p
      · rw [hqp, adopt, if_pos rfl] at hc
        cases hc
        rw [hqp, hnil]
      · rw [S.adopt_of_mem hl hp hq hqp] at hc
        split_ifs at hc
        exact hv q hq c hc
    obtain ⟨hend, hlens⟩ := ih (fun e he => hes e (List.mem_cons_of_mem _ he)) hnext
      fun e he => hempty e (List.mem_cons_of_mem _ he)
    refine ⟨hend, fun e he => ?_⟩
    rcases List.mem_cons.mp he with rfl | he
    · rw [hnil]
      rfl
    · exact hlens e he

end Pass

end SideNames

end MDesk.Core
