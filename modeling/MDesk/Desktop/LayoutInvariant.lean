import MDesk.Desktop.RemoteLayoutModel

/-!
# What every layout keeps

Only a change of mode moves the panes under the active slot; every other operation takes the
slots as they are, or moves a screen from one of them to another.
-/

namespace MDesk

open Core

namespace Desktop

namespace RemoteLayoutModel

variable {ς : Type*} {m m' m'' : RemoteLayoutModel ς} {i j : Fin 6} {slot : Int}
  {target : RemotePaneTarget} {peerId : String} {display : Int}

/-- What every layout keeps. -/
structure Inv (m : RemoteLayoutModel ς) : Prop where
  distinct : m.slots.Distinct
  active : m.isSplit → m.visible m.activeSlot
  last : m.isSplit → m.lastSplitMode = m.mode

/-- The split stays, no screen is doubled and the active slot stays, or is one shown. -/
structure Rearranges (m m' : RemoteLayoutModel ς) : Prop where
  mode : m'.mode = m.mode
  lastSplitMode : m'.lastSplitMode = m.lastSplitMode
  distinct : m.slots.Distinct → m'.slots.Distinct
  active : m'.activeSlot = m.activeSlot ∨ m.visible m'.activeSlot

theorem Rearranges.refl (m : RemoteLayoutModel ς) : m.Rearranges m := ⟨rfl, rfl, id, .inl rfl⟩

theorem Rearranges.visible (h : m.Rearranges m') : m'.visible i ↔ m.visible i := by
  rw [RemoteLayoutModel.visible, RemoteLayoutModel.visible, h.mode]

theorem Rearranges.isSplit (h : m.Rearranges m') : m'.isSplit ↔ m.isSplit := by
  rw [RemoteLayoutModel.isSplit, RemoteLayoutModel.isSplit, h.mode]

theorem Rearranges.trans (h : m.Rearranges m') (h' : m'.Rearranges m'') : m.Rearranges m'' := by
  refine ⟨h'.mode.trans h.mode, h'.lastSplitMode.trans h.lastSplitMode,
    fun hm => h'.distinct (h.distinct hm), ?_⟩
  rcases h'.active with heq | hvisible
  · rw [heq]
    exact h.active
  · exact .inr (h.visible.mp hvisible)

theorem Inv.rearranges (h : m.Inv) (hm : m.Rearranges m') : m'.Inv where
  distinct := hm.distinct h.distinct
  active hsplit := by
    rw [hm.visible]
    rcases hm.active with heq | hvisible
    · rw [heq]
      exact h.active (hm.isSplit.mp hsplit)
    · exact hvisible
  last hsplit := by
    rw [hm.lastSplitMode, hm.mode]
    exact h.last (hm.isSplit.mp hsplit)

theorem visible_of_slot (h : m.slot slot = some i) : m.visible i := by
  unfold RemoteLayoutModel.slot at h
  split_ifs at h with hslot
  obtain rfl := Option.some.inj h
  change slot.toNat < m.mode.capacity
  omega

theorem slot_of_visible (h : m.visible i) : m.slot i = some i := by
  unfold RemoteLayoutModel.slot
  rw [dif_pos ⟨by omega, by exact_mod_cast h⟩]
  simp

theorem firstVisible_some {p : Option RemotePaneTarget → Bool}
    (h : m.firstVisible p = some i) : m.visible i ∧ p (m.slots i) = true := by
  simpa using Slots.find_some h

theorem firstVisible_none {p : Option RemotePaneTarget → Bool} :
    m.firstVisible p = none ↔ ∀ i, m.visible i → p (m.slots i) = false := by
  simp [firstVisible, Slots.find_none]

theorem rearranges_activate : m.Rearranges (m.activate slot) := by
  unfold activate
  cases h : m.slot slot with
  | none => exact .refl m
  | some i => exact ⟨rfl, rfl, id, .inr (visible_of_slot h)⟩

theorem rearranges_assign {target : Option RemotePaneTarget} :
    m.Rearranges (m.assign slot target) := by
  unfold assign
  cases h : m.slot slot with
  | none => exact .refl m
  | some i =>
    have hvisible := visible_of_slot h
    cases target with
    | none => exact ⟨rfl, rfl, Slots.Distinct.put_none, .inr hvisible⟩
    | some target =>
      simp only
      split
      · split_ifs with hexisting
        · exact ⟨rfl, rfl, id, .inr hexisting⟩
        · exact ⟨rfl, rfl, Slots.Distinct.moveTo, .inr hvisible⟩
      · exact ⟨rfl, rfl, Slots.Distinct.moveTo, .inr hvisible⟩

theorem rearranges_selectPeer : m.Rearranges (m.selectPeer peerId display) := by
  unfold selectPeer
  split_ifs
  · exact .refl m
  · split
    · exact rearranges_activate
    · exact rearranges_assign

theorem rearranges_placeNewPeer : m.Rearranges (m.placeNewPeer peerId display) := by
  unfold placeNewPeer
  split_ifs
  · exact .refl m
  all_goals
    split
    · exact rearranges_activate
    · exact rearranges_assign

theorem rearranges_moveToEmpty : m.Rearranges (m.moveToEmpty slot target) := by
  unfold moveToEmpty
  cases h : m.slot slot with
  | none => exact .refl m
  | some i =>
    simp only
    split_ifs
    · exact .refl m
    · exact ⟨rfl, rfl, Slots.Distinct.moveTo, .inr (visible_of_slot h)⟩

theorem nodup_eraseDups {α : Type*} [DecidableEq α] (l : List α) : l.eraseDups.Nodup := by
  induction h : l.length using Nat.strong_induction_on generalizing l with
  | _ n ih =>
    cases l with
    | nil => exact List.nodup_nil
    | cons a l =>
      have hshort : (l.filter fun b => !b == a).length < n := by
        have := List.length_filter_le (fun b => !b == a) l
        rw [List.length_cons] at h
        omega
      rw [List.eraseDups_cons, List.nodup_cons]
      exact ⟨by simp [List.mem_eraseDups], ih _ hshort _ rfl⟩

theorem rearranges_arrange {targets : List RemotePaneTarget} :
    m.Rearranges (m.arrange targets) := by
  unfold arrange
  split_ifs
  · refine ⟨rfl, rfl, fun _ i j a hi hj => ?_, .inr m.mode.capacity_pos⟩
    have hlength := (List.getElem?_eq_some_iff.mp hi).1
    have hnodup : (targets.eraseDups.take m.mode.capacity).Nodup :=
      (List.take_sublist _ _).nodup (nodup_eraseDups targets)
    exact Fin.ext ((List.getElem?_inj hlength hnodup).mp (hi.trans hj.symm))
  · exact .refl m

theorem rearranges_fillEmpty {peers : List String} {targets : List RemotePaneTarget} :
    m.Rearranges (m.fillEmpty peers targets) := by
  induction targets generalizing m peers with
  | nil => exact .refl m
  | cons target targets ih =>
    unfold fillEmpty
    split_ifs
    · exact ih
    · split
      · rename_i empty hempty
        have hmove : m.Rearranges { m with slots := m.slots.moveTo empty target } :=
          ⟨rfl, rfl, Slots.Distinct.moveTo, .inl rfl⟩
        exact hmove.trans ih
      · exact .refl m

theorem rearranges_retainPeers {peers : List String} : m.Rearranges (m.retainPeers peers) := by
  refine ⟨rfl, rfl, fun h i j a hi hj => ?_, .inl rfl⟩
  exact h i j a (Option.filter_eq_some_iff.mp hi).1 (Option.filter_eq_some_iff.mp hj).1

variable {mode : RemoteLayoutMode} {initialTarget : Option RemotePaneTarget}

theorem distinct_seeded (h : m.slots.Distinct) : (m.seeded initialTarget).Distinct := by
  unfold seeded
  split_ifs with hempty
  · cases initialTarget with
    | none => exact h.put_none
    | some target => exact h.put_some fun j => by simp [hempty j]
  · exact h

theorem Inv.setMode (h : m.Inv) : (m.setMode mode initialTarget).Inv := by
  unfold RemoteLayoutModel.setMode
  split_ifs with hsame hsingle hnarrow
  · exact h
  · exact ⟨h.distinct, fun hsplit => absurd hsingle hsplit, fun hsplit => absurd hsingle hsplit⟩
  · exact ⟨(distinct_seeded h.distinct).swap, fun _ => mode.capacity_pos, fun _ => rfl⟩
  · exact ⟨distinct_seeded h.distinct, fun _ => Nat.lt_of_not_le hnarrow, fun _ => rfl⟩

theorem Inv.operate (h : m.Inv) (op : LayoutOperation ς) : (m.operate op).Inv := by
  cases op with
  | setMode mode initialTarget => exact h.setMode
  | restoreSplit => exact h.setMode
  | activate slot => exact h.rearranges rearranges_activate
  | assign slot target => exact h.rearranges rearranges_assign
  | selectPeer peerId defaultDisplay => exact h.rearranges rearranges_selectPeer
  | placeNewPeer peerId defaultDisplay => exact h.rearranges rearranges_placeNewPeer
  | moveToEmpty slot target => exact h.rearranges rearranges_moveToEmpty
  | removeTarget target => exact h.rearranges ⟨rfl, rfl, Slots.Distinct.remove, .inl rfl⟩
  | arrange targets => exact h.rearranges rearranges_arrange
  | fillEmptyPeers targets =>
    refine h.rearranges ?_
    change m.Rearranges (m.fillEmptyPeers targets)
    unfold fillEmptyPeers
    split_ifs
    · exact rearranges_fillEmpty
    · exact .refl m
  | retainPeers peers => exact h.rearranges rearranges_retainPeers
  | resize resized => exact h.rearranges ⟨rfl, rfl, id, .inl rfl⟩

/-- The layout holds a screen, on view or not. -/
def Holds (m : RemoteLayoutModel ς) (target : RemotePaneTarget) : Prop :=
  ∃ i, m.slots i = some target

instance (m : RemoteLayoutModel ς) (target : RemotePaneTarget) : Decidable (m.Holds target) :=
  inferInstanceAs (Decidable (∃ i, m.slots i = some target))

theorem not_holds_removeTarget (h : m.slots.Distinct) : ¬(m.removeTarget target).Holds target := by
  rintro ⟨i, hi⟩
  change m.slots.remove target i = some target at hi
  rw [h.remove_apply] at hi
  split_ifs at hi with hold
  exact hold hi

theorem holds_seeded (h : m.Holds target) : m.seeded initialTarget = m.slots := by
  obtain ⟨i, hi⟩ := h
  refine if_neg fun hempty => ?_
  rw [hempty i] at hi
  cases hi

/-- A change of mode loses no screen. -/
theorem Holds.setMode (h : m.Holds target) : (m.setMode mode initialTarget).Holds target := by
  unfold RemoteLayoutModel.setMode
  obtain ⟨i, hi⟩ := h
  split_ifs
  · exact ⟨i, hi⟩
  · exact ⟨i, hi⟩
  · refine ⟨Equiv.swap 0 m.activeSlot i, ?_⟩
    simp only [holds_seeded ⟨i, hi⟩, Slots.swap_apply, Equiv.swap_apply_self, hi]
  · refine ⟨i, ?_⟩
    simp only [holds_seeded ⟨i, hi⟩, hi]

/-- A change of mode brings no screen in but the one an empty layout begins with. -/
theorem holds_of_setMode (h : (m.setMode mode initialTarget).Holds target) :
    m.Holds target ∨ (∀ i, m.slots i = none) ∧ initialTarget = some target := by
  have hseeded (i : Fin 6) (hi : m.seeded initialTarget i = some target) :
      m.Holds target ∨ (∀ i, m.slots i = none) ∧ initialTarget = some target := by
    unfold seeded at hi
    split_ifs at hi with hempty
    · rw [Slots.put_apply] at hi
      split_ifs at hi
      · exact .inr ⟨hempty, hi⟩
      · exact .inl ⟨i, hi⟩
    · exact .inl ⟨i, hi⟩
  unfold RemoteLayoutModel.setMode at h
  obtain ⟨i, hi⟩ := h
  split_ifs at hi
  · exact .inl ⟨i, hi⟩
  · exact .inl ⟨i, hi⟩
  · simp only [Slots.swap_apply] at hi
    exact hseeded _ hi
  · exact hseeded i hi

/-- A change of mode keeps the active screen active. -/
theorem activeTarget_setMode (h : m.activeTarget = some target) :
    (m.setMode mode initialTarget).activeTarget = some target := by
  have hseeded : m.seeded initialTarget = m.slots := holds_seeded ⟨m.activeSlot, h⟩
  unfold RemoteLayoutModel.setMode
  split_ifs
  · exact h
  · exact h
  · unfold activeTarget
    simp only [hseeded, Slots.swap_apply, Equiv.swap_apply_left]
    exact h
  · unfold activeTarget
    simp only [hseeded]
    exact h

theorem seeded_none : m.seeded none = m.slots := by
  unfold seeded
  split_ifs with hempty
  · funext i
    rw [Slots.put_apply, hempty i, ite_self]
  · rfl

/-- A split that was left for the single view is back as it was. -/
theorem Inv.restore (h : m.Inv) (hsplit : m.isSplit) :
    (m.setMode .single initialTarget).restoreSplit = m := by
  have hwide : ¬m.mode.capacity ≤ m.activeSlot := Nat.not_le.mpr (h.active hsplit)
  have hlast := h.last hsplit
  obtain ⟨mode, lastSplitMode, slots, activeSlot, sizes⟩ := m
  obtain rfl : lastSplitMode = mode := hlast
  have hsingle : RemoteLayoutModel.setMode ⟨lastSplitMode, lastSplitMode, slots, activeSlot, sizes⟩
      .single initialTarget = ⟨.single, lastSplitMode, slots, activeSlot, sizes⟩ := by
    rw [RemoteLayoutModel.setMode, if_neg (Ne.symm hsplit), if_pos rfl]
  rw [hsingle, restoreSplit, RemoteLayoutModel.setMode, if_neg hsplit, if_neg hsplit,
    if_neg hwide, seeded_none]

theorem mem_visibleTargets (hsplit : m.isSplit) (hvisible : m.visible i)
    (h : m.slots i = some target) : target ∈ m.visibleTargets := by
  unfold visibleTargets
  rw [if_pos hsplit, List.mem_filterMap]
  exact ⟨i, List.mem_filter.mpr ⟨List.mem_finRange i, decide_eq_true hvisible⟩, h⟩

/-- The peer is on view, in the active pane. -/
def Shows (m : RemoteLayoutModel ς) (peerId : String) : Prop :=
  ∃ target ∈ m.visibleTargets, m.activeTarget = some target ∧ target.peerId = peerId

theorem hasPeer_iff {target : Option RemotePaneTarget} : hasPeer peerId target = true ↔
    ∃ shown, target = some shown ∧ shown.peerId = peerId := by
  cases target with
  | none => simp [hasPeer]
  | some target => simp [hasPeer]

theorem shows_of_hasPeer (hsplit : m.isSplit) (hvisible : m.visible m.activeSlot)
    (h : hasPeer peerId m.activeTarget = true) : m.Shows peerId := by
  obtain ⟨target, htarget, hpeer⟩ := hasPeer_iff.mp h
  exact ⟨target, mem_visibleTargets hsplit hvisible htarget, htarget, hpeer⟩

theorem shows_activate (hsplit : m.isSplit) (hvisible : m.visible i)
    (h : hasPeer peerId (m.slots i) = true) : (m.activate i).Shows peerId := by
  unfold activate
  rw [slot_of_visible hvisible]
  exact shows_of_hasPeer hsplit hvisible h

/-- A peer that is not on view is put into a pane. -/
theorem shows_assign (hsplit : m.isSplit) (hvisible : m.visible i)
    (h : m.firstVisible (hasPeer peerId) = none) :
    (m.assign i (some ⟨peerId, display⟩)).Shows peerId := by
  have hhidden (j : Fin 6) (hj : m.slots j = some ⟨peerId, display⟩) : ¬m.visible j := by
    intro hvisible
    have hnone := firstVisible_none.mp h j hvisible
    rw [hj] at hnone
    simp [hasPeer] at hnone
  have hmove : ({ m with slots := m.slots.moveTo i ⟨peerId, display⟩, activeSlot := i } :
      RemoteLayoutModel ς).Shows peerId := by
    refine shows_of_hasPeer hsplit hvisible (hasPeer_iff.mpr ⟨⟨peerId, display⟩, ?_, rfl⟩)
    exact Slots.put_self
  unfold assign
  rw [slot_of_visible hvisible]
  simp only
  split
  · rename_i existing hexisting
    rw [if_neg (hhidden existing (Slots.indexOf_some hexisting))]
    exact hmove
  · exact hmove

theorem Inv.shows_selectPeer (h : m.Inv) (hsplit : m.isSplit) :
    (m.selectPeer peerId display).Shows peerId := by
  unfold selectPeer
  split_ifs with hactive
  · exact shows_of_hasPeer hsplit (h.active hsplit) (hactive.resolve_left (not_not.mpr hsplit))
  · split
    · rename_i index hindex
      exact shows_activate hsplit (firstVisible_some hindex).1 (firstVisible_some hindex).2
    · rename_i hnone
      exact shows_assign hsplit (h.active hsplit) hnone

theorem Inv.shows_placeNewPeer (h : m.Inv) (hsplit : m.isSplit) :
    (m.placeNewPeer peerId display).Shows peerId := by
  have hempty : m.visible ((if m.activeTarget = none then some m.activeSlot
      else m.firstVisible Option.isNone).getD 0) := by
    split_ifs
    · exact h.active hsplit
    · cases hfirst : m.firstVisible Option.isNone with
      | none => exact m.mode.capacity_pos
      | some i => exact (firstVisible_some hfirst).1
  unfold placeNewPeer
  by_cases hactive : ¬m.isSplit ∨ hasPeer peerId m.activeTarget
  · rw [if_pos hactive]
    exact shows_of_hasPeer hsplit (h.active hsplit) (hactive.resolve_left (not_not.mpr hsplit))
  · rw [if_neg hactive]
    split
    · rename_i existing hexisting
      exact shows_activate hsplit (firstVisible_some hexisting).1 (firstVisible_some hexisting).2
    · rename_i hnone
      exact shows_assign hsplit hempty hnone

/-- What filling leaves of the visible slots: the taken ones, and in the others at most one
screen of each peer that was not there. -/
structure Fills (m : RemoteLayoutModel ς) (peers : List String) (m' : RemoteLayoutModel ς) :
    Prop where
  taken : ∀ i target, m.visible i → m.slots i = some target → m'.slots i = some target
  peer : ∀ i target, m.visible i → m.slots i = none → m'.slots i = some target →
    target.peerId ∉ peers
  once : ∀ i j target target', m.visible i → m.visible j → m.slots i = none →
    m.slots j = none → m'.slots i = some target → m'.slots j = some target' →
    target.peerId = target'.peerId → i = j

theorem Fills.refl {peers : List String} : m.Fills peers m where
  taken _ _ _ h := h
  peer i target _ hnone h := by
    rw [hnone] at h
    cases h
  once i j target _ _ _ hnone _ h _ _ := by
    rw [hnone] at h
    cases h

/-- One more pane is filled. -/
theorem Fills.step {peers : List String} {empty : Fin 6} (hdistinct : m.slots.Distinct)
    (hpeers : ∀ i target, m.visible i → m.slots i = some target → target.peerId ∈ peers)
    (hvisible : m.visible empty) (hempty : m.slots empty = none) (hnew : target.peerId ∉ peers)
    (h : Fills { m with slots := m.slots.moveTo empty target } (target.peerId :: peers) m') :
    m.Fills peers m' := by
  have hstay (i : Fin 6) (hi : m.visible i) (hne : i ≠ empty) :
      m.slots.moveTo empty target i = m.slots i := by
    rw [hdistinct.moveTo_apply, if_neg hne, if_neg]
    exact fun heq => hnew (hpeers i target hi heq)
  have hfilled : m'.slots empty = some target := h.taken empty target hvisible Slots.put_self
  have hother (i : Fin 6) (shown : RemotePaneTarget) (hi : m.visible i) (hne : i ≠ empty)
      (hnone : m.slots i = none) (hshown : m'.slots i = some shown) :
      shown.peerId ∉ target.peerId :: peers :=
    h.peer i shown hi ((hstay i hi hne).trans hnone) hshown
  refine ⟨fun i shown hi hshown => ?_, fun i shown hi hnone hshown => ?_,
    fun i j shown shown' hi hj hnonei hnonej hshowni hshownj hsame => ?_⟩
  · have hne : i ≠ empty := by
      rintro rfl
      rw [hempty] at hshown
      cases hshown
    exact h.taken i shown hi ((hstay i hi hne).trans hshown)
  · by_cases hne : i = empty
    · obtain rfl : target = shown := Option.some.inj (by rw [← hfilled, ← hne, hshown])
      exact hnew
    · exact fun hmem => hother i shown hi hne hnone hshown (List.mem_cons_of_mem _ hmem)
  · by_cases hnei : i = empty
    · by_cases hnej : j = empty
      · rw [hnei, hnej]
      · obtain rfl : target = shown := Option.some.inj (by rw [← hfilled, ← hnei, hshowni])
        refine absurd ?_ (hother j shown' hj hnej hnonej hshownj)
        rw [hsame]
        exact List.mem_cons_self
    · by_cases hnej : j = empty
      · obtain rfl : target = shown' := Option.some.inj (by rw [← hfilled, ← hnej, hshownj])
        refine absurd ?_ (hother i shown hi hnei hnonei hshowni)
        rw [hsame]
        exact List.mem_cons_self
      · exact h.once i j shown shown' hi hj ((hstay i hi hnei).trans hnonei)
          ((hstay j hj hnej).trans hnonej) hshowni hshownj hsame

theorem fills_fillEmpty {peers : List String} {targets : List RemotePaneTarget}
    (hdistinct : m.slots.Distinct)
    (hpeers : ∀ i target, m.visible i → m.slots i = some target → target.peerId ∈ peers) :
    m.Fills peers (m.fillEmpty peers targets) := by
  induction targets generalizing m peers with
  | nil => exact .refl
  | cons target targets ih =>
    unfold fillEmpty
    split_ifs with hmem
    · exact ih hdistinct hpeers
    · split
      · rename_i empty hfirst
        obtain ⟨hvisible, hnone⟩ := firstVisible_some hfirst
        refine .step hdistinct hpeers hvisible (Option.isNone_iff_eq_none.mp hnone) hmem
          (ih hdistinct.moveTo fun i shown hi hshown => ?_)
        simp only [hdistinct.moveTo_apply] at hshown
        split_ifs at hshown
        · rw [Option.some.inj hshown]
          exact List.mem_cons_self
        · exact List.mem_cons_of_mem _ (hpeers i shown hi hshown)
      · exact .refl

theorem Inv.fills_fillEmptyPeers (h : m.Inv) {targets : List RemotePaneTarget} :
    m.Fills (m.visibleTargets.map RemotePaneTarget.peerId) (m.fillEmptyPeers targets) := by
  unfold fillEmptyPeers
  split_ifs with hsplit
  · exact fills_fillEmpty h.distinct fun i target hi htarget =>
      List.mem_map_of_mem (mem_visibleTargets hsplit hi htarget)
  · exact .refl

/-- The promises of a layout, of its slots and of what the next operation does with them. -/
structure Sound (m : RemoteLayoutModel ς) : Prop where
  distinct : ∀ i j target, m.slots i = some target → m.slots j = some target → i = j
  active : m.isSplit → (m.activeSlot : Nat) < m.mode.capacity
  loses_none : ∀ mode initialTarget target, m.Holds target →
    (m.setMode mode initialTarget).Holds target
  invents_none : ∀ mode initialTarget target, (m.setMode mode initialTarget).Holds target →
    m.Holds target ∨ (∀ i, m.slots i = none) ∧ initialTarget = some target
  keeps_active : ∀ mode initialTarget target, m.activeTarget = some target →
    (m.setMode mode initialTarget).activeTarget = some target
  places : ∀ peerId display, m.isSplit → (m.placeNewPeer peerId display).Shows peerId
  selects : ∀ peerId display, m.isSplit → (m.selectPeer peerId display).Shows peerId
  fills : ∀ targets, m.Fills (m.visibleTargets.map RemotePaneTarget.peerId)
    (m.fillEmptyPeers targets)
  restores : ∀ initialTarget, m.isSplit → (m.setMode .single initialTarget).restoreSplit = m
  single : ∀ peerId display, ¬m.isSplit →
    m.placeNewPeer peerId display = m ∧ m.selectPeer peerId display = m

theorem Inv.sound (h : m.Inv) : m.Sound where
  distinct := h.distinct
  active := h.active
  loses_none _ _ _ := Holds.setMode
  invents_none _ _ _ := holds_of_setMode
  keeps_active _ _ _ := activeTarget_setMode
  places _ _ := h.shows_placeNewPeer
  selects _ _ := h.shows_selectPeer
  fills _ := h.fills_fillEmptyPeers
  restores _ := h.restore
  single _ _ hsingle := ⟨if_pos (.inl hsingle), if_pos (.inl hsingle)⟩

theorem inv_new (sizes : ς) : (new sizes).Inv where
  distinct i j target hi := by cases hi
  active hsplit := absurd rfl hsplit
  last hsplit := absurd rfl hsplit

/-- Every layout that operations make of a new one keeps its promises. -/
theorem layout_sound (sizes : ς) (ops : List (LayoutOperation ς)) :
    (run operate (new sizes) ops).Sound := by
  have hall : Allowed operate (fun _ _ => True) (new sizes) ops :=
    allowed_of_forall (fun _ _ => trivial) _ ops
  exact (run_keeps (fun _ op hm _ => hm.operate op) (inv_new sizes) hall).sound

/-- In the single view a new peer gets no pane. -/
theorem single_places_none : ¬∀ (ops : List (LayoutOperation Unit)) (peerId : String)
    (display : Int), ((run operate (new ()) ops).placeNewPeer peerId display).Shows peerId := by
  intro hall
  obtain ⟨target, htarget, -⟩ := hall [] "A" 0
  cases htarget

end RemoteLayoutModel

end Desktop

end MDesk
