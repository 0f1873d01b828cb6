import Mathlib.Data.List.Perm.Subperm
import MDesk.Clipboard.Registry

/-!
# What the registry of clipboard streams admits

Eight senders and 32 snapshots at most, whatever the connections do and in whatever order. A
snapshot makes room only while no sender uses it, and a sender reads a path of a snapshot that was
remembered for its connection, since that was last gone.
-/

namespace MDesk.Clipboard

open MDesk.Core

namespace Registry

/-- The generation was described to the connection, which has not gone since. -/
def Granted (log : List RegistryEntry) (conn : Int) (generation : Nat)
    (paths : List (Option PathBuf)) : Prop :=
  ∃ pre post, log = pre ++ .remembered conn generation paths :: post ∧ .disconnected conn ∉ post

/-- Every sender was opened for a path of a generation that its connection had been granted. -/
def Authorised (log : List RegistryEntry) : Prop :=
  ∀ pre post conn f path, log = pre ++ .opened conn f path :: post →
    ∃ paths, Granted pre conn f.generation paths ∧ paths[f.index]?.join = some path

/-- An entry that opens nothing. -/
def Quiet (e : RegistryEntry) : Prop := ∀ conn f path, e ≠ .opened conn f path

variable {log : List RegistryEntry} {conn : Int} {generation : Nat} {paths : List (Option PathBuf)}

theorem Granted.append (h : Granted log conn generation paths) {es : List RegistryEntry}
    (hes : .disconnected conn ∉ es) : Granted (log ++ es) conn generation paths := by
  obtain ⟨pre, post, rfl, hpost⟩ := h
  refine ⟨pre, post ++ es, by simp, fun hmem => ?_⟩
  rcases List.mem_append.mp hmem with hold | hnew
  · exact hpost hold
  · exact hes hnew

theorem granted_remembered (log : List RegistryEntry) (conn : Int) (generation : Nat)
    (paths : List (Option PathBuf)) :
    Granted (log ++ [.remembered conn generation paths]) conn generation paths :=
  ⟨log, [], rfl, List.not_mem_nil⟩

/-- An opened sender of a longer log is one of the log or of what was added. -/
theorem opened_split {es pre post : List RegistryEntry} {f : Frame} {path : PathBuf}
    (h : log ++ es = pre ++ .opened conn f path :: post) :
    (∃ post', log = pre ++ .opened conn f path :: post') ∨
      ∃ pre', pre = log ++ pre' ∧ es = pre' ++ .opened conn f path :: post := by
  rcases List.append_eq_append_iff.mp h with ⟨pre', hpre, hes⟩ | ⟨rest, hlog, hpost⟩
  · exact .inr ⟨pre', hpre, hes⟩
  · cases rest with
    | nil => exact .inr ⟨[], by simpa using hlog.symm, by simpa using hpost.symm⟩
    | cons e rest =>
      obtain ⟨rfl, -⟩ := List.cons.inj hpost
      exact .inl ⟨rest, hlog⟩

theorem Authorised.append (h : Authorised log) {es : List RegistryEntry}
    (hes : ∀ e ∈ es, Quiet e) : Authorised (log ++ es) := by
  intro pre post conn f path hsplit
  rcases opened_split hsplit with ⟨post', hlog⟩ | ⟨pre', -, rfl⟩
  · exact h pre post' conn f path hlog
  · exact absurd rfl (hes (.opened conn f path) (by simp) conn f path)

theorem Authorised.opened (h : Authorised log) {f : Frame} {path : PathBuf}
    (hgranted : Granted log conn f.generation paths) (hpath : paths[f.index]?.join = some path) :
    Authorised (log ++ [.opened conn f path]) := by
  intro pre post conn' f' path' hsplit
  rcases opened_split hsplit with ⟨post', hlog⟩ | ⟨pre', rfl, hone⟩
  · exact h pre post' conn' f' path' hlog
  · cases pre' with
    | nil =>
      cases hone
      rw [List.append_nil]
      exact ⟨paths, hgranted, hpath⟩
    | cons e pre' => simp at hone

/-- What holds of every registry that can be reached. -/
structure Inv (s : Registry) : Prop where
  sending_le : s.sending.len ≤ maxStreams
  snapshots_le : s.snapshots.len ≤ 32
  granted : ∀ generation snapshot, s.snapshots.get generation = some snapshot →
    ∀ conn ∈ snapshot.clients, Granted s.log conn generation snapshot.paths
  authorised : Authorised s.log
  opened : ∀ key sender, s.sending.get key = some sender →
    .opened key.1 sender.frame sender.path ∈ s.log

/-- A registry whose snapshots and senders are those of another, or fewer, with the same paths:
nothing was opened and nobody has gone. -/
structure Tamer (s s' : Registry) : Prop where
  sending_le : s'.sending.len ≤ s.sending.len
  snapshots_le : s'.snapshots.len ≤ s.snapshots.len
  snapshot : ∀ generation snapshot', s'.snapshots.get generation = some snapshot' →
    ∃ snapshot, s.snapshots.get generation = some snapshot ∧ snapshot'.paths = snapshot.paths ∧
      snapshot'.clients ⊆ snapshot.clients
  sender : ∀ key sender', s'.sending.get key = some sender' →
    ∃ sender, s.sending.get key = some sender ∧ sender'.frame = sender.frame ∧
      sender'.path = sender.path
  log : ∃ es, s'.log = s.log ++ es ∧ ∀ e ∈ es, Quiet e ∧ ∀ conn, e ≠ .disconnected conn

variable {s s' s'' : Registry}

theorem Inv.of_tamer (h : Inv s) (ht : Tamer s s') : Inv s' := by
  obtain ⟨es, hlog, hes⟩ := ht.log
  refine ⟨ht.sending_le.trans h.sending_le, ht.snapshots_le.trans h.snapshots_le, ?_, ?_, ?_⟩
  · intro generation snapshot' hget conn hconn
    obtain ⟨snapshot, hold, hpaths, hclients⟩ := ht.snapshot generation snapshot' hget
    rw [hlog, hpaths]
    exact (h.granted generation snapshot hold conn (hclients hconn)).append fun hmem =>
      (hes _ hmem).2 conn rfl
  · rw [hlog]
    exact h.authorised.append fun e he => (hes e he).1
  · intro key sender' hget
    obtain ⟨sender, hold, hframe, hpath⟩ := ht.sender key sender' hget
    rw [hlog, hframe, hpath]
    exact List.mem_append_left _ (h.opened key sender hold)

/-- Only the rest of the state changes, and the log by frames. -/
theorem tamer_of_eq (hsending : s'.sending = s.sending) (hsnapshots : s'.snapshots = s.snapshots)
    (hlog : ∃ es, s'.log = s.log ++ es ∧ ∀ e ∈ es, ∃ conn f, e = .emitted conn f) :
    Tamer s s' := by
  obtain ⟨es, hlog, hes⟩ := hlog
  refine ⟨hsending ▸ Nat.le_refl _, hsnapshots ▸ Nat.le_refl _, ?_, ?_, es, hlog, ?_⟩
  · intro generation snapshot hget
    exact ⟨snapshot, hsnapshots ▸ hget, rfl, List.Subset.refl _⟩
  · intro key sender hget
    exact ⟨sender, hsending ▸ hget, rfl, rfl⟩
  · intro e he
    obtain ⟨conn, f, rfl⟩ := hes e he
    exact ⟨nofun, nofun⟩

theorem tamer_refl (s : Registry) : Tamer s s := tamer_of_eq rfl rfl ⟨[], by simp, nofun⟩

theorem tamer_emit (s : Registry) (conn : Int) (f : Frame) : Tamer s (s.emit conn f) :=
  tamer_of_eq rfl rfl ⟨[.emitted conn f], rfl, by simp⟩

theorem Tamer.emit (h : Tamer s s') (conn : Int) (f : Frame) : Tamer s (s'.emit conn f) := by
  obtain ⟨es, hlog, hes⟩ := h.log
  refine ⟨h.sending_le, h.snapshots_le, h.snapshot, h.sender, es ++ [.emitted conn f], ?_, ?_⟩
  · rw [← List.append_assoc, ← hlog]
    rfl
  · intro e he
    rcases List.mem_append.mp he with hold | hnew
    · exact hes e hold
    · rw [List.mem_singleton.mp hnew]
      exact ⟨nofun, nofun⟩

/-- A sender changes without a change of its request and its path. -/
theorem tamer_modify (s : Registry) (key : StreamKey) {φ : Sender → Sender}
    (hφ : ∀ sender, (φ sender).frame = sender.frame ∧ (φ sender).path = sender.path) :
    Tamer s { s with sending := s.sending.modify key φ } := by
  refine ⟨Nat.le_of_eq (Table.len_modify φ), Nat.le_refl _, ?_, ?_, [], by simp, nofun⟩
  · intro generation snapshot hget
    exact ⟨snapshot, hget, rfl, List.Subset.refl _⟩
  · intro key' sender' hget
    rw [Table.get_modify] at hget
    split_ifs at hget with heq
    · obtain ⟨sender, hold, rfl⟩ := Option.map_eq_some_iff.mp hget
      exact ⟨sender, heq ▸ hold, hφ sender⟩
    · exact ⟨sender', hget, rfl, rfl⟩

/-- A step of a thread, with the frames it sends. -/
theorem tamer_advance {key : StreamKey} {sender sender' : Sender} (frames : List Frame)
    (hget : s.sending.get key = some sender) (hframe : sender'.frame = sender.frame)
    (hpath : sender'.path = sender.path) :
    Tamer s { s with
      sending := s.sending.insert key sender'
      log := s.log ++ frames.map (.emitted key.1) } := by
  refine ⟨Nat.le_of_eq (Table.len_insert_of_some hget), Nat.le_refl _, ?_, ?_, _, rfl, ?_⟩
  · intro generation snapshot hget
    exact ⟨snapshot, hget, rfl, List.Subset.refl _⟩
  · intro key' other hother
    rw [Table.get_insert] at hother
    split_ifs at hother with heq
    · cases hother
      exact ⟨sender, heq ▸ hget, hframe, hpath⟩
    · exact ⟨other, hother, rfl, rfl⟩
  · intro e he
    obtain ⟨f, -, rfl⟩ := List.mem_map.mp he
    exact ⟨by rintro _ _ _ ⟨⟩, by rintro _ ⟨⟩⟩

/-- The thread keeps its request and its path. -/
theorem advance_keeps (P : Platform) (sender : Sender) (fs : Fs) :
    (sender.advance P fs).1.frame = sender.frame ∧ (sender.advance P fs).1.path = sender.path := by
  unfold Sender.advance
  cases sender.phase with
  | opening =>
    dsimp only
    unfold Sender.openFile
    split_ifs
    · exact ⟨rfl, rfl⟩
    · split
      · split_ifs
        · exact ⟨rfl, rfl⟩
        · split
          · exact ⟨rfl, rfl⟩
          · exact ⟨rfl, rfl⟩
      · exact ⟨rfl, rfl⟩
  | waiting job =>
    dsimp only
    split_ifs <;> exact ⟨rfl, rfl⟩
  | reading job =>
    dsimp only
    unfold Sender.readBlock
    split
    · split_ifs
      · exact ⟨rfl, rfl⟩
      · exact ⟨rfl, rfl⟩
    · exact ⟨rfl, rfl⟩
  | counting job block =>
    dsimp only
    split_ifs <;> exact ⟨rfl, rfl⟩
  | emitting job block => exact ⟨rfl, rfl⟩
  | stopped failed => exact ⟨rfl, rfl⟩

/-- A snapshot is marked as used. -/
theorem tamer_used {generation : Nat} {snapshot : Snapshot}
    (hget : s.snapshots.get generation = some snapshot) (now : Nat) :
    Tamer s { s with
      snapshots := s.snapshots.insert generation { snapshot with used := now } } := by
  refine ⟨Nat.le_refl _, Nat.le_of_eq (Table.len_insert_of_some hget), ?_, ?_, [], by simp, nofun⟩
  · intro generation' snapshot' hget'
    rw [Table.get_insert] at hget'
    split_ifs at hget' with heq
    · cases hget'
      exact ⟨snapshot, heq ▸ hget, rfl, List.Subset.refl _⟩
    · exact ⟨snapshot', hget', rfl, List.Subset.refl _⟩
  · intro key sender hget
    exact ⟨sender, hget, rfl, rfl⟩

/-- Among more snapshots than senders there is one that no sender uses. -/
theorem evictable_ne_nil (h : s.sending.len < s.snapshots.len) : s.evictable ≠ [] := by
  intro hnil
  have hused : ∀ e ∈ s.snapshots.entries, s.Uses e.1 := by
    intro e he
    by_contra hunused
    have hmem : (e.1, e.2) ∈ s.evictable :=
      List.mem_filter.mpr ⟨List.mem_map_of_mem he, decide_eq_true hunused⟩
    rw [hnil] at hmem
    exact absurd hmem List.not_mem_nil
  have hkeys : s.snapshots.keys ⊆ s.sending.entries.map fun e => e.2.frame.generation := by
    intro generation hmem
    obtain ⟨e, he, rfl⟩ := List.mem_map.mp hmem
    obtain ⟨e', he', heq⟩ := hused e he
    exact List.mem_map.mpr ⟨e', he', heq⟩
  have hlen := (List.Nodup.subperm s.snapshots.keys_nodup hkeys).length_le
  have hsnapshots : s.snapshots.keys.length = s.snapshots.len := List.length_map _
  rw [hsnapshots, List.length_map] at hlen
  exact absurd hlen (Nat.not_le.mpr h)

theorem oldest_cases (h : s.evictable ≠ []) (first : Nat) :
    ∃ e ∈ s.evictable, s.oldest first = some e.1 := by
  unfold oldest
  rw [List.partition_eq_filter_filter]
  dsimp only
  generalize hentries : (s.evictable.filter fun e => decide (e.1 = first)) ++
    s.evictable.filter (not ∘ fun e => decide (e.1 = first)) = entries
  have hmem : ∀ e, e ∈ entries ↔ e ∈ s.evictable := by
    intro e
    rw [← hentries, List.mem_append, List.mem_filter, List.mem_filter]
    by_cases heq : e.1 = first <;> simp [heq]
  have hne : entries ≠ [] := by
    obtain ⟨e, he⟩ := List.exists_mem_of_ne_nil _ h
    exact List.ne_nil_of_mem ((hmem e).mpr he)
  obtain ⟨e, he⟩ := Option.isSome_iff_exists.mp
    (List.isSome_minOn?_iff (f := fun e => e.2.used).mpr hne)
  exact ⟨e, (hmem e).mp (List.minOn?_mem he), by rw [he]; rfl⟩

/-- The snapshots stay but one that no sender uses, and there is room behind. -/
theorem makeRoom_cases (hsending : s.sending.len ≤ maxStreams) (hsnapshots : s.snapshots.len ≤ 32)
    (generation first : Nat) :
    Tamer s (s.makeRoom generation first) ∧
      ((s.makeRoom generation first).snapshots.len < 32 ∨
        ((s.makeRoom generation first).snapshots.get generation).isSome) ∧
      ∀ g, s.Uses g →
        (s.makeRoom generation first).snapshots.get g = s.snapshots.get g := by
  unfold makeRoom
  split_ifs with hfull
  · have hlt : s.sending.len < s.snapshots.len := by
      have hmax : maxStreams < 32 := by decide
      omega
    obtain ⟨e, he, holdest⟩ := oldest_cases (evictable_ne_nil hlt) first
    rw [holdest]
    dsimp only
    obtain ⟨hentry, hunused⟩ := List.mem_filter.mp he
    obtain ⟨e', he', rfl⟩ := List.mem_map.mp hentry
    have hget : s.snapshots.get e'.1 = some e'.2 := Table.get_eq_some_iff.mpr he'
    have hlen := Table.len_remove_of_some hget
    refine ⟨⟨Nat.le_refl _, Table.len_remove_le, ?_, ?_, [], by simp, List.forall_mem_nil _⟩,
      .inl ?_, ?_⟩
    · intro g snapshot hkept
      rw [Table.get_remove] at hkept
      split_ifs at hkept with heq
      exact ⟨snapshot, hkept, rfl, List.Subset.refl _⟩
    · intro key sender hget
      exact ⟨sender, hget, rfl, rfl⟩
    · show (s.snapshots.remove e'.1).len < 32
      omega
    · intro g hused
      rw [Table.get_remove, if_neg]
      rintro rfl
      exact of_decide_eq_true hunused hused
  · refine ⟨tamer_refl s, ?_, fun _ _ => rfl⟩
    rw [not_and_or, Nat.not_le, Bool.not_eq_true, Option.isNone_eq_false_iff] at hfull
    exact hfull

theorem Inv.rememberMetadata (h : Inv s) (conn : Int) (generation : Nat) (data : Bytes)
    (now first : Nat) : Inv (s.rememberMetadata conn generation data now first) := by
  unfold Registry.rememberMetadata
  split_ifs
  · exact h
  · obtain ⟨htame, hroom, -⟩ := makeRoom_cases h.sending_le h.snapshots_le generation first
    have hinv := h.of_tamer htame
    dsimp only
    generalize s.makeRoom generation first = t at hroom hinv
    generalize hsnapshot : (t.snapshots.get generation).getD _ = snapshot
    have hquiet : ∀ e ∈ [RegistryEntry.remembered conn generation snapshot.paths], Quiet e := by
      intro e he
      rw [List.mem_singleton.mp he]
      rintro _ _ _ ⟨⟩
    refine ⟨hinv.sending_le, ?_, ?_, hinv.authorised.append hquiet, ?_⟩
    · show (t.snapshots.insert generation _).len ≤ 32
      cases hget : t.snapshots.get generation with
      | none =>
        rw [Table.len_insert_of_none hget]
        rw [hget] at hroom
        exact hroom.resolve_right (by rintro ⟨⟩)
      | some old =>
        rw [Table.len_insert_of_some hget]
        exact hinv.snapshots_le
    · intro generation' snapshot' hget client hclient
      replace hget : (t.snapshots.insert generation _).get generation' = some snapshot' := hget
      rw [Table.get_insert] at hget
      split_ifs at hget with heq
      · cases hget
        subst heq
        rcases List.mem_insert_iff.mp hclient with rfl | hold
        · exact granted_remembered _ _ _ _
        · -- a client of a snapshot that was there
          cases hget : t.snapshots.get generation' with
          | none =>
            rw [hget] at hsnapshot
            rw [← hsnapshot] at hold
            exact absurd hold List.not_mem_nil
          | some old =>
            rw [hget] at hsnapshot
            rw [Option.getD_some] at hsnapshot
            subst hsnapshot
            exact (hinv.granted generation' old hget client hold).append (by simp)
      · exact (hinv.granted generation' snapshot' hget client hclient).append (by simp)
    · intro key sender hget
      exact List.mem_append_left _ (hinv.opened key sender hget)

theorem Inv.startSend (h : Inv s) (conn : Int) (f : Frame) (now : Nat) (spawned : Bool) :
    Inv (s.startSend conn f now spawned).2 := by
  unfold Registry.startSend
  by_cases hrequest : f.requestId = 0 ∨ f.size < f.offset ∨ f.data ≠ [] ∨ f.compressed
  · rw [if_pos hrequest]
    exact h
  rw [if_neg hrequest]
  by_cases hbusy : maxStreams ≤ s.sending.len ∨ (s.sending.get (conn, f.requestId)).isSome ∨
      f.generation = 0
  · rw [if_pos hbusy]
    exact h
  · rw [if_neg hbusy]
    rw [not_or, not_or, Nat.not_le, Bool.not_eq_true, Option.isSome_eq_false_iff,
      Option.isNone_iff_eq_none] at hbusy
    cases hfilter : (s.snapshots.get f.generation).filter (conn ∈ ·.clients) with
    | none => exact h
    | some snapshot =>
      obtain ⟨hget, hclient⟩ := Option.filter_eq_some_iff.mp hfilter
      have hgranted := h.granted _ _ hget conn (of_decide_eq_true hclient)
      have hused := h.of_tamer (tamer_used hget now)
      dsimp only
      cases hpath : snapshot.paths[f.index]?.join with
      | none => exact hused
      | some path =>
        dsimp only
        have hopened : Inv { s with
            snapshots := s.snapshots.insert f.generation { snapshot with used := now }
            sending := s.sending.insert (conn, f.requestId) (sender f path spawned)
            log := s.log ++ [.opened conn f path] } := by
          refine ⟨?_, hused.snapshots_le, ?_, h.authorised.opened hgranted hpath, ?_⟩
          · show (s.sending.insert _ _).len ≤ maxStreams
            rw [Table.len_insert_of_none hbusy.2.1]
            exact hbusy.1
          · intro generation snapshot' hget' client hmem
            exact (hused.granted generation snapshot' hget' client hmem).append (by simp)
          · intro key sender' hget'
            replace hget' : (s.sending.insert _ _).get key = some sender' := hget'
            rw [Table.get_insert] at hget'
            split_ifs at hget' with heq
            · cases hget'
              rw [heq]
              exact List.mem_append_right _ List.mem_cons_self
            · exact List.mem_append_left _ (h.opened key sender' hget')
        cases spawned with
        | true => exact hopened
        | false => exact hopened.of_tamer (tamer_emit _ conn _)

/-- A connection that goes takes its grants with it. -/
theorem Inv.forget (h : Inv s) (conn : Int) : Inv (s.forget conn) := by
  refine ⟨h.sending_le, ?_, ?_, h.authorised.append ?_, ?_⟩
  · exact (Table.len_retain_le _).trans ((Table.len_mapValues _).le.trans h.snapshots_le)
  · intro generation snapshot hget client hclient
    obtain ⟨hkept, -⟩ := Table.get_retain_eq_some_iff.mp hget
    rw [Table.get_mapValues] at hkept
    obtain ⟨old, hold, rfl⟩ := Option.map_eq_some_iff.mp hkept
    obtain ⟨hmem, hne⟩ := List.mem_filter.mp hclient
    refine (h.granted generation old hold client hmem).append ?_
    simpa using of_decide_eq_true hne
  · intro e he
    rw [List.mem_singleton.mp he]
    exact nofun
  · intro key sender hget
    exact List.mem_append_left _ (h.opened key sender hget)

theorem tamer_release (s : Registry) (conn : Int) (id : Nat) : Tamer s (s.release conn id) := by
  unfold Registry.release
  split
  · exact tamer_refl s
  · exact tamer_of_eq rfl rfl ⟨_, rfl, by simp⟩

theorem Inv.handle (P : Platform) (h : Inv s) (conn : Int) (f : Frame) (now : Nat)
    (spawned : Bool) : Inv (s.handle P conn f now spawned) := by
  unfold Registry.handle
  dsimp only
  split_ifs
  · exact h.of_tamer (tamer_of_eq rfl rfl ⟨[], by simp, List.forall_mem_nil _⟩)
  · have hsend : Inv { s with sending := s.sending.modify (conn, f.requestId) fun sender =>
        { sender with window := sender.window.handle f } } :=
      h.of_tamer (tamer_modify s _ fun _ => ⟨rfl, rfl⟩)
    have hreceive : Inv { s with
        receiving := s.receiving.modify (conn, f.requestId) fun r => r.handle P f } :=
      h.of_tamer (tamer_of_eq rfl rfl ⟨[], by simp, List.forall_mem_nil _⟩)
    have hstart := h.startSend conn f now spawned
    cases f.kind with
    | request =>
      dsimp only
      split
      · rename_i heq
        rw [heq] at hstart
        exact hstart
      · rename_i heq
        rw [heq] at hstart
        exact hstart.of_tamer (tamer_emit _ _ _)
    | block => exact hreceive
    | «end» => exact hreceive
    | error => exact hreceive
    | credit => exact hsend
    | cancel => exact hsend
    | descriptorsRequest => exact h
    | descriptorsResponse => exact h
    | unknown n => exact h

/-- Every operation keeps the bounds and the grants. -/
theorem Inv.step (P : Platform) (h : Inv s) (e : RegistryEvent) : Inv (s.step P e) := by
  cases e with
  | announce sequence localFiles random =>
    show Inv (s.announce sequence localFiles random).2
    unfold Registry.announce
    split_ifs
    · exact h.of_tamer (tamer_of_eq rfl rfl ⟨[], by simp, nofun⟩)
    · exact h.of_tamer (tamer_of_eq rfl rfl ⟨[], by simp, nofun⟩)
    · exact h
  | snapshot sequence paths =>
    show Inv (s.snapshot sequence paths)
    unfold Registry.snapshot
    split_ifs
    · exact h.of_tamer (tamer_of_eq rfl rfl ⟨[], by simp, nofun⟩)
    · exact h
  | rememberMetadata conn generation data now first =>
    exact h.rememberMetadata conn generation data now first
  | cachedMetadata conn generation now =>
    show Inv (s.cachedMetadata conn generation now).2
    unfold Registry.cachedMetadata
    cases hget : s.snapshots.get generation with
    | none => exact h
    | some snapshot =>
      by_cases hclient : conn ∉ snapshot.clients
      · simp only [if_pos hclient]
        exact h
      · simp only [if_neg hclient]
        exact h.of_tamer (tamer_used hget now)
  | setRemoteGeneration conn generation =>
    exact h.of_tamer (tamer_of_eq rfl rfl ⟨[], by simp [Registry.step, setRemoteGeneration], nofun⟩)
  | descriptors conn generation format id =>
    show Inv (s.descriptors conn generation format id).2
    unfold Registry.descriptors
    dsimp only
    split_ifs
    · exact h
    · exact h.of_tamer (tamer_of_eq rfl rfl ⟨_, rfl, by simp⟩)
  | endDescriptors conn id =>
    show Inv (s.endDescriptors conn id).2
    unfold Registry.endDescriptors
    split
    · exact h
    · dsimp only
      split
      · exact h.of_tamer (tamer_of_eq rfl rfl ⟨[], by simp, nofun⟩)
      · exact h.of_tamer (tamer_of_eq rfl rfl ⟨_, rfl, by simp⟩)
  | startSend conn f now spawned => exact h.startSend conn f now spawned
  | advance key fs =>
    show Inv (s.advance P key fs)
    unfold Registry.advance
    cases hget : s.sending.get key with
    | none => exact h
    | some sender =>
      obtain ⟨hframe, hpath⟩ := advance_keeps P sender fs
      exact h.of_tamer (tamer_advance _ hget hframe hpath)
  | abandon key =>
    show Inv (s.abandon key)
    unfold Registry.abandon
    cases hget : s.sending.get key with
    | none => exact h
    | some sender => exact h.of_tamer (tamer_advance _ hget rfl rfl)
  | endSend key =>
    show Inv (s.endSend key)
    unfold Registry.endSend
    split
    · exact h
    · split
      · refine h.of_tamer ⟨Table.len_remove_le, Nat.le_refl _, ?_, ?_, [], by simp, nofun⟩
        · intro generation snapshot hget
          exact ⟨snapshot, hget, rfl, List.Subset.refl _⟩
        · intro key' sender hget
          replace hget : (s.sending.remove key).get key' = some sender := hget
          rw [Table.get_remove] at hget
          split_ifs at hget
          exact ⟨sender, hget, rfl, rfl⟩
      · exact h
  | handle conn f now spawned => exact h.handle P conn f now spawned
  | openReceive conn call id =>
    show Inv (s.openReceive conn call id)
    unfold Registry.openReceive
    dsimp only
    split_ifs
    · exact h
    · exact h.of_tamer (tamer_of_eq rfl rfl ⟨_, rfl, by simp⟩)
  | pull key want =>
    exact h.of_tamer (tamer_of_eq rfl rfl ⟨[], by simp [Registry.step, Registry.pull], nofun⟩)
  | release conn id => exact h.of_tamer (tamer_release s conn id)
  | forget conn => exact h.forget conn
  | cancelSender key => exact h.of_tamer (tamer_modify s key fun _ => ⟨rfl, rfl⟩)

theorem inv_empty : Inv {} where
  sending_le := Nat.zero_le _
  snapshots_le := Nat.zero_le _
  granted _ _ hget := by
    rw [show (({} : Registry).snapshots.get _) = none from Table.get_empty] at hget
    cases hget
  authorised pre post conn f path h := by
    have hlen := congrArg List.length h
    simp at hlen
  opened _ _ hget := by
    rw [show (({} : Registry).sending.get _) = none from Table.get_empty] at hget
    cases hget

/-- Eviction keeps the snapshot of a generation that a sender uses, with its paths. -/
theorem rememberMetadata_keeps (h : Inv s) (conn : Int) (generation : Nat) (data : Bytes)
    (now first : Nat) {g : Nat} (hused : s.Uses g) {snapshot : Snapshot}
    (hget : s.snapshots.get g = some snapshot) :
    ∃ snapshot', (s.rememberMetadata conn generation data now first).snapshots.get g =
      some snapshot' ∧ snapshot'.paths = snapshot.paths ∧
      snapshot.clients ⊆ snapshot'.clients := by
  unfold rememberMetadata
  split_ifs
  · exact ⟨snapshot, hget, rfl, List.Subset.refl _⟩
  · obtain ⟨-, -, hkeep⟩ := makeRoom_cases h.sending_le h.snapshots_le generation first
    have hstill := (hkeep g hused).trans hget
    dsimp only
    rw [Table.get_insert]
    split_ifs with heq
    · subst heq
      rw [hstill, Option.getD_some]
      exact ⟨_, rfl, rfl, fun _ hmem => List.mem_insert_of_mem hmem⟩
    · exact ⟨snapshot, hstill, rfl, List.Subset.refl _⟩

/-- Whatever the connections of a host do, and in whatever order: eight senders and 32 snapshots at
most, no snapshot makes room that an active sender uses, and every sender reads a path of a
snapshot that was remembered for its connection. -/
theorem registry_bounded (P : Platform) (es : List RegistryEvent) :
    (run (step P) {} es).sending.len ≤ maxStreams ∧ (run (step P) {} es).snapshots.len ≤ 32 ∧
      (∀ conn generation data now first g snapshot, (run (step P) {} es).Uses g →
        (run (step P) {} es).snapshots.get g = some snapshot →
          ∃ snapshot', ((run (step P) {} es).rememberMetadata conn generation data now
            first).snapshots.get g = some snapshot' ∧ snapshot'.paths = snapshot.paths ∧
            snapshot.clients ⊆ snapshot'.clients) ∧
      Authorised (run (step P) {} es).log ∧
      ∀ key sender, (run (step P) {} es).sending.get key = some sender →
        .opened key.1 sender.frame sender.path ∈ (run (step P) {} es).log := by
  have hall : Allowed (step P) (fun _ _ => True) {} es :=
    allowed_of_forall (fun _ _ => trivial) _ es
  have hinv : Inv (run (step P) {} es) :=
    run_keeps (Q := Inv) (fun _ e h _ => Inv.step P h e) inv_empty hall
  refine ⟨hinv.sending_le, hinv.snapshots_le, ?_, hinv.authorised, hinv.opened⟩
  intro conn generation data now first g snapshot hused hget
  exact rememberMetadata_keeps hinv conn generation data now first hused hget

end Registry

end MDesk.Clipboard
