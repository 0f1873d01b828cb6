import MDesk.Server.AuditComplete

/-!
# What is posted by the end of a connection

Over a whole connection, each transfer that was remembered has one outcome posted exactly if
no record was replaced by another transfer under its job id.
-/

namespace MDesk

open MDesk.Core

namespace Connection

variable (H : AuditHost) {c : Connection} {l : Ledger Int AuditItem FileOutcome}

instance (c : Connection) (e : ServerEvent) : Decidable (c.KeepsRecords e) :=
  inferInstanceAs (Decidable (∀ id ∈ c.remembers e, c.pendingFileAudits.get id = none))

/-! ## The posted events of one transfer -/

/-- The events posted of a transfer. -/
def postedOf (c : Connection) (i : AuditItem) : List FileAuditEvent :=
  c.posted.filter fun e => (e.direction, e.serial) = i.ref

/-- A transfer has one outcome posted, which covers each of its files once in batches of at
most a hundred. -/
def AuditedOnce (c : Connection) (i : AuditItem) : Prop :=
  ∃ (status : FileOutcome) (batches : List (List (String × Int))), batches ≠ [] ∧
    batches.flatten = i.files ∧ (∀ b ∈ batches, b.length ≤ 100) ∧
    (c.postedOf i).map (fun e => (e.event, e.files)) = batches.map fun files => (status, files)

/-- A transfer that is audited has been posted. -/
theorem AuditedOnce.posted {i : AuditItem} (h : c.AuditedOnce i) : c.postedOf i ≠ [] := by
  obtain ⟨status, batches, hne, -, -, hposted⟩ := h
  intro hnil
  rw [hnil, List.map_nil] at hposted
  exact hne (List.map_eq_nil_iff.mp hposted.symm)

/-- What is kept of a list of batches for one of its items. -/
theorem flatMap_filter_item {β : Type*} {settled : List (AuditItem × FileOutcome)} {i : AuditItem}
    {status : FileOutcome} (hnodup : (settled.map Prod.fst).Nodup) (hi : (i, status) ∈ settled)
    (f : AuditItem × FileOutcome → List β) :
    (settled.flatMap fun e => if e.1 = i then f e else []) = f (i, status) := by
  induction settled with
  | nil => exact absurd hi List.not_mem_nil
  | cons e settled ih =>
    obtain ⟨hnot, hrest⟩ := List.nodup_cons.mp hnodup
    rw [List.flatMap_cons]
    rcases List.mem_cons.mp hi with rfl | hin
    · have hnil : (settled.flatMap fun e => if e.1 = i then f e else []) = [] := by
        rw [List.flatMap_eq_nil_iff]
        intro e he
        rw [if_neg]
        exact fun heq => hnot (List.mem_map.mpr ⟨e, he, heq⟩)
      rw [if_pos rfl, hnil, List.append_nil]
    · have hne : e.1 ≠ i := fun heq => hnot (List.mem_map.mpr ⟨_, hin, heq.symm⟩)
      rw [if_neg hne, List.nil_append, ih hrest hin]

/-- The remembered transfers are told apart by their numbers. -/
theorem Accounts.ref_injective (h : c.Accounts l) {i j : AuditItem} (hi : i ∈ c.remembered)
    (hj : j ∈ c.remembered) (href : i.ref = j.ref) : i = j :=
  List.inj_on_of_nodup_map h.refs hi hj href

/-- An item that is settled has been remembered. -/
theorem Accounts.settled_remembered (h : c.Accounts l) {i : AuditItem}
    (hi : i ∈ l.settled.map Prod.fst) : i ∈ c.remembered := by
  rw [← h.opened]
  exact (h.sound.mem_iff i).mpr (.inl hi)

/-- The events of a settled transfer are its batches. -/
theorem Accounts.postedOf_settled (h : c.Accounts l) {i : AuditItem} {status : FileOutcome}
    (hi : (i, status) ∈ l.settled) :
    (c.postedOf i).map FileAuditEvent.view = i.batches status := by
  have hrem : i ∈ c.remembered :=
    h.settled_remembered (List.mem_map_of_mem (f := Prod.fst) hi)
  have hitem : ∀ e ∈ l.settled, (e.1.batches e.2).filter (fun v => decide (v.1 = i.ref)) =
      if e.1 = i then e.1.batches e.2 else [] := by
    intro e he
    have herem := h.settled_remembered (List.mem_map_of_mem (f := Prod.fst) he)
    unfold AuditItem.batches
    rw [List.filter_map]
    split_ifs with heq
    · rw [List.filter_eq_self.mpr]
      intro files _
      rw [Function.comp_apply, heq, decide_eq_true_eq]
    · rw [List.filter_eq_nil_iff.mpr, List.map_nil]
      intro files _
      rw [Function.comp_apply, decide_eq_true_eq]
      exact fun href => heq (h.ref_injective herem hrem href)
  calc (c.postedOf i).map FileAuditEvent.view
      = (c.posted.map FileAuditEvent.view).filter (fun v => decide (v.1 = i.ref)) := by
        rw [List.filter_map]
        rfl
    _ = l.settled.flatMap fun e => if e.1 = i then e.1.batches e.2 else [] := by
        rw [h.posted, List.filter_flatMap]
        exact List.flatMap_congr hitem
    _ = i.batches status :=
        flatMap_filter_item h.sound.once hi fun e => e.1.batches e.2

/-- A transfer is audited once exactly if it is settled. -/
theorem Accounts.auditedOnce_iff (h : c.Accounts l) {i : AuditItem} (hi : i ∈ c.remembered) :
    c.AuditedOnce i ↔ i ∈ l.settled.map Prod.fst := by
  constructor
  · intro haudited
    obtain ⟨e, he⟩ := List.exists_mem_of_ne_nil _ haudited.posted
    obtain ⟨hin, href⟩ := List.mem_filter.mp he
    have hview := List.mem_map_of_mem (f := FileAuditEvent.view) hin
    rw [h.posted] at hview
    obtain ⟨⟨j, s⟩, hj, hbatch⟩ := List.mem_flatMap.mp hview
    obtain ⟨files, -, hfiles⟩ := List.mem_map.mp hbatch
    have hj' : j ∈ l.settled.map Prod.fst := List.mem_map_of_mem (f := Prod.fst) hj
    have heq : j.ref = i.ref :=
      (congrArg Prod.fst hfiles).trans (of_decide_eq_true href)
    rw [← h.ref_injective (h.settled_remembered hj') hi heq]
    exact hj'
  · intro hin
    obtain ⟨⟨j, status⟩, hj, rfl⟩ := List.mem_map.mp hin
    obtain ⟨hflat, hall⟩ := chunks_spec (Nat.succ_pos 99) j.files
    refine ⟨status, chunks 100 j.files, ?_, hflat, fun b hb => (hall b hb).2, ?_⟩
    · intro hnil
      rw [hnil, List.flatten_nil] at hflat
      exact h.named j hi hflat.symm
    · have hview := congrArg (List.map Prod.snd) (h.postedOf_settled hj)
      rw [AuditItem.batches, List.map_map, List.map_map] at hview
      exact hview

/-! ## Runs -/

/-- A run loses an item exactly if some event of it replaces a record. -/
theorem Accounts.throughout (h : c.Accounts l) (es : List ServerEvent) :
    ∃ l', (run (Connection.step H) c es).Accounts l' ∧
      (l'.lost = [] ↔ l.lost = [] ∧ Allowed (Connection.step H) KeepsRecords c es) := by
  induction es generalizing c l with
  | nil => exact ⟨l, h, (and_iff_left trivial).symm⟩
  | cons e es ih =>
    obtain ⟨l₁, h₁, hlost₁⟩ := h.step (H := H) e
    obtain ⟨l₂, h₂, hlost₂⟩ := ih h₁
    exact ⟨l₂, h₂, by rw [hlost₂, hlost₁, and_assoc]; rfl⟩

/-- A connection that has posted its outcomes so far, and has none of its records yet. -/
structure Fresh (c : Connection) : Prop where
  auditing : c.Auditing
  pending : ∀ id, c.pendingFileAudits.get id = none
  posted : c.posted = []
  remembered : c.remembered = []

/-- The books of a fresh connection are empty. -/
theorem Fresh.accounts (h : c.Fresh) : c.Accounts {} where
  auditing := h.auditing
  sound := Ledger.sound_empty
  held id := by rw [h.pending, Table.get_empty, Option.map_none]
  opened := h.remembered.symm
  posted := by
    rw [h.posted]
    rfl
  numbered := by simp [h.remembered]
  refs := by simp [h.remembered]
  named := by simp [h.remembered]
  sealed _ := h.pending

/-- A posted outcome leaves the phase. -/
@[simp] theorem post_phase (c : Connection) (id : Int) (status : FileOutcome) :
    (c.postEnterpriseFileOutcome H id status).phase = c.phase := by
  unfold postEnterpriseFileOutcome
  split
  · rfl
  · dsimp only
    split
    · rfl
    · split_ifs <;> rfl

/-- The end of the connection, wherever it has come to. -/
theorem phase_close (c : Connection) : (run (step H) c [.leave, .close]).phase = .closed := by
  rw [run_cons, run_cons, run_nil]
  cases hphase : c.phase with
  | running =>
    have hleave : c.step H .leave = { c with phase := .draining } := by
      unfold step next
      rw [hphase]
      rfl
    rw [hleave]
    rfl
  | draining =>
    have hleave : c.step H .leave = c := by
      unfold step next
      rw [hphase]
    rw [hleave]
    unfold step next
    rw [hphase]
  | closed =>
    have hleave : ∀ e, c.step H e = c := by
      intro e
      unfold step next
      rw [hphase]
    rw [hleave, hleave, hphase]

/-- The end of the connection replaces no record. -/
theorem allowed_close (c : Connection) :
    Allowed (step H) KeepsRecords c [.leave, .close] := by
  have hend : ∀ (c : Connection) (e : ServerEvent), e = .leave ∨ e = .close →
      c.KeepsRecords e := by
    rintro c e he
    refine keepsRecords_of_none ?_
    unfold remembers
    rcases he with rfl | rfl <;> cases c.phase <;> rfl
  exact ⟨hend _ _ (.inl rfl), hend _ _ (.inr rfl), trivial⟩

/-- Once a connection is closed, each transfer it has remembered has been audited once, if and
only if no record was replaced. -/
theorem audited_once_iff (h : c.Fresh) (es : List ServerEvent) :
    let c' := run (step H) c (es ++ [.leave, .close])
    (∀ i ∈ c'.remembered, c'.AuditedOnce i) ↔ Allowed (step H) KeepsRecords c es := by
  intro c'
  obtain ⟨l, haccounts, hlost⟩ := h.accounts.throughout H (es ++ [.leave, .close])
  have hclosed : c'.phase = .closed := by
    change (run (step H) c (es ++ [.leave, .close])).phase = _
    rw [run_append, phase_close]
  have hempty : ∀ id, l.held.get id = none := by
    intro id
    rw [haccounts.held, haccounts.sealed hclosed, Option.map_none]
  rw [allowed_append, and_iff_left (allowed_close H _), and_iff_right rfl] at hlost
  rw [← hlost, ← haccounts.sound.settled_iff hempty, haccounts.opened]
  exact forall₂_congr fun i hi => haccounts.auditedOnce_iff hi

/-- A host whose names are the last components of their paths. -/
def auditHost : AuditHost where
  platform := Platform.posix
  downloadDir := some ["Downloads"]
  home := []
  tempDir := ["tmp"]
  pathOf path := splitStr (· = '/') path
  uuid serial := toString serial
  parseDigest _ := none
  fileName path := (splitStr (· = '/') path).getLast?
  id := "123456789"
  encodedUuid := "dXVpZA=="
  clock serial := toString serial

/-- A file transfer session that is audited. -/
def auditedConnection : Connection where
  auditContext := some { connectionTicket := "ticket", sourceConnectionId := "7" }
  fileTransfer := true
  serverAuditFile := "https://host/api/audit/file"

theorem auditedConnection_fresh : auditedConnection.Fresh where
  auditing := ⟨_, rfl, by decide +kernel, by decide +kernel⟩
  pending _ := Table.get_empty
  posted := rfl
  remembered := rfl

/-- An upload of one file. -/
def uploadOf (id : Int) (name : String) : ServerEvent :=
  .receive id "/home" 0 [{ name, size := 3, modifiedTime := 0 }] 3 ⟨[]⟩

theorem audited_once_two_uploads :
    let c := run (step auditHost) auditedConnection
      ([uploadOf 1 "a", uploadOf 2 "b", .answer (.done 1 0)] ++ [.leave, .close])
    c.posted.map (fun e => (e.files, e.event)) =
      [([("a", 3)], .completed), ([("b", 3)], .cancelled)] ∧
      ∀ i ∈ c.remembered, c.AuditedOnce i :=
  ⟨by decide +kernel, (audited_once_iff auditHost auditedConnection_fresh
    [uploadOf 1 "a", uploadOf 2 "b", .answer (.done 1 0)]).mpr (by decide +kernel)⟩

/-- The first of two uploads under one id is never posted. -/
theorem upload_lost_by_reused_id :
    ¬ ∀ (H : AuditHost) (c : Connection) (es : List ServerEvent), c.Fresh →
      ∀ i ∈ (run (step H) c (es ++ [.leave, .close])).remembered,
        (run (step H) c (es ++ [.leave, .close])).AuditedOnce i := by
  intro hall
  have haudited := hall auditHost auditedConnection [uploadOf 1 "a", uploadOf 1 "b"]
    auditedConnection_fresh { direction := .upload, serial := 0, files := [("a", 3)] }
    (by decide +kernel)
  exact haudited.posted (by decide +kernel)

end Connection

end MDesk
