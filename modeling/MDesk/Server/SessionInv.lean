import MDesk.Server.ReadRound
import MDesk.Server.WriteQueue

/-!
# What holds between a connection and its connection manager

The numbers of the jobs agree on both sides, the records name their jobs, the answers are
backed by what the connection manager has done, and what is posted is true.
-/

namespace MDesk

open MDesk.Core

/-- A write job has been closed. -/
def Cm.Gone (cm : Cm) (n : Nat) : Prop := (cm.view n).isOpen = false ∧ n < cm.opened

/-- An answer reports that its job has come to an end without success. -/
def Reply.fails (r : Reply) : Bool :=
  match r.answer with
  | .outcome _ succeeded => !succeeded
  | .error _ _ _ => !r.leavesOpen
  | _ => false

/-- What an answer reports of the job it is about is the case. -/
def Reply.Backed (r : Reply) (cm : Cm) : Prop :=
  ∀ n, r.origin = some n →
    (r.answer.succeeds = true → n ∈ cm.finished) ∧ (r.fails = true → cm.Gone n)

namespace Connection

/-- The numbers and ids of the reading jobs. -/
def readKeys (c : Connection) : List (Nat × Int) := c.readJobs.map HostJob.key

end Connection

namespace Session

/-! ## The invariant -/

/-- A transfer writes or sends nothing more. -/
def Quiet (s : Session) : EnterpriseFileDirection → Nat → Prop
  | .upload, n => ∃ id, s.writes[n]? = some id ∧ s.Untouched id n ∧
      ((run (WriteView.step id n) (s.cm.view n) s.toCm).isOpen = false ∨ s.conn.phase = .closed)
  | .download, n => (n < s.conn.reads ∧ ∀ k ∈ s.conn.readKeys, k.1 ≠ n) ∨ s.conn.phase = .closed

/-- What an outcome says of a transfer is the case. -/
def Holds (s : Session) (d : EnterpriseFileDirection) (n : Nat) (status : FileOutcome) : Prop :=
  if status = .completed then s.Completed d n else s.Quiet d n

/-- What holds of the write jobs, and of what is on its way to them and back. -/
structure Writes (s : Session) : Prop where
  opened : s.cm.opened ≤ s.writes.length
  queued : s.writes.drop s.cm.opened = s.toCm.filterMap ToCm.opensId
  keyed : ∀ k ∈ s.cm.keys, s.writes[k.1]? = some k.2 ∧ k.1 < s.cm.opened
  ids : (s.cm.keys.map Prod.snd).Nodup
  clear : Clear (s.cm.keys.map Prod.snd) s.toCm
  backed : ∀ r ∈ s.replies, r.Backed s.cm

/-- What a record says of its transfer. -/
def Recorded (s : Session) (id : Int) (p : PendingFileAudit) : Prop :=
  match p.direction with
  | .upload => s.writes[p.serial]? = some id
  | .download => s.downloads[p.serial]? = some id ∧
      if p.sourceFinished then
        p.serial ∈ s.conn.finishedReads ∧ ∀ k ∈ s.conn.readKeys, k.1 ≠ p.serial
      else ∀ k ∈ s.conn.readKeys, k.2 = id → k.1 = p.serial

/-- What holds between any two events. -/
structure Inv (s : Session) : Prop extends s.Writes where
  asked : s.writes.length = s.conn.newWrites
  reads : s.downloads.length = s.conn.reads
  readKeyed : ∀ k ∈ s.conn.readKeys, s.downloads[k.1]? = some k.2
  readIds : (s.conn.readKeys.map Prod.snd).Nodup
  recorded : ∀ id p, s.conn.pendingFileAudits.get id = some p → s.Recorded id p
  holds : ∀ e ∈ s.conn.posted, s.Holds e.direction e.serial e.event

variable {s s' : Session} {id : Int} {n : Nat} {d : EnterpriseFileDirection} {status : FileOutcome}

/-- The number of an opened job. -/
theorem lt_of_getElem? {α : Type*} {l : List α} {a : α} (h : l[n]? = some a) : n < l.length :=
  (List.getElem?_eq_some_iff.mp h).1

/-- Jobs are numbered in the order in which they are asked for. -/
theorem Writes.opened_behind (h : s.Writes) (id : Int) (n : Nat) :
    (run (WriteView.step id n) (s.cm.view n) s.toCm).opened = s.writes.length := by
  have hlen := congrArg List.length h.queued
  rw [List.length_drop] at hlen
  have hopened := h.opened
  rw [WriteView.run_opened, ← hlen]
  change s.cm.opened + _ = _
  omega

/-- A job that is gone is quiet. -/
theorem Writes.quiet_of_gone (h : s.cm.Gone n) (hid : s.writes[n]? = some id) :
    s.Quiet .upload n := by
  obtain ⟨hall, hend⟩ := WriteView.allowed_closed id h.1 h.2 s.toCm
  exact ⟨id, hid, hall, .inl hend⟩

/-- The write jobs do not depend on what else the connection knows. -/
theorem Writes.withConn (h : s.Writes) (c : Connection) : ({ s with conn := c } : Session).Writes :=
  ⟨h.opened, h.queued, h.keyed, h.ids, h.clear, h.backed⟩

/-! ## Moves of the connection -/

/-- A connection that goes on: the reading jobs are old ones or new ones, nothing that has
been noted is forgotten, and a closed connection stays closed. -/
structure GoesOn (s s' : Session) : Prop where
  cm : s'.cm = s.cm
  toCm : ∃ ms, s'.toCm = s.toCm ++ ms ∧ (s.conn.phase = .closed → ms = [])
  writes : s.writes <+: s'.writes
  finishedReads : ∀ n ∈ s.conn.finishedReads, n ∈ s'.conn.finishedReads
  acked : ∀ n ∈ s.acked, n ∈ s'.acked
  reads : s.conn.reads ≤ s'.conn.reads
  readKeys : ∀ k ∈ s'.conn.readKeys, k ∈ s.conn.readKeys ∨ s.conn.reads ≤ k.1
  closed : s.conn.phase = .closed → s'.conn.phase = .closed

/-- What is true of a transfer stays true while the connection goes on. -/
theorem GoesOn.holds (hgo : GoesOn s s') (h : s.Writes) (hholds : s.Holds d n status) :
    s'.Holds d n status := by
  unfold Holds at hholds ⊢
  split_ifs at hholds ⊢
  · cases d with
    | upload =>
      unfold Completed at hholds ⊢
      rw [hgo.cm]
      exact hholds
    | download => exact ⟨hgo.finishedReads n hholds.1, hgo.acked n hholds.2⟩
  · cases d with
    | upload =>
      obtain ⟨id, hid, huntouched, hend⟩ := hholds
      obtain ⟨ms, htoCm, hclosed⟩ := hgo.toCm
      refine ⟨id, getElem?_extend hgo.writes hid, ?_⟩
      unfold Untouched at huntouched ⊢
      rw [hgo.cm, htoCm]
      rcases hend with hend | hend
      · have hlt : n < (run (WriteView.step id n) (s.cm.view n) s.toCm).opened := by
          rw [h.opened_behind]
          exact lt_of_getElem? hid
        obtain ⟨hall, hrun⟩ := WriteView.allowed_closed id hend hlt ms
        exact ⟨allowed_append.mpr ⟨huntouched, hall⟩, .inl (by rw [run_append]; exact hrun)⟩
      · rw [hclosed hend, List.append_nil]
        exact ⟨huntouched, .inr (hgo.closed hend)⟩
    | download =>
      rcases hholds with ⟨hlt, hkeys⟩ | hclosed
      · refine .inl ⟨hlt.trans_le hgo.reads, fun k hk => ?_⟩
        rcases hgo.readKeys k hk with hin | hle
        · exact hkeys k hin
        · omega
      · exact .inr (hgo.closed hclosed)

/-- Messages that open nothing keep a queue clear. -/
theorem clear_of_opensNone {ms : List ToCm} (hms : ∀ m ∈ ms, m.opensId = none) (ids : List Int) :
    Clear ids ms := by
  induction ms generalizing ids with
  | nil => exact trivial
  | cons m ms ih =>
    refine ⟨fun id hid => ?_, ih (fun m' hm' => hms m' (List.mem_cons_of_mem _ hm')) _⟩
    rw [hms m List.mem_cons_self] at hid
    cases hid

/-- Messages that open nothing join the queue. -/
theorem Inv.enqueue (h : s.Inv) (ms : List ToCm) (hms : ∀ m ∈ ms, m.opensId = none)
    (hphase : s.conn.phase ≠ .closed) : ({ s with toCm := s.toCm ++ ms } : Session).Inv where
  opened := h.opened
  queued := by
    rw [List.filterMap_append, List.filterMap_eq_nil_iff.mpr hms, List.append_nil]
    exact h.queued
  keyed := h.keyed
  ids := h.ids
  clear := allowed_append.mpr ⟨h.clear, clear_of_opensNone hms _⟩
  backed := h.backed
  asked := h.asked
  reads := h.reads
  readKeyed := h.readKeyed
  readIds := h.readIds
  recorded := h.recorded
  holds e he := by
    have hgo : GoesOn s { s with toCm := s.toCm ++ ms } :=
      ⟨rfl, ⟨ms, rfl, fun hclosed => absurd hclosed hphase⟩, List.prefix_refl _, fun _ hn => hn,
        fun _ hn => hn, le_refl _, fun _ hk => .inl hk, fun hclosed => hclosed⟩
    exact hgo.holds h.toWrites (h.holds e he)

/-- The reading jobs go on, some of them come to their end, and what they have read is noted. -/
theorem Inv.readOn (h : s.Inv) {c : Connection}
    (hpending : c.pendingFileAudits = s.conn.pendingFileAudits)
    (hposted : c.posted = s.conn.posted) (hphase : c.phase = s.conn.phase)
    (hwrites : c.newWrites = s.conn.newWrites) (hreads : c.reads = s.conn.reads)
    (hkeys : c.readKeys.Sublist s.conn.readKeys)
    (hfinished : ∀ n ∈ s.conn.finishedReads, n ∈ c.finishedReads) :
    ({ s with conn := c } : Session).Inv where
  opened := h.opened
  queued := h.queued
  keyed := h.keyed
  ids := h.ids
  clear := h.clear
  backed := h.backed
  asked := h.asked.trans hwrites.symm
  reads := h.reads.trans hreads.symm
  readKeyed k hk := h.readKeyed k (hkeys.subset hk)
  readIds := h.readIds.sublist (hkeys.map Prod.snd)
  recorded id p hp := by
    have hold := h.recorded id p (hpending ▸ hp)
    unfold Recorded at hold ⊢
    cases hd : p.direction with
    | upload =>
      rw [hd] at hold
      exact hold
    | download =>
      rw [hd] at hold
      refine ⟨hold.1, ?_⟩
      have hold' := hold.2
      split_ifs at hold' ⊢
      · exact ⟨hfinished _ hold'.1, fun k hk => hold'.2 k (hkeys.subset hk)⟩
      · exact fun k hk => hold' k (hkeys.subset hk)
  holds e he := by
    have hgo : GoesOn s { s with conn := c } :=
      ⟨rfl, ⟨[], (List.append_nil _).symm, fun _ => rfl⟩, List.prefix_refl _, hfinished,
        fun _ hn => hn, hreads.ge, fun k hk => .inl (hkeys.subset hk),
        fun hclosed => hphase.trans hclosed⟩
    exact hgo.holds h.toWrites (h.holds e (hposted ▸ he))

/-! ## Outcomes -/

/-- A connection that has posted outcomes for some of its records. -/
structure Settles (c c' : Connection) (Q : Int → PendingFileAudit → FileOutcome → Prop) : Prop where
  same : c' = { c with
    pendingFileAudits := c'.pendingFileAudits
    posted := c'.posted
    drawn := c'.drawn }
  pending : ∀ id p, c'.pendingFileAudits.get id = some p → c.pendingFileAudits.get id = some p
  posted : ∀ e ∈ c'.posted, e ∈ c.posted ∨ ∃ id p, c.pendingFileAudits.get id = some p ∧
    Q id p e.event ∧ e.direction = p.direction ∧ e.serial = p.serial

variable {H : AuditHost} {c c' c'' : Connection}
  {Q : Int → PendingFileAudit → FileOutcome → Prop}

theorem Settles.refl (c : Connection) : Settles c c Q :=
  ⟨rfl, fun _ _ hp => hp, fun _ he => .inl he⟩

theorem Settles.trans (h : Settles c c' Q) (h' : Settles c' c'' Q) : Settles c c'' Q where
  same := by
    rw [h'.same, h.same]
  pending id p hp := h.pending id p (h'.pending id p hp)
  posted e he := by
    rcases h'.posted e he with hin | ⟨id, p, hp, hQ⟩
    · exact h.posted e hin
    · exact .inr ⟨id, p, h.pending id p hp, hQ⟩

/-- One outcome. -/
theorem settles_post (c : Connection) (id : Int) (status : FileOutcome) :
    Settles c (c.postEnterpriseFileOutcome H id status) fun id' _ status' =>
      id' = id ∧ status' = status := by
  have hpending : ∀ id' p, (c.pendingFileAudits.remove id).get id' = some p →
      c.pendingFileAudits.get id' = some p := by
    intro id' p hp
    rw [Table.get_remove] at hp
    split_ifs at hp
    exact hp
  unfold Connection.postEnterpriseFileOutcome
  split
  · exact .refl c
  · rename_i p hp
    dsimp only
    split
    · exact ⟨rfl, hpending, fun _ he => .inl he⟩
    · split_ifs
      · exact ⟨rfl, hpending, fun _ he => .inl he⟩
      · refine ⟨rfl, hpending, fun e he => ?_⟩
        rcases List.mem_append.mp he with hin | hin
        · exact .inl hin
        · obtain ⟨batch, -, rfl⟩ := List.mem_map.mp hin
          exact .inr ⟨id, p, hp, ⟨rfl, rfl⟩, rfl, rfl⟩
      · exact ⟨rfl, hpending, fun _ he => .inl he⟩

/-- The outcomes of several ids. -/
theorem settles_posts (ids : List Int) (c : Connection) (status : FileOutcome) :
    Settles c (ids.foldl (fun c id => c.postEnterpriseFileOutcome H id status) c)
      fun _ _ status' => status' = status := by
  induction ids generalizing c with
  | nil => exact .refl c
  | cons id ids ih =>
    have hone := settles_post (H := H) c id status
    exact Settles.trans ⟨hone.same, hone.pending, fun e he => (hone.posted e he).imp_right
      fun ⟨id', p, hp, hQ, hsame⟩ => ⟨id', p, hp, hQ.2, hsame⟩⟩ (ih _)

/-- What is posted is true where it was true of the records. -/
theorem Inv.settle (h : s.Inv) (hset : Settles s.conn c Q)
    (hQ : ∀ id p status, s.conn.pendingFileAudits.get id = some p → Q id p status →
      s.Holds p.direction p.serial status) : ({ s with conn := c } : Session).Inv := by
  obtain ⟨hsame, hpending, hposted⟩ := hset
  have hkeys : c.readKeys = s.conn.readKeys := by rw [hsame]; rfl
  have hphase : c.phase = s.conn.phase := by rw [hsame]
  have hwrites : c.newWrites = s.conn.newWrites := by rw [hsame]
  have hreads : c.reads = s.conn.reads := by rw [hsame]
  have hfinished : c.finishedReads = s.conn.finishedReads := by rw [hsame]
  have hgo : GoesOn s { s with conn := c } :=
    ⟨rfl, ⟨[], (List.append_nil _).symm, fun _ => rfl⟩, List.prefix_refl _,
      fun _ hn => hfinished ▸ hn, fun _ hn => hn, hreads.ge, fun k hk => .inl (hkeys ▸ hk),
      fun hclosed => hphase.trans hclosed⟩
  refine ⟨h.toWrites.withConn c, h.asked.trans hwrites.symm, h.reads.trans hreads.symm,
    ?_, ?_, ?_, ?_⟩
  · exact fun k hk => h.readKeyed k (hkeys ▸ hk)
  · exact hkeys ▸ h.readIds
  · intro id p hp
    have hold := h.recorded id p (hpending id p hp)
    unfold Recorded at hold ⊢
    rw [hfinished, hkeys]
    exact hold
  · intro e he
    rcases hposted e he with hin | ⟨id, p, hp, hq, hd, hn⟩
    · exact hgo.holds h.toWrites (h.holds e hin)
    · rw [hd, hn]
      exact hgo.holds h.toWrites (hQ id p _ hp hq)

/-- One outcome that is true. -/
theorem Inv.post (h : s.Inv) (id : Int) (status : FileOutcome)
    (hp : ∀ p, s.conn.pendingFileAudits.get id = some p → s.Holds p.direction p.serial status) :
    ({ s with conn := s.conn.postEnterpriseFileOutcome H id status } : Session).Inv := by
  refine h.settle (settles_post s.conn id status) fun id' p status' hget hq => ?_
  obtain ⟨rfl, rfl⟩ := hq
  exact hp p hget

end Session

end MDesk
