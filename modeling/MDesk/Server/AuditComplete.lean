import MDesk.Core.Ledger
import MDesk.Server.FileTransfer

/-!
# Every transfer is audited once

The records of a connection are a ledger: a request opens an item under its job id, an
outcome settles the item of an id, and the close settles what is left. What is posted of a
transfer is complete exactly if its record has not been replaced.
-/

namespace MDesk

open MDesk.Core

namespace AuditItem

/-- What tells a transfer from the others. -/
def ref (i : AuditItem) : EnterpriseFileDirection × Nat := (i.direction, i.serial)

/-- What is posted of a transfer with its outcome. -/
def batches (i : AuditItem) (status : FileOutcome) :
    List ((EnterpriseFileDirection × Nat) × FileOutcome × List (String × Int)) :=
  (chunks 100 i.files).map fun files => (i.ref, status, files)

end AuditItem

/-- What an event says about its transfer. -/
def FileAuditEvent.view (e : FileAuditEvent) :
    (EnterpriseFileDirection × Nat) × FileOutcome × List (String × Int) :=
  ((e.direction, e.serial), e.event, e.files)

namespace Connection

variable (H : AuditHost)

/-- The number of the next job of a direction. -/
def count (c : Connection) : EnterpriseFileDirection → Nat
  | .upload => c.newWrites
  | .download => c.reads

/-- The connection posts its outcomes: its context is complete and it has an audit server. -/
def Auditing (c : Connection) : Prop :=
  ∃ context, c.auditContext = some context ∧ context.complete = true ∧ c.auditBase.isEmpty = false

/-- The records of a connection as a ledger. -/
structure Accounts (c : Connection) (l : Ledger Int AuditItem FileOutcome) : Prop where
  auditing : c.Auditing
  sound : l.Sound
  held : ∀ id, l.held.get id = (c.pendingFileAudits.get id).map PendingFileAudit.item
  opened : l.opened = c.remembered
  posted : c.posted.map FileAuditEvent.view = l.settled.flatMap fun e => e.1.batches e.2
  numbered : ∀ i ∈ c.remembered, i.serial < c.count i.direction
  refs : (c.remembered.map AuditItem.ref).Nodup
  named : ∀ i ∈ c.remembered, i.files ≠ []
  sealed : c.phase = .closed → ∀ id, c.pendingFileAudits.get id = none

variable {H} {c c' : Connection} {l : Ledger Int AuditItem FileOutcome} {id : Int}

/-- What has no part in the records. -/
theorem Accounts.of_same (h : c.Accounts l) (hpending : c'.pendingFileAudits = c.pendingFileAudits)
    (hposted : c'.posted = c.posted) (hremembered : c'.remembered = c.remembered)
    (hcontext : c'.auditContext = c.auditContext) (hbase : c'.auditBase = c.auditBase)
    (hcount : ∀ d, c.count d ≤ c'.count d) (hphase : c'.phase = c.phase) : c'.Accounts l := by
  refine ⟨?_, h.sound, ?_, ?_, ?_, ?_, ?_, ?_, ?_⟩
  · unfold Auditing
    rw [hcontext, hbase]
    exact h.auditing
  · rw [hpending]
    exact h.held
  · rw [hremembered]
    exact h.opened
  · rw [hposted]
    exact h.posted
  · rw [hremembered]
    exact fun i hi => (h.numbered i hi).trans_le (hcount _)
  · rw [hremembered]
    exact h.refs
  · rw [hremembered]
    exact h.named
  · rw [hphase, hpending]
    exact h.sealed

/-- The events of an outcome are the batches of its transfer. -/
theorem view_outcomeEvents (c : Connection) (context : AuditContext) (pending : PendingFileAudit)
    (status : FileOutcome) :
    (c.outcomeEvents H context pending status).map FileAuditEvent.view =
      pending.item.batches status := by
  have hfst : (chunks 100 pending.files).zipIdx.map Prod.fst = chunks 100 pending.files :=
    List.zipIdx_map_fst 0 _
  rw [AuditItem.batches, outcomeEvents, List.map_map]
  change _ = (chunks 100 pending.files).map _
  rw [← hfst, List.map_map]
  simp only [hfst]
  rfl

/-- Posting an outcome settles the item of its id. -/
theorem Accounts.post (h : c.Accounts l) (id : Int) (status : FileOutcome) :
    (c.postEnterpriseFileOutcome H id status).Accounts (l.settle id status) := by
  obtain ⟨context, hcontext, hcomplete, hbase⟩ := h.auditing
  unfold postEnterpriseFileOutcome
  cases hpending : c.pendingFileAudits.get id with
  | none =>
    have hheld : l.held.get id = none := by rw [h.held, hpending, Option.map_none]
    have hsettle : l.settle id status = l := by rw [Ledger.settle, hheld]
    rw [hsettle]
    exact h
  | some pending =>
    have hheld : l.held.get id = some pending.item := by rw [h.held, hpending, Option.map_some]
    have hsettle : l.settle id status =
        { l with held := l.held.remove id, settled := l.settled ++ [(pending.item, status)] } := by
      rw [Ledger.settle, hheld]
    have hsound : (l.settle id status).Sound := h.sound.settle
    rw [hsettle] at hsound ⊢
    dsimp only
    split
    · rename_i hnone
      exact absurd (hcontext.symm.trans hnone) nofun
    rename_i context' hsome
    obtain rfl : context = context' := Option.some.inj (hcontext.symm.trans hsome)
    rw [if_neg (not_not.mpr hcomplete)]
    split_ifs with hempty
    · exact absurd (hbase.symm.trans hempty) Bool.false_ne_true
    refine ⟨⟨context, hcontext, hcomplete, hbase⟩, hsound, fun id' => ?_, h.opened, ?_, h.numbered,
      h.refs, h.named, fun hclosed id' => ?_⟩
    · rw [Table.get_remove, Table.get_remove, h.held]
      split_ifs <;> rfl
    · rw [List.map_append, h.posted, view_outcomeEvents, List.flatMap_append,
        List.flatMap_singleton]
    · rw [Table.get_remove, h.sealed hclosed id', ite_self]

/-- A record opens its item, which is new. -/
theorem Accounts.insert (h : c.Accounts l) (hphase : c.phase ≠ .closed) (id : Int)
    {pending : PendingFileAudit} (hserial : pending.serial < c.count pending.direction)
    (hnew : pending.item.ref ∉ c.remembered.map AuditItem.ref) (hfiles : pending.files ≠ []) :
    (c.insertPending id pending).Accounts (l.openItem id pending.item) := by
  have hnot : pending.item ∉ l.opened := by
    rw [h.opened]
    exact fun hin => hnew (List.mem_map_of_mem hin)
  refine ⟨h.auditing, h.sound.openItem hnot, fun id' => ?_, ?_, h.posted, ?_, ?_, ?_,
    fun hclosed => absurd hclosed hphase⟩
  · rw [Ledger.openItem, insertPending, Table.get_insert, Table.get_insert, h.held]
    split_ifs <;> rfl
  · rw [Ledger.openItem, insertPending, h.opened]
  · intro i hi
    rcases List.mem_append.mp hi with hi | hi
    · exact h.numbered i hi
    · rw [List.mem_singleton.mp hi]
      exact hserial
  · rw [insertPending, List.map_append, List.map_singleton, ← List.concat_eq_append,
      List.nodup_concat]
    exact ⟨hnew, h.refs⟩
  · intro i hi
    rcases List.mem_append.mp hi with hi | hi
    · exact h.named i hi
    · rw [List.mem_singleton.mp hi]
      exact hfiles

theorem withFallback_ne_nil (name : String) (files : List (String × Int)) :
    withFallback name files ≠ [] := by
  unfold withFallback
  split_ifs with hempty
  · exact List.cons_ne_nil _ _
  · exact fun hnil => hempty (by rw [hnil]; rfl)

/-- Opening an item loses the one its id had. -/
theorem Accounts.insert_lost (h : c.Accounts l) (id : Int) (i : AuditItem) :
    (l.openItem id i).lost = [] ↔ l.lost = [] ∧ c.pendingFileAudits.get id = none := by
  rw [Ledger.openItem, List.append_eq_nil_iff, Option.toList_eq_nil_iff, h.held,
    Option.map_eq_none_iff]

/-- A new number is not among the remembered transfers. -/
theorem Accounts.fresh_ref (h : c.Accounts l) (d : EnterpriseFileDirection) :
    (d, c.count d) ∉ c.remembered.map AuditItem.ref := by
  intro hin
  obtain ⟨i, hi, href⟩ := List.mem_map.mp hin
  have hlt := h.numbered i hi
  simp only [AuditItem.ref, Prod.mk.injEq] at href
  rw [href.1, href.2] at hlt
  exact lt_irrefl _ hlt

/-- A request is remembered where the audit has a mode for it. -/
theorem Accounts.remember (h : c.Accounts l) (hphase : c.phase ≠ .closed) (fs : Fs) {serial : Nat}
    (id : Int)
    (direction : EnterpriseFileDirection) (path : String) (files : List (String × Int))
    (hserial : serial < c.count direction)
    (hnew : (direction, serial) ∉ c.remembered.map AuditItem.ref) :
    ∃ l', (c.rememberEnterpriseFileTransfer H fs serial id direction path files).Accounts l' ∧
      (l'.lost = [] ↔ l.lost = [] ∧ ((c.enterpriseFileTransferMode direction path).isSome = true →
        c.pendingFileAudits.get id = none)) := by
  unfold rememberEnterpriseFileTransfer
  split
  · rename_i hmode
    refine ⟨l, h, ?_⟩
    rw [hmode]
    simp
  · rename_i mode hmode
    refine ⟨_, h.insert hphase id hserial hnew (withFallback_ne_nil _ _), ?_⟩
    rw [h.insert_lost, hmode]
    simp

/-- The records after some step, with nothing lost by it. -/
def Keeps (c : Connection) (l : Ledger Int AuditItem FileOutcome) : Prop :=
  ∃ l', c.Accounts l' ∧ l'.lost = l.lost

theorem Accounts.keeps (h : c.Accounts l) : c.Keeps l := ⟨l, h, rfl⟩

/-- Posting an outcome loses nothing. -/
theorem Keeps.post (h : c.Keeps l) (id : Int) (status : FileOutcome) :
    (c.postEnterpriseFileOutcome H id status).Keeps l := by
  obtain ⟨l', h', hlost⟩ := h
  exact ⟨_, h'.post id status, by rw [Ledger.settle_lost, hlost]⟩

/-- What has no part in the records loses nothing. -/
theorem Keeps.of_same (h : c.Keeps l) (hpending : c'.pendingFileAudits = c.pendingFileAudits)
    (hposted : c'.posted = c.posted) (hremembered : c'.remembered = c.remembered)
    (hcontext : c'.auditContext = c.auditContext) (hbase : c'.auditBase = c.auditBase)
    (hcount : ∀ d, c'.count d = c.count d) (hphase : c'.phase = c.phase) : c'.Keeps l := by
  obtain ⟨l', h', hlost⟩ := h
  exact ⟨l', h'.of_same hpending hposted hremembered hcontext hbase (fun d => (hcount d).ge) hphase,
    hlost⟩

/-- An answer of the connection manager settles the upload of its id, or nothing. -/
theorem Keeps.capture (h : c.Keeps l) (id : Int) (status : FileOutcome) :
    (c.captureEnterpriseFileOutcomeFromCm H id status).Keeps l := by
  have h' : ({ c with deviceRemoteJobs := c.deviceRemoteJobs.erase id } : Connection).Keeps l :=
    h.of_same rfl rfl rfl rfl rfl (fun _ => rfl) rfl
  unfold captureEnterpriseFileOutcomeFromCm
  dsimp only
  split_ifs
  · exact h'.post id status
  · exact h'

theorem Keeps.answer (h : c.Keeps l) (a : CmAnswer) : (c.answer H a).Keeps l := by
  cases a with
  | done id fileNum => exact h.capture id .completed
  | error id err fileNum => exact h.capture id .failed
  | outcome id succeeded =>
    unfold Connection.answer
    dsimp only
    split_ifs
    · exact h.post id .completed
    · exact h.post id .failed
    · exact h
  | sendConfirm r => exact h
  | digest digest => exact h

theorem Keeps.drain (h : c.Keeps l) (a : CmAnswer) : (c.drain H a).Keeps l := by
  cases a with
  | done id fileNum => exact h.capture id .completed
  | error id err fileNum => exact h.capture id .failed
  | outcome id succeeded => exact h.post id _
  | sendConfirm r => exact h
  | digest digest => exact h

/-- The outcome of a reading job is noted in its record, or settles it. -/
theorem Keeps.readOutcome (h : c.Keeps l) (job : TransferJob) :
    (c.readOutcome H job).Keeps l := by
  unfold Connection.readOutcome
  split_ifs
  · split
    · exact h
    · rename_i pending hpending
      obtain ⟨l', h', hlost⟩ := h
      refine ⟨l', ⟨h'.auditing, h'.sound, fun id => ?_, h'.opened, h'.posted, h'.numbered, h'.refs,
        h'.named, fun hclosed => ?_⟩, hlost⟩
      · rw [Table.get_insert, h'.held]
        split_ifs with hid
        · rw [hid, hpending]
          rfl
        · rfl
      · rw [h'.sealed hclosed] at hpending
        cases hpending
  · exact h.post _ _
  · exact h

theorem Keeps.tick (h : c.Keeps l) (fs : Fs) (modified : TransferJob.Modified) :
    (c.tick H fs modified).Keeps l := by
  have hgo : ∀ (jobs : List HostJob) (c : Connection), c.Keeps l →
      (jobs.foldl (fun c j => c.readOutcome H j.job) c).Keeps l := by
    intro jobs
    induction jobs with
    | nil => exact fun c hc => hc
    | cons j jobs ih => exact fun c hc => ih _ (hc.readOutcome j.job)
  unfold Connection.tick
  exact hgo _ _ (h.of_same rfl rfl rfl rfl rfl (fun _ => rfl) rfl)

theorem Keeps.closeAll (h : c.Keeps l) (ids : List Int) :
    (ids.foldl (fun c id => c.postEnterpriseFileOutcome H id .cancelled) c).Keeps l := by
  induction ids generalizing c with
  | nil => exact h
  | cons id ids ih => exact ih (h.post id .cancelled)

/-- An outcome takes the record of its id. -/
theorem get_post (c : Connection) (id id' : Int) (status : FileOutcome) :
    (c.postEnterpriseFileOutcome H id status).pendingFileAudits.get id' =
      if id' = id then none else c.pendingFileAudits.get id' := by
  unfold postEnterpriseFileOutcome
  split
  · rename_i hnone
    split_ifs with hid
    · rw [hid, hnone]
    · rfl
  · rw [← Table.get_remove]
    dsimp only
    split
    · rfl
    · split_ifs <;> rfl

/-- The close leaves no record. -/
theorem get_closeFileAudits (c : Connection) (id : Int) :
    (c.closeFileAudits H).pendingFileAudits.get id = none := by
  have hgo : ∀ (ids : List Int) (c : Connection), (id ∈ ids ∨ c.pendingFileAudits.get id = none) →
      (ids.foldl (fun c id => c.postEnterpriseFileOutcome H id .cancelled)
        c).pendingFileAudits.get id = none := by
    intro ids
    induction ids with
    | nil => exact fun c hc => hc.resolve_left List.not_mem_nil
    | cons id' ids ih =>
      intro c hc
      refine ih _ ?_
      rw [get_post]
      by_cases hid : id = id'
      · rw [if_pos hid]
        exact .inr rfl
      · rw [if_neg hid]
        exact hc.imp_left fun hin => (List.mem_cons.mp hin).resolve_left hid
  refine hgo _ c ?_
  rw [or_iff_not_imp_right]
  intro hsome
  rw [← AList.mem_keys, ← AList.lookup_isSome]
  exact Option.isSome_iff_ne_none.mpr hsome

/-- The id under which an event makes the connection remember a transfer without looking
whether it has a record. -/
def remembers (c : Connection) (e : ServerEvent) : Option Int :=
  match c.phase, e with
  | .running, .send id type path _ _ _ _ _ =>
    if (c.enterpriseFileTransferMode .download
      (if type = .printer then "Remote print" else path)).isSome then some id else none
  | .running, .receive id path _ _ _ _ =>
    if (c.enterpriseFileTransferMode .upload path).isSome then some id else none
  | _, _ => none

/-- No record is replaced. -/
def KeepsRecords (c : Connection) (e : ServerEvent) : Prop :=
  ∀ id, c.remembers e = some id → c.pendingFileAudits.get id = none

/-- An event that is remembered under no id. -/
theorem keepsRecords_of_none {e : ServerEvent} (h : c.remembers e = none) : c.KeepsRecords e := by
  intro id hid
  rw [h] at hid
  cases hid

/-- A direct transfer is remembered under an id that has no record. -/
theorem Accounts.startDirect (h : c.Accounts l) (hphase : c.phase ≠ .closed) (id : Int)
    (source : PathBuf)
    (manifest : DirectTransferManifest) :
    ∃ l', (c.startDirectFileTransfer H id source manifest).Accounts l' ∧
      (l'.lost = [] ↔ l.lost = []) := by
  unfold startDirectFileTransfer
  split_ifs with hbusy
  · exact ⟨l, h, Iff.rfl⟩
  · split
    · exact ⟨l, h, Iff.rfl⟩
    · dsimp only
      have hcount : ({ c with reads := c.reads + 1 } : Connection).Accounts l :=
        h.of_same rfl rfl rfl rfl rfl (fun d => by cases d <;> simp [count]) rfl
      have hnone : c.pendingFileAudits.get id = none :=
        Option.not_isSome_iff_eq_none.mp fun hsome => hbusy (.inr hsome)
      suffices hgoal : ∃ l', (({ c with reads := c.reads + 1 } :
          Connection).rememberEnterpriseDirectDownload H c.reads id manifest.rootName
            (manifest.files.map fun file =>
              (if file.name.isEmpty then manifest.rootName else file.name,
                min (file.size : Int) (2 ^ 63 - 1)))).Accounts l' ∧
          (l'.lost = [] ↔ l.lost = []) by
        obtain ⟨l', h', hlost⟩ := hgoal
        exact ⟨l', h'.of_same rfl rfl rfl rfl rfl (fun d => by cases d <;> exact le_refl _) rfl,
          hlost⟩
      unfold rememberEnterpriseDirectDownload
      split
      · exact ⟨l, hcount, Iff.rfl⟩
      · split_ifs
        · refine ⟨_, hcount.insert hphase id (Nat.lt_succ_self _) (h.fresh_ref .download)
            (withFallback_ne_nil _ _), ?_⟩
          rw [hcount.insert_lost]
          exact and_iff_left hnone
        · exact ⟨l, hcount, Iff.rfl⟩

/-- A request for a download. -/
theorem Accounts.send (h : c.Accounts l) (hphase : c.phase ≠ .closed) (id : Int) (type : JobType)
    (path : String) (fileNum : Int)
    (includeHidden : Bool) (source : DataSource) (files : List FileEntry) (fs : Fs) :
    ∃ l', (c.send H id type path fileNum includeHidden source files fs).Accounts l' ∧
      (l'.lost = [] ↔ l.lost = [] ∧ ((c.enterpriseFileTransferMode .download
        (if type = .printer then "Remote print" else path)).isSome = true →
          c.pendingFileAudits.get id = none)) := by
  unfold Connection.send
  dsimp only
  have hnext : ∀ jobs,
      ({ c with reads := c.reads + 1, readJobs := jobs } : Connection).Accounts l :=
    fun jobs => h.of_same rfl rfl rfl rfl rfl (fun d => by cases d <;> simp [count]) rfl
  exact (hnext _).remember hphase fs id .download _ _ (Nat.lt_succ_self c.reads)
    (h.fresh_ref .download)

/-- A request for an upload. -/
theorem Accounts.receive (h : c.Accounts l) (hphase : c.phase ≠ .closed) (id : Int) (path : String)
    (fileNum : Int)
    (files : List FileEntry) (totalSize : Nat) (fs : Fs) :
    ∃ l', (c.receive H id path fileNum files totalSize fs).1.Accounts l' ∧
      (l'.lost = [] ↔ l.lost = [] ∧ ((c.enterpriseFileTransferMode .upload path).isSome = true →
        c.pendingFileAudits.get id = none)) := by
  unfold Connection.receive
  dsimp only
  have hnext : ∀ ids, ({ c with newWrites := c.newWrites + 1, deviceRemoteJobs := ids } :
      Connection).Accounts l :=
    fun ids => h.of_same rfl rfl rfl rfl rfl (fun d => by cases d <;> simp [count]) rfl
  exact (hnext _).remember hphase fs id .upload _ _ (Nat.lt_succ_self c.newWrites)
    (h.fresh_ref .upload)

/-- What a message does besides posting an outcome has no part in the records. -/
theorem Keeps.jobs (h : c.Keeps l) (ids : Finset Int) (jobs : List HostJob) :
    ({ c with deviceRemoteJobs := ids, readJobs := jobs } : Connection).Keeps l :=
  h.of_same rfl rfl rfl rfl rfl (fun _ => rfl) rfl

/-- An acknowledgement settles a download that has been read, or a revoked upload. -/
theorem Keeps.done (h : c.Keeps l) (id fileNum : Int) (permitted : Bool) :
    (c.done H id fileNum permitted).1.Keeps l := by
  have h' := h.jobs (c.deviceRemoteJobs.erase id) c.readJobs
  unfold Connection.done
  dsimp only
  split_ifs
  · exact h'.post id .failed
  · exact h'.post id .completed
  · exact h'
  · exact h'

/-- An error of the controller settles a download. -/
theorem Keeps.error (h : c.Keeps l) (id fileNum : Int) (err : String) :
    (c.error H id fileNum err).1.Keeps l := by
  unfold Connection.error
  dsimp only
  split_ifs
  · exact (h.jobs _ _).post id .failed
  · exact h.jobs _ c.readJobs

theorem Keeps.sendConfirm (h : c.Keeps l) (r : TransferJob.FileTransferSendConfirmRequest)
    (fs : Fs) : (c.sendConfirm H r fs).1.Keeps l := by
  unfold Connection.sendConfirm
  split_ifs
  · exact h.jobs c.deviceRemoteJobs _
  · exact h

/-- The records do not depend on the phase, but for what a closed connection has left. -/
theorem Keeps.setPhase (h : c.Keeps l) {phase : Phase}
    (hsealed : phase = .closed → ∀ id, c.pendingFileAudits.get id = none) :
    ({ c with phase } : Connection).Keeps l := by
  obtain ⟨l', h', hlost⟩ := h
  exact ⟨l', ⟨h'.auditing, h'.sound, h'.held, h'.opened, h'.posted, h'.numbered, h'.refs, h'.named,
    hsealed⟩, hlost⟩

/-- One event loses an item exactly if it replaces a record. -/
theorem Accounts.step (h : c.Accounts l) (e : ServerEvent) :
    ∃ l', (c.step H e).Accounts l' ∧ (l'.lost = [] ↔ l.lost = [] ∧ c.KeepsRecords e) := by
  have hquiet : ∀ {c' : Connection}, c.remembers e = none → c'.Keeps l →
      ∃ l', c'.Accounts l' ∧ (l'.lost = [] ↔ l.lost = [] ∧ c.KeepsRecords e) := by
    rintro c' hnone ⟨l', h', hlost⟩
    exact ⟨l', h', by rw [hlost, and_iff_left (keepsRecords_of_none hnone)]⟩
  have hloud : ∀ {p : Prop} [Decidable p] (id : Int),
      c.remembers e = (if p then some id else none) →
        (c.KeepsRecords e ↔ (p → c.pendingFileAudits.get id = none)) := by
    intro p _ id hid
    unfold KeepsRecords
    rw [hid]
    by_cases hp : p <;> simp [hp]
  unfold Connection.step next
  cases hphase : c.phase with
  | closed => exact hquiet (by unfold remembers; rw [hphase]) h.keeps
  | draining =>
    have hnone : c.remembers e = none := by
      unfold remembers
      rw [hphase]
    cases e with
    | drained a =>
      dsimp only
      split_ifs
      · exact hquiet hnone (h.keeps.drain a)
      · exact hquiet hnone h.keeps
    | close =>
      refine hquiet hnone ((h.keeps.closeAll c.pendingFileAudits.keys).setPhase fun _ => ?_)
      exact get_closeFileAudits c
    | _ => exact hquiet hnone h.keeps
  | running =>
    have hrun : c.phase ≠ .closed := by
      rw [hphase]
      rintro ⟨⟩
    cases e with
    | send id type path fileNum includeHidden source files fs =>
      obtain ⟨l', h', hlost⟩ :=
        h.send (H := H) hrun id type path fileNum includeHidden source files fs
      refine ⟨l', h', hlost.trans (and_congr_right fun _ => (hloud id ?_).symm)⟩
      unfold remembers
      rw [hphase]
    | receive id path fileNum files totalSize fs =>
      obtain ⟨l', h', hlost⟩ := h.receive (H := H) hrun id path fileNum files totalSize fs
      refine ⟨l', h', hlost.trans (and_congr_right fun _ => (hloud id ?_).symm)⟩
      unfold remembers
      rw [hphase]
    | startDirect id source manifest =>
      obtain ⟨l', h', hlost⟩ := h.startDirect (H := H) hrun id source manifest
      have hnone : c.remembers (.startDirect id source manifest) = none := by
        unfold remembers
        rw [hphase]
      exact ⟨l', h', by rw [hlost, and_iff_left (keepsRecords_of_none hnone)]⟩
    | answer a => exact hquiet (by unfold remembers; rw [hphase]) (h.keeps.answer a)
    | round fs modified =>
      exact hquiet (by unfold remembers; rw [hphase]) (h.keeps.tick fs modified)
    | cancel id =>
      exact hquiet (by unfold remembers; rw [hphase]) ((h.keeps.jobs _ _).post id .cancelled)
    | done id fileNum permitted =>
      exact hquiet (by unfold remembers; rw [hphase]) (h.keeps.done id fileNum permitted)
    | error id fileNum err =>
      exact hquiet (by unfold remembers; rw [hphase]) (h.keeps.error id fileNum err)
    | sendConfirm r fs =>
      exact hquiet (by unfold remembers; rw [hphase]) (h.keeps.sendConfirm r fs)
    | leave => exact hquiet (by unfold remembers; rw [hphase]) (h.keeps.setPhase (by rintro ⟨⟩))
    | _ => exact hquiet (by unfold remembers; rw [hphase]) h.keeps

end Connection

end MDesk
