import MDesk.Server.SessionInv

/-!
# What the connection does for the audit

Each message of the controller, each round and the end of the connection keep the
invariant, where ids are not used twice at a time.
-/

namespace MDesk

open MDesk.Core

namespace Session

variable {H : AuditHost} {c : Connection} {s s' : Session} {id : Int} {n : Nat}
  {d : EnterpriseFileDirection} {status : FileOutcome}

/-! ## Messages of the controller -/

/-- Acknowledgements are noted. -/
theorem Inv.acknowledge (h : s.Inv) (acked : List Nat) :
    ({ s with acked := s.acked ++ acked } : Session).Inv := by
  have hgo : GoesOn s { s with acked := s.acked ++ acked } :=
    ⟨rfl, ⟨[], (List.append_nil _).symm, fun _ => rfl⟩, List.prefix_refl _, fun _ hn => hn,
      fun _ hn => List.mem_append_left _ hn, le_refl _, fun _ hk => .inl hk, fun hclosed => hclosed⟩
  exact ⟨⟨h.opened, h.queued, h.keyed, h.ids, h.clear, h.backed⟩, h.asked, h.reads, h.readKeyed,
    h.readIds, h.recorded, fun e he => hgo.holds h.toWrites (h.holds e he)⟩

/-- The record of an upload names its write job. -/
theorem Inv.recorded_upload (h : s.Inv) {p : PendingFileAudit}
    (hp : s.conn.pendingFileAudits.get id = some p) (hd : p.direction = .upload) :
    s.writes[p.serial]? = some id := by
  have hrec := h.recorded id p hp
  rw [Recorded, hd] at hrec
  exact hrec

/-- The record of a download names its reading job. -/
theorem Inv.recorded_download (h : s.Inv) {p : PendingFileAudit}
    (hp : s.conn.pendingFileAudits.get id = some p) (hd : p.direction = .download) :
    s.downloads[p.serial]? = some id ∧
      if p.sourceFinished then
        p.serial ∈ s.conn.finishedReads ∧ ∀ k ∈ s.conn.readKeys, k.1 ≠ p.serial
      else ∀ k ∈ s.conn.readKeys, k.2 = id → k.1 = p.serial := by
  have hrec := h.recorded id p hp
  rw [Recorded, hd] at hrec
  exact hrec

/-- An upload that is cancelled writes nothing more. -/
theorem Inv.quiet_cancelled (h : s.Inv) {p : PendingFileAudit}
    (hp : s.conn.pendingFileAudits.get id = some p) (hd : p.direction = .upload)
    (huntouched : s.Untouched id p.serial) (c : Connection) :
    ({ s with conn := c, toCm := s.toCm ++ [.fs (.cancelWrite id)] } : Session).Quiet .upload
      p.serial := by
  have hid := h.recorded_upload hp hd
  refine ⟨id, hid, allowed_append.mpr ⟨huntouched, ⟨?_, trivial⟩⟩, .inl ?_⟩
  · rintro ⟨-, hwrites⟩
    cases hwrites
  · rw [run_append, run_cons, run_nil]
    refine WriteView.step_ends rfl ?_
    rw [h.toWrites.opened_behind]
    exact lt_of_getElem? hid

/-- A download whose reading job is off the list sends nothing more. -/
theorem Inv.quiet_removed (h : s.Inv) {p : PendingFileAudit}
    (hp : s.conn.pendingFileAudits.get id = some p) (hd : p.direction = .download)
    {keys : List (Nat × Int)} (hsub : keys ⊆ s.conn.readKeys) (hkeys : ∀ k ∈ keys, k.2 ≠ id) :
    p.serial < s.conn.reads ∧ ∀ k ∈ keys, k.1 ≠ p.serial := by
  obtain ⟨hid, -⟩ := h.recorded_download hp hd
  refine ⟨h.reads ▸ lt_of_getElem? hid, fun k hk hserial => hkeys k hk ?_⟩
  have hkey := h.readKeyed k (hsub hk)
  rw [hserial, hid] at hkey
  exact (Option.some.inj hkey).symm

theorem pendingIs_iff : c.pendingIs id d = true ↔
    ∃ p, c.pendingFileAudits.get id = some p ∧ p.direction = d := by
  unfold Connection.pendingIs
  cases c.pendingFileAudits.get id <;> simp

theorem holds_of_quiet (h : s.Quiet d n) (hstatus : status ≠ .completed) : s.Holds d n status := by
  rw [Holds, if_neg hstatus]
  exact h

/-- A `Cancel` of the controller. -/
theorem Inv.cancel (h : s.Inv) (hphase : s.conn.phase = .running)
    (huntouched : ∀ p, s.conn.pendingFileAudits.get id = some p → p.direction = .upload →
      s.Untouched id p.serial) :
    ({ s with
      conn := (s.conn.cancel H id).1
      toCm := s.toCm ++ (s.conn.cancel H id).2 } : Session).Inv := by
  have hopen : s.conn.phase ≠ .closed := by
    rw [hphase]
    rintro ⟨⟩
  have hkeys : ({ s.conn with
      deviceRemoteJobs := s.conn.deviceRemoteJobs.erase id
      readJobs := Connection.removeJob id s.conn.readJobs } : Connection).readKeys =
        s.conn.readKeys.eraseP fun k => k.2 = id := Connection.removeJob_key id s.conn.readJobs
  have hfirst := (h.enqueue [.fs (.cancelWrite id)] (by simp [ToCm.opensId, FsMessage.opensId])
    hopen).readOn (c := { s.conn with
      deviceRemoteJobs := s.conn.deviceRemoteJobs.erase id
      readJobs := Connection.removeJob id s.conn.readJobs }) rfl rfl rfl rfl rfl
    (hkeys ▸ List.eraseP_sublist) fun _ hn => hn
  refine hfirst.post id .cancelled fun p hp => holds_of_quiet ?_ (by rintro ⟨⟩)
  cases hd : p.direction with
  | upload => exact h.quiet_cancelled hp hd (huntouched p hp hd) _
  | download =>
    refine .inl ?_
    rw [hkeys]
    exact h.quiet_removed hp hd List.eraseP_subset fun k hk =>
      Connection.not_mem_eraseP h.readIds hk

/-- A `Done` of the controller. -/
theorem Inv.done (h : s.Inv) (hphase : s.conn.phase = .running) (fileNum : Int) (permitted : Bool)
    (hunused : id ∈ s.conn.deviceRemoteJobs → permitted = false → s.Unused id) :
    ({ s with
      conn := (s.conn.done H id fileNum permitted).1
      toCm := s.toCm ++ (s.conn.done H id fileNum permitted).2
      acked := s.acked ++ s.acknowledged (.done id fileNum permitted) } : Session).Inv := by
  have hopen : s.conn.phase ≠ .closed := by
    rw [hphase]
    rintro ⟨⟩
  have hsame : ∀ {s : Session}, s.Inv → ({ s with conn := { s.conn with
      deviceRemoteJobs := s.conn.deviceRemoteJobs.erase id } } : Session).Inv := fun h =>
    h.readOn rfl rfl rfl rfl rfl (List.Sublist.refl _) fun _ hn => hn
  have hnoted := h.acknowledge (s.acknowledged (.done id fileNum permitted))
  have hplain : ∀ ms : List ToCm, (∀ m ∈ ms, m.opensId = none) → ({ s with
      conn := { s.conn with deviceRemoteJobs := s.conn.deviceRemoteJobs.erase id }
      toCm := s.toCm ++ ms
      acked := s.acked ++ s.acknowledged (.done id fileNum permitted) } : Session).Inv :=
    fun ms hms => hsame (hnoted.enqueue ms hms hopen)
  unfold Connection.done
  dsimp only
  split_ifs with hrevoked hack hdownload
  · refine (hplain [.fs (.cancelWrite id)] (by simp [ToCm.opensId, FsMessage.opensId])).post id
      .failed fun p hp => holds_of_quiet ?_ (by rintro ⟨⟩)
    have hnot : permitted = false := by simpa using hrevoked.2
    have hfree := hunused hrevoked.1 hnot p hp
    cases hd : p.direction with
    | upload => exact hnoted.quiet_cancelled hp hd (hfree.1 hd) _
    | download =>
      refine .inl (h.quiet_removed hp hd (List.Subset.refl _) fun k hk => ?_)
      obtain ⟨j, hj, rfl⟩ := List.mem_map.mp hk
      exact hfree.2 hd j hj
  · refine (hplain [] (by simp)).post id .completed fun p hp => ?_
    rw [Option.any_eq_true] at hack
    obtain ⟨p', hp', hfinished⟩ := hack
    obtain rfl : p' = p := Option.some.inj (hp'.symm.trans hp)
    rw [decide_eq_true_eq] at hfinished
    obtain ⟨hd, hfinished⟩ := hfinished
    obtain ⟨hid, hread⟩ := h.recorded_download hp hd
    rw [if_pos hfinished] at hread
    rw [Holds, if_pos rfl, hd]
    refine ⟨hread.1, List.mem_append_right _ ?_⟩
    unfold acknowledged
    rw [hphase]
    exact List.mem_filter.mpr ⟨hread.1, decide_eq_true hid⟩
  · exact hplain [] (by simp)
  · exact hplain [.fs (.writeDone id fileNum)] (by simp [ToCm.opensId, FsMessage.opensId])

/-- An `Error` of the controller. -/
theorem Inv.error (h : s.Inv) (hphase : s.conn.phase = .running) (fileNum : Int) (err : String) :
    ({ s with
      conn := (s.conn.error H id fileNum err).1
      toCm := s.toCm ++ (s.conn.error H id fileNum err).2 } : Session).Inv := by
  have hopen : s.conn.phase ≠ .closed := by
    rw [hphase]
    nofun
  unfold Connection.error
  dsimp only
  split_ifs with hdownload
  · obtain ⟨p, hp, hd⟩ := pendingIs_iff.mp hdownload
    have hkeys : ({ s.conn with
        deviceRemoteJobs := s.conn.deviceRemoteJobs.erase id
        readJobs := Connection.removeJob id s.conn.readJobs } : Connection).readKeys =
          s.conn.readKeys.eraseP fun k => k.2 = id := Connection.removeJob_key id s.conn.readJobs
    have hfirst := (h.enqueue [] (by simp) hopen).readOn (c := { s.conn with
        deviceRemoteJobs := s.conn.deviceRemoteJobs.erase id
        readJobs := Connection.removeJob id s.conn.readJobs }) rfl rfl rfl rfl rfl
      (hkeys ▸ List.eraseP_sublist) fun _ hn => hn
    refine hfirst.post id .failed fun p' hp' => holds_of_quiet ?_ nofun
    obtain rfl : p = p' := Option.some.inj (hp.symm.trans hp')
    rw [hd]
    refine .inl ?_
    rw [hkeys]
    exact h.quiet_removed hp hd List.eraseP_subset fun k hk =>
      Connection.not_mem_eraseP h.readIds hk
  · exact (h.enqueue [.fs (.writeError id fileNum err)]
      (by simp [ToCm.opensId, FsMessage.opensId]) hopen).readOn rfl rfl rfl rfl rfl
      (List.Sublist.refl _) fun _ hn => hn

/-- An answer to a digest. -/
theorem Inv.sendConfirm (h : s.Inv) (hphase : s.conn.phase = .running)
    (r : TransferJob.FileTransferSendConfirmRequest) (fs : Fs) :
    ({ s with
      conn := (s.conn.sendConfirm H r fs).1
      toCm := s.toCm ++ (s.conn.sendConfirm H r fs).2 } : Session).Inv := by
  have hopen : s.conn.phase ≠ .closed := by
    rw [hphase]
    nofun
  unfold Connection.sendConfirm
  split_ifs
  · refine (h.enqueue [] (by simp) hopen).readOn rfl rfl rfl rfl rfl ?_ fun _ hn => hn
    rw [Connection.readKeys, Connection.updateJob_key fun _ => TransferJob.confirm_id]
    exact List.Sublist.refl _
  · exact h.enqueue _ (by simp [ToCm.opensId, FsMessage.opensId]) hopen

/-! ## Rounds over the reading jobs -/

/-- A reading job that has ended is noted in its record. -/
theorem Inv.noteFinished (h : s.Inv) {p : PendingFileAudit}
    (hp : s.conn.pendingFileAudits.get id = some p) (hd : p.direction = .download)
    (hfinished : p.serial ∈ s.conn.finishedReads) (hkeys : ∀ k ∈ s.conn.readKeys, k.1 ≠ p.serial) :
    ({ s with conn := { s.conn with pendingFileAudits :=
      s.conn.pendingFileAudits.insert id { p with sourceFinished := true } } } : Session).Inv := by
  refine ⟨h.toWrites.withConn _, h.asked, h.reads, h.readKeyed, h.readIds, fun id' p' hp' => ?_,
    h.holds⟩
  rw [Table.get_insert] at hp'
  split_ifs at hp' with hid
  · cases hp'
    rw [Recorded, hd, hid]
    exact ⟨(h.recorded_download hp hd).1, hfinished, hkeys⟩
  · exact h.recorded id' p' hp'

/-- A round over the reading jobs. -/
theorem Inv.tick (h : s.Inv) (fs : Fs) (modified : TransferJob.Modified) :
    ({ s with conn := s.conn.tick H fs modified } : Session).Inv := by
  obtain ⟨hkeys, hended, -⟩ := Connection.handleReadJobs_spec H.platform fs modified
    s.conn.readJobs h.readIds
  unfold Connection.tick
  dsimp only
  generalize Connection.handleReadJobs H.platform fs modified s.conn.readJobs = round
    at hkeys hended
  generalize hc : ({ s.conn with
    readJobs := round.jobs
    finishedReads := s.conn.finishedReads ++
      (round.finished.filter fun j => j.job.auditError.isNone).map HostJob.serial
    sentBlocks := s.conn.sentBlocks ++ round.sent } : Connection) = c
  have hround : ({ s with conn := c } : Session).Inv := by
    subst hc
    exact h.readOn rfl rfl rfl rfl rfl hkeys fun n hn => List.mem_append_left _ hn
  have hpending : c.pendingFileAudits = s.conn.pendingFileAudits := by rw [← hc]
  have hreads : c.reads = s.conn.reads := by rw [← hc]
  have hreadKeys : c.readKeys = round.jobs.map HostJob.key := by rw [← hc]; rfl
  rcases hended with hnil | ⟨j, hj, hjkey, hgone⟩
  · rw [hnil, List.foldl_nil]
    exact hround
  · have hnoted : j.job.auditError.isNone = true → j.serial ∈ c.finishedReads := by
      intro hnone
      rw [← hc, hj]
      refine List.mem_append_right _ (List.mem_map_of_mem (List.mem_filter.mpr ?_))
      exact ⟨List.mem_singleton_self j, hnone⟩
    rw [hj, List.foldl_cons, List.foldl_nil]
    unfold Connection.readOutcome
    split_ifs with hdownload hnone
    · split
      · exact hround
      · rename_i p hp
        obtain ⟨p', hp', hd⟩ := pendingIs_iff.mp hdownload
        obtain rfl : p = p' := Option.some.inj (hp.symm.trans hp')
        have hold := (h.recorded_download (hpending ▸ hp) hd).2
        have hquiet := h.quiet_removed (hpending ▸ hp) hd (hkeys.subset) fun k hk => by
          obtain ⟨j', hj', rfl⟩ := List.mem_map.mp hk
          exact hgone j' hj'
        refine hround.noteFinished hp hd ?_ (hreadKeys ▸ hquiet.2)
        by_cases hfinished : p.sourceFinished = true
        · have hread := (hround.recorded_download hp hd).2
          rw [if_pos hfinished] at hread
          exact hread.1
        · rw [if_neg hfinished] at hold
          have hserial : j.serial = p.serial := hold j.key hjkey rfl
          exact hserial ▸ hnoted hnone
    · refine hround.post j.job.id .failed fun p hp => holds_of_quiet ?_ (by rintro ⟨⟩)
      obtain ⟨p', hp', hd⟩ := pendingIs_iff.mp hdownload
      obtain rfl : p = p' := Option.some.inj (hp.symm.trans hp')
      rw [hd]
      refine .inl ?_
      have hquiet := h.quiet_removed (hpending ▸ hp) hd (hkeys.subset) fun k hk => by
        obtain ⟨j', hj', rfl⟩ := List.mem_map.mp hk
        exact hgone j' hj'
      exact ⟨hreads ▸ hquiet.1, hreadKeys ▸ hquiet.2⟩
    · exact hround

/-! ## Requests -/

/-- A transfer is remembered. -/
theorem Inv.remember (h : s.Inv) {p : PendingFileAudit} (hrec : s.Recorded id p) :
    ({ s with conn := s.conn.insertPending id p } : Session).Inv := by
  refine ⟨h.toWrites.withConn _, h.asked, h.reads, h.readKeyed, h.readIds, fun id' p' hp' => ?_,
    h.holds⟩
  rw [Connection.insertPending, Table.get_insert] at hp'
  split_ifs at hp' with hid
  · cases hp'
    rw [hid]
    exact hrec
  · exact h.recorded id' p' hp'

/-- A reading job joins the list. -/
theorem Inv.openRead (h : s.Inv) {job : TransferJob} (hid : job.id = id)
    (hfree : ∀ k ∈ s.conn.readKeys, k.2 ≠ id)
    (hread : ∀ p, s.conn.pendingFileAudits.get id = some p → p.direction = .download →
      p.sourceFinished = true) :
    ({ s with
      conn := { s.conn with
        reads := s.conn.reads + 1
        readJobs := s.conn.readJobs ++ [{ serial := s.conn.reads, job }] }
      downloads := s.downloads ++ [id] } : Session).Inv := by
  have hkey : HostJob.key { serial := s.conn.reads, job } = (s.conn.reads, id) := by
    rw [HostJob.key, hid]
  have hkeys : ({ s.conn with
      reads := s.conn.reads + 1
      readJobs := s.conn.readJobs ++ [{ serial := s.conn.reads, job }] } : Connection).readKeys =
        s.conn.readKeys ++ [(s.conn.reads, id)] := by
    rw [Connection.readKeys, List.map_append, List.map_singleton, hkey]
    rfl
  have hmem : ∀ k ∈ s.conn.readKeys ++ [(s.conn.reads, id)],
      k ∈ s.conn.readKeys ∨ k = (s.conn.reads, id) := fun k hk =>
    (List.mem_append.mp hk).imp_right List.mem_singleton.mp
  have hnew : (s.downloads ++ [id])[s.conn.reads]? = some id := by
    rw [← h.reads]
    exact List.getElem?_concat_length
  refine ⟨⟨h.opened, h.queued, h.keyed, h.ids, h.clear, h.backed⟩, h.asked, ?_, ?_, ?_, ?_, ?_⟩
  · rw [List.length_append, h.reads]
    rfl
  · rw [hkeys]
    intro k hk
    rcases hmem k hk with hin | rfl
    · exact getElem?_extend (List.prefix_append _ _) (h.readKeyed k hin)
    · exact hnew
  · rw [hkeys, List.map_append, List.map_singleton, ← List.concat_eq_append, List.nodup_concat]
    refine ⟨fun hin => ?_, h.readIds⟩
    obtain ⟨k, hk, hkid⟩ := List.mem_map.mp hin
    exact hfree k hk hkid
  · intro id' p hp
    have hold := h.recorded id' p hp
    cases hd : p.direction with
    | upload =>
      rw [Recorded, hd] at hold ⊢
      exact hold
    | download =>
      have hrec := h.recorded_download hp hd
      have hlt : p.serial < s.conn.reads := h.reads ▸ lt_of_getElem? hrec.1
      rw [Recorded, hd]
      refine ⟨getElem?_extend (List.prefix_append _ _) hrec.1, ?_⟩
      have hkept := hrec.2
      split_ifs at hkept ⊢ with hfinished
      · refine ⟨hkept.1, ?_⟩
        rw [hkeys]
        intro k hk
        rcases hmem k hk with hin | rfl
        · exact hkept.2 k hin
        · exact hlt.ne'
      · rw [hkeys]
        intro k hk hkid
        rcases hmem k hk with hin | rfl
        · exact hkept k hin hkid
        · obtain rfl : id = id' := hkid
          exact absurd (hread p hp hd) hfinished
  · intro e he
    refine GoesOn.holds (s := s) ⟨rfl, ⟨[], (List.append_nil _).symm, fun _ => rfl⟩,
      List.prefix_refl _, fun _ hn => hn, fun _ hn => hn, Nat.le_succ _, fun k hk => ?_,
      fun hclosed => hclosed⟩ h.toWrites (h.holds e he)
    rw [hkeys] at hk
    exact (hmem k hk).imp_right fun heq => by rw [heq]

/-- What is recorded of the download that has just been asked for. -/
theorem recorded_openRead (h : s.Inv) {job : TransferJob} (hfree : ∀ k ∈ s.conn.readKeys, k.2 ≠ id)
    {p : PendingFileAudit}
    (hserial : p.serial = s.conn.reads) (hd : p.direction = .download)
    (hfinished : p.sourceFinished = false) :
    ({ s with
      conn := { s.conn with
        reads := s.conn.reads + 1
        readJobs := s.conn.readJobs ++ [{ serial := s.conn.reads, job }] }
      downloads := s.downloads ++ [id] } : Session).Recorded id p := by
  rw [Recorded, hd, hfinished, hserial]
  refine ⟨h.reads ▸ List.getElem?_concat_length, ?_⟩
  rw [if_neg Bool.false_ne_true]
  intro k hk hkid
  rw [Connection.readKeys, List.map_append, List.map_singleton] at hk
  rcases List.mem_append.mp hk with hin | hin
  · exact absurd hkid (hfree k hin)
  · rw [List.mem_singleton.mp hin]
    rfl

/-- A request for a download. -/
theorem Inv.send (h : s.Inv) (type : JobType) (path : String) (fileNum : Int)
    (includeHidden : Bool) (source : DataSource) (files : List FileEntry) (fs : Fs)
    (hfree : ∀ j ∈ s.conn.readJobs, j.job.id ≠ id)
    (hread : ∀ p, s.conn.pendingFileAudits.get id = some p → p.direction = .download →
      p.sourceFinished = true) :
    ({ s with
      conn := s.conn.send H id type path fileNum includeHidden source files fs
      downloads := s.downloads ++ [id] } : Session).Inv := by
  have hfree' : ∀ k ∈ s.conn.readKeys, k.2 ≠ id := by
    intro k hk
    obtain ⟨j, hj, rfl⟩ := List.mem_map.mp hk
    exact hfree j hj
  have hid : (s.conn.newRead id type fileNum includeHidden source files).id = id := rfl
  unfold Connection.send Connection.rememberEnterpriseFileTransfer
  dsimp only
  split
  · exact h.openRead hid hfree' hread
  · exact (h.openRead hid hfree' hread).remember (recorded_openRead h hfree' rfl rfl rfl)

/-- A direct transfer is refused, or its reading job joins the list and may be remembered. -/
theorem startDirect_cases (c : Connection) (id : Int) (source : PathBuf)
    (manifest : DirectTransferManifest) :
    c.startDirectFileTransfer H id source manifest = c ∨
      ∃ job, job.id = id ∧ (∀ j ∈ c.readJobs, j.job.id ≠ id) ∧
        c.pendingFileAudits.get id = none ∧
        let c' : Connection := { c with
          reads := c.reads + 1
          readJobs := c.readJobs ++ [{ serial := c.reads, job }] }
        c.startDirectFileTransfer H id source manifest = c' ∨
          ∃ p : PendingFileAudit, p.serial = c.reads ∧ p.direction = .download ∧
            p.sourceFinished = false ∧
            c.startDirectFileTransfer H id source manifest = c'.insertPending id p := by
  unfold Connection.startDirectFileTransfer
  split_ifs with hbusy
  · exact .inl rfl
  · split
    · exact .inl rfl
    · rename_i job hjob
      rw [not_or] at hbusy
      refine .inr ⟨job, TransferJob.newDirectRead_id hjob, fun j hj hid => ?_,
        Option.not_isSome_iff_eq_none.mp hbusy.2, ?_⟩
      · exact hbusy.1 (List.any_eq_true.mpr ⟨j, hj, decide_eq_true hid⟩)
      · unfold Connection.rememberEnterpriseDirectDownload
        dsimp only
        split
        · exact .inl rfl
        · split_ifs
          · exact .inr ⟨_, rfl, rfl, rfl, rfl⟩
          · exact .inl rfl

/-- A direct transfer that is started, or refused. -/
theorem Inv.startDirect (h : s.Inv) (id : Int) (source : PathBuf)
    (manifest : DirectTransferManifest) :
    ({ s with
      conn := s.conn.startDirectFileTransfer H id source manifest
      downloads := s.downloads ++
        if (s.conn.startDirectFileTransfer H id source manifest).reads = s.conn.reads then []
        else [id] } : Session).Inv := by
  rcases startDirect_cases (H := H) s.conn id source manifest with
    hsame | ⟨job, hid, hfree, hnone, hopened⟩
  · rw [hsame, if_pos rfl, List.append_nil]
    exact h
  · have hfree' : ∀ k ∈ s.conn.readKeys, k.2 ≠ id := by
      intro k hk
      obtain ⟨j, hj, rfl⟩ := List.mem_map.mp hk
      exact hfree j hj
    have hopen := h.openRead hid hfree' fun p hp => by
      rw [hnone] at hp
      cases hp
    have hne : s.conn.reads + 1 ≠ s.conn.reads := Nat.succ_ne_self _
    rcases hopened with hsame | ⟨p, hserial, hd, hfinished, hsame⟩
    · rw [hsame, if_neg hne]
      exact hopen
    · rw [hsame, if_neg (by exact hne)]
      exact hopen.remember (recorded_openRead h hfree' hserial hd hfinished)

/-- A request for an upload. -/
theorem Inv.receive (h : s.Inv) (hphase : s.conn.phase = .running) (path : String) (fileNum : Int)
    (files : List FileEntry) (totalSize : Nat) (fs : Fs) (hfree : id ∉ s.writeIds) :
    ({ s with
      conn := (s.conn.receive H id path fileNum files totalSize fs).1
      toCm := s.toCm ++ (s.conn.receive H id path fileNum files totalSize fs).2
      writes := s.writes ++ [id] } : Session).Inv := by
  have hnew : (s.writes ++ [id])[s.conn.newWrites]? = some id := by
    rw [← h.asked]
    exact List.getElem?_concat_length
  have hopen : ∀ (deviceRemoteJobs : Finset Int) (m : ToCm), m.opensId = some id → ({ s with
      conn := { s.conn with newWrites := s.conn.newWrites + 1, deviceRemoteJobs }
      toCm := s.toCm ++ [m]
      writes := s.writes ++ [id] } : Session).Inv := by
    intro deviceRemoteJobs m hm
    refine ⟨⟨?_, ?_, ?_, h.ids, ?_, h.backed⟩, ?_, h.reads, h.readKeyed, h.readIds, ?_, ?_⟩
    · rw [List.length_append]
      exact h.opened.trans (Nat.le_add_right _ _)
    · rw [List.drop_append_of_le_length h.opened, h.queued, List.filterMap_append,
        List.filterMap_cons_some hm, List.filterMap_nil]
    · exact fun k hk => ⟨getElem?_extend (List.prefix_append _ _) (h.keyed k hk).1,
        (h.keyed k hk).2⟩
    · refine allowed_append.mpr ⟨h.clear, ⟨fun id' hid' => ?_, trivial⟩⟩
      obtain rfl : id = id' := Option.some.inj (hm.symm.trans hid')
      exact hfree
    · rw [List.length_append, h.asked]
      rfl
    · intro id' p hp
      have hold := h.recorded id' p hp
      cases hd : p.direction with
      | upload =>
        rw [Recorded, hd] at hold ⊢
        exact getElem?_extend (List.prefix_append _ _) hold
      | download =>
        rw [Recorded, hd] at hold ⊢
        exact hold
    · intro e he
      refine GoesOn.holds (s := s) ⟨rfl, ⟨[m], rfl, fun hclosed => ?_⟩, List.prefix_append _ _,
        fun _ hn => hn, fun _ hn => hn, le_refl _, fun k hk => .inl hk, fun hclosed => hclosed⟩
        h.toWrites (h.holds e he)
      rw [hphase] at hclosed
      cases hclosed
  unfold Connection.receive Connection.rememberEnterpriseFileTransfer
  dsimp only
  split
  · exact hopen _ _ rfl
  · exact (hopen _ _ rfl).remember hnew

/-! ## The end of a connection -/

/-- The connection comes to its end. -/
theorem Inv.setPhase (h : s.Inv) (hphase : s.conn.phase ≠ .closed) (phase : Phase) :
    ({ s with conn := { s.conn with phase } } : Session).Inv := by
  refine ⟨h.toWrites.withConn _, h.asked, h.reads, h.readKeyed, h.readIds, h.recorded,
    fun e he => ?_⟩
  exact GoesOn.holds (s := s) ⟨rfl, ⟨[], (List.append_nil _).symm, fun _ => rfl⟩,
    List.prefix_refl _, fun _ hn => hn, fun _ hn => hn, le_refl _, fun k hk => .inl hk,
    fun hclosed => absurd hclosed hphase⟩ h.toWrites (h.holds e he)

/-- The close of a connection. -/
theorem Inv.close (h : s.Inv) (hphase : s.conn.phase = .draining)
    (huntouched : ∀ id p, s.conn.pendingFileAudits.get id = some p → p.direction = .upload →
      s.Untouched id p.serial) :
    ({ s with conn := { s.conn.closeFileAudits H with phase := .closed } } : Session).Inv := by
  have hposts := settles_posts (H := H) s.conn.pendingFileAudits.keys s.conn .cancelled
  have hset : Settles { s.conn with phase := .closed }
      { s.conn.closeFileAudits H with phase := .closed } fun _ _ status => status = .cancelled := by
    refine ⟨?_, hposts.pending, hposts.posted⟩
    have hsame := hposts.same
    rw [Connection.closeFileAudits]
    generalize s.conn.pendingFileAudits.keys.foldl
      (fun c id => c.postEnterpriseFileOutcome H id .cancelled) s.conn = c at hsame
    rw [hsame]
  refine (h.setPhase (by rw [hphase]; nofun) .closed).settle hset fun id p status hp hstatus => ?_
  rw [hstatus]
  refine holds_of_quiet ?_ nofun
  cases hd : p.direction with
  | upload => exact ⟨id, h.recorded_upload hp hd, huntouched id p hp hd, .inr rfl⟩
  | download => exact .inr rfl

/-! ## Answers of the connection manager -/

/-- The outcome of an answer that is meant for a record is true. -/
theorem Inv.meant (h : s.Inv) {r : Reply} (hr : r ∈ s.replies) (hmeant : s.Meant r)
    {p : PendingFileAudit} (hp : s.conn.pendingFileAudits.get id = some p)
    (hsettled : s.settledBy r.answer = some p) :
    s.Holds p.direction p.serial (if r.answer.succeeds then .completed else .failed) := by
  obtain ⟨hd, horigin, hends⟩ := hmeant p hsettled
  obtain ⟨hsuccess, hfailure⟩ := h.backed r hr p.serial horigin
  rw [hd]
  split_ifs with hsucceeds
  · rw [Holds, if_pos rfl]
    exact hsuccess hsucceeds
  · refine holds_of_quiet ?_ nofun
    refine Writes.quiet_of_gone (hfailure ?_) (h.recorded_upload hp hd)
    unfold Reply.fails
    cases ha : r.answer with
    | done id fileNum => rw [ha] at hsucceeds; exact absurd rfl hsucceeds
    | error id err fileNum => rw [ha] at hends; rw [hends rfl]; rfl
    | outcome id succeeded =>
      rw [ha] at hsucceeds
      exact Bool.not_eq_true' _ |>.mpr (eq_false_of_ne_true hsucceeds)
    | sendConfirm r => rw [ha] at hsettled; cases hsettled
    | digest digest => rw [ha] at hsettled; cases hsettled

/-- A terminal answer settles the upload of its id. -/
theorem Inv.capture (h : s.Inv) {r : Reply} (hr : r ∈ s.replies) (hmeant : s.Meant r)
    (hsettled : s.settledBy r.answer =
      (s.conn.pendingFileAudits.get id).filter fun p => p.direction = .upload)
    (hstatus : (if r.answer.succeeds then .completed else .failed) = status) :
    ({ s with conn := s.conn.captureEnterpriseFileOutcomeFromCm H id status } : Session).Inv := by
  have hsame : ({ s with conn := { s.conn with
      deviceRemoteJobs := s.conn.deviceRemoteJobs.erase id } } : Session).Inv :=
    h.readOn rfl rfl rfl rfl rfl (List.Sublist.refl _) fun _ hn => hn
  unfold Connection.captureEnterpriseFileOutcomeFromCm
  dsimp only
  split_ifs with hupload
  · refine hsame.post id status fun p hp => ?_
    obtain ⟨p', hp', hd⟩ := pendingIs_iff.mp hupload
    obtain rfl : p = p' := Option.some.inj (hp.symm.trans hp')
    rw [← hstatus]
    refine h.meant hr hmeant hp ?_
    rw [hsettled, hp', Option.filter_some, if_pos (decide_eq_true hd)]
  · exact hsame

/-- An answer is taken while the loop runs. -/
theorem Inv.answer (h : s.Inv) {r : Reply} (hr : r ∈ s.replies) (hmeant : s.Meant r) :
    ({ s with conn := s.conn.answer H r.answer } : Session).Inv := by
  cases ha : r.answer with
  | done id fileNum => exact h.capture hr hmeant (by rw [ha]; rfl) (by rw [ha]; rfl)
  | error id err fileNum => exact h.capture hr hmeant (by rw [ha]; rfl) (by rw [ha]; rfl)
  | outcome id succeeded =>
    unfold Connection.answer
    dsimp only
    by_cases hupload : s.conn.pendingIs id .upload = true
    · rw [if_pos hupload]
      obtain ⟨p, hp, hd⟩ := pendingIs_iff.mp hupload
      refine h.post id _ fun p' hp' => ?_
      obtain rfl : p = p' := Option.some.inj (hp.symm.trans hp')
      have hholds := h.meant hr hmeant hp
        (by rw [ha, settledBy, hp, Option.filter_some, if_pos (by simp [hd])])
      rw [ha] at hholds
      exact hholds
    · rw [if_neg hupload]
      exact h
  | sendConfirm r => exact h
  | digest digest => exact h

/-- An answer is drained. -/
theorem Inv.drain (h : s.Inv) (hphase : s.conn.phase = .draining)
    (hpending : s.conn.uploadPending = true) {r : Reply} (hr : r ∈ s.replies)
    (hmeant : s.Meant r) : ({ s with conn := s.conn.drain H r.answer } : Session).Inv := by
  cases ha : r.answer with
  | done id fileNum => exact h.capture hr hmeant (by rw [ha]; rfl) (by rw [ha]; rfl)
  | error id err fileNum => exact h.capture hr hmeant (by rw [ha]; rfl) (by rw [ha]; rfl)
  | outcome id succeeded =>
    refine h.post id _ fun p hp => ?_
    have hholds := h.meant hr hmeant hp
      (by rw [ha, settledBy, hp, Option.filter_some, if_pos (by simp [hphase, hpending])])
    rw [ha] at hholds
    exact hholds
  | sendConfirm r => exact h
  | digest digest => exact h

/-- A connection that has posted outcomes, and neither started a reading job nor sent. -/
structure Follows (c c' : Connection) : Prop where
  reads : c'.reads = c.reads
  sent : c'.sentBlocks = c.sentBlocks
  posted : c.posted <+: c'.posted

theorem Follows.refl (c : Connection) : Follows c c := ⟨rfl, rfl, List.prefix_refl _⟩

theorem Follows.trans {c c' c'' : Connection} (h : Follows c c') (h' : Follows c' c'') :
    Follows c c'' :=
  ⟨h'.reads.trans h.reads, h'.sent.trans h.sent, h.posted.trans h'.posted⟩

/-- What else the connection does has no part in it. -/
theorem Follows.of_same {c c₁ c' : Connection} (h : Follows c₁ c') (hreads : c₁.reads = c.reads)
    (hsent : c₁.sentBlocks = c.sentBlocks) (hposted : c₁.posted = c.posted) : Follows c c' :=
  ⟨h.reads.trans hreads, h.sent.trans hsent, hposted ▸ h.posted⟩

/-- Outcomes start no reading job and send nothing. -/
theorem post_follows (c : Connection) (id : Int) (status : FileOutcome) :
    Follows c (c.postEnterpriseFileOutcome H id status) := by
  unfold Connection.postEnterpriseFileOutcome
  split
  · exact .refl c
  · dsimp only
    split
    · exact ⟨rfl, rfl, List.prefix_refl _⟩
    · split_ifs
      · exact ⟨rfl, rfl, List.prefix_refl _⟩
      · exact ⟨rfl, rfl, List.prefix_append _ _⟩
      · exact ⟨rfl, rfl, List.prefix_refl _⟩

theorem posts_follow (ids : List Int) (c : Connection) (status : FileOutcome) :
    Follows c (ids.foldl (fun c id => c.postEnterpriseFileOutcome H id status) c) := by
  induction ids generalizing c with
  | nil => exact .refl c
  | cons id ids ih => exact (post_follows c id status).trans (ih _)

theorem capture_follows (c : Connection) (id : Int) (status : FileOutcome) :
    Follows c (c.captureEnterpriseFileOutcomeFromCm H id status) := by
  unfold Connection.captureEnterpriseFileOutcomeFromCm
  dsimp only
  split_ifs
  · exact (post_follows _ _ _).of_same rfl rfl rfl
  · exact ⟨rfl, rfl, List.prefix_refl _⟩

theorem answer_follows (c : Connection) (a : CmAnswer) : Follows c (c.answer H a) := by
  cases a with
  | done id fileNum => exact capture_follows _ _ _
  | error id err fileNum => exact capture_follows _ _ _
  | outcome id succeeded =>
    unfold Connection.answer
    dsimp only
    split_ifs
    · exact post_follows _ _ _
    · exact post_follows _ _ _
    · exact .refl c
  | sendConfirm r => exact .refl c
  | digest digest => exact .refl c

theorem drain_follows (c : Connection) (a : CmAnswer) : Follows c (c.drain H a) := by
  cases a with
  | done id fileNum => exact capture_follows _ _ _
  | error id err fileNum => exact capture_follows _ _ _
  | outcome id succeeded => exact post_follows _ _ _
  | sendConfirm r => exact .refl c
  | digest digest => exact .refl c

/-- Answers join or leave the queue. -/
theorem Inv.withReplies (h : s.Inv) {replies : List Reply}
    (hbacked : ∀ r ∈ replies, r.Backed s.cm) :
    ({ s with replies } : Session).Inv :=
  ⟨⟨h.opened, h.queued, h.keyed, h.ids, h.clear, hbacked⟩, h.asked, h.reads, h.readKeyed, h.readIds,
    h.recorded, h.holds⟩

/-- The next answer is taken. -/
theorem Inv.take (h : s.Inv) {r : Reply} {replies : List Reply} (hs : s.replies = r :: replies)
    (hmeant : s.Meant r) : (({ s with replies } : Session).serve H (s.taken r)).Inv := by
  have hr : r ∈ s.replies := hs ▸ List.mem_cons_self
  have hconn : ∀ c : Connection, ({ s with conn := c } : Session).Inv →
      ({ s with conn := c, replies } : Session).Inv := fun c hc =>
    hc.withReplies fun r' hr' => h.backed r' (hs ▸ List.mem_cons_of_mem _ hr')
  have hgoal : ∀ (e : ServerEvent) (c : Connection), s.conn.next H e = (c, []) →
      c.reads = s.conn.reads → s.acknowledged e = [] → ({ s with conn := c } : Session).Inv →
      (({ s with replies } : Session).serve H e).Inv := by
    intro e c hnext hreads hacked hinv
    have hserve : ({ s with replies } : Session).serve H e = { s with conn := c, replies } := by
      unfold serve
      have hacked' : ({ s with replies } : Session).acknowledged e = [] := hacked
      simp only [hnext, hacked', hreads, if_true, List.append_nil, List.filterMap_nil]
    rw [hserve]
    exact hconn c hinv
  unfold taken
  split_ifs with hdraining
  · refine hgoal _ (if s.conn.uploadPending then s.conn.drain H r.answer else s.conn) ?_ ?_ ?_ ?_
    · unfold Connection.next
      rw [hdraining]
    · split_ifs
      · exact (drain_follows _ _).reads
      · rfl
    · unfold acknowledged
      rw [hdraining]
    · split_ifs with hpending
      · exact h.drain hdraining hpending hr hmeant
      · exact h
  · cases hphase : s.conn.phase with
    | draining => exact absurd hphase hdraining
    | closed =>
      refine hgoal _ s.conn ?_ rfl ?_ h
      · unfold Connection.next
        rw [hphase]
      · unfold acknowledged
        rw [hphase]
    | running =>
      refine hgoal _ (s.conn.answer H r.answer) ?_ ?_ ?_ (h.answer hr hmeant)
      · unfold Connection.next
        rw [hphase]
        rfl
      · exact (answer_follows _ _).reads
      · unfold acknowledged
        rw [hphase]

/-! ## Every event -/

/-- A message that opens nothing, and starts no reading job. -/
theorem serve_eq {e : ServerEvent} {ms : List ToCm} (hnext : s.conn.next H e = (c, ms))
    (hms : ∀ m ∈ ms, m.opensId = none) (hreads : c.reads = s.conn.reads) :
    s.serve H e =
      { s with conn := c, toCm := s.toCm ++ ms, acked := s.acked ++ s.acknowledged e } := by
  unfold serve
  simp only [hnext, hreads, if_true, List.append_nil, List.filterMap_eq_nil_iff.mpr hms]

/-- Nothing happens. -/
theorem Inv.idle (h : s.Inv) {e : ServerEvent} (hnext : s.conn.next H e = (s.conn, []))
    (hacked : s.acknowledged e = []) : (s.serve H e).Inv := by
  rw [serve_eq hnext (fun _ hm => absurd hm List.not_mem_nil) rfl, hacked, List.append_nil,
    List.append_nil]
  exact h

/-- The outcomes of a round start no reading job and send nothing. -/
theorem readOutcomes_follow (jobs : List HostJob) (c : Connection) :
    Follows c (jobs.foldl (fun c j => c.readOutcome H j.job) c) := by
  have hone : ∀ (c : Connection) (job : TransferJob), Follows c (c.readOutcome H job) := by
    intro c job
    unfold Connection.readOutcome
    split_ifs
    · split
      · exact .refl c
      · exact ⟨rfl, rfl, List.prefix_refl _⟩
    · exact post_follows _ _ _
    · exact .refl c
  induction jobs generalizing c with
  | nil => exact .refl c
  | cons j jobs ih => exact (hone c j.job).trans (ih _)

/-- A round sends the blocks it notes. -/
theorem tick_follows (c : Connection) (fs : Fs) (modified : TransferJob.Modified) :
    let round := Connection.handleReadJobs H.platform fs modified c.readJobs
    Follows { c with sentBlocks := c.sentBlocks ++ round.sent } (c.tick H fs modified) :=
  (readOutcomes_follow _ _).of_same rfl rfl rfl

/-- The messages of a `Done`. -/
theorem done_quiet (c : Connection) (id fileNum : Int) (permitted : Bool) :
    (∀ m ∈ (c.done H id fileNum permitted).2, m.opensId = none) ∧
      Follows c (c.done H id fileNum permitted).1 := by
  unfold Connection.done
  dsimp only
  split_ifs
  · exact ⟨by simp [ToCm.opensId, FsMessage.opensId], (post_follows _ _ _).of_same rfl rfl rfl⟩
  · exact ⟨by simp, (post_follows _ _ _).of_same rfl rfl rfl⟩
  · exact ⟨by simp, ⟨rfl, rfl, List.prefix_refl _⟩⟩
  · exact ⟨by simp [ToCm.opensId, FsMessage.opensId], ⟨rfl, rfl, List.prefix_refl _⟩⟩

/-- The messages of an `Error`. -/
theorem error_quiet (c : Connection) (id fileNum : Int) (err : String) :
    (∀ m ∈ (c.error H id fileNum err).2, m.opensId = none) ∧
      Follows c (c.error H id fileNum err).1 := by
  unfold Connection.error
  dsimp only
  split_ifs
  · exact ⟨by simp, (post_follows _ _ _).of_same rfl rfl rfl⟩
  · exact ⟨by simp [ToCm.opensId, FsMessage.opensId], ⟨rfl, rfl, List.prefix_refl _⟩⟩

/-- The messages of an answer to a digest. -/
theorem sendConfirm_quiet (c : Connection) (r : TransferJob.FileTransferSendConfirmRequest)
    (fs : Fs) : (∀ m ∈ (c.sendConfirm H r fs).2, m.opensId = none) ∧
      Follows c (c.sendConfirm H r fs).1 := by
  unfold Connection.sendConfirm
  split_ifs
  · exact ⟨by simp, ⟨rfl, rfl, List.prefix_refl _⟩⟩
  · exact ⟨by simp [ToCm.opensId, FsMessage.opensId], ⟨rfl, rfl, List.prefix_refl _⟩⟩

/-- An event of the connection while its loop runs. -/
theorem Inv.run (h : s.Inv) (hphase : s.conn.phase = .running) {e : ServerEvent}
    (hnot : e.isAnswer = false) (hok : s.CarefulRun e) : (s.serve H e).Inv := by
  have hopen : s.conn.phase ≠ .closed := by
    rw [hphase]
    rintro ⟨⟩
  have hnext : ∀ e, s.conn.next H e = s.conn.handle H e := by
    intro e
    unfold Connection.next
    rw [hphase]
  have hacked : (∀ id fileNum permitted, e ≠ .done id fileNum permitted) →
      s.acknowledged e = [] := by
    intro hne
    unfold acknowledged
    split
    · rename_i id fileNum permitted _
      exact absurd rfl (hne id fileNum permitted)
    · rfl
  have hquiet : (∀ m ∈ (s.conn.handle H e).2, m.opensId = none) →
      (s.conn.handle H e).1.reads = s.conn.reads →
      (∀ id fileNum permitted, e ≠ .done id fileNum permitted) →
      ({ s with
        conn := (s.conn.handle H e).1
        toCm := s.toCm ++ (s.conn.handle H e).2 } : Session).Inv → (s.serve H e).Inv := by
    intro hms hreads hne hinv
    rw [serve_eq (hnext e) hms hreads, hacked hne, List.append_nil]
    exact hinv
  have hpass : ∀ {m : ToCm}, s.conn.handle H e = (s.conn, [m]) → m.opensId = none →
      (∀ id fileNum permitted, e ≠ .done id fileNum permitted) → (s.serve H e).Inv := by
    intro m hhandle hm hne
    have hms : ∀ m' ∈ [m], m'.opensId = none := fun m' hm' => List.mem_singleton.mp hm' ▸ hm
    rw [hhandle] at hquiet
    exact hquiet hms rfl hne (h.enqueue _ hms hopen)
  cases e with
  | send id type path fileNum includeHidden source files fs =>
    have hsent := h.send (H := H) type path fileNum includeHidden source files fs hok.1 hok.2
    have hreads : (s.conn.send H id type path fileNum includeHidden source files fs).reads =
        s.conn.reads + 1 := by
      unfold Connection.send Connection.rememberEnterpriseFileTransfer
      dsimp only
      split <;> rfl
    unfold serve
    rw [hnext, hacked (by rintro _ _ _ ⟨⟩)]
    simp only [Connection.handle, List.append_nil, List.filterMap_nil, ServerEvent.readId,
      Option.toList_some, hreads, Nat.succ_ne_self, if_false]
    exact hsent
  | receive id path fileNum files totalSize fs =>
    have hreceived := h.receive (H := H) hphase path fileNum files totalSize fs hok
    have hreads : (s.conn.receive H id path fileNum files totalSize fs).1.reads = s.conn.reads := by
      unfold Connection.receive Connection.rememberEnterpriseFileTransfer
      dsimp only
      split <;> rfl
    unfold serve
    rw [hnext, hacked (by rintro _ _ _ ⟨⟩)]
    simp only [Connection.handle, hreads, if_true, List.append_nil]
    exact hreceived
  | startDirect id source manifest =>
    have hstarted := h.startDirect (H := H) id source manifest
    unfold serve
    rw [hnext, hacked (by rintro _ _ _ ⟨⟩)]
    simp only [Connection.handle, List.append_nil, List.filterMap_nil, ServerEvent.readId,
      Option.toList_some]
    exact hstarted
  | action id fileNum => exact hpass rfl rfl (by rintro _ _ _ ⟨⟩)
  | cancel id =>
    exact hquiet (by simp [Connection.handle, Connection.cancel, ToCm.opensId, FsMessage.opensId])
      (post_follows _ _ _).reads (by rintro _ _ _ ⟨⟩) (h.cancel hphase hok)
  | sendConfirm r fs =>
    obtain ⟨hms, hfollows⟩ := sendConfirm_quiet (H := H) s.conn r fs
    exact hquiet hms hfollows.reads (by rintro _ _ _ ⟨⟩) (h.sendConfirm hphase r fs)
  | block id fileNum data compressed => exact hpass rfl rfl (by rintro _ _ _ ⟨⟩)
  | done id fileNum permitted =>
    obtain ⟨hms, hfollows⟩ := done_quiet (H := H) s.conn id fileNum permitted
    rw [serve_eq (hnext (.done id fileNum permitted)) hms hfollows.reads]
    exact h.done hphase fileNum permitted hok
  | digest id fileNum fileSize lastModified isResume => exact hpass rfl rfl (by rintro _ _ _ ⟨⟩)
  | error id fileNum err =>
    obtain ⟨hms, hfollows⟩ := error_quiet (H := H) s.conn id fileNum err
    exact hquiet hms hfollows.reads (by rintro _ _ _ ⟨⟩) (h.error hphase fileNum err)
  | answer a => cases hnot
  | round fs modified =>
    refine hquiet (fun _ hm => absurd hm List.not_mem_nil) (tick_follows _ _ _).reads
      (by rintro _ _ _ ⟨⟩) ?_
    have hround := h.tick (H := H) fs modified
    simp only [Connection.handle, List.append_nil]
    exact hround
  | leave =>
    refine hquiet (fun _ hm => absurd hm List.not_mem_nil) rfl (by rintro _ _ _ ⟨⟩) ?_
    simp only [Connection.handle, List.append_nil]
    exact h.setPhase hopen .draining
  | drained a => cases hnot
  | close => exact h.idle (hnext _) (hacked (by rintro _ _ _ ⟨⟩))

/-- An event of the connection. -/
theorem Inv.serve (h : s.Inv) {e : ServerEvent} (hnot : e.isAnswer = false)
    (hok : s.Careful (.server e)) : (s.serve H e).Inv := by
  cases hphase : s.conn.phase with
  | running => exact h.run hphase hnot (hok.1 hphase)
  | closed =>
    refine h.idle ?_ ?_
    · unfold Connection.next
      rw [hphase]
    · unfold acknowledged
      rw [hphase]
  | draining =>
    have hacked : s.acknowledged e = [] := by
      unfold acknowledged
      rw [hphase]
    cases e with
    | close =>
      have hnext : s.conn.next H .close =
          ({ s.conn.closeFileAudits H with phase := .closed }, []) := by
        unfold Connection.next
        rw [hphase]
      have hreads : (s.conn.closeFileAudits H).reads = s.conn.reads := by
        have hsame := (settles_posts (H := H) s.conn.pendingFileAudits.keys s.conn .cancelled).same
        unfold Connection.closeFileAudits
        rw [hsame]
      rw [serve_eq hnext (fun _ hm => absurd hm List.not_mem_nil) hreads, hacked, List.append_nil,
        List.append_nil]
      refine h.close hphase fun id p hp hd => ?_
      exact hok.2 hphase ⟨id, p⟩ (AList.mem_lookup_iff.mp hp) hd
    | drained a => cases hnot
    | _ =>
      refine h.idle ?_ hacked
      unfold Connection.next
      rw [hphase]

end Session

end MDesk
