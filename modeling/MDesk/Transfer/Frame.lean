import MDesk.Transfer.Read

/-!
# What a job touches

A write job changes the directories above its destination paths, these paths and the
side files next to them. Every other path keeps its node, whatever blocks and answers
come.
-/

namespace MDesk

open MDesk.Core

namespace TransferJob

variable (P : Platform)

/-- The paths a job may change for one of its entries. -/
def TouchesAt (path q : PathBuf) : Prop :=
  q <+: path.dropLast ∨ q = path ∨ q = downloadPath path ∨ q = digestPath path

/-- The paths a job may change. -/
def Touches (job : TransferJob) (q : PathBuf) : Prop :=
  ∃ base name, job.dataSource = .filePath base ∧ name ∈ job.files.map FileEntry.name ∧
    TouchesAt (P.join base name) q

/-- An open stream writes to a path of the job. -/
def StreamTouches (job : TransferJob) : Prop :=
  ∀ path pos, job.dataStream = some (.fileStream path pos .write) → job.Touches P path

/-- The fields of a job that its work never changes. -/
def fixed (job : TransferJob) : Int × JobType × DataSource × List FileEntry × Bool × Nat :=
  (job.id, job.type, job.dataSource, job.files, job.strictDirectTransfer, job.totalSize)

/-- A job that works on the file system keeps to its paths: what it leaves behind differs
from what was there on these only, and it goes on with the same files. -/
structure KeepsTo (job : TransferJob) (fs : Fs) (job' : TransferJob) (fs' : Fs) : Prop where
  fixed : job'.fixed = job.fixed
  skipped : job.auditHadSkippedFile = true → job'.auditHadSkippedFile = true
  stream : job'.StreamTouches P
  lookup : ∀ q, ¬ job.Touches P q → fs'.lookup q = fs.lookup q

variable {P} {job job' : TransferJob} {fs fs' : Fs} {base : PathBuf} {name : String} {q : PathBuf}

theorem fixed_iff : job'.fixed = job.fixed ↔ job'.id = job.id ∧ job'.type = job.type ∧
    job'.dataSource = job.dataSource ∧ job'.files = job.files ∧
    job'.strictDirectTransfer = job.strictDirectTransfer ∧ job'.totalSize = job.totalSize := by
  simp only [fixed, Prod.mk.injEq]

theorem KeepsTo.id (h : KeepsTo P job fs job' fs') : job'.id = job.id := (fixed_iff.mp h.fixed).1

theorem KeepsTo.type (h : KeepsTo P job fs job' fs') : job'.type = job.type :=
  (fixed_iff.mp h.fixed).2.1

theorem KeepsTo.source (h : KeepsTo P job fs job' fs') : job'.dataSource = job.dataSource :=
  (fixed_iff.mp h.fixed).2.2.1

theorem KeepsTo.files (h : KeepsTo P job fs job' fs') : job'.files = job.files :=
  (fixed_iff.mp h.fixed).2.2.2.1

theorem touches_congr (h : job'.fixed = job.fixed) : job'.Touches P q ↔ job.Touches P q := by
  obtain ⟨-, -, hsource, hfiles, -⟩ := fixed_iff.mp h
  unfold Touches
  rw [hsource, hfiles]

theorem KeepsTo.refl (h : job.StreamTouches P) (fs : Fs) : KeepsTo P job fs job fs :=
  ⟨rfl, fun hs => hs, h, fun _ _ => rfl⟩

theorem KeepsTo.trans {job'' : TransferJob} {fs'' : Fs} (h : KeepsTo P job fs job' fs')
    (h' : KeepsTo P job' fs' job'' fs'') : KeepsTo P job fs job'' fs'' := by
  refine ⟨h'.fixed.trans h.fixed, fun hs => h'.skipped (h.skipped hs), h'.stream, fun q hq => ?_⟩
  rw [h'.lookup q fun hq' => hq ((touches_congr h.fixed).mp hq'), h.lookup q hq]

/-- Fields besides the paths and the stream do not matter. -/
theorem KeepsTo.of_same (h : job.StreamTouches P) (hfixed : job'.fixed = job.fixed)
    (hskipped : job.auditHadSkippedFile = true → job'.auditHadSkippedFile = true)
    (hstream : job'.dataStream = job.dataStream ∨ job'.dataStream = none) :
    KeepsTo P job fs job' fs := by
  refine ⟨hfixed, hskipped, ?_, fun _ _ => rfl⟩
  intro path pos hs
  rcases hstream with hstream | hstream
  · rw [touches_congr hfixed]
    exact h path pos (hstream ▸ hs)
  · rw [hstream] at hs
    cases hs

theorem join_of_joinValidatedPath {path : PathBuf}
    (h : joinValidatedPath P fs base name = .ok path) :
    path = P.join base name := by
  unfold joinValidatedPath at h
  split at h
  · cases h
  · split at h
    · cases h
    · exact (Except.ok.inj h).symm

/-- What an entry at a path of the job is. -/
theorem touches_of_entry {entry : FileEntry} {n : Nat} (hsource : job.dataSource = .filePath base)
    (hentry : job.files[n]? = some entry) (hq : TouchesAt (P.join base entry.name) q) :
    job.Touches P q :=
  ⟨base, entry.name, hsource, List.mem_map_of_mem (List.mem_of_getElem? hentry), hq⟩

/-- What both steps of a sequence keep to, the sequence does. -/
theorem KeepsTo.andThen {o : Outcome} {k : TransferJob → Fs → Outcome}
    (ho : KeepsTo P job fs o.job o.fs)
    (hk : ∀ job' fs', KeepsTo P job fs job' fs' →
      KeepsTo P job' fs' (k job' fs').job (k job' fs').fs) :
    KeepsTo P job fs (o.andThen k).job (o.andThen k).fs :=
  Outcome.andThen_keeps ho fun job' fs' h => h.trans (hk job' fs' h)

/-- The name of the current file. -/
theorem lookup_finalizeCurrentFile (hq : ¬ job.Touches P q) :
    (job.finalizeCurrentFile P fs).2.lookup q = fs.lookup q := by
  unfold finalizeCurrentFile
  split
  · rename_i base _ hsource
    split
    · rfl
    · rename_i entry hentry
      split
      · rfl
      · rename_i path hpath
        rw [join_of_joinValidatedPath hpath]
        have hne := fun h => hq (touches_of_entry hsource hentry h)
        have hdigest : q ≠ digestPath (P.join base entry.name) :=
          fun h => hne (.inr (.inr (.inr h)))
        dsimp only
        split_ifs
        · exact FileSystem.lookup_tryRemove_of_ne hdigest
        · split
          · exact FileSystem.lookup_tryRemove_of_ne hdigest
          · rename_i hrename
            rw [FileSystem.lookup_rename_of_ne hrename (fun h => hne (.inr (.inr (.inl h))))
              fun h => hne (.inr (.inl h))]
            exact FileSystem.lookup_tryRemove_of_ne hdigest
  · rfl

theorem keepsTo_finalizeWrite (h : job.StreamTouches P) (fs : Fs) :
    KeepsTo P job fs (job.finalizeWrite P fs).job (job.finalizeWrite P fs).fs := by
  unfold finalizeWrite
  split_ifs
  · exact .refl h fs
  · refine ⟨rfl, fun hs => hs, nofun, fun q hq => ?_⟩
    exact lookup_finalizeCurrentFile (by exact hq)

/-- A staging file is started. -/
theorem keepsTo_createStaging (h : job.StreamTouches P) (fs : Fs) {path : PathBuf}
    (hpath : ∀ q, TouchesAt path q → job.Touches P q) :
    KeepsTo P job fs (job.createStaging fs path).job (job.createStaging fs path).fs := by
  have hmade : ∀ q, ¬ job.Touches P q →
      ((fs.createDirAll path.dropLast).toOption.getD fs).lookup q = fs.lookup q := fun q hq =>
    FileSystem.lookup_tryCreateDirAll_of_not_prefix fun hprefix => hq (hpath q (.inl hprefix))
  unfold createStaging
  generalize (fs.createDirAll path.dropLast).toOption.getD fs = fs₁ at hmade ⊢
  dsimp only
  split
  · exact ⟨rfl, fun hs => hs, h, hmade⟩
  · rename_i fs₂ hcleared
    have hcleared' : ∀ q, ¬ job.Touches P q → fs₂.lookup q = fs.lookup q := by
      intro q hq
      rw [← hmade q hq]
      split_ifs at hcleared
      · exact FileSystem.lookup_removeFile_of_ne hcleared fun hd =>
          hq (hpath q (.inr (.inr (.inr hd))))
      · rw [Except.ok.inj hcleared]
    split
    · exact ⟨rfl, fun hs => hs, h, hcleared'⟩
    · rename_i fs₃ hcreate
      have hcreated : ∀ q, ¬ job.Touches P q → fs₃.lookup q = fs.lookup q := by
        intro q hq
        rw [FileSystem.lookup_create_of_ne hcreate fun hd => hq (hpath q (.inr (.inr (.inl hd)))),
          hcleared' q hq]
      have hstream : StreamTouches P
          { job with dataStream := some (.fileStream (downloadPath path) 0 .write) } := by
        intro p pos hs
        cases hs
        exact hpath _ (.inr (.inr (.inl rfl)))
      split
      · exact ⟨rfl, fun hs => hs, hstream, hcreated⟩
      · rename_i fs₄ hdigest
        refine ⟨rfl, fun hs => hs, hstream, fun q hq => ?_⟩
        have hne : q ≠ digestPath path := fun hd => hq (hpath q (.inr (.inr (.inr hd))))
        rw [Outcome.ok_fs, FileSystem.lookup_insert, Function.update_of_ne hne,
          FileSystem.lookup_create_of_ne hdigest hne, hcreated q hq]

/-- The file of a block is opened. -/
theorem keepsTo_openEntry (h : job.StreamTouches P) (htype : job.type = .generic)
    (hsource : job.dataSource = .filePath base) (fs : Fs) {n : Int}
    (hn : asUsize n < job.files.length) :
    KeepsTo P job fs (job.openEntry P fs base n).job (job.openEntry P fs base n).fs := by
  have hentry := List.getElem?_eq_getElem hn
  unfold openEntry
  dsimp only
  split
  · rename_i hprinter
    rw [htype] at hprinter
    cases hprinter
  · rw [hentry, Option.map_some, Option.getD_some]
    split
    · exact .of_same h rfl (fun hs => hs) (.inl rfl)
    · rename_i path hpath
      rw [join_of_joinValidatedPath hpath]
      have hkeep : KeepsTo P job fs { job with fileNum := n } fs :=
        .of_same h rfl (fun hs => hs) (.inl rfl)
      refine hkeep.trans (keepsTo_createStaging hkeep.stream fs fun q hq => ?_)
      exact touches_of_entry hsource hentry hq

/-- The job is directed to the file of a block it has in its list. -/
theorem keepsTo_openForBlock (h : job.StreamTouches P) (htype : job.type = .generic)
    (hsource : job.dataSource = .filePath base) (fs : Fs) {block : FileTransferBlock}
    (hn : asUsize block.fileNum < job.files.length) :
    KeepsTo P job fs (job.openForBlock P fs block).job (job.openForBlock P fs block).fs := by
  unfold openForBlock
  rw [hsource]
  dsimp only
  split_ifs
  · refine (keepsTo_finalizeWrite h fs).andThen fun job' fs' h' => ?_
    exact keepsTo_openEntry h'.stream (h'.type.trans htype) (h'.source.trans hsource) fs'
      (h'.files ▸ hn)
  · exact .refl h fs

/-- A block is appended to the stream. -/
theorem keepsTo_appendBlock (h : job.StreamTouches P) (fs : Fs) (block : FileTransferBlock)
    (data : Bytes) :
    KeepsTo P job fs (job.appendBlock fs block data).job (job.appendBlock fs block data).fs := by
  unfold appendBlock
  split
  · exact .refl h fs
  · exact .refl h fs
  · rename_i path pos hs
    have htouches := h path pos hs
    refine ⟨rfl, fun hs => hs, ?_, fun q hq => ?_⟩
    · intro p n hp
      cases hp
      exact htouches
    · exact FileSystem.lookup_writeAt_of_ne 0 pos data fun hq' => hq (hq' ▸ htouches)
  · exact ⟨rfl, fun hs => hs, nofun, fun _ _ => rfl⟩

/-- What the checks of a strict job leave of it. -/
theorem keepsTo_admitBlock (h : job.StreamTouches P) (fs : Fs) (block : FileTransferBlock)
    (data : Bytes) :
    KeepsTo P job fs (job.admitBlock fs block data).job (job.admitBlock fs block data).fs := by
  have hadd : ∀ (job' : TransferJob) (n len : Nat), KeepsTo P job fs job' fs →
      KeepsTo P job fs (job'.addDirectBytes fs n len).job (job'.addDirectBytes fs n len).fs := by
    intro job' n len h'
    unfold addDirectBytes
    split_ifs
    · exact h'
    · exact h'
    · exact h'
    · exact h'
    · exact h'.trans (.of_same h'.stream rfl (fun hs => hs) (.inl rfl))
  have hcount : ∀ (job' : TransferJob) (n len : Nat), KeepsTo P job fs job' fs →
      KeepsTo P job fs (job'.countDirectBlock fs n len).job
        (job'.countDirectBlock fs n len).fs := by
    intro job' n len h'
    unfold countDirectBlock
    split_ifs
    · exact h'
    · exact h'
    · exact hadd _ n len (h'.trans (.of_same h'.stream rfl (fun hs => hs) (.inl rfl)))
    · exact h'
    · exact hadd job' n len h'
  unfold admitBlock
  split_ifs
  · exact .refl h fs
  · unfold advanceDirectFile
    split_ifs
    · exact .refl h fs
    · exact .refl h fs
    · exact hcount _ _ _ (.of_same h rfl (fun hs => hs) (.inl rfl))
    · exact hcount _ _ _ (.refl h fs)
  · exact .refl h fs

/-- A decoded block names a file of the list. -/
theorem asUsize_lt_of_decodeBlock (hsource : job.dataSource = .filePath base)
    {block : FileTransferBlock} {data : Bytes} (h : job.decodeBlock P block = .ok data) :
    asUsize block.fileNum < job.files.length := by
  obtain ⟨-, hnum, hrange⟩ := of_decodeBlock P hsource h
  have hwrap : block.fileNum % 2 ^ 64 ≤ block.fileNum := by omega
  unfold asUsize
  omega

/-- A block delivered to a job. -/
theorem keepsTo_write (h : job.StreamTouches P) (htype : job.type = .generic)
    (hsource : job.dataSource = .filePath base) (fs : Fs) (block : FileTransferBlock) :
    KeepsTo P job fs (job.write P fs block).job (job.write P fs block).fs := by
  unfold write
  split
  · exact .refl h fs
  · rename_i data hdecode
    have hn := asUsize_lt_of_decodeBlock hsource hdecode
    refine (keepsTo_admitBlock h fs block data).andThen fun job' fs' h' => ?_
    refine (keepsTo_openForBlock h'.stream (h'.type.trans htype) (h'.source.trans hsource) fs'
      (h'.files ▸ hn)).andThen fun job'' fs'' h'' => ?_
    exact keepsTo_appendBlock h''.stream fs'' block data

/-- The clean-up of an abandoned file. -/
theorem lookup_removeDownloadFile (fs : Fs) (hq : ¬ job.Touches P q) :
    (job.removeDownloadFile P fs).lookup q = fs.lookup q := by
  unfold removeDownloadFile
  split
  · rename_i base _ hsource
    split
    · rfl
    · rename_i entry hentry
      split
      · rfl
      · rename_i path hpath
        rw [join_of_joinValidatedPath hpath]
        have hne := fun h => hq (touches_of_entry hsource hentry h)
        dsimp only
        rw [FileSystem.lookup_tryRemove_of_ne fun h => hne (.inr (.inr (.inr h))),
          FileSystem.lookup_tryRemove_of_ne fun h => hne (.inr (.inr (.inl h)))]
  · rfl

theorem lookup_createNewOrOpen {p : PathBuf} (h : createNewOrOpen fs p = .ok fs') (hq : q ≠ p) :
    fs'.lookup q = fs.lookup q := by
  unfold createNewOrOpen at h
  split at h
  · rename_i hmake
    cases h
    obtain ⟨-, rfl⟩ := FileSystem.eq_of_createNew hmake
    rw [FileSystem.lookup_insert, Function.update_of_ne hq]
  · split at h
    · cases h
      rfl
    · cases h
  · cases h

/-- The paths that the last pass may change for an entry. -/
def SettlesAt (path q : PathBuf) : Prop := q <+: path.dropLast ∨ q = path ∨ q = downloadPath path

/-- The last pass makes a missing file from its staging file. -/
theorem lookup_settleEntry (hq : ¬ SettlesAt (P.join base entry.name) q) :
    (job.settleEntry P fs base entry).2.lookup q = fs.lookup q := by
  obtain ⟨habove, hself, hstage⟩ := not_or.mp hq |>.imp_right not_or.mp
  have hcheck : ∀ (fs : Fs) path, (settleEntry.checkEntry entry fs path).2 = fs := by
    intro fs path
    unfold settleEntry.checkEntry
    split
    · rfl
    · rfl
    · split_ifs <;> rfl
  unfold settleEntry
  split
  · rfl
  · rename_i path hpath
    rw [join_of_joinValidatedPath hpath]
    split_ifs
    · split
      · rfl
      · rename_i fs₁ hmake
        have h₁ := FileSystem.lookup_createDirAll_of_not_prefix hmake habove
        split
        · exact h₁
        · rename_i fs₂ hopen
          have h₂ := (lookup_createNewOrOpen hopen hstage).trans h₁
          split_ifs
          · exact h₂
          · split
            · exact h₂
            · rename_i fs₃ hrename
              rw [hcheck]
              exact (FileSystem.lookup_rename_of_ne hrename hstage hself).trans h₂
    · rw [hcheck]

theorem lookup_settleEntries {entries : List FileEntry}
    (hq : ∀ entry ∈ entries, ¬ SettlesAt (P.join base entry.name) q) :
    (job.settleEntries P base fs entries).2.lookup q = fs.lookup q := by
  induction entries generalizing fs with
  | nil => rfl
  | cons entry entries ih =>
    have hone : (job.settleEntry P fs base entry).2.lookup q = fs.lookup q :=
      lookup_settleEntry (hq entry List.mem_cons_self)
    unfold settleEntries
    split
    · rename_i hsettle
      rwa [hsettle] at hone
    · rename_i hsettle
      rw [hsettle] at hone
      exact (ih fun e he => hq e (List.mem_cons_of_mem _ he)).trans hone

theorem lookup_verifyDirectFiles (hq : ∀ base, job.dataSource = .filePath base →
      ∀ entry ∈ job.files, ¬ SettlesAt (P.join base entry.name) q) :
    (job.verifyDirectFiles P fs).fs.lookup q = fs.lookup q := by
  unfold verifyDirectFiles
  split_ifs
  · rfl
  · split
    · rfl
    · rename_i base hsource
      exact lookup_settleEntries (hq base hsource)

theorem verifyDirectFiles_job : (job.verifyDirectFiles P fs).job = job := by
  unfold verifyDirectFiles
  split_ifs
  · rfl
  · split <;> rfl

/-- The end of a strict job. -/
theorem keepsTo_finalizeDirectWrite (h : job.StreamTouches P) (fs : Fs) :
    KeepsTo P job fs (job.finalizeDirectWrite P fs).job (job.finalizeDirectWrite P fs).fs := by
  unfold finalizeDirectWrite
  split_ifs
  · refine (keepsTo_finalizeWrite h fs).andThen fun job' fs' h' => ?_
    refine ⟨by rw [verifyDirectFiles_job], by rw [verifyDirectFiles_job]; exact fun hs => hs,
      by rw [verifyDirectFiles_job]; exact h'.stream, fun q hq => ?_⟩
    refine lookup_verifyDirectFiles fun base hsource entry he ht => hq ?_
    exact ⟨base, entry.name, hsource, List.mem_map_of_mem he, ht.imp_right (Or.imp_right .inl)⟩
  · exact .refl h fs

/-- A seek opens the staging file of an entry, or its file for reading. -/
theorem keepsTo_setStreamOffset (h : job.StreamTouches P) (htype : job.type = .generic) (fs : Fs)
    (n offset : Nat) : KeepsTo P job fs (job.setStreamOffset P fs n offset) fs := by
  have hresolve : ∀ base name, job.resolveEntryPath P fs base name =
      (joinValidatedPath P fs base name).toOption := by
    intro base name
    unfold resolveEntryPath
    rw [htype]
  unfold setStreamOffset
  split
  · rename_i base entry hsource hentry
    rw [hresolve]
    split
    · exact .refl h fs
    · rename_i path hpath
      split
      · exact .refl h fs
      · rename_i stream hstream
        refine ⟨rfl, fun hs => hs, fun p pos hp => ?_, fun _ _ => rfl⟩
        have hjoin : path = P.join base entry.name := by
          cases hj : joinValidatedPath P fs base entry.name with
          | error e =>
            rw [hj] at hpath
            cases hpath
          | ok path' =>
            rw [hj] at hpath
            cases hpath
            exact join_of_joinValidatedPath hj
        have hdownload : p = downloadPath path := by
          cases hp
          unfold offsetStream at hstream
          split_ifs at hstream
          · split at hstream
            · cases hstream
            · cases hstream
              rfl
          · split at hstream
            · cases hstream
            · cases hstream
        refine touches_of_entry hsource hentry (.inr (.inr (.inl ?_)))
        rw [hdownload, hjoin]
  · exact .refl h fs

/-- The answer of the peer about a file. -/
theorem keepsTo_confirm (h : job.StreamTouches P) (htype : job.type = .generic) (fs : Fs)
    (r : FileTransferSendConfirmRequest) : KeepsTo P job fs (job.confirm P fs r) fs := by
  have hconfirmed : KeepsTo P job fs (job.setFileConfirmed true) fs :=
    .of_same h rfl (fun hs => hs) (.inl rfl)
  unfold confirm
  split
  · exact .refl h fs
  · split
    · exact .of_same h rfl (fun _ => rfl) (.inr rfl)
    · exact hconfirmed
    · split
      · exact hconfirmed.trans (keepsTo_setStreamOffset hconfirmed.stream htype fs _ _)
      · exact hconfirmed
    · exact .refl h fs

end TransferJob

end MDesk
