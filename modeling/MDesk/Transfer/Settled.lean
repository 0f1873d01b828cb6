import MDesk.Core.Settling
import MDesk.Transfer.Destination

/-!
# The last pass of a direct transfer

`finalize_direct_write` visits every declared file once more. On a tidy destination
its pass is the abstract one of `Core.Settling`: it succeeds exactly when that pass
does, and leaves the same view.
-/

namespace MDesk

open MDesk.Core

namespace TransferJob

variable {P : Platform} {base root : PathBuf} {paths : List PathBuf} {entry : FileEntry}
  {path : PathBuf} {fs : Fs}

/-- A file that is there has its length checked. -/
theorem settleEntry_present (job : TransferJob) {c : Bytes}
    (hjoin : joinValidatedPath P fs base entry.name = .ok path)
    (hfile : fs.lookup path = some (.file c)) :
    job.settleEntry P fs base entry =
      (if c.length ≠ entry.size then .error "direct transfer file size mismatch" else .ok (),
        fs) := by
  have hex : fs.pathExists path = true := by simp [FileSystem.pathExists, hfile]
  have hmeta : fs.symlinkMetadata path = .ok (.file c) := by
    simp only [FileSystem.symlinkMetadata, hfile]
  simp only [settleEntry, hjoin, hex, not_true_eq_false, and_false, if_false,
    settleEntry.checkEntry, hmeta]
  split_ifs <;> rfl

/-- A missing file with data is an error. -/
theorem settleEntry_lost (job : TransferJob)
    (hjoin : joinValidatedPath P fs base entry.name = .ok path)
    (hfree : fs.lookup path = none) (hsize : entry.size ≠ 0) :
    ∃ e, job.settleEntry P fs base entry = (.error e, fs) := by
  have hmeta : ∃ e, fs.symlinkMetadata path = .error e := by
    unfold FileSystem.symlinkMetadata
    rw [hfree]
    dsimp only
    split_ifs
    · exact ⟨_, rfl⟩
    · exact ⟨_, rfl⟩
  obtain ⟨e, he⟩ := hmeta
  refine ⟨e.message, ?_⟩
  simp only [settleEntry, hjoin, hsize, false_and, if_false, settleEntry.checkEntry, he]

/-- The staging file of a missing empty file, created or found. -/
theorem staged_ok (hway : WayTo fs.lookup path) (hdir : fs.lookup (downloadPath path) ≠ some .dir) :
    ∃ fs₁ fs₂ c, fs.createDirAll path.dropLast = .ok fs₁ ∧
      createNewOrOpen fs₁ (downloadPath path) = .ok fs₂ ∧
      (fs.lookup (downloadPath path) = some (.file c) ∨
        fs.lookup (downloadPath path) = none ∧ c = []) ∧
      ∀ q, fs₂.lookup q = if q = downloadPath path then some (.file c)
        else if q <+: path.dropLast then some .dir else fs.lookup q := by
  obtain ⟨fs₁, hmk, hfs₁⟩ := createDirAll_parents hway
  have hstage : fs₁.lookup (downloadPath path) = fs.lookup (downloadPath path) := by
    rw [hfs₁, if_neg (sideNames.stage_not_above path)]
  rcases hl : fs.lookup (downloadPath path) with _ | ⟨c | _⟩
  · have hparent : fs₁.hasParent (downloadPath path) := by
      refine hasParent_of_dropLast (withSuffix_ne_nil _ _) (withSuffix_dropLast _ _) ?_
      rw [hfs₁, if_pos (List.prefix_refl _)]
    refine ⟨fs₁, fs₁.insert (downloadPath path) (.file []), [], hmk, ?_, .inr ⟨rfl, rfl⟩, ?_⟩
    · simp only [createNewOrOpen, FileSystem.createNew, hstage, hl, if_pos hparent]
    · intro q
      rw [FileSystem.lookup_insert]
      by_cases hq : q = downloadPath path
      · rw [hq, Function.update_self, if_pos rfl]
      · rw [Function.update_of_ne hq, if_neg hq, hfs₁]
  · refine ⟨fs₁, fs₁, c, hmk, ?_, .inl rfl, ?_⟩
    · simp only [createNewOrOpen, FileSystem.createNew, FileSystem.openWrite, hstage, hl]
    · intro q
      by_cases hq : q = downloadPath path
      · rw [hq, hstage, hl, if_pos rfl]
      · rw [if_neg hq, hfs₁]
  · exact absurd hl hdir

/-- A missing empty file is made from its staging file, whose length is then checked. -/
theorem settleEntry_adopt (job : TransferJob)
    (hjoin : joinValidatedPath P fs base entry.name = .ok path) (hne : path ≠ [])
    (hway : WayTo fs.lookup path) (hfree : fs.lookup path = none) (hsize : entry.size = 0)
    (hdir : fs.lookup (downloadPath path) ≠ some .dir) :
    ∃ fs' c, (fs.lookup (downloadPath path) = some (.file c) ∨
        fs.lookup (downloadPath path) = none ∧ c = []) ∧
      job.settleEntry P fs base entry =
        (if c.length ≠ entry.size then .error "direct transfer file size mismatch" else .ok (),
          fs') ∧
      (c = [] → fs'.lookup = sideNames.adopt fs.lookup path) := by
  obtain ⟨fs₁, fs₂, c, hmk, hstaged, hc, hfs₂⟩ := staged_ok hway hdir
  have hps : path ≠ downloadPath path := (sideNames.stage_ne path).symm
  have hfree₂ : fs₂.lookup path = none := by
    rw [hfs₂, if_neg hps, if_neg (not_prefix_dropLast hne rfl), hfree]
  have hparent : fs₂.hasParent path := by
    refine hasParent_of_dropLast hne rfl ?_
    rw [hfs₂, if_neg, if_pos (List.prefix_refl _)]
    exact fun he => sideNames.stage_not_above path (he ▸ List.prefix_refl path.dropLast)
  have hstage₂ : fs₂.lookup (downloadPath path) = some (.file c) := by rw [hfs₂, if_pos rfl]
  have hrename : fs₂.rename (downloadPath path) path =
      .ok ((fs₂.erase (downloadPath path)).insert path (.file c)) :=
    FileSystem.rename_eq hstage₂ (by rw [hfree₂]; nofun) hparent
  have hmiss : ¬ fs.pathExists path := by simp [FileSystem.pathExists, hfree]
  have hmiss₂ : fs₂.pathExists path = false := by simp [FileSystem.pathExists, hfree₂]
  have hfinal : ((fs₂.erase (downloadPath path)).insert path (.file c)).symlinkMetadata path =
      .ok (.file c) := by
    simp only [FileSystem.symlinkMetadata, FileSystem.lookup_insert, Function.update_self]
  refine ⟨(fs₂.erase (downloadPath path)).insert path (.file c), c, hc, ?_, ?_⟩
  · simp only [settleEntry, hjoin, hsize, hmiss, not_false_eq_true, and_self, if_true, hmk,
      hstaged, hmiss₂, Bool.false_eq_true, and_false, if_false, hrename,
      settleEntry.checkEntry, hfinal]
    split_ifs <;> rfl
  · rintro rfl
    funext q
    rw [FileSystem.lookup_insert, FileSystem.lookup_erase, SideNames.adopt]
    by_cases hq : q = path
    · rw [hq, Function.update_self, if_pos rfl]
    rw [Function.update_of_ne hq, if_neg hq]
    by_cases hq' : q = downloadPath path
    · rw [hq', Function.update_self, if_pos rfl]
    · rw [Function.update_of_ne hq', if_neg hq', hfs₂, if_neg hq']

/-- A directory at the staging name of a missing file is an error. -/
theorem settleEntry_blocked (job : TransferJob)
    (hjoin : joinValidatedPath P fs base entry.name = .ok path)
    (hway : WayTo fs.lookup path) (hfree : fs.lookup path = none) (hsize : entry.size = 0)
    (hdir : fs.lookup (downloadPath path) = some .dir) :
    ∃ e fs', job.settleEntry P fs base entry = (.error e, fs') := by
  obtain ⟨fs₁, hmk, hfs₁⟩ := createDirAll_parents hway
  have hstage : fs₁.lookup (downloadPath path) = some .dir := by
    rw [hfs₁, if_neg (sideNames.stage_not_above path), hdir]
  have hmiss : ¬ fs.pathExists path := by simp [FileSystem.pathExists, hfree]
  refine ⟨FsError.isADirectory.message, fs₁, ?_⟩
  simp only [settleEntry, hjoin, hsize, hmiss, Bool.false_eq_true, not_false_eq_true, and_self,
    if_true, hmk, createNewOrOpen, FileSystem.createNew, FileSystem.openWrite, hstage]

section Pass

variable {job : TransferJob} {entries : List FileEntry}

/-- The entries of the pass: final paths and declared sizes. -/
def settleList (P : Platform) (base : PathBuf) (entries : List FileEntry) :
    List (PathBuf × Nat) :=
  entries.map fun e => (P.join base e.name, e.size)

/-- A pass that succeeds is the abstract pass. -/
theorem settles_of_ok {fs' : Fs} (hl : Layout root paths)
    (hnames : ∀ e ∈ entries, validateFileNameNoTraversal P e.name = .ok ())
    (hpaths : ∀ e ∈ entries, P.join base e.name ∈ paths) (htidy : Tidy root paths fs.lookup)
    (h : job.settleEntries P base fs entries = (.ok (), fs')) :
    sideNames.Settles (settleList P base entries) fs.lookup fs'.lookup := by
  induction entries generalizing fs with
  | nil =>
    cases h
    exact .nil _
  | cons entry entries ih =>
    have hmem := hpaths entry List.mem_cons_self
    have hway : WayTo fs.lookup (P.join base entry.name) := fun q hq c => htidy.way hl hmem hq
    have hjoin := joinValidatedPath_ok P (hnames entry List.mem_cons_self) hway
    have hnames' : ∀ e ∈ entries, validateFileNameNoTraversal P e.name = .ok () := fun e he =>
      hnames e (List.mem_cons_of_mem entry he)
    have hpaths' : ∀ e ∈ entries, P.join base e.name ∈ paths := fun e he =>
      hpaths e (List.mem_cons_of_mem entry he)
    rw [settleEntries] at h
    rcases hfile : fs.lookup (P.join base entry.name) with _ | ⟨c | _⟩
    · by_cases hsize : entry.size = 0
      · by_cases hdir : fs.lookup (downloadPath (P.join base entry.name)) = some .dir
        · obtain ⟨e, fs₁, he⟩ := settleEntry_blocked job hjoin hway hfile hsize hdir
          rw [he] at h
          cases h
        · obtain ⟨fs₁, c, hc, heq, hview⟩ :=
            settleEntry_adopt job hjoin (hl.ne_nil _ hmem) hway hfile hsize hdir
          rw [heq] at h
          by_cases hlen : c.length = entry.size
          · rw [if_neg (not_not.mpr hlen)] at h
            have hnil : c = [] := List.eq_nil_of_length_eq_zero (hlen.trans hsize)
            have htidy₁ : Tidy root paths fs₁.lookup := by
              rw [hview hnil]
              exact sideNames.tidy_adopt htidy hl hmem
            have hrest := ih hnames' hpaths' htidy₁ h
            rw [hview hnil] at hrest
            rw [settleList, List.map_cons, hsize]
            refine .adopted hfile hdir (fun d hd => ?_) hrest
            rcases hc with hc | ⟨hc, -⟩
            · rw [hd] at hc
              cases hc
              exact hnil
            · rw [hd] at hc
              cases hc
          · rw [if_pos hlen] at h
            cases h
      · obtain ⟨e, he⟩ := settleEntry_lost job hjoin hfile hsize
        rw [he] at h
        cases h
    · rw [settleEntry_present job hjoin hfile] at h
      by_cases hlen : c.length = entry.size
      · rw [if_neg (not_not.mpr hlen)] at h
        rw [settleList, List.map_cons, ← hlen]
        exact .present hfile (ih hnames' hpaths' htidy h)
      · rw [if_pos hlen] at h
        cases h
    · exact absurd hfile (htidy.not_dir hl hmem)

/-- The abstract pass is the pass of the code. -/
theorem settleEntries_of_settles (job : TransferJob) {v' : View String UInt8}
    (hl : Layout root paths)
    (hnames : ∀ e ∈ entries, validateFileNameNoTraversal P e.name = .ok ())
    (hpaths : ∀ e ∈ entries, P.join base e.name ∈ paths) (htidy : Tidy root paths fs.lookup)
    (h : sideNames.Settles (settleList P base entries) fs.lookup v') :
    ∃ fs', job.settleEntries P base fs entries = (.ok (), fs') ∧ fs'.lookup = v' := by
  induction entries generalizing fs with
  | nil =>
    cases h
    exact ⟨fs, rfl, rfl⟩
  | cons entry entries ih =>
    have hmem := hpaths entry List.mem_cons_self
    have hway : WayTo fs.lookup (P.join base entry.name) := fun q hq c => htidy.way hl hmem hq
    have hjoin := joinValidatedPath_ok P (hnames entry List.mem_cons_self) hway
    have hnames' : ∀ e ∈ entries, validateFileNameNoTraversal P e.name = .ok () := fun e he =>
      hnames e (List.mem_cons_of_mem entry he)
    have hpaths' : ∀ e ∈ entries, P.join base e.name ∈ paths := fun e he =>
      hpaths e (List.mem_cons_of_mem entry he)
    rw [settleList, List.map_cons] at h
    rw [settleEntries]
    obtain ⟨size, hsize⟩ : ∃ size, size = entry.size := ⟨_, rfl⟩
    rw [← hsize] at h
    cases h with
    | @present _ c _ _ _ hfile hrest =>
      rw [settleEntry_present job hjoin hfile, if_neg (not_not.mpr hsize)]
      exact ih hnames' hpaths' htidy hrest
    | adopted hfree hdir hstage hrest =>
      obtain ⟨fs₁, c, hc, heq, hview⟩ :=
        settleEntry_adopt job hjoin (hl.ne_nil _ hmem) hway hfree hsize.symm hdir
      have hnil : c = [] := by
        rcases hc with hc | ⟨-, hc⟩
        · exact hstage c hc
        · exact hc
      rw [heq, if_neg (by rw [hnil, ← hsize]; simp)]
      have htidy₁ : Tidy root paths fs₁.lookup := by
        rw [hview hnil]
        exact sideNames.tidy_adopt htidy hl hmem
      rw [← hview hnil] at hrest
      exact ih hnames' hpaths' htidy₁ hrest

/-- A verification that succeeds is a pass over all files. -/
theorem settles_of_verify (hl : Layout root paths) (hsource : job.dataSource = .filePath base)
    (hnames : ∀ e ∈ job.files, validateFileNameNoTraversal P e.name = .ok ())
    (hpaths : ∀ e ∈ job.files, P.join base e.name ∈ paths) (htidy : Tidy root paths fs.lookup)
    (h : (job.verifyDirectFiles P fs).result = .ok ()) :
    sideNames.Settles (settleList P base job.files) fs.lookup
      (job.verifyDirectFiles P fs).fs.lookup := by
  unfold verifyDirectFiles at h ⊢
  split_ifs at h ⊢ with htotal
  · cases h
  · rw [hsource] at h ⊢
    exact settles_of_ok hl hnames hpaths htidy (Prod.ext h rfl)

/-- A pass over all files verifies them. -/
theorem verify_of_settles {v' : View String UInt8} (hl : Layout root paths)
    (hsource : job.dataSource = .filePath base) (htotal : job.finishedSize = job.totalSize)
    (hnames : ∀ e ∈ job.files, validateFileNameNoTraversal P e.name = .ok ())
    (hpaths : ∀ e ∈ job.files, P.join base e.name ∈ paths) (htidy : Tidy root paths fs.lookup)
    (h : sideNames.Settles (settleList P base job.files) fs.lookup v') :
    (job.verifyDirectFiles P fs).result = .ok () ∧
      (job.verifyDirectFiles P fs).fs.lookup = v' := by
  obtain ⟨fs', hok, hv'⟩ := settleEntries_of_settles job hl hnames hpaths htidy h
  unfold verifyDirectFiles
  rw [if_neg (not_not.mpr htotal), hsource]
  dsimp only
  rw [hok]
  exact ⟨rfl, hv'⟩

end Pass

end TransferJob

end MDesk
