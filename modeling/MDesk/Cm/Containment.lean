import MDesk.Cm.Launch
import MDesk.Cm.RemoteDrop
import MDesk.Cm.Served

/-!
# What the messages of a controller can reach

Over any messages, in any order and under any ids, the connection manager changes nothing but
what the requests for write jobs named: the destination of a request, what lies below it, the
side files beside it and the folders above it. A request for a drop stays below the Downloads
folder, and one for the remote tool with the files of the tool.
-/

namespace MDesk

open MDesk.Core TransferJob DeviceRemote

/-- The paths that a destination stands for: the folders above it, itself and what lies below
it, and its two side files. -/
def Around (base q : PathBuf) : Prop :=
  q <+: base ∨ (∃ rest, q = base ++ rest ∧ ".." ∉ rest) ∨ q = downloadPath base ∨
    q = digestPath base

/-- The paths that a request for a write job gives access to. -/
def RequestReaches (H : Host) (path : String) (q : PathBuf) : Prop :=
  if deviceRemotePrefix.toList.isPrefixOf path.toList then q <+: folder H ∨ Guarded H q
  else if remoteDropDownloadsPrefix.toList.isPrefixOf path.toList then
    ∃ names, names ≠ [] ∧ (∀ name ∈ names, PlainName H.platform name) ∧
      Around (H.getDownloadDir ++ names) q
  else Around (H.pathOf path) q

namespace FsMessage

/-- The path that a message asks to write to. -/
def requested : FsMessage → Option String
  | .newWrite path _ _ _ _ _ => some path
  | _ => none

/-- The paths that a message gives access to. -/
def Reaches (H : Host) (m : FsMessage) (q : PathBuf) : Prop :=
  ∃ path, m.requested = some path ∧ RequestReaches H path q

end FsMessage

section Names

variable {P : Platform} {base q : PathBuf} {name suffix : String}

/-- A name that passes the check leads nowhere but down. -/
theorem not_parent_of_validate (h : validateFileNameNoTraversal P name = .ok ()) :
    ".." ∉ P.components name := by
  unfold validateFileNameNoTraversal at h
  split_ifs at h with hnul hparent
  intro hmem
  exact hparent (List.contains_iff_mem.mpr (List.mem_of_mem_filter hmem))

/-- A side file is no parent either. -/
theorem not_parent_withSuffix {rest : PathBuf} (hsuffix : 2 < suffix.toList.length)
    (hrest : ".." ∉ rest) : ".." ∉ withSuffix suffix rest := by
  have hlast : ∀ c : String, ".." ≠ c ++ suffix := by
    intro c heq
    have hlen := congrArg (fun s => s.toList.length) heq
    simp only [String.toList_append, List.length_append] at hlen
    have htwo : "..".toList.length = 2 := by decide
    omega
  rcases List.eq_nil_or_concat' rest with rfl | ⟨init, c, rfl⟩
  · rw [withSuffix, List.mem_singleton]
    intro heq
    exact hlast "" (by rw [String.empty_append]; exact heq)
  · rw [withSuffix_append_singleton, List.mem_append, List.mem_singleton, not_or]
    exact ⟨fun hmem => hrest (List.mem_append_left _ hmem), hlast c⟩

/-- The side file of a path below a folder. -/
theorem withSuffix_append {rest : PathBuf} (hrest : rest ≠ []) :
    withSuffix suffix (base ++ rest) = base ++ withSuffix suffix rest := by
  obtain ⟨init, c, rfl⟩ := (List.eq_nil_or_concat' rest).resolve_left hrest
  rw [withSuffix_append_singleton, ← List.append_assoc, withSuffix_append_singleton,
    List.append_assoc]

/-- What a job touches for a file of its list lies around the destination of the job. -/
theorem around_of_touchesAt (hname : ".." ∉ P.components name)
    (hq : TouchesAt (P.join base name) q) : Around base q := by
  have hjoin : P.join base name = base ++ P.components name := by
    by_cases hnil : P.components name = []
    · unfold Platform.join
      rw [hnil, List.append_nil, ite_self]
    · exact join_of_components hnil
  rw [hjoin] at hq
  generalize P.components name = rest at hname hq
  rcases List.eq_nil_or_concat' rest with rfl | hrest
  · rw [List.append_nil] at hq
    rcases hq with habove | rfl | hdownload | hdigest
    · exact .inl (habove.trans (List.dropLast_prefix base))
    · exact .inl List.prefix_rfl
    · exact .inr (.inr (.inl hdownload))
    · exact .inr (.inr (.inr hdigest))
  · have hne : rest ≠ [] := by
      obtain ⟨init, c, rfl⟩ := hrest
      simp
    rcases hq with habove | hself | hdownload | hdigest
    · rw [List.dropLast_append_of_ne_nil hne] at habove
      rcases List.prefix_or_prefix_of_prefix habove (List.prefix_append base _) with
        hprefix | ⟨between, rfl⟩
      · exact .inl hprefix
      · rw [List.prefix_append_right_inj] at habove
        refine .inr (.inl ⟨between, rfl, fun hmem => hname ?_⟩)
        exact List.mem_of_mem_dropLast (habove.subset hmem)
    · exact .inr (.inl ⟨rest, hself, hname⟩)
    · rw [downloadPath, withSuffix_append hne] at hdownload
      exact .inr (.inl ⟨_, hdownload, not_parent_withSuffix (by decide) hname⟩)
    · rw [digestPath, withSuffix_append hne] at hdigest
      exact .inr (.inl ⟨_, hdigest, not_parent_withSuffix (by decide) hname⟩)

end Names

/-! ## The drops -/

section Drops

variable {P : Platform} {target p : PathBuf} {encoded : List String}

/-- The components of a drop lead below the folder, one plain name each. -/
theorem pushRemoteDrop_ok (h : pushRemoteDrop P target encoded = .ok p) :
    ∃ names, p = target ++ names ∧ names.length = encoded.length ∧
      ∀ name ∈ names, PlainName P name := by
  induction encoded generalizing target with
  | nil =>
    refine ⟨[], ?_, rfl, List.forall_mem_nil _⟩
    rw [pushRemoteDrop, Except.ok.injEq] at h
    rw [List.append_nil, h]
  | cons first rest ih =>
    unfold pushRemoteDrop at h
    split at h
    · cases h
    · rename_i decoded _
      split at h
      · cases h
      · rename_i hvalid
        obtain ⟨names, rfl, hlen, hnames⟩ := ih h
        refine ⟨decoded :: names, by simp, by rw [List.length_cons, hlen, List.length_cons], ?_⟩
        exact List.forall_mem_cons.mpr ⟨plainName_of_validate hvalid, hnames⟩

variable {H : Host} {path : String}

/-- The destination of an ordinary write job is one that the request reaches. -/
theorem requestReaches_of_destination {base q : PathBuf}
    (hordinary : ¬ deviceRemotePrefix.toList.isPrefixOf path.toList = true)
    (h : Cm.destination H path = .ok base) (hq : Around base q) : RequestReaches H path q := by
  unfold RequestReaches
  rw [if_neg hordinary]
  unfold Cm.destination resolveRemoteDropDownloadsPath stripPrefix at h
  split_ifs with hdrop
  · rw [if_pos hdrop] at h
    dsimp only at h
    split_ifs at h
    generalize hpieces : splitStr (· == '/') _ = pieces at h
    cases hpush : pushRemoteDrop H.platform H.getDownloadDir pieces with
    | error e =>
      rw [hpush] at h
      cases h
    | ok p =>
      rw [hpush] at h
      cases h
      obtain ⟨names, rfl, hlen, hnames⟩ := pushRemoteDrop_ok hpush
      refine ⟨names, ?_, hnames, hq⟩
      rintro rfl
      have hsome : pieces ≠ [] := by
        rw [← hpieces, splitStr]
        exact fun hnil => List.splitOnP_ne_nil _ _ (List.map_eq_nil_iff.mp hnil)
      exact hsome (List.eq_nil_of_length_eq_zero hlen.symm)
  · rw [if_neg hdrop] at h
    cases h
    exact hq

end Drops

/-! ## The jobs -/

/-- A job on the list keeps to the paths of a set, and so do the files of the tool where it
carries the tool. -/
structure CmJob.Within (H : Host) (S : PathBuf → Prop) (j : CmJob) : Prop where
  type : j.job.type = .generic
  source : ∃ base, j.job.dataSource = .filePath base
  stream : j.job.StreamTouches H.platform
  touches : ∀ q, j.job.Touches H.platform q → S q
  tool : j.deviceRemoteLaunch = true →
    (∃ serial, j.job.dataSource = .filePath (staging H serial)) ∧ ∀ q, Guarded H q → S q

namespace CmJob

variable {H : Host} {S : PathBuf → Prop} {j : CmJob} {job : TransferJob} {fs fs' : Fs} {q : PathBuf}

/-- The set may grow. -/
theorem Within.mono {S' : PathBuf → Prop} (h : j.Within H S) (hS : ∀ q, S q → S' q) :
    j.Within H S' :=
  ⟨h.type, h.source, h.stream, fun q hq => hS q (h.touches q hq),
    fun hl => ⟨(h.tool hl).1, fun q hq => hS q ((h.tool hl).2 q hq)⟩⟩

/-- A job that has worked keeps to the set. -/
theorem Within.of_keepsTo (h : j.Within H S) (hk : KeepsTo H.platform j.job fs job fs') :
    ({ j with job } : CmJob).Within H S where
  type := hk.type.trans h.type
  source := h.source.imp fun _ hb => hk.source.trans hb
  stream := hk.stream
  touches q hq := h.touches q ((touches_congr hk.fixed).mp hq)
  tool hl := ⟨(h.tool hl).1.imp fun _ hs => hk.source.trans hs, (h.tool hl).2⟩

/-- What it changes is in the set. -/
theorem Within.lookup (h : j.Within H S) (hk : KeepsTo H.platform j.job fs job fs') (hq : ¬ S q) :
    fs'.lookup q = fs.lookup q :=
  hk.lookup q fun ht => hq (h.touches q ht)

theorem guarded_staging (serial : Nat) : Guarded H (staging H serial) := by
  refine ⟨stagingName H serial, rfl, .inr ?_⟩
  have hprefix := prefix_stagingName (H := H) serial ""
  rwa [String.append_empty] at hprefix

/-- The clean-up behind a job. -/
theorem Within.cleanup (h : j.Within H S) (fs : Fs) (hq : ¬ S q) :
    (Cm.cleanup H j fs).lookup q = fs.lookup q ∧
      (j.job.removeDownloadFile H.platform fs).lookup q = fs.lookup q := by
  have hremoved : ∀ fs : Fs, (j.job.removeDownloadFile H.platform fs).lookup q = fs.lookup q :=
    fun fs => lookup_removeDownloadFile fs fun ht => hq (h.touches q ht)
  refine ⟨?_, hremoved fs⟩
  unfold Cm.cleanup
  split_ifs with htool
  · obtain ⟨⟨serial, hsource⟩, hguarded⟩ := h.tool htool
    have hne : q ≠ staging H serial := by
      rintro rfl
      exact hq (hguarded _ (guarded_staging serial))
    unfold DeviceRemote.cleanup
    rw [hsource]
    dsimp only
    split_ifs
    · rw [FileSystem.lookup_tryRemove_of_ne hne, hremoved]
    · exact hremoved fs
  · rfl

/-- The tool takes the place of its staging file. -/
theorem Within.install (h : j.Within H S) (htool : j.deviceRemoteLaunch = true) (serial : Nat)
    (reaction : Reaction) (fs : Fs) :
    (DeviceRemote.install serial reaction j.job fs).job = j.job ∧
      ∀ q, ¬ S q → (DeviceRemote.install serial reaction j.job fs).fs.lookup q = fs.lookup q := by
  obtain ⟨⟨number, hsource⟩, hguarded⟩ := h.tool htool
  refine ⟨(install_cases hsource serial reaction fs).1, fun q hq => ?_⟩
  have hstaging : q ≠ staging H number := by
    rintro rfl
    exact hq (hguarded _ (guarded_staging number))
  have htarget : q ≠ target H := by
    rintro rfl
    exact hq (hguarded _ guarded_target)
  unfold DeviceRemote.install
  rw [hsource]
  dsimp only
  rw [dropLast_staging]
  split
  · rfl
  · split_ifs
    · rfl
    · split
      · rfl
      · split
        · rfl
        · rename_i hreplace
          unfold replace at hreplace
          dsimp only at hreplace
          split at hreplace
          · cases hreplace
          · split at hreplace
            · cases hreplace
            · rename_i hrename
              cases hreplace
              exact FileSystem.lookup_rename_of_ne hrename hstaging htarget

/-- The end of a job. -/
theorem Within.finishJob (h : j.Within H S) (env : Surroundings) (fs : Fs) :
    ({ j with job := (Cm.finishJob H env j fs).job } : CmJob).Within H S ∧
      ∀ q, ¬ S q → (Cm.finishJob H env j fs).fs.lookup q = fs.lookup q := by
  unfold Cm.finishJob
  split_ifs with htool
  · unfold DeviceRemote.finish
    split_ifs
    · exact ⟨h, fun _ _ => rfl⟩
    · have hk := keepsTo_finalizeDirectWrite h.stream fs
      have hdone := h.of_keepsTo hk
      dsimp only
      split
      · exact ⟨hdone, fun q hq => h.lookup hk hq⟩
      · obtain ⟨hjob, hlookup⟩ := hdone.install htool j.serial env.reaction
          (j.job.finalizeDirectWrite H.platform fs).fs
        refine ⟨?_, fun q hq => (hlookup q hq).trans (h.lookup hk hq)⟩
        rw [hjob]
        exact hdone
  · have hk := keepsTo_finalizeWrite h.stream fs
    exact ⟨h.of_keepsTo hk, fun q hq => h.lookup hk hq⟩

/-- What the staging file of an upload touches belongs to the tool. -/
theorem guarded_of_touchesAt {serial : Nat} (hq : TouchesAt (staging H serial) q) :
    q <+: folder H ∨ Guarded H q := by
  rcases hq with habove | rfl | rfl | rfl
  · rw [staging, List.dropLast_concat] at habove
    exact .inl habove
  · exact .inr (guarded_staging serial)
  · exact .inr (guarded_download serial)
  · refine .inr ⟨stagingName H serial ++ ".digest", ?_, .inr (prefix_stagingName serial _)⟩
    rw [digestPath, staging, withSuffix_append_singleton]

/-- Looking for the folder of the tool may make it and the folders above it. -/
theorem lookup_getDownloadDirStrict (fs : Fs) (hq : ¬ q <+: folder H) :
    (H.getDownloadDirStrict fs).2.lookup q = fs.lookup q := by
  unfold Host.getDownloadDirStrict
  split
  · rfl
  · rename_i path hdir
    have hfolder : path = folder H := by rw [folder, hdir, Option.getD_some]
    split_ifs
    · rfl
    · dsimp only
      split_ifs <;> rfl
    · split
      · rfl
      · rename_i hmade
        have hsame := FileSystem.lookup_createDirAll_of_not_prefix hmade (hfolder ▸ hq)
        split_ifs <;> exact hsame

/-- An upload of the tool is asked for. -/
theorem within_prepare (hS : ∀ q, q <+: folder H ∨ Guarded H q → S q) (fs : Fs) (serial : Nat)
    (path : String) (id fileNum : Int) (files : List (String × Nat)) (size : Nat) :
    (∀ job, (DeviceRemote.prepare H fs serial path id fileNum files size).1 = .ok job →
        ({ serial, deviceRemoteLaunch := true, job } : CmJob).Within H S) ∧
      ∀ q, ¬ S q →
        (DeviceRemote.prepare H fs serial path id fileNum files size).2.lookup q = fs.lookup q := by
  constructor
  · intro job hjob
    have hup := (prepare_spec H fs serial path id fileNum files size).2 job hjob
    refine ⟨hup.type, ⟨_, hup.source⟩, hup.stream, fun q hq => ?_, fun _ =>
      ⟨⟨serial, hup.source⟩, fun q hq => hS q (.inr hq)⟩⟩
    exact hS q (guarded_of_touchesAt (hup.touches.mp hq))
  · intro q hq
    have hmade := lookup_getDownloadDirStrict (H := H) fs fun h => hq (hS q (.inl h))
    unfold DeviceRemote.prepare
    by_cases hwindows : ¬ H.platform.windows = true
    · rw [if_pos hwindows]
    · rw [if_neg hwindows]
      split
      · split_ifs
        · rfl
        · split
          · rename_i hdir
            rwa [hdir] at hmade
          · rename_i hdir
            rwa [hdir] at hmade
      · rfl

/-- An ordinary write job is asked for. -/
theorem within_ordinary {base : PathBuf} {serial totalSize : Nat} {id fileNum : Int}
    {files : List FileEntry} {overwriteDetection : Bool} (hS : ∀ q, Around base q → S q)
    (hset : (newWrite id .generic "" (.filePath base) fileNum false false
      overwriteDetection).setFiles H.platform fs files = .ok job) :
    ({ serial, deviceRemoteLaunch := false, job := { job with totalSize } } : CmJob).Within
      H S := by
  obtain ⟨hvalid, rfl⟩ := setFiles_eq hset
  refine ⟨rfl, ⟨base, rfl⟩, by rintro _ _ ⟨⟩, fun q hq => ?_, by rintro ⟨⟩⟩
  obtain ⟨base', name, hbase, hname, htouches⟩ := hq
  cases hbase
  obtain ⟨entry, hentry, rfl⟩ := List.mem_map.mp hname
  exact hS q (around_of_touchesAt (not_parent_of_validate (names_of_validate hvalid entry hentry))
    htouches)

end CmJob

/-! ## The messages -/

namespace Cm

/-- A message leaves every job within a set, and the file system outside of it alone. -/
structure Confined (H : Host) (S : PathBuf → Prop) (cm cm' : Cm) : Prop where
  jobs : ∀ j ∈ cm'.jobs, j.Within H S
  lookup : ∀ q, ¬ S q → cm'.fs.lookup q = cm.fs.lookup q

variable {H : Host} {S : PathBuf → Prop} {cm : Cm} {id : Int} {j : CmJob} {job : TransferJob}

theorem within_removeJob {jobs : List CmJob} (h : ∀ j ∈ jobs, j.Within H S) :
    ∀ k ∈ removeJob id jobs, k.Within H S :=
  fun k hk => h k (List.eraseP_sublist.subset hk)

theorem within_setJob {jobs : List CmJob} (h : ∀ j ∈ jobs, j.Within H S)
    (hj : getJob id jobs = some j) (hjob : ({ j with job } : CmJob).Within H S) :
    ∀ k ∈ setJob id job jobs, k.Within H S := by
  obtain ⟨before, after, rfl, -, hset, -⟩ := getJob_split hj
  intro k hk
  rw [hset job, List.mem_append, List.mem_cons] at hk
  rcases hk with hk | rfl | hk
  · exact h k (List.mem_append_left _ hk)
  · exact hjob
  · exact h k (List.mem_append_right _ (List.mem_cons_of_mem _ hk))

/-- A job that has been given up. -/
theorem confined_giveUp (h : ∀ j ∈ cm.jobs, j.Within H S) (hj : getJob id cm.jobs = some j) :
    Confined H S cm { cm with
      jobs := removeJob id cm.jobs
      fs := j.job.removeDownloadFile H.platform (cleanup H j cm.fs) } where
  jobs := within_removeJob h
  lookup q hq := by
    have hin := h j (of_getJob hj).1
    exact ((hin.cleanup _ hq).2).trans (hin.cleanup cm.fs hq).1

/-- The end of a job. -/
theorem confined_writeDone (h : ∀ j ∈ cm.jobs, j.Within H S) (env : Surroundings)
    (id fileNum : Int) : Confined H S cm (writeDone H env cm id fileNum).1 := by
  unfold writeDone
  split
  · exact ⟨h, fun _ _ => rfl⟩
  · rename_i j hj
    obtain ⟨hdone, hlookup⟩ := (h j (of_getJob hj).1).finishJob env cm.fs
    have hcleaned : ∀ q, ¬ S q → (cleanup H { j with job := (finishJob H env j cm.fs).job }
        (finishJob H env j cm.fs).fs).lookup q = cm.fs.lookup q := fun q hq =>
      (hdone.cleanup _ hq).1.trans (hlookup q hq)
    dsimp only
    split
    · exact ⟨within_removeJob h, hcleaned⟩
    · exact ⟨within_removeJob h, hcleaned⟩

/-- A block for a job. -/
theorem confined_writeBlock (h : ∀ j ∈ cm.jobs, j.Within H S) (id fileNum : Int) (data : Bytes)
    (compressed : Bool) : Confined H S cm (writeBlock H cm id fileNum data compressed).1 := by
  unfold writeBlock
  split
  · exact ⟨h, fun _ _ => rfl⟩
  · rename_i j hj
    have hin := h j (of_getJob hj).1
    obtain ⟨base, hsource⟩ := hin.source
    have hk := keepsTo_write hin.stream hin.type hsource cm.fs { id, fileNum, data, compressed }
    have hjobs := within_setJob h hj (hin.of_keepsTo hk)
    have hlookup := fun q hq => hin.lookup (q := q) hk hq
    dsimp only
    split
    · exact ⟨hjobs, hlookup⟩
    · split_ifs with htool
      · refine ⟨within_removeJob hjobs, fun q hq => ?_⟩
        have hclean := ((hin.of_keepsTo hk).cleanup
          (j.job.write H.platform cm.fs { id, fileNum, data, compressed }).fs hq).1
        rw [cleanup, if_pos htool] at hclean
        exact hclean.trans (hlookup q hq)
      · exact ⟨hjobs, hlookup⟩

/-- A digest for a job. -/
theorem confined_checkDigest (h : ∀ j ∈ cm.jobs, j.Within H S) (env : Surroundings)
    (id fileNum : Int) (fileSize lastModified : Nat) (isUpload isResume : Bool) :
    Confined H S cm
      (checkDigest H env cm id fileNum fileSize lastModified isUpload isResume).1 := by
  unfold checkDigest
  split
  · exact ⟨h, fun _ _ => rfl⟩
  · rename_i j hj
    have hin := h j (of_getJob hj).1
    split_ifs with htool
    · refine ⟨within_removeJob h, fun q hq => ?_⟩
      have hclean := (hin.cleanup cm.fs hq).1
      rwa [cleanup, if_pos htool] at hclean
    · exact ⟨h, fun _ _ => rfl⟩
    · split
      · split
        · exact ⟨h, fun _ _ => rfl⟩
        · rename_i result _
          have hkeep : KeepsTo H.platform j.job cm.fs (answerDigest
              (j.job.setDigest fileSize lastModified) id fileNum isUpload result).1 cm.fs := by
            cases result
            · exact .of_same hin.stream rfl (fun _ => rfl) (.inl rfl)
            · exact .of_same hin.stream rfl (fun hs => hs) (.inl rfl)
            · exact .of_same hin.stream rfl (fun hs => hs) (.inl rfl)
          exact ⟨within_setJob h hj (hin.of_keepsTo hkeep), fun _ _ => rfl⟩
      · exact ⟨h, fun _ _ => rfl⟩

/-- The answer of the controller about a file. -/
theorem confined_sendConfirm (h : ∀ j ∈ cm.jobs, j.Within H S)
    (r : FileTransferSendConfirmRequest) : Confined H S cm (sendConfirm H cm r) := by
  unfold sendConfirm
  split
  · exact ⟨h, fun _ _ => rfl⟩
  · rename_i j hj
    have hin := h j (of_getJob hj).1
    dsimp only
    generalize hjob : (if r.union = some (.skip true) then
      { j.job with auditHadSkippedFile := true } else j.job) = job
    have hmark : KeepsTo H.platform j.job cm.fs job cm.fs := by
      subst hjob
      split_ifs
      · exact .of_same hin.stream rfl (fun _ => rfl) (.inl rfl)
      · exact .refl hin.stream cm.fs
    have hconfirm := keepsTo_confirm hmark.stream (hmark.type.trans hin.type) cm.fs r
    exact ⟨within_setJob h hj (hin.of_keepsTo (hmark.trans hconfirm)), fun _ _ => rfl⟩

/-- A request for a write job. -/
theorem confined_newWrite (h : ∀ j ∈ cm.jobs, j.Within H S) (env : Surroundings) {path : String}
    (hS : ∀ q, RequestReaches H path q → S q) (id fileNum : Int) (files : List (String × Nat))
    (overwriteDetection : Bool) (totalSize : Nat) :
    Confined H S cm
      (handleFs H env cm (.newWrite path id fileNum files overwriteDetection totalSize)).1 := by
  unfold handleFs
  dsimp only
  split_ifs with htool
  · have htools : ∀ q, q <+: folder H ∨ Guarded H q → S q := fun q hq => hS q (by
      rw [RequestReaches, if_pos htool]
      exact hq)
    unfold newDeviceRemote
    split_ifs
    · dsimp only
      split
      · exact ⟨h, fun _ _ => rfl⟩
      · rename_i j hj
        have hgone := confined_giveUp h hj
        exact ⟨hgone.jobs, hgone.lookup⟩
    · obtain ⟨hnew, hlookup⟩ :=
        CmJob.within_prepare htools cm.fs cm.opened path id fileNum files totalSize
      dsimp only
      split
      · rename_i hprepare
        rw [hprepare] at hlookup
        exact ⟨h, hlookup⟩
      · rename_i job fs' hprepare
        rw [hprepare] at hnew hlookup
        refine ⟨fun k hk => ?_, hlookup⟩
        rcases List.mem_append.mp hk with hk | hk
        · exact h k hk
        · rw [List.mem_singleton.mp hk]
          exact hnew job rfl
  · unfold newOrdinary
    split
    · exact ⟨h, fun _ _ => rfl⟩
    · rename_i base hbase
      split
      · exact ⟨h, fun _ _ => rfl⟩
      · rename_i job hset
        refine ⟨fun k hk => ?_, fun _ _ => rfl⟩
        rcases List.mem_append.mp hk with hk | hk
        · exact h k hk
        · rw [List.mem_singleton.mp hk]
          exact CmJob.within_ordinary
            (fun q hq => hS q (requestReaches_of_destination htool hbase hq)) hset

/-- Whatever a message is, it keeps to a set that holds what the jobs on the list and the
message itself give access to. -/
theorem confined_handleFs (h : ∀ j ∈ cm.jobs, j.Within H S) (env : Surroundings) {m : FsMessage}
    (hm : ∀ q, m.Reaches H q → S q) : Confined H S cm (handleFs H env cm m).1 := by
  cases m with
  | newWrite path id fileNum files overwriteDetection totalSize =>
    exact confined_newWrite h env (fun q hq => hm q ⟨path, rfl, hq⟩) id fileNum files
      overwriteDetection totalSize
  | cancelWrite id =>
    unfold handleFs
    dsimp only
    split
    · exact ⟨h, fun _ _ => rfl⟩
    · exact confined_giveUp h ‹_›
  | writeDone id fileNum => exact confined_writeDone h env id fileNum
  | writeError id fileNum err =>
    unfold handleFs
    dsimp only
    split
    · exact ⟨h, fun _ _ => rfl⟩
    · rename_i j hj
      exact ⟨within_removeJob h, fun q hq => ((h j (of_getJob hj).1).cleanup cm.fs hq).1⟩
  | writeBlock id fileNum data compressed => exact confined_writeBlock h id fileNum data compressed
  | checkDigest id fileNum fileSize lastModified isUpload isResume =>
    exact confined_checkDigest h env id fileNum fileSize lastModified isUpload isResume
  | sendConfirm parsed =>
    cases parsed with
    | none => exact ⟨h, fun _ _ => rfl⟩
    | some r => exact confined_sendConfirm h r

/-- A file dropped into a folder below the Downloads folder. -/
def dropUpload : List (Surroundings × FsMessage) :=
  [({}, .newWrite "mdesk-drop-downloads:a%20b" 1 0 [("c", 0)] false 1),
    ({}, .writeBlock 1 0 [3] false), ({}, .writeDone 1 0)]

end Cm

end MDesk
