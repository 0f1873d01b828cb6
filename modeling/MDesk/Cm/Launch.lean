import MDesk.Cm.Upload

/-!
# The launches of the remote tool

Over any messages of the controller, an attempt to launch the tool finds the complete
upload of its own job in place of the tool, once a job. Without one the installed tool
stays what it is, as long as no ordinary write job is directed at it.
-/

namespace MDesk

open MDesk.Core TransferJob DeviceRemote

namespace Cm

variable (H : Host)

/-- The blocks that went into a job, in order. -/
def acceptedOf (accepted : List (Nat × Bytes)) (serial : Nat) : List Bytes :=
  (accepted.filter fun a => a.1 = serial).map Prod.snd

/-- New blocks of a job are added behind its own. -/
theorem acceptedOf_append (accepted : List (Nat × Bytes)) (n serial : Nat) (acc : List Bytes) :
    acceptedOf (accepted ++ acc.map fun data => (n, data)) serial =
      acceptedOf accepted serial ++ if n = serial then acc else [] := by
  by_cases hn : n = serial
  · subst hn
    simp [acceptedOf, List.filter_map, Function.comp_def]
  · simp [acceptedOf, List.filter_map, Function.comp_def, hn]

/-- A launched upload was complete: its blocks add up to the declared size, the last one
is the end-of-file block, and the tool held them. -/
def Complete (cm : Cm) (l : Launch) : Prop :=
  ∃ size, (l.serial, size) ∈ cm.uploads ∧
    l.contents = some (.file (acceptedOf cm.accepted l.serial).flatten) ∧
    (acceptedOf cm.accepted l.serial).flatten.length = size ∧
      (acceptedOf cm.accepted l.serial).getLast? = some []

/-- A write job that is none of the tool. -/
structure Ordinary (job : TransferJob) : Prop where
  type : job.type = .generic
  source : ∃ base, job.dataSource = .filePath base
  stream : job.StreamTouches H.platform
  apart : ∀ q, Guarded H q → ¬ job.Touches H.platform q

/-- What is known of a job on the list, with the declared sizes and its accepted blocks. -/
structure JobInv (uploads : List (Nat × Nat)) (acc : List Bytes) (fs : Fs) (j : CmJob) : Prop where
  upload : j.deviceRemoteLaunch = true → ∃ size, (j.serial, size) ∈ uploads ∧
    Uploading H j.serial size acc j.job fs
  ordinary : j.deviceRemoteLaunch = false → Ordinary H j.job

/-- Two jobs on the list have numbers of their own, and are not both for the tool. -/
def Apart (j k : CmJob) : Prop :=
  j.serial ≠ k.serial ∧ ¬ (j.deviceRemoteLaunch = true ∧ k.deviceRemoteLaunch = true)

/-- The tool that is installed, after the launches so far. -/
def installed (initial : Option (Node UInt8)) (launches : List Launch) : Option (Node UInt8) :=
  (launches.getLast?.map Launch.contents).getD initial

/-- What holds between any two messages. -/
structure Inv (initial : Option (Node UInt8)) (cm : Cm) : Prop where
  jobs : ∀ j ∈ cm.jobs, JobInv H cm.uploads (acceptedOf cm.accepted j.serial) cm.fs j
  apart : cm.jobs.Pairwise Apart
  opened : ∀ j ∈ cm.jobs, j.serial < cm.opened
  fresh : ∀ a ∈ cm.accepted, a.1 < cm.opened
  gone : ∀ l ∈ cm.launches, l.serial < cm.opened ∧ ∀ j ∈ cm.jobs, l.serial ≠ j.serial
  once : (cm.launches.map Launch.serial).Nodup
  launched : ∀ l ∈ cm.launches, Complete cm l
  installed : cm.fs.lookup (target H) = Cm.installed initial cm.launches

variable {H} {cm : Cm} {initial : Option (Node UInt8)} {id : Int} {j : CmJob} {fs' : Fs}

/-- The job of an id, and what is done to it on the list. -/
theorem getJob_split {jobs : List CmJob} (h : getJob id jobs = some j) :
    ∃ before after, jobs = before ++ j :: after ∧ removeJob id jobs = before ++ after ∧
      (∀ job, setJob id job jobs = before ++ { j with job } :: after) ∧
      (∀ job, job.id = id → removeJob id (setJob id job jobs) = before ++ after) ∧
      j.job.id = id := by
  induction jobs with
  | nil => cases h
  | cons k jobs ih =>
    unfold getJob at h
    by_cases hk : k.job.id = id
    · rw [List.find?_cons_of_pos (by simpa using hk)] at h
      cases h
      refine ⟨[], jobs, rfl, ?_, fun job => ?_, fun job hjob => ?_, hk⟩
      · rw [removeJob, List.eraseP_cons_of_pos (by simpa using hk), List.nil_append]
      · rw [setJob, if_pos hk, List.nil_append]
      · rw [setJob, if_pos hk, removeJob, List.eraseP_cons_of_pos (by simpa using hjob),
          List.nil_append]
    · rw [List.find?_cons_of_neg (by simpa using hk)] at h
      obtain ⟨before, after, rfl, hremove, hset, hboth, hid⟩ := ih h
      refine ⟨k :: before, after, rfl, ?_, fun job => ?_, fun job hjob => ?_, hid⟩
      · rw [removeJob, List.eraseP_cons_of_neg (by simpa using hk)]
        exact congrArg (k :: ·) hremove
      · rw [setJob, if_neg hk, hset job]
        rfl
      · rw [setJob, if_neg hk, removeJob, List.eraseP_cons_of_neg (by simpa using hk)]
        exact congrArg (k :: ·) (hboth job hjob)

theorem Apart.symm {j k : CmJob} (h : Apart j k) : Apart k j :=
  ⟨h.1.symm, fun hboth => h.2 ⟨hboth.2, hboth.1⟩⟩

/-- The jobs besides one. -/
theorem Inv.others {before after : List CmJob} (h : Inv H initial cm)
    (hjobs : cm.jobs = before ++ j :: after) :
    JobInv H cm.uploads (acceptedOf cm.accepted j.serial) cm.fs j ∧ j.serial < cm.opened ∧
      (before ++ after).Pairwise Apart ∧ ∀ k ∈ before ++ after, k ∈ cm.jobs ∧ Apart j k := by
  have hmem : j ∈ cm.jobs := by simp [hjobs]
  have hpair := h.apart
  rw [hjobs, List.pairwise_middle Apart.symm, List.pairwise_cons] at hpair
  refine ⟨h.jobs j hmem, h.opened j hmem, hpair.2, fun k hk => ⟨?_, hpair.1 k hk⟩⟩
  rw [hjobs, List.mem_append, List.mem_cons]
  rcases List.mem_append.mp hk with hk | hk
  · exact .inl hk
  · exact .inr (.inr hk)

/-- Another job is not affected where an ordinary one keeps away from the guarded paths. -/
theorem JobInv.elsewhere {uploads : List (Nat × Nat)} {acc : List Bytes} {fs : Fs} {k : CmJob}
    (h : JobInv H uploads acc fs k) (hapart : Apart j k)
    (hfs : j.deviceRemoteLaunch = false → ∀ q, Guarded H q → fs'.lookup q = fs.lookup q) :
    JobInv H uploads acc fs' k := by
  refine ⟨fun hk => ?_, h.ordinary⟩
  obtain ⟨size, hsize, hup⟩ := h.upload hk
  refine ⟨size, hsize, hup.of_lookup (hfs ?_)⟩
  exact Bool.eq_false_iff.mpr fun hj => hapart.2 ⟨hj, hk⟩

/-- Whatever a job does, the installed tool stays. -/
theorem target_of_apart {fs : Fs}
    (hord : j.deviceRemoteLaunch = false → ∀ q, Guarded H q → fs'.lookup q = fs.lookup q)
    (hup : j.deviceRemoteLaunch = true → fs'.lookup (target H) = fs.lookup (target H)) :
    fs'.lookup (target H) = fs.lookup (target H) := by
  cases hj : j.deviceRemoteLaunch with
  | false => exact hord hj _ guarded_target
  | true => exact hup hj

/-- A job goes on, with the blocks it has accepted. -/
theorem Inv.update (h : Inv H initial cm) (hj : getJob id cm.jobs = some j) (job : TransferJob)
    (acc : List Bytes)
    (hord : j.deviceRemoteLaunch = false → Ordinary H job ∧
      ∀ q, Guarded H q → fs'.lookup q = cm.fs.lookup q)
    (hup : j.deviceRemoteLaunch = true → fs'.lookup (target H) = cm.fs.lookup (target H) ∧
      ∀ size acc', Uploading H j.serial size acc' j.job cm.fs →
        Uploading H j.serial size (acc' ++ acc) job fs') :
    Inv H initial { cm with
      fs := fs'
      jobs := setJob id job cm.jobs
      accepted := cm.accepted ++ acc.map fun data => (j.serial, data) } := by
  obtain ⟨before, after, hjobs, -, hset, -⟩ := getJob_split hj
  obtain ⟨hinv, hopened, hpair, hother⟩ := h.others hjobs
  have hmem : j ∈ cm.jobs := by simp [hjobs]
  have hkeep : ∀ n, n ≠ j.serial →
      acceptedOf (cm.accepted ++ acc.map fun data => (j.serial, data)) n =
        acceptedOf cm.accepted n := by
    intro n hn
    rw [acceptedOf_append, if_neg hn.symm, List.append_nil]
  have hserials : ∀ k ∈ setJob id job cm.jobs, ∃ k' ∈ cm.jobs, k.serial = k'.serial := by
    intro k hk
    rw [hset, List.mem_append, List.mem_cons] at hk
    rcases hk with hk | rfl | hk
    · exact ⟨k, (hother k (List.mem_append_left _ hk)).1, rfl⟩
    · exact ⟨j, hmem, rfl⟩
    · exact ⟨k, (hother k (List.mem_append_right _ hk)).1, rfl⟩
  refine ⟨fun k hk => ?_, ?_, fun k hk => ?_, fun a ha => ?_, fun l hl => ⟨(h.gone l hl).1, ?_⟩,
    h.once, fun l hl => ?_, ?_⟩
  · have hk' : k = { j with job } ∨ k ∈ before ++ after := by
      rw [hset, List.mem_append, List.mem_cons] at hk
      rw [List.mem_append]
      tauto
    rcases hk' with rfl | hk'
    · refine ⟨fun hdevice => ?_, fun hdevice => (hord hdevice).1⟩
      obtain ⟨size, hsize, hupload⟩ := hinv.upload hdevice
      refine ⟨size, hsize, ?_⟩
      dsimp only
      rw [acceptedOf_append, if_pos rfl]
      exact (hup hdevice).2 size _ hupload
    · obtain ⟨hmem', hapart⟩ := hother k hk'
      have hjob := (h.jobs k hmem').elsewhere hapart fun hdevice => (hord hdevice).2
      rw [← hkeep k.serial hapart.1.symm] at hjob
      exact hjob
  · rw [hset, List.pairwise_middle Apart.symm, List.pairwise_cons]
    exact ⟨fun k hk => (hother k hk).2, hpair⟩
  · obtain ⟨k', hk', hserial⟩ := hserials k hk
    rw [hserial]
    exact h.opened k' hk'
  · rcases List.mem_append.mp ha with ha | ha
    · exact h.fresh a ha
    · obtain ⟨data, -, rfl⟩ := List.mem_map.mp ha
      exact hopened
  · intro k hk
    obtain ⟨k', hk', hserial⟩ := hserials k hk
    rw [hserial]
    exact (h.gone l hl).2 k' hk'
  · obtain ⟨size, hcomplete⟩ := h.launched l hl
    refine ⟨size, ?_⟩
    rw [hkeep l.serial ((h.gone l hl).2 j hmem)]
    exact hcomplete
  · rw [target_of_apart (fun hdevice => (hord hdevice).2) fun hdevice => (hup hdevice).1]
    exact h.installed

/-- A job ends, and does not launch anything. -/
theorem Inv.remove (h : Inv H initial cm) (hj : getJob id cm.jobs = some j) {finished : List Nat}
    (hord : j.deviceRemoteLaunch = false → ∀ q, Guarded H q → fs'.lookup q = cm.fs.lookup q)
    (hup : j.deviceRemoteLaunch = true → fs'.lookup (target H) = cm.fs.lookup (target H)) :
    Inv H initial { cm with fs := fs', jobs := removeJob id cm.jobs, finished } := by
  obtain ⟨before, after, hjobs, hremove, -⟩ := getJob_split hj
  obtain ⟨-, -, hpair, hother⟩ := h.others hjobs
  rw [hremove]
  refine ⟨fun k hk => ?_, hpair, fun k hk => h.opened k (hother k hk).1, h.fresh,
    fun l hl => ⟨(h.gone l hl).1, fun k hk => (h.gone l hl).2 k (hother k hk).1⟩, h.once,
    h.launched, ?_⟩
  · exact (h.jobs k (hother k hk).1).elsewhere (hother k hk).2 hord
  · rw [target_of_apart hord hup]
    exact h.installed

/-- An upload ends with a launch. -/
theorem Inv.launch (h : Inv H initial cm) (hj : getJob id cm.jobs = some j) {finished : List Nat}
    {l : Launch} (hdevice : j.deviceRemoteLaunch = true) (hserial : l.serial = j.serial)
    (hcomplete : cm.Complete l) (htarget : fs'.lookup (target H) = l.contents) :
    Inv H initial { cm with
      fs := fs', jobs := removeJob id cm.jobs, launches := cm.launches ++ [l], finished } := by
  obtain ⟨before, after, hjobs, hremove, -⟩ := getJob_split hj
  obtain ⟨-, hopened, hpair, hother⟩ := h.others hjobs
  have hmem : j ∈ cm.jobs := by simp [hjobs]
  rw [hremove]
  refine ⟨fun k hk => ?_, hpair, fun k hk => h.opened k (hother k hk).1, h.fresh, fun l' hl' => ?_,
    ?_, fun l' hl' => ?_, ?_⟩
  · refine (h.jobs k (hother k hk).1).elsewhere (hother k hk).2 fun hfalse => ?_
    rw [hdevice] at hfalse
    cases hfalse
  · rcases List.mem_append.mp hl' with hl' | hl'
    · exact ⟨(h.gone l' hl').1, fun k hk => (h.gone l' hl').2 k (hother k hk).1⟩
    · rw [List.mem_singleton.mp hl', hserial]
      exact ⟨hopened, fun k hk => (hother k hk).2.1⟩
  · rw [List.map_append, List.map_singleton, ← List.concat_eq_append, List.nodup_concat]
    refine ⟨fun hin => ?_, h.once⟩
    obtain ⟨l', hl', heq⟩ := List.mem_map.mp hin
    exact (h.gone l' hl').2 j hmem (heq.trans hserial)
  · rcases List.mem_append.mp hl' with hl' | hl'
    · exact h.launched l' hl'
    · rw [List.mem_singleton.mp hl']
      exact hcomplete
  · rw [htarget, Cm.installed, List.getLast?_concat]
    rfl

/-- A new number, and a declared size; the files may change where no upload is going on. -/
theorem Inv.opens (h : Inv H initial cm) (fs' : Fs) (uploads : List (Nat × Nat))
    (htarget : fs'.lookup (target H) = cm.fs.lookup (target H))
    (hfs : fs' = cm.fs ∨ ∀ k ∈ cm.jobs, k.deviceRemoteLaunch = false) :
    Inv H initial { cm with
      fs := fs', opened := cm.opened + 1, uploads := cm.uploads ++ uploads } := by
  refine ⟨fun k hk => ⟨fun hdevice => ?_, (h.jobs k hk).ordinary⟩, h.apart,
    fun k hk => Nat.lt_succ_of_lt (h.opened k hk), fun a ha => Nat.lt_succ_of_lt (h.fresh a ha),
    fun l hl => ⟨Nat.lt_succ_of_lt (h.gone l hl).1, (h.gone l hl).2⟩, h.once, fun l hl => ?_, ?_⟩
  · obtain ⟨size, hsize, hup⟩ := (h.jobs k hk).upload hdevice
    refine ⟨size, List.mem_append_left _ hsize, ?_⟩
    rcases hfs with rfl | hnone
    · exact hup
    · rw [hnone k hk] at hdevice
      cases hdevice
  · obtain ⟨size, hsize, hcomplete⟩ := h.launched l hl
    exact ⟨size, List.mem_append_left _ hsize, hcomplete⟩
  · exact htarget.trans h.installed

/-- A new job, with a new number. -/
theorem Inv.append (h : Inv H initial cm) (fs' : Fs) (uploads : List (Nat × Nat))
    (htarget : fs'.lookup (target H) = cm.fs.lookup (target H))
    (hfs : fs' = cm.fs ∨ ∀ k ∈ cm.jobs, k.deviceRemoteLaunch = false)
    (hserial : j.serial = cm.opened) (hjob : JobInv H (cm.uploads ++ uploads) [] fs' j)
    (hdevice : j.deviceRemoteLaunch = true → ∀ k ∈ cm.jobs, k.deviceRemoteLaunch = false) :
    Inv H initial { cm with
      fs := fs', opened := cm.opened + 1, jobs := cm.jobs ++ [j]
      uploads := cm.uploads ++ uploads } := by
  have hopens := h.opens fs' uploads htarget hfs
  have hnone : acceptedOf cm.accepted j.serial = [] := by
    rw [acceptedOf, List.map_eq_nil_iff, List.filter_eq_nil_iff]
    intro a ha heq
    have hlt := h.fresh a ha
    rw [decide_eq_true_iff] at heq
    omega
  refine ⟨fun k hk => ?_, ?_, fun k hk => ?_, hopens.fresh,
    fun l hl => ⟨(hopens.gone l hl).1, fun k hk => ?_⟩, hopens.once, hopens.launched,
    hopens.installed⟩
  · rcases List.mem_append.mp hk with hk | hk
    · exact hopens.jobs k hk
    · rw [List.mem_singleton.mp hk]
      dsimp only
      rw [hnone]
      exact hjob
  · refine List.pairwise_append.mpr ⟨h.apart, List.pairwise_singleton _ _, fun k hk k' hk' => ?_⟩
    rw [List.mem_singleton.mp hk']
    have hlt := h.opened k hk
    refine ⟨by omega, fun hboth => ?_⟩
    rw [hdevice hboth.2 k hk] at hboth
    exact Bool.false_ne_true hboth.1
  · rcases List.mem_append.mp hk with hk | hk
    · exact hopens.opened k hk
    · rw [List.mem_singleton.mp hk, hserial]
      exact Nat.lt_succ_self _
  · rcases List.mem_append.mp hk with hk | hk
    · exact (h.gone l hl).2 k hk
    · rw [List.mem_singleton.mp hk, hserial]
      exact (h.gone l hl).1.ne

/-- The clean-up of a job that is given up, with the staging file of its current file. -/
theorem JobInv.cleanup {uploads : List (Nat × Nat)} {acc : List Bytes} {fs : Fs} {job : TransferJob}
    (h : JobInv H uploads acc fs j) (hfixed : job.fixed = j.job.fixed) (fs' : Fs) :
    (j.deviceRemoteLaunch = false → Cm.cleanup H { j with job } fs' = fs' ∧
        ∀ q, Guarded H q → (job.removeDownloadFile H.platform fs').lookup q = fs'.lookup q) ∧
      (j.deviceRemoteLaunch = true →
        (Cm.cleanup H { j with job } fs').lookup (target H) = fs'.lookup (target H) ∧
          (job.removeDownloadFile H.platform fs').lookup (target H) = fs'.lookup (target H)) := by
  refine ⟨fun hj => ⟨?_, fun q hq => ?_⟩, fun hj => ?_⟩
  · rw [Cm.cleanup, if_neg (by rw [hj]; exact Bool.false_ne_true)]
  · refine lookup_removeDownloadFile fs' fun htouches => ?_
    exact (h.ordinary hj).apart q hq ((touches_congr hfixed).mp htouches)
  · obtain ⟨size, -, hup⟩ := h.upload hj
    rw [Cm.cleanup, if_pos hj]
    exact hup.cleanup hfixed fs'

/-- The job of an id, with what is known of it. -/
theorem Inv.found (h : Inv H initial cm) (hj : getJob id cm.jobs = some j) :
    JobInv H cm.uploads (acceptedOf cm.accepted j.serial) cm.fs j :=
  h.jobs j (List.mem_of_find?_eq_some hj)

/-- A job is given up, whether its staging file is removed or only what it leaves. -/
theorem Inv.giveUp (h : Inv H initial cm) (hj : getJob id cm.jobs = some j) :
    Inv H initial { cm with
        jobs := removeJob id cm.jobs
        fs := j.job.removeDownloadFile H.platform (Cm.cleanup H j cm.fs) } ∧
      Inv H initial { cm with jobs := removeJob id cm.jobs, fs := Cm.cleanup H j cm.fs } := by
  obtain ⟨hord, hup⟩ := (h.found hj).cleanup rfl cm.fs
  obtain ⟨hord', hup'⟩ := (h.found hj).cleanup rfl (Cm.cleanup H j cm.fs)
  constructor
  · refine h.remove hj (fun hdevice q hq => ?_) fun hdevice => ?_
    · rw [(hord' hdevice).2 q hq, (hord hdevice).1]
    · rw [(hup' hdevice).2, (hup hdevice).1]
  · refine h.remove hj (fun hdevice q hq => ?_) fun hdevice => ?_
    · rw [(hord hdevice).1]
    · rw [(hup hdevice).1]

/-- An ordinary job keeps away from the guarded paths, and goes on doing so. -/
theorem Ordinary.of_keepsTo {job job' : TransferJob} {fs : Fs} (h : Ordinary H job)
    (hkeep : KeepsTo H.platform job fs job' fs') :
    Ordinary H job' ∧ ∀ q, Guarded H q → fs'.lookup q = fs.lookup q := by
  obtain ⟨base, hsource⟩ := h.source
  refine ⟨⟨hkeep.type.trans h.type, ⟨base, hkeep.source.trans hsource⟩, hkeep.stream,
    fun q hq => ?_⟩, fun q hq => hkeep.lookup q (h.apart q hq)⟩
  rw [touches_congr hkeep.fixed]
  exact h.apart q hq

/-- The end of a job launches a complete upload, or nothing. -/
theorem Inv.writeDone (h : Inv H initial cm) (env : Surroundings) (id fileNum : Int) :
    Inv H initial (Cm.writeDone H env cm id fileNum).1 := by
  unfold Cm.writeDone
  split
  · exact h
  · rename_i j hj
    have hfound := h.found hj
    have hended : ∀ finished, Inv H initial { cm with
        jobs := removeJob id cm.jobs
        fs := Cm.cleanup H { j with job := (finishJob H env j cm.fs).job }
          (finishJob H env j cm.fs).fs
        launches := cm.launches ++ (finishJob H env j cm.fs).launches
        finished } := by
      intro finished
      by_cases hdevice : j.deviceRemoteLaunch = true
      · have hfinish : finishJob H env j cm.fs =
            DeviceRemote.finish H j.serial env.reaction j.job cm.fs := by
          rw [finishJob, if_pos hdevice]
        obtain ⟨size, hsize, hup⟩ := hfound.upload hdevice
        obtain ⟨hfixed, hcases⟩ := hup.finish env.reaction
        have hclean := ((hfound.cleanup hfixed
          (DeviceRemote.finish H j.serial env.reaction j.job cm.fs).fs).2 hdevice).1
        rw [hfinish]
        rcases hcases with ⟨hnone, htarget⟩ | ⟨spawned, hlaunch, htarget, hlen, hlast⟩
        · rw [hnone, List.append_nil]
          exact h.remove hj (fun hfalse => absurd hdevice (Bool.eq_false_iff.mp hfalse))
            fun _ => hclean.trans htarget
        · rw [hlaunch]
          exact h.launch hj hdevice rfl ⟨size, hsize, rfl, hlen, hlast⟩ (hclean.trans htarget)
      · have hfinish : finishJob H env j cm.fs = ⟨(j.job.finalizeWrite H.platform cm.fs).result,
            (j.job.finalizeWrite H.platform cm.fs).job,
            (j.job.finalizeWrite H.platform cm.fs).fs, []⟩ := by
          rw [finishJob, if_neg hdevice]
        have hord := hfound.ordinary (Bool.eq_false_iff.mpr hdevice)
        have hkeep := keepsTo_finalizeWrite hord.stream cm.fs
        have hclean := ((hfound.cleanup hkeep.fixed (j.job.finalizeWrite H.platform cm.fs).fs).1
          (Bool.eq_false_iff.mpr hdevice)).1
        rw [hfinish, List.append_nil]
        dsimp only
        rw [hclean]
        exact h.remove hj (fun _ => (hord.of_keepsTo hkeep).2) fun htrue => absurd htrue hdevice
    dsimp only
    split
    · exact hended _
    · exact hended cm.finished

/-- An accepted block carries data. -/
theorem acceptedData_ok {P : Platform} {job : TransferJob} {fs : Fs} {block : FileTransferBlock}
    (h : (job.write P fs block).result = .ok ()) :
    ∃ data, job.decodeBlock P block = .ok data ∧ acceptedData P job fs block = [data] := by
  cases hdecode : job.decodeBlock P block with
  | error e =>
    rw [TransferJob.write, hdecode] at h
    cases h
  | ok data => exact ⟨data, rfl, by rw [acceptedData, h, hdecode]⟩

theorem acceptedData_refused {P : Platform} {job : TransferJob} {fs : Fs}
    {block : FileTransferBlock} {e : String} (h : (job.write P fs block).result = .error e) :
    acceptedData P job fs block = [] := by
  rw [acceptedData, h]

/-- A block goes into its job, or ends the upload it is refused by. -/
theorem Inv.writeBlock (h : Inv H initial cm) (id fileNum : Int) (data : Bytes)
    (compressed : Bool) : Inv H initial (Cm.writeBlock H cm id fileNum data compressed).1 := by
  unfold Cm.writeBlock
  split
  · exact h
  · rename_i j hj
    have hfound := h.found hj
    generalize hblock : ({ id, fileNum, data, compressed } : FileTransferBlock) = block
    dsimp only
    split
    · rename_i hres
      obtain ⟨data, hdecode, haccepted⟩ := acceptedData_ok hres
      rw [haccepted]
      refine h.update hj _ [data] (fun hdevice => ?_) fun hdevice => ?_
      · have hord := hfound.ordinary hdevice
        obtain ⟨base, hsource⟩ := hord.source
        exact hord.of_keepsTo (keepsTo_write hord.stream hord.type hsource cm.fs block)
      · obtain ⟨size, -, hup⟩ := hfound.upload hdevice
        have hkeep := keepsTo_write hup.stream hup.type hup.source cm.fs block
        exact ⟨hkeep.lookup _ hup.not_touches_target,
          fun size acc' hup' => hup'.write hres hdecode⟩
    · rename_i e hres
      rw [acceptedData_refused hres, List.map_nil, List.append_nil]
      split_ifs with hdevice
      · obtain ⟨size, -, hup⟩ := hfound.upload hdevice
        have hkeep := keepsTo_write hup.stream hup.type hup.source cm.fs block
        obtain ⟨before, after, -, hremove, -, hboth, hid⟩ := getJob_split hj
        dsimp only
        rw [hboth _ (hkeep.id.trans hid), ← hremove]
        refine h.remove hj (fun hfalse => ?_) fun _ => ?_
        · rw [hdevice] at hfalse
          cases hfalse
        · rw [(hup.cleanup hkeep.fixed _).1, hkeep.lookup _ hup.not_touches_target]
      · have hord := hfound.ordinary (Bool.eq_false_iff.mpr hdevice)
        obtain ⟨base, hsource⟩ := hord.source
        have hupdate := h.update hj _ [] (fun _ => hord.of_keepsTo
          (keepsTo_write hord.stream hord.type hsource cm.fs block))
          fun htrue => absurd htrue hdevice
        rwa [List.map_nil, List.append_nil] at hupdate

/-- A digest is answered, or ends the upload it does not fit. -/
theorem Inv.checkDigest (h : Inv H initial cm) (env : Surroundings) (id fileNum : Int)
    (fileSize lastModified : Nat) (isUpload isResume : Bool) :
    Inv H initial
      (Cm.checkDigest H env cm id fileNum fileSize lastModified isUpload isResume).1 := by
  unfold Cm.checkDigest
  split
  · exact h
  · rename_i j hj
    split_ifs with hdevice hbad
    · have hgone := (h.giveUp hj).2
      rw [Cm.cleanup, if_pos hdevice] at hgone
      exact hgone
    · exact h
    · split
      · rename_i file path _ _
        split
        · exact h
        · rename_i result _
          have hord := (h.found hj).ordinary (Bool.eq_false_iff.mpr hdevice)
          have hkeep : KeepsTo H.platform j.job cm.fs (answerDigest
              (j.job.setDigest fileSize lastModified) id fileNum isUpload result).1 cm.fs := by
            cases result
            · exact .of_same hord.stream rfl (fun _ => rfl) (.inl rfl)
            · exact .of_same hord.stream rfl (fun hs => hs) (.inl rfl)
            · exact .of_same hord.stream rfl (fun hs => hs) (.inl rfl)
          have hupdate := h.update hj _ [] (fun _ => hord.of_keepsTo hkeep)
            fun htrue => absurd htrue hdevice
          rw [List.map_nil, List.append_nil] at hupdate
          exact hupdate
      · exact h

/-- The answer of the controller about a file, which must not turn the byte count of an
upload over. -/
theorem Inv.sendConfirm (h : Inv H initial cm) {r : FileTransferSendConfirmRequest}
    (hmax : ∀ j, getJob r.id cm.jobs = some j → j.deviceRemoteLaunch = true →
      ∀ offset, r.union = some (.offsetBlk offset) → j.job.finishedSize + offset < 2 ^ 64) :
    Inv H initial (Cm.sendConfirm H cm r) := by
  unfold Cm.sendConfirm
  split
  · exact h
  · rename_i j hj
    have hfound := h.found hj
    have hmark : ∀ {job : TransferJob}, job = (if r.union = some (.skip true) then
          { j.job with auditHadSkippedFile := true } else j.job) →
        job.finishedSize = j.job.finishedSize ∧ (j.job.StreamTouches H.platform →
          KeepsTo H.platform j.job cm.fs job cm.fs) ∧
        (job.auditHadSkippedFile = true ∨ job = j.job) := by
      rintro job rfl
      split_ifs
      · exact ⟨rfl, fun hs => .of_same hs rfl (fun _ => rfl) (.inl rfl), .inl rfl⟩
      · exact ⟨rfl, fun hs => .refl hs cm.fs, .inr rfl⟩
    dsimp only
    generalize hjob : (if r.union = some (.skip true) then
      { j.job with auditHadSkippedFile := true } else j.job) = job
    obtain ⟨hfinished, hkeep, hskip⟩ := hmark hjob.symm
    have hupdate := h.update hj (job.confirm H.platform cm.fs r) []
      (fun hdevice => by
        have hord := hfound.ordinary hdevice
        have hord' := (hord.of_keepsTo (hkeep hord.stream)).1
        have hconfirm := keepsTo_confirm hord'.stream hord'.type cm.fs r
        exact hord.of_keepsTo ((hkeep hord.stream).trans hconfirm))
      fun hdevice => by
        refine ⟨rfl, fun size acc' hup => ?_⟩
        rw [List.append_nil]
        refine Uploading.confirm (hup.of_keepsTo (hkeep hup.stream) fun hp => ?_)
          fun offset hunion => ?_
        · rcases hskip with hskip | rfl
          · exact .inl hskip
          · exact .inr hp
        · rw [hfinished]
          exact hmax j hj hdevice offset hunion
    rw [List.map_nil, List.append_nil] at hupdate
    exact hupdate

/-- The upload of the tool is accepted, refused, or ended by another one. -/
theorem Inv.newDeviceRemote (h : Inv H initial cm) (path : String) (id fileNum : Int)
    (files : List (String × Nat)) (totalSize : Nat) :
    Inv H initial (Cm.newDeviceRemote H { cm with opened := cm.opened + 1 } cm.opened path id
      fileNum files totalSize).1 := by
  have hopened : Inv H initial { cm with opened := cm.opened + 1 } := by
    have hopens := h.opens cm.fs [] rfl (.inl rfl)
    rwa [List.append_nil] at hopens
  unfold Cm.newDeviceRemote
  split_ifs with hany
  · dsimp only
    split
    · exact hopened
    · rename_i j hj
      exact (hopened.giveUp hj).1
  · have hnone : ∀ k ∈ cm.jobs, k.deviceRemoteLaunch = false := by
      intro k hk
      by_contra hdevice
      refine hany (List.any_eq_true.mpr ⟨k, hk, ?_⟩)
      rw [decide_eq_true_iff]
      exact .inr (Bool.not_eq_false _ |>.mp hdevice)
    obtain ⟨htarget, hup⟩ := prepare_spec H cm.fs cm.opened path id fileNum files totalSize
    dsimp only
    split
    · rename_i e fs' hprepare
      rw [hprepare] at htarget
      have hopens := h.opens fs' [] htarget (.inr hnone)
      rw [List.append_nil] at hopens
      exact hopens
    · rename_i job fs' hprepare
      rw [hprepare] at htarget hup
      refine h.append fs' [(cm.opened, totalSize)] htarget (.inr hnone) rfl ⟨fun _ => ?_, nofun⟩
        fun _ => hnone
      exact ⟨totalSize, List.mem_append_right _ (List.mem_singleton_self _), hup job rfl⟩

/-- An ordinary job whose paths are not guarded is an ordinary one. -/
theorem Inv.newOrdinary (h : Inv H initial cm) {path : String} (id fileNum : Int)
    {files : List (String × Nat)} (overwriteDetection : Bool) (totalSize : Nat)
    (hclear : ∀ p, destination H path = .ok p → ∀ f ∈ files, ∀ q, Guarded H q →
      ¬ TouchesAt (H.platform.join p f.1) q) :
    Inv H initial (Cm.newOrdinary H { cm with opened := cm.opened + 1 } cm.opened path id fileNum
      files overwriteDetection totalSize).1 := by
  have hopened : Inv H initial { cm with opened := cm.opened + 1 } := by
    have hopens := h.opens cm.fs [] rfl (.inl rfl)
    rwa [List.append_nil] at hopens
  unfold Cm.newOrdinary
  split
  · exact hopened
  · rename_i p hp
    split
    · exact hopened
    · rename_i job hset
      obtain ⟨-, hjob⟩ := setFiles_eq hset
      have hord : Ordinary H { job with totalSize } := by
        subst hjob
        refine ⟨rfl, ⟨p, rfl⟩, nofun, fun q hq => ?_⟩
        rintro ⟨base, name, hbase, hname, htouches⟩
        cases hbase
        obtain ⟨entry, hentry, rfl⟩ := List.mem_map.mp hname
        obtain ⟨f, hf, rfl⟩ := List.mem_map.mp hentry
        exact hclear p hp f hf q hq htouches
      have hnew : JobInv H (cm.uploads ++ []) [] cm.fs
          { serial := cm.opened, deviceRemoteLaunch := false, job := { job with totalSize } } :=
        ⟨fun hdevice => absurd hdevice Bool.false_ne_true, fun _ => hord⟩
      have happend := h.append cm.fs [] rfl (.inl rfl) rfl hnew fun hdevice =>
        absurd hdevice Bool.false_ne_true
      rw [List.append_nil] at happend
      exact happend

variable (H) in
/-- Messages that do the upload of the tool no harm: no ordinary write job is directed at
the tool or at a staging file of it, and no answer turns the byte count of an upload over. -/
def Harmless (cm : Cm) : Surroundings × FsMessage → Prop
  | (_, .newWrite path _ _ files _ _) => ¬ deviceRemotePrefix.toList <+: path.toList →
      ∀ p, destination H path = .ok p → ∀ f ∈ files, ∀ q, Guarded H q →
        ¬ TouchesAt (H.platform.join p f.1) q
  | (_, .sendConfirm (some r)) => ∀ j, getJob r.id cm.jobs = some j →
      j.deviceRemoteLaunch = true → ∀ offset, r.union = some (.offsetBlk offset) →
        j.job.finishedSize + offset < 2 ^ 64
  | _ => True

/-- One message. -/
theorem Inv.step (h : Inv H initial cm) {e : Surroundings × FsMessage} (hok : Harmless H cm e) :
    Inv H initial (Cm.step H cm e) := by
  obtain ⟨env, message⟩ := e
  cases message with
  | newWrite path id fileNum files overwriteDetection totalSize =>
    unfold Cm.step handleFs
    dsimp only
    split_ifs with hpath
    · exact h.newDeviceRemote path id fileNum files totalSize
    · refine h.newOrdinary id fileNum overwriteDetection totalSize (hok fun hprefix => hpath ?_)
      rwa [List.isPrefixOf_iff_prefix]
  | cancelWrite id =>
    unfold Cm.step handleFs
    dsimp only
    split
    · exact h
    · rename_i j hj
      exact (h.giveUp hj).1
  | writeDone id fileNum => exact h.writeDone env id fileNum
  | writeError id fileNum err =>
    unfold Cm.step handleFs
    dsimp only
    split
    · exact h
    · rename_i j hj
      exact (h.giveUp hj).2
  | writeBlock id fileNum data compressed => exact h.writeBlock id fileNum data compressed
  | checkDigest id fileNum fileSize lastModified isUpload isResume =>
    exact h.checkDigest env id fileNum fileSize lastModified isUpload isResume
  | sendConfirm parsed =>
    cases parsed with
    | none => exact h
    | some r => exact h.sendConfirm hok

/-- Each attempt to launch the tool finds the complete upload of its own job in its place,
and there is at most one for each job; without any, the installed tool is what it was. -/
theorem launches_complete {fs : Fs} {es : List (Surroundings × FsMessage)}
    (hes : Allowed (Cm.step H) (Harmless H) { fs } es) :
    let cm := run (Cm.step H) { fs } es
    (cm.launches.map Launch.serial).Nodup ∧ (∀ l ∈ cm.launches, Complete cm l) ∧
      (cm.launches = [] → cm.fs.lookup (target H) = fs.lookup (target H)) := by
  have hstart : Inv H (fs.lookup (target H)) { fs } :=
    ⟨fun _ hk => absurd hk List.not_mem_nil, .nil, fun _ hk => absurd hk List.not_mem_nil,
      fun _ ha => absurd ha List.not_mem_nil, fun _ hl => absurd hl List.not_mem_nil, .nil,
      fun _ hl => absurd hl List.not_mem_nil, rfl⟩
  have hinv := run_keeps (fun cm e h hok => h.step hok) hstart hes
  refine ⟨hinv.once, hinv.launched, fun hnone => ?_⟩
  have hinstalled := hinv.installed
  rw [hnone] at hinstalled
  exact hinstalled

/-- A host with an older tool in its Downloads folder. -/
def toolHost : Host where
  platform := { Platform.posix with windows := true }
  downloadDir := some ["Downloads"]
  home := []
  tempDir := ["tmp"]
  pathOf path := ["Downloads", path]
  uuid serial := toString serial
  parseDigest _ := none

def toolFs : Fs :=
  ⟨[([], .dir), (["Downloads"], .dir), (["Downloads", "DeviceRemote.exe"], .file [7])]⟩

/-- An upload of the tool in one block and its end. -/
def toolUpload (reaction : Reaction) : List (Surroundings × FsMessage) :=
  [({}, .newWrite deviceRemoteTarget 1 0 [("", 0)] false 2),
    ({}, .writeBlock 1 0 [1, 2] false), ({}, .writeBlock 1 0 [] false),
    ({ reaction }, .writeDone 1 0)]

theorem launches_complete_upload :
    let cm := run (Cm.step toolHost) { fs := toolFs } (toolUpload {})
    cm.launches = [{ serial := 0, contents := some (.file [1, 2]), spawned := true }] ∧
      ∀ l ∈ cm.launches, Complete cm l := by
  have hpath : deviceRemotePrefix.toList <+: deviceRemoteTarget.toList := by decide +kernel
  have hes : Allowed (Cm.step toolHost) (Harmless toolHost) { fs := toolFs } (toolUpload {}) :=
    ⟨fun hnot => absurd hpath hnot, trivial, trivial, trivial, trivial⟩
  exact ⟨by decide +kernel, (launches_complete hes).2.1⟩

/-- The tool is replaced before it is started, whether or not the start succeeds, and an
ordinary write job may be directed at it. -/
theorem tool_replaced_without_launch :
    (¬ ∀ (H : Host) (fs : Fs) (es : List (Surroundings × FsMessage)),
      (∀ l ∈ (run (Cm.step H) { fs } es).launches, l.spawned = false) →
        (run (Cm.step H) { fs } es).fs.lookup (target H) = fs.lookup (target H)) ∧
    ¬ ∀ (H : Host) (fs : Fs) (es : List (Surroundings × FsMessage)),
      (run (Cm.step H) { fs } es).launches = [] →
        (run (Cm.step H) { fs } es).fs.lookup (target H) = fs.lookup (target H) := by
  constructor
  · intro h
    have hrun := h toolHost toolFs (toolUpload { spawnError := some "Access is denied" })
      (by decide +kernel)
    revert hrun
    decide +kernel
  · intro h
    have hrun := h toolHost toolFs [({}, .newWrite "DeviceRemote.exe" 1 0 [("", 0)] false 1),
      ({}, .writeBlock 1 0 [3] false), ({}, .writeDone 1 0)] (by decide +kernel)
    revert hrun
    decide +kernel

end Cm

end MDesk
