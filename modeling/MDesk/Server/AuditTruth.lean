import MDesk.Server.AuditOnce
import MDesk.Server.SessionServe

/-!
# What is posted is true

As long as every answer is about the transfer whose record it settles, and ids are not used
twice at a time, an outcome that is posted is what has become of the transfer.
-/

namespace MDesk

open MDesk.Core

namespace Session

variable {H : AuditHost} {s s' : Session} {id : Int} {n : Nat} {d : EnterpriseFileDirection}
  {status : FileOutcome}

/-! ## The connection manager -/

/-- The job of a message is open, or opened by it. -/
theorem about_cases {cm : Cm} {m : FsMessage} (h : cm.about m = some n) :
    (n = cm.opened ∧ m.opensId.isSome = true) ∨ n ∈ cm.keys.map Prod.fst := by
  have hget : ∀ id, (Cm.getJob id cm.jobs).map CmJob.serial = some n →
      n ∈ cm.keys.map Prod.fst := by
    intro id hserial
    obtain ⟨j, hj, rfl⟩ := Option.map_eq_some_iff.mp hserial
    exact List.mem_map.mpr ⟨j.key, List.mem_map_of_mem (Cm.of_getJob hj).1, rfl⟩
  cases m with
  | newWrite path id fileNum files overwriteDetection totalSize =>
    exact .inl ⟨(Option.some.inj h).symm, rfl⟩
  | sendConfirm parsed =>
    cases parsed with
    | none => cases h
    | some r => exact .inr (hget r.id h)
  | _ => exact .inr (hget _ h)

/-- What a job that is gone stays, whatever comes. -/
theorem gone_handled {cm cm' : Cm} {m : FsMessage} {answers : List CmAnswer}
    (hm : Cm.Handled cm m cm' answers) (hids : (cm.keys.map Prod.snd).Nodup) (h : cm.Gone n) :
    cm'.Gone n := by
  have hview := hm.view hids fun k hk hn => show k.2 = 0 by
    have hopen := Cm.view_isOpen.mpr (List.mem_map.mpr ⟨k, hk, hn⟩)
    rw [h.1] at hopen
    cases hopen
  obtain ⟨hclosed, hlt⟩ := WriteView.step_closed 0 h.1 h.2 (.fs m)
  have hopened : cm'.opened = _ := hview.opened
  refine ⟨eq_false_of_ne_true fun hopen => ?_, hopened ▸ hlt⟩
  rw [hview.isOpen hopen] at hclosed
  cases hclosed

/-- The connection manager handles a message. -/
theorem Inv.handled (h : s.Inv) {m : FsMessage} {toCm : List ToCm} {cm' : Cm}
    {answers : List CmAnswer} (hs : s.toCm = .fs m :: toCm)
    (hm : Cm.Handled s.cm m cm' answers) :
    ({ s with
      toCm
      cm := cm'
      replies := s.replies ++ answers.map fun answer => {
        origin := s.cm.about m
        leavesOpen := (s.cm.about m).any fun n => (cm'.view n).isOpen
        answer } } : Session).Inv := by
  have hqueued := h.queued
  have hclear := h.clear
  rw [hs] at hqueued hclear
  obtain ⟨hfresh, hclear'⟩ := hclear
  have hopened : s.cm.opened ≤ cm'.opened := hm.opened ▸ Nat.le_add_right _ _
  -- the jobs that the connection manager has opened and the ones on their way
  obtain ⟨hle, hrest⟩ : cm'.opened ≤ s.writes.length ∧
      s.writes.drop cm'.opened = toCm.filterMap ToCm.opensId := by
    rw [hm.opened]
    cases hopens : m.opensId with
    | none =>
      rw [List.filterMap_cons_none (by exact hopens)] at hqueued
      exact ⟨h.opened, hqueued⟩
    | some id =>
      rw [List.filterMap_cons_some (by exact hopens)] at hqueued
      have hlen := congrArg List.length hqueued
      rw [List.length_drop, List.length_cons] at hlen
      simp only [Option.toList_some, List.length_singleton]
      refine ⟨by omega, ?_⟩
      rw [← List.drop_drop, hqueued]
      rfl
  have hnewKey : ∀ id, m.opensId = some id → s.writes[s.cm.opened]? = some id := by
    intro id hopens
    rw [List.filterMap_cons_some (by exact hopens)] at hqueued
    have hhead := congrArg List.head? hqueued
    rw [List.head?_drop] at hhead
    exact hhead
  have hkeyed : ∀ k ∈ cm'.keys, s.writes[k.1]? = some k.2 ∧ k.1 < cm'.opened := by
    intro k hk
    rcases hm.mem_keys hk with hin | ⟨hserial, hopens⟩
    · exact ⟨(h.keyed k hin).1, (h.keyed k hin).2.trans_le hopened⟩
    · rw [hserial]
      refine ⟨hnewKey k.2 hopens, ?_⟩
      rw [hm.opened, hopens]
      exact Nat.lt_succ_self _
  have hids : (cm'.keys.map Prod.snd).Nodup := by
    have hsub := hm.keys.map Prod.snd
    cases hopens : m.opensId with
    | none =>
      rw [hopens, Option.toList_none, List.map_nil, List.append_nil] at hsub
      exact h.ids.sublist hsub
    | some id =>
      rw [hopens, Option.toList_some, List.map_singleton, List.map_append,
        List.map_singleton] at hsub
      refine List.Nodup.sublist hsub ?_
      rw [← List.concat_eq_append, List.nodup_concat]
      exact ⟨hfresh id hopens, h.ids⟩
  have hkeyOf : ∀ {n id}, s.writes[n]? = some id → ∀ k ∈ s.cm.keys, k.1 = n → k.2 = id := by
    intro n id hid k hk hn
    have hkey := (h.keyed k hk).1
    rw [hn, hid] at hkey
    exact (Option.some.inj hkey).symm
  refine ⟨⟨hle, hrest, hkeyed, hids, ?_, ?_⟩, h.asked, h.reads, h.readKeyed, h.readIds,
    h.recorded, ?_⟩
  · exact Clear.of_subset (hm.ids_subset h.ids) hclear'
  · intro r hr
    rcases List.mem_append.mp hr with hold | hnew
    · intro n hn
      obtain ⟨hsuccess, hfailure⟩ := h.backed r hold n hn
      exact ⟨fun hs => hm.finished n (hsuccess hs), fun hf => gone_handled hm h.ids (hfailure hf)⟩
    · obtain ⟨a, ha, rfl⟩ := List.mem_map.mp hnew
      intro n hn
      have habout : s.cm.about m = some n := hn
      refine ⟨fun hs => ?_, fun hf => ?_⟩
      · obtain ⟨n', hn', hsome⟩ := hm.success a ha hs
        obtain rfl : n = n' := Option.some.inj (habout.symm.trans hsome)
        exact hn'
      · have hlt : n < cm'.opened := by
          rcases about_cases habout with ⟨rfl, hopens⟩ | hin
          · rw [hm.opened]
            obtain ⟨id, hid⟩ := Option.isSome_iff_exists.mp hopens
            rw [hid]
            exact Nat.lt_succ_self _
          · obtain ⟨k, hk, rfl⟩ := List.mem_map.mp hin
            exact (h.keyed k hk).2.trans_le hopened
        refine ⟨?_, hlt⟩
        unfold Reply.fails at hf
        cases a with
        | error id err fileNum =>
          dsimp only at hf
          rw [habout, Option.any_some] at hf
          exact Bool.not_eq_true' _ |>.mp hf
        | outcome id succeeded =>
          obtain rfl : succeeded = false := Bool.not_eq_true' _ |>.mp hf
          have hends := hm.failure _ ha id rfl
          refine eq_false_of_ne_true fun hopen => ?_
          obtain ⟨k, hk, hkn⟩ := List.mem_map.mp (Cm.view_isOpen.mp hopen)
          refine hm.not_mem_ended h.ids hends (List.mem_map.mpr ⟨k, hk, ?_⟩)
          have hkey := (hkeyed k hk).1
          have hold := (h.keyed _ (Cm.ends_about hends habout)).1
          rw [hkn, hold] at hkey
          exact (Option.some.inj hkey).symm
        | _ => cases hf
  · intro e he
    have hholds := h.holds e he
    unfold Holds at hholds ⊢
    split_ifs at hholds ⊢
    · cases hd : e.direction with
      | upload =>
        rw [hd] at hholds
        exact hm.finished _ hholds
      | download =>
        rw [hd] at hholds
        exact hholds
    · cases hd : e.direction with
      | upload =>
        rw [hd] at hholds
        obtain ⟨id, hid, huntouched, hend⟩ := hholds
        have hview := hm.view h.ids (hkeyOf hid)
        unfold Untouched at huntouched
        rw [hs] at huntouched hend
        refine ⟨id, hid, hview.allowed huntouched.2, hend.imp_left fun hclosed => ?_⟩
        refine eq_false_of_ne_true fun hopen => ?_
        have hopen' := (hview.run toCm).isOpen hopen
        rw [run_cons] at hclosed
        rw [hopen'] at hclosed
        cases hclosed
      | download =>
        rw [hd] at hholds
        exact hholds

/-- The next message is handled. -/
theorem Inv.handleNext (h : s.Inv) (env : Surroundings) (error : Option String) :
    (s.handleNext H env error).Inv := by
  unfold Session.handleNext
  split
  · exact h
  · rename_i id fileNum toCm hs
    have hqueued := h.queued
    have hclear := h.clear
    rw [hs] at hqueued hclear
    have hview : ∀ (id' : Int) (n : Nat), (s.cm.view n).step id' n (.action id fileNum) =
        s.cm.view n := by
      intro id' n
      simp [WriteView.step, ToCm.endsId, ToCm.opensId]
    have hidle : ∀ ids : List Int, idsAfter ids (.action id fileNum) = ids := by
      intro ids
      simp [idsAfter, ToCm.endsId, ToCm.opensId]
    have hrest : Clear _ toCm := hclear.2
    rw [hidle] at hrest
    refine ⟨⟨h.opened, hqueued, h.keyed, h.ids, hrest, ?_⟩, h.asked, h.reads,
      h.readKeyed, h.readIds, h.recorded, fun e he => ?_⟩
    · intro r hr
      rcases List.mem_append.mp hr with hold | hnew
      · exact h.backed r hold
      · rw [List.mem_singleton.mp hnew]
        intro n hn
        cases hn
    · have hholds := h.holds e he
      unfold Holds at hholds ⊢
      split_ifs at hholds ⊢
      · cases hd : e.direction with
        | upload => rw [hd] at hholds; exact hholds
        | download => rw [hd] at hholds; exact hholds
      · cases hd : e.direction with
        | upload =>
          rw [hd] at hholds
          obtain ⟨id', hid, huntouched, hend⟩ := hholds
          unfold Untouched at huntouched
          rw [hs] at huntouched hend
          rw [run_cons, hview] at hend
          refine ⟨id', hid, ?_, hend⟩
          have hrest := huntouched.2
          rw [hview] at hrest
          exact hrest
        | download => rw [hd] at hholds; exact hholds
  · rename_i m toCm hs
    exact h.handled hs (Cm.handled_handleFs env s.cm m)

/-! ## Runs -/

/-- Only a round sends blocks, and what has been posted stays posted. -/
theorem handle_follows (c : Connection) {e : ServerEvent}
    (hne : ∀ fs modified, e ≠ .round fs modified) :
    (c.handle H e).1.sentBlocks = c.sentBlocks ∧ c.posted <+: (c.handle H e).1.posted := by
  have hof : ∀ {c' : Connection}, Follows c c' →
      c'.sentBlocks = c.sentBlocks ∧ c.posted <+: c'.posted := fun h => ⟨h.sent, h.posted⟩
  cases e with
  | send id type path fileNum includeHidden source files fs =>
    unfold Connection.handle Connection.send Connection.rememberEnterpriseFileTransfer
    dsimp only
    split <;> exact ⟨rfl, List.prefix_refl _⟩
  | receive id path fileNum files totalSize fs =>
    unfold Connection.handle Connection.receive Connection.rememberEnterpriseFileTransfer
    dsimp only
    split <;> exact ⟨rfl, List.prefix_refl _⟩
  | startDirect id source manifest =>
    change (c.startDirectFileTransfer H id source manifest).sentBlocks = _ ∧
      _ <+: (c.startDirectFileTransfer H id source manifest).posted
    rcases startDirect_cases (H := H) c id source manifest with
      hsame | ⟨job, -, -, -, hsame | ⟨p, -, -, -, hsame⟩⟩
    all_goals
      rw [hsame]
      exact ⟨rfl, List.prefix_refl _⟩
  | cancel id => exact hof ((post_follows _ _ _).of_same rfl rfl rfl)
  | sendConfirm r fs => exact hof (sendConfirm_quiet c r fs).2
  | done id fileNum permitted => exact hof (done_quiet c id fileNum permitted).2
  | error id fileNum err => exact hof (error_quiet c id fileNum err).2
  | answer a => exact hof (answer_follows c a)
  | round fs modified => exact absurd rfl (hne fs modified)
  | leave => exact ⟨rfl, List.prefix_refl _⟩
  | _ => exact hof (.refl c)

/-- What has been posted stays posted. -/
theorem next_posted (c : Connection) (e : ServerEvent) : c.posted <+: (c.next H e).1.posted := by
  unfold Connection.next
  cases c.phase with
  | closed => exact List.prefix_refl _
  | draining =>
    cases e with
    | drained a =>
      dsimp only
      split_ifs
      · exact (drain_follows c a).posted
      · exact List.prefix_refl _
    | close => exact (posts_follow _ c .cancelled).posted
    | _ => exact List.prefix_refl _
  | running =>
    dsimp only
    by_cases hround : ∃ fs modified, e = .round fs modified
    · obtain ⟨fs, modified, rfl⟩ := hround
      exact (tick_follows c fs modified).posted
    · exact (handle_follows c fun fs modified heq => hround ⟨fs, modified, heq⟩).2

theorem posted_step (s : Session) (e : SessionEvent) :
    s.conn.posted <+: (s.step H e).conn.posted := by
  cases e with
  | server e =>
    unfold Session.step
    dsimp only
    split_ifs
    · exact List.prefix_refl _
    · exact next_posted s.conn e
  | reply =>
    unfold Session.step
    dsimp only
    split
    · exact List.prefix_refl _
    · exact next_posted s.conn _
  | cm env error =>
    change _ <+: (s.handleNext H env error).conn.posted
    unfold Session.handleNext
    split <;> exact List.prefix_refl _
  | disk fs => exact List.prefix_refl _

/-- A download that is quiet sends nothing. -/
theorem Inv.serve_sent (h : s.Inv) (hquiet : s.Quiet .download n) (e : ServerEvent) :
    (s.serve H e).conn.sentBlocks.count n = s.conn.sentBlocks.count n := by
  change (s.conn.next H e).1.sentBlocks.count n = _
  unfold Connection.next
  cases hphase : s.conn.phase with
  | closed => rfl
  | draining =>
    cases e with
    | drained a =>
      dsimp only
      split_ifs
      · rw [(drain_follows s.conn a).sent]
      · rfl
    | close =>
      change (s.conn.closeFileAudits H).sentBlocks.count n = _
      unfold Connection.closeFileAudits
      rw [(posts_follow _ s.conn .cancelled).sent]
    | _ => rfl
  | running =>
    dsimp only
    by_cases hround : ∃ fs modified, e = .round fs modified
    · obtain ⟨fs, modified, rfl⟩ := hround
      obtain ⟨-, -, hsent⟩ := Connection.handleReadJobs_spec H.platform fs modified
        s.conn.readJobs h.readIds
      change (s.conn.tick H fs modified).sentBlocks.count n = _
      rcases hquiet with ⟨-, hkeys⟩ | hclosed
      · rw [(tick_follows s.conn fs modified).sent, List.count_append, Nat.add_eq_left,
          List.count_eq_zero]
        intro hin
        obtain ⟨j, hj, hserial⟩ := List.mem_map.mp (hsent n hin)
        exact hkeys j.key (List.mem_map_of_mem hj) hserial
      · rw [hphase] at hclosed
        cases hclosed
    · rw [(handle_follows s.conn fun fs modified heq => hround ⟨fs, modified, heq⟩).1]

/-- A transfer that is quiet writes and sends nothing. -/
theorem Inv.step_work (h : s.Inv) (hquiet : s.Quiet d n) (e : SessionEvent) :
    (s.step H e).work d n = s.work d n := by
  cases d with
  | upload =>
    cases e with
    | server e =>
      unfold step
      dsimp only
      split_ifs <;> rfl
    | reply =>
      unfold step
      dsimp only
      split <;> rfl
    | cm env error =>
      change (s.handleNext H env error).cm.work n = s.cm.work n
      unfold Session.handleNext
      split
      · rfl
      · rfl
      · rename_i m toCm hs
        obtain ⟨id, hid, huntouched, -⟩ := hquiet
        unfold Untouched at huntouched
        rw [hs] at huntouched
        refine (Cm.handled_handleFs env s.cm m).work_spared (fun k hk hn => ?_) huntouched.1
        have hkey := (h.keyed k hk).1
        rw [hn, hid] at hkey
        exact (Option.some.inj hkey).symm
    | disk fs => rfl
  | download =>
    cases e with
    | server e =>
      unfold step
      dsimp only
      split_ifs
      · rfl
      · exact h.serve_sent hquiet e
    | reply =>
      unfold step
      dsimp only
      split
      · rfl
      · rename_i r replies hs
        have hrest : ({ s with replies } : Session).Inv :=
          h.withReplies fun r' hr' => h.backed r' (hs ▸ List.mem_cons_of_mem _ hr')
        exact hrest.serve_sent hquiet _
    | cm env error =>
      change (s.handleNext H env error).conn.sentBlocks.count n = s.conn.sentBlocks.count n
      unfold Session.handleNext
      split <;> rfl
    | disk fs => rfl

/-- Every event keeps the invariant. -/
theorem Inv.step (h : s.Inv) {e : SessionEvent} (hok : s.Careful e) : (s.step H e).Inv := by
  cases e with
  | server e =>
    unfold Session.step
    dsimp only
    split_ifs with hanswer
    · exact h
    · exact h.serve (eq_false_of_ne_true hanswer) hok
  | reply =>
    unfold Session.step
    dsimp only
    split
    · exact h
    · rename_i r replies hs
      exact h.take hs (hok r (by rw [hs]; rfl))
  | cm env error => exact h.handleNext env error
  | disk fs =>
    exact ⟨⟨h.opened, h.queued, h.keyed, h.ids, h.clear, h.backed⟩, h.asked, h.reads, h.readKeyed,
      h.readIds, h.recorded, h.holds⟩

/-- A session begins with nothing on its way. -/
theorem inv_start (c : Connection) (fs : Fs) : (start c fs).Inv where
  opened := le_refl _
  queued := rfl
  keyed _ hk := absurd hk List.not_mem_nil
  ids := .nil
  clear := trivial
  backed _ hr := absurd hr List.not_mem_nil
  asked := rfl
  reads := rfl
  readKeyed _ hk := absurd hk List.not_mem_nil
  readIds := .nil
  recorded id p hp := by
    have hnone : (start c fs).conn.pendingFileAudits.get id = none := Table.get_empty
    rw [hnone] at hp
    cases hp
  holds _ he := absurd he List.not_mem_nil

/-- What is posted in a run is true when it is posted: `COMPLETED` of a transfer that has been
finished, and any other outcome of one that writes or sends nothing more. -/
def Truthful (H : AuditHost) (s₀ : Session) (es : List SessionEvent) : Prop :=
  ∀ pre, pre <+: es → ∀ e ∈ (run (Session.step H) s₀ pre).conn.posted,
    let s := run (Session.step H) s₀ pre
    (e.event = .completed → s.Completed e.direction e.serial) ∧
      (e.event ≠ .completed → (run (Session.step H) s₀ es).work e.direction e.serial =
        s.work e.direction e.serial)

/-- What is posted in a careful run is true. -/
theorem audit_truthful (c : Connection) (fs : Fs) {es : List SessionEvent}
    (hes : Allowed (Session.step H) Careful (start c fs) es) : Truthful H (start c fs) es := by
  rintro pre ⟨post, rfl⟩ e he s
  obtain ⟨hpre, hpost⟩ := allowed_append.mp hes
  have hinv : s.Inv := run_keeps (fun s e h hok => h.step hok) (inv_start c fs) hpre
  constructor
  · intro hcompleted
    have hholds := hinv.holds e he
    rw [Holds, if_pos hcompleted] at hholds
    exact hholds
  · intro hne
    have hkeeps := run_keeps (Q := fun s' => s'.Inv ∧ e ∈ s'.conn.posted ∧
      s'.work e.direction e.serial = s.work e.direction e.serial) (fun s' event h hok => ?_)
      ⟨hinv, he, rfl⟩ hpost
    · rw [run_append]
      exact hkeeps.2.2
    · obtain ⟨hinv', hin, hwork⟩ := h
      have hholds := hinv'.holds e hin
      rw [Holds, if_neg hne] at hholds
      exact ⟨hinv'.step hok, (posted_step s' event).subset hin,
        (hinv'.step_work hholds event).trans hwork⟩

/-- A disk with a root. -/
def emptyDisk : Fs := ⟨[([], .dir)]⟩

/-- An upload that is completed, and one that is cancelled. -/
def twoUploads : List SessionEvent :=
  [.server (Connection.uploadOf 1 "a"), .cm {} none, .server (.block 1 0 [1, 2, 3] false),
    .cm {} none, .server (.done 1 0 true), .cm {} none, .reply, .reply,
    .server (Connection.uploadOf 2 "b"), .cm {} none, .server (.cancel 2), .cm {} none]

theorem audit_truthful_two :
    let s := run (Session.step Connection.auditHost)
      (start Connection.auditedConnection emptyDisk) twoUploads
    s.conn.posted.map (fun e => (e.serial, e.event)) = [(0, .completed), (1, .cancelled)] ∧
      ∀ e ∈ s.conn.posted, e.event = .completed → s.Completed e.direction e.serial := by
  intro s
  refine ⟨by decide +kernel, fun e he => ?_⟩
  exact (audit_truthful Connection.auditedConnection emptyDisk (by decide +kernel) twoUploads
    (List.prefix_refl _) e he).1

/-- A folder that is created under the id of an upload completes the upload. -/
theorem completed_by_action :
    ¬ ∀ (H : AuditHost) (c : Connection) (fs : Fs) (es : List SessionEvent),
      Truthful H (start c fs) es := by
  intro hall
  have hposted := hall Connection.auditHost Connection.auditedConnection emptyDisk
    [.server (Connection.uploadOf 1 "a"), .cm {} none, .server (.action 1 (-1)), .cm {} none,
      .reply] _ (List.prefix_refl _)
  generalize hs : run (Session.step Connection.auditHost) (start Connection.auditedConnection
    emptyDisk) _ = s at hposted
  have hone : s.conn.posted.map (fun e => (e.direction, e.serial, e.event)) =
      [(.upload, 0, .completed)] ∧ s.cm.finished = [] := by
    rw [← hs]
    decide +kernel
  obtain ⟨e, he, hview⟩ : ∃ e ∈ s.conn.posted, (e.direction, e.serial, e.event) =
      (EnterpriseFileDirection.upload, 0, FileOutcome.completed) :=
    List.mem_map.mp (hone.1 ▸ List.mem_singleton_self _)
  simp only [Prod.mk.injEq] at hview
  have hcompleted := (hposted e he).1 hview.2.2
  rw [hview.1, hview.2.1, Completed, hone.2] at hcompleted
  cases hcompleted

end Session

end MDesk
