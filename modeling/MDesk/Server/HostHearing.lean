import MDesk.Server.HostSessions

/-!
# Runs of a host and its connections

Connections come, receive and end in any order, and the threads of the services run between
their messages.
-/

namespace MDesk.HostServices

open Core

variable {μ : Type*}

/-- Only open connections are subscribed, and each hears what it may and must. -/
structure HostInv (st : Settings) (h : HostState μ) : Prop where
  server : ServerInv h.server
  fresh : ∀ c p, h.peers.get c = some p → c ≤ h.idCount
  opened : ∀ n c, h.server.Subscribed n c → (h.peers.get c).isSome = true
  good : ∀ c p, h.peers.get c = some p → Good st c (h.server, p)

section Runs

variable {st : Settings} {h : HostState μ} {s s' : Server μ} {p : Peer} {c : Int}

/-- What does not touch the subscriptions of a connection leaves it as good as it was. -/
theorem Good.congr (hgood : Good st c (s, p)) (hinv : ServerInv s')
    (hsame : ∀ n, (s'.Subscribed n c ↔ s.Subscribed n c) ∧ ((n, c) ∈ s'.lost ↔ (n, c) ∈ s.lost))
    (hneeds : ∀ n, isVideoServiceName n = false → s'.needs n = s.needs n) :
    Good st c (s', p) where
  server := hinv
  bare := hgood.bare
  follows := by
    intro n hn
    dsimp only at hn ⊢
    have hold := hgood.follows n (hn.imp_left fun hnot hin => hnot ((hsame n).2.mpr hin))
    rw [(hsame n).1]
    refine ⟨hold.may, fun hthere hmust => ?_⟩
    cases hvideo : isVideoServiceName n with
    | true =>
      rw [mustHear_video hvideo] at hmust
      cases hmust
    | false =>
      rw [← Server.isSome_needs, hneeds n hvideo, Server.isSome_needs] at hthere
      exact hold.must hthere hmust

theorem mustHear_of_none {t : Topic} (hnone : p.authedConnType = none) :
    p.mustHear st t = false := by
  cases t <;> simp [Peer.mustHear, hnone]

theorem HostInv.connect (hinv : HostInv st h) (keyboard clipboard audio : Bool) :
    HostInv st (step st h (.connect keyboard clipboard audio)) := by
  have hnone : h.peers.get (h.idCount + 1) = none := by
    by_contra hsome
    obtain ⟨p, hp⟩ := Option.ne_none_iff_exists'.mp hsome
    have hle := hinv.fresh _ p hp
    omega
  refine ⟨hinv.server, fun c p hp => ?_, fun n c hsub => ?_, fun c p hp => ?_⟩
  · dsimp only [step] at hp ⊢
    rw [Table.get_insert] at hp
    split_ifs at hp with heq
    · omega
    · have hle := hinv.fresh c p hp
      omega
  · dsimp only [step]
    rw [Table.get_insert]
    split_ifs
    · rfl
    · exact hinv.opened n c hsub
  · dsimp only [step] at hp ⊢
    rw [Table.get_insert] at hp
    split_ifs at hp with heq
    · cases hp
      refine ⟨hinv.server, ⟨fun _ => ⟨rfl, rfl, rfl⟩, fun _ => ⟨rfl, rfl⟩⟩, fun n _ => ⟨?_, ?_⟩⟩
      · intro hsub
        have hopen := hinv.opened n c hsub
        rw [heq, hnone] at hopen
        cases hopen
      · intro _ hmust
        rw [mustHear_of_none rfl] at hmust
        cases hmust
    · exact hinv.good c p hp

theorem HostInv.receive (hinv : HostInv st h) (c : Int) (e : ConnEvent)
    (between : Nat → Between μ) : HostInv st (step st h (.receive c e between)) := by
  unfold step
  cases hp : h.peers.get c with
  | none =>
    dsimp only
    rw [hp]
    exact hinv
  | some p =>
    dsimp only
    rw [hp]
    dsimp only
    obtain ⟨hgood, hframe⟩ := keeps_handle between e (hinv.good c p hp)
    generalize handle st c between e (h.server, p) = x at hgood hframe ⊢
    refine ⟨hgood.server, fun i q hq => ?_, fun n i hsub => ?_, fun i q hq => ?_⟩
    · dsimp only at hq ⊢
      rw [Table.get_insert] at hq
      split_ifs at hq with heq
      · rw [heq]
        exact hinv.fresh c p hp
      · exact hinv.fresh i q hq
    · dsimp only at hsub ⊢
      rw [Table.get_insert]
      split_ifs with heq
      · rfl
      · exact hinv.opened n i ((hframe.others n i heq).1.mp hsub)
    · dsimp only at hq ⊢
      rw [Table.get_insert] at hq
      split_ifs at hq with heq
      · cases hq
        rw [heq]
        exact hgood
      · exact (hinv.good i q hq).congr hgood.server (fun n => hframe.others n i heq) hframe.needs

theorem HostInv.close (hinv : HostInv st h) (c : Int) : HostInv st (step st h (.close c)) := by
  simp only [step]
  split_ifs
  · have hserver : ServerInv (h.server.removeConnection c) := by
      refine ⟨fun n b hb => ?_, fun n i hin => hinv.server.lost n i (List.mem_of_mem_filter hin)⟩
      rw [Server.needs_removeConnection] at hb
      exact hinv.server.regular n b hb
    refine ⟨hserver, fun i q hq => ?_, fun n i hsub => ?_, fun i q hq => ?_⟩
    · dsimp only at hq ⊢
      rw [Table.get_remove] at hq
      split_ifs at hq
      exact hinv.fresh i q hq
    · dsimp only at hsub ⊢
      obtain ⟨hne, hold⟩ := Server.subscribed_removeConnection.mp hsub
      rw [Table.get_remove, if_neg hne]
      exact hinv.opened n i hold
    · dsimp only at hq ⊢
      rw [Table.get_remove] at hq
      split_ifs at hq with hne
      refine (hinv.good i q hq).congr hserver (fun n => ⟨?_, ?_⟩) fun n _ =>
        Server.needs_removeConnection
      · rw [Server.subscribed_removeConnection]
        exact and_iff_right hne
      · rw [Server.removeConnection, List.mem_filter, decide_eq_true_eq]
        exact and_iff_left hne
  · exact hinv

theorem HostInv.service (hinv : HostInv st h) (name : List Char) (e : ThreadStep μ) :
    HostInv st (step st h (.service name e)) := by
  have hserver : ServerInv (h.server.thread name e) := by
    refine ⟨fun n b hb => ?_, hinv.server.lost⟩
    rw [Server.needs_thread] at hb
    exact hinv.server.regular n b hb
  refine ⟨hserver, hinv.fresh, fun n c hsub => ?_, fun c p hp => ?_⟩
  · exact hinv.opened n c (Server.subscribed_thread.mp hsub)
  · exact (hinv.good c p hp).congr hserver (fun n => ⟨Server.subscribed_thread, Iff.rfl⟩)
      fun n _ => Server.needs_thread

theorem HostInv.step (hinv : HostInv st h) (e : HostEvent μ) :
    HostInv st (HostServices.step st h e) := by
  cases e with
  | connect keyboard clipboard audio => exact hinv.connect keyboard clipboard audio
  | receive c e between => exact hinv.receive c e between
  | close c => exact hinv.close c
  | service name e => exact hinv.service name e

/-! ### The first state -/

theorem ServerInv.addService (hs : ServerInv s) {name : List Char} {needs : Bool}
    (hneeds : needs = needsSnapshot name) : ServerInv (s.addService name needs) where
  regular := by
    intro n b hb
    rw [Server.needs, Server.addService, Table.get_insert] at hb
    split_ifs at hb with heq
    · rw [heq, ← hneeds]
      exact (Option.some.inj hb).symm
    · exact hs.regular n b hb
  lost := hs.lost

/-- Nobody is subscribed to a service that is new. -/
theorem not_subscribed_addService {name n : List Char} {needs : Bool}
    (hs : ∀ n c, ¬ s.Subscribed n c) : ¬ (s.addService name needs).Subscribed n c := by
  rintro ⟨t, ht, hsub⟩
  rw [Server.addService, Table.get_insert] at ht
  split_ifs at ht
  · cases ht
    exact ServiceTmpl.not_subscribed_new needs hsub
  · exact hs n c ⟨t, ht, hsub⟩

theorem new_server (cursorEmbedded printer : Bool) :
    ServerInv (newServer cursorEmbedded printer : Server μ) ∧
      ∀ n c, ¬ (newServer cursorEmbedded printer : Server μ).Subscribed n c := by
  have hadd : ∀ (s : Server μ) (name : List Char) (needs : Bool), needs = needsSnapshot name →
      (ServerInv s ∧ ∀ n c, ¬ s.Subscribed n c) →
      ServerInv (s.addService name needs) ∧ ∀ n c, ¬ (s.addService name needs).Subscribed n c :=
    fun s name needs hneeds hs =>
      ⟨hs.1.addService hneeds, fun _ _ => not_subscribed_addService hs.2⟩
  have hempty : ServerInv ({} : Server μ) ∧ ∀ n c, ¬ ({} : Server μ).Subscribed n c := by
    refine ⟨⟨fun n b hb => ?_, fun n c hin => ?_⟩, ?_⟩
    · cases hb
    · cases hin
    · rintro n c ⟨t, ht, -⟩
      cases ht
  have hbase := hadd _ clipboardService false rfl
    (hadd _ displayService true rfl (hadd _ audioService true rfl hempty))
  have hcursor := hadd _ nameWindowFocus false rfl
    (hadd _ namePos false rfl (hadd _ nameCursor true rfl hbase))
  unfold newServer
  cases cursorEmbedded <;> cases printer
  exacts [hcursor, hadd _ printerService false rfl hcursor, hbase,
    hadd _ printerService false rfl hbase]

theorem hostInv_run (cursorEmbedded printer : Bool) (idCount : Int) (es : List (HostEvent μ)) :
    HostInv st (run (step st) (start cursorEmbedded printer idCount) es) := by
  obtain ⟨hserver, hnone⟩ := new_server (μ := μ) cursorEmbedded printer
  have hstart : HostInv st (start cursorEmbedded printer idCount : HostState μ) := by
    refine ⟨hserver, fun c p hp => ?_, fun n c hsub => absurd hsub (hnone n c), fun c p hp => ?_⟩
    · cases hp
    · cases hp
  exact run_keeps (fun h e hinv _ => hinv.step e) hstart
    (allowed_of_forall (fun _ _ => trivial) _ es)

/-! ### What is sent -/

/-- What the subscribers of a service were sent. -/
def sentBy (s : Server μ) (n : List Char) : List (Int × Delivery μ) :=
  ((s.services.get n).map (·.inner.sent)).getD []

/-- The thread of a service sends to subscribers only. -/
theorem subscribed_of_sent {t : ServiceTmpl μ} {e : ThreadStep μ} {i : Int} {d : Delivery μ}
    (hsent : (i, d) ∈ (t.thread e).inner.sent) : (i, d) ∈ t.inner.sent ∨ t.Subscribed i := by
  have hdeliver : ∀ (ids : List Int) (d' : Delivery μ), (∀ j ∈ ids, t.Subscribed j) →
      (i, d) ∈ (t.inner.deliver ids d').sent → (i, d) ∈ t.inner.sent ∨ t.Subscribed i := by
    intro ids d' hids hin
    rcases List.mem_append.mp hin with hold | hnew
    · exact .inl hold
    · obtain ⟨j, hj, heq⟩ := List.mem_map.mp hnew
      cases heq
      exact .inr (hids i hj)
  obtain ⟨e, he⟩ := e
  change (i, d) ∈ (t.inner.step e).sent at hsent
  cases e with
  | onSubscribe id | onUnsubscribe id => cases he
  | sendShared msg => exact hdeliver _ _ (fun j hj => .inl hj) hsent
  | sendTo msg id => exact hdeliver _ _ (fun j hj => .inl (List.mem_of_mem_filter hj)) hsent
  | sendWithout msg id => exact hdeliver _ _ (fun j hj => .inl (List.mem_of_mem_filter hj)) hsent
  | snapshot =>
    refine .inl ?_
    simp only [Service.step, Service.snapshot] at hsent
    split_ifs at hsent <;> exact hsent
  | swapSend callback msg =>
    simp only [Service.step] at hsent
    split_ifs at hsent
    · exact hdeliver _ _ (fun j hj => .inr hj) hsent
    · exact .inl hsent
  | swapDrop callback =>
    refine .inl ?_
    simp only [Service.step] at hsent
    split_ifs at hsent <;> exact hsent

theorem sentBy_thread {n : List Char} {e : ThreadStep μ} {d : Delivery μ}
    (hsent : (c, d) ∈ sentBy (s.thread n e) n) :
    (c, d) ∈ sentBy s n ∨ s.Subscribed n c := by
  unfold sentBy at hsent ⊢
  rw [Server.thread, Table.get_modify, if_pos rfl] at hsent
  cases hget : s.services.get n with
  | none =>
    rw [hget] at hsent
    cases hsent
  | some t =>
    rw [hget] at hsent
    rcases subscribed_of_sent (t := t) hsent with hold | hsub
    · exact .inl hold
    · exact .inr ⟨t, hget, hsub⟩

/-! ### The displays that are asked for -/

theorem contains_foldl_tryAdd {source : VideoSource} {idxs : List Nat} {n : List Char}
    (hn : s.contains n = true ∨ n ∈ idxs.map (getServiceName source)) :
    (idxs.foldl (fun s d => s.tryAddVideoService source d) s).contains n = true := by
  induction idxs generalizing s with
  | nil => exact hn.resolve_right List.not_mem_nil
  | cons d idxs ih =>
    refine ih ?_
    by_cases heq : n = getServiceName source d
    · refine .inl ?_
      show (s.tryAddVideoService source d).contains n = true
      unfold Server.tryAddVideoService
      split_ifs with hold
      · rw [heq]
        exact hold
      · rw [Server.contains, Server.addService, heq, Table.get_insert_self]
        rfl
    · refine hn.imp (fun hold => ?_) fun hin => ?_
      · rw [← Server.isSome_needs, Server.needs_tryAddVideoService heq, Server.isSome_needs]
        exact hold
      · exact (List.mem_cons.mp hin).resolve_left heq

/-- A connection that asks for a set of displays gets these and no others. -/
theorem subscribed_captureDisplays_set {between : Nat → Between μ} {set : List Nat}
    {n : List Char} (hvideo : isVideoServiceName n = true)
    (hlost : (n, c) ∉ (captureDisplays c between [] [] set (s, p)).1.lost) :
    (captureDisplays c between [] [] set (s, p)).1.Subscribed n c ↔
      n ∈ set.map (getServiceName p.videoSource) := by
  let added : Server μ := set.foldl (fun s d => s.tryAddVideoService p.videoSource d) s
  let captured := added.captureDisplays c p.videoSource set true true (between 0)
  let counted := captured.getSubbedDisplaysCount c (between 1)
  have hsteps : (captureDisplays c between [] [] set (s, p)).1 =
      if p.followRemoteWindow then
        resubscribe c (between 2) [(nameWindowFocus, !decide (1 < counted.1))] counted.2
      else counted.2 := by
    unfold captureDisplays
    simp only [ne_eq, not_true_eq_false, if_false, List.nil_append]
    split_ifs <;> rfl
  -- the window that has the focus is no display
  have hfocus : n ∉ [(nameWindowFocus, !decide (1 < counted.1))].map Prod.fst := by
    intro hin
    obtain rfl := List.mem_singleton.mp hin
    rw [isVideoServiceName_of_mem mem_named.2.2.2.2] at hvideo
    cases hvideo
  have hlast : ((captureDisplays c between [] [] set (s, p)).1.Subscribed n c ↔
        captured.Subscribed n c) ∧
      ((n, c) ∈ (captureDisplays c between [] [] set (s, p)).1.lost ↔
        (n, c) ∈ captured.lost) := by
    rw [hsteps]
    split_ifs
    · obtain ⟨hsub, hin⟩ := resubscribe_of_not_mem c c (between 2) counted.2 hfocus
      exact ⟨hsub.trans Server.subscribed_getSubbedDisplaysCount, hin⟩
    · exact ⟨Server.subscribed_getSubbedDisplaysCount, Iff.rfl⟩
  rw [hlast.1]
  rw [hlast.2] at hlost
  refine (Server.subscribed_captureDisplays hvideo hlost).trans ?_
  split_ifs with hin
  · exact iff_of_true (.inl ⟨contains_foldl_tryAdd (.inr hin), rfl⟩) hin
  · exact iff_of_false (fun hboth => absurd hboth.1 (by simp)) hin

/-- A permission that is switched before the login gives the texts of the clipboard to a peer
that has not been let in. -/
example : ((run (step ⟨0, false⟩) (start false false 1000 : HostState Nat)
    [.connect false true true,
      .receive 1001 (.switchPermission "keyboard" true) fun _ _ => []]).server.services.get
    clipboardService).any (fun t => decide (t.Subscribed 1001)) = true := by decide

/-- The end of a snapshot between the two looks of `is_subed` keeps the sounds that are taken
away. -/
example : (run (step ⟨0, false⟩) (start false false 1000 : HostState Nat)
    [.connect true true true,
      .receive 1001 (.login .remote none true true false false) fun _ _ => [],
      .service audioService ⟨.snapshot, rfl⟩,
      .receive 1001 (.switchPermission "audio" false) fun _ name =>
        if name = audioService then [⟨.swapDrop 0, rfl⟩] else []]).server.lost =
    [(audioService, 1001)] := by decide

end Runs

end MDesk.HostServices
