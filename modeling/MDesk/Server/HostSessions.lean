import MDesk.Server.HostOptions

/-!
# What a connection receives

The displays that a connection sees, the permissions that are switched at the host, the calls
and the login: each keeps a connection as good as its options do.
-/

namespace MDesk.HostServices

open Core
open HostLogin (AuthConnType)
open OptionScope (OptionMessage Message)

variable {μ : Type*}

section Handlers

variable {st : Settings} {c : Int} {s : Server μ} {p p' : Peer}

/-! ### Displays -/

theorem mustHear_video {n : List Char} (h : isVideoServiceName n = true) :
    p.mustHear st (topic n) = false := by
  rcases isVideoServiceName_iff.mp h with ht | ht <;> rw [ht, Peer.mustHear]

/-- A change of nothing but the displays that a connection gets. -/
theorem keeps_video {s' : Server μ} (hinv : ServerInv s → ServerInv s') (hframe : Frame c s s')
    (hsame : ∀ n, isVideoServiceName n = false →
      (s'.Subscribed n c ↔ s.Subscribed n c) ∧ ((n, c) ∈ s'.lost ↔ (n, c) ∈ s.lost))
    (hvideo : ∀ n, isVideoServiceName n = true → s'.Subscribed n c →
      s.Subscribed n c ∨ p.mayHear st (topic n) = true) : Keeps st c (s, p) (s', p) := by
  intro h
  refine ⟨⟨hinv h.server, h.bare, fun n hn => ?_⟩, hframe⟩
  dsimp only at hn ⊢
  cases hkind : isVideoServiceName n with
  | true =>
    constructor
    · intro hsub
      rcases hvideo n hkind hsub with hold | hmay
      · exact (h.follows n (.inr hkind)).may hold
      · exact hmay
    · intro _ hmust
      rw [mustHear_video hkind] at hmust
      cases hmust
  | false =>
    obtain ⟨hsub, hlost⟩ := hsame n hkind
    have hnot : (n, c) ∉ s.lost := by
      rcases hn with hnot | htrue
      · exact fun hin => hnot (hlost.mpr hin)
      · rw [hkind] at htrue
        cases htrue
    have hold := h.follows n (.inl hnot)
    rw [hsub, ← Server.isSome_needs, hframe.needs n hkind, Server.isSome_needs]
    exact hold

theorem isVideoServiceName_getServiceName (source : VideoSource) (idx : Nat) :
    isVideoServiceName (getServiceName source idx) = true := by
  rw [isVideoServiceName_iff, topic_getServiceName]
  cases source with
  | monitor => exact .inl rfl
  | camera => exact .inr rfl

theorem ne_getServiceName {n : List Char} (h : isVideoServiceName n = false) (source : VideoSource)
    (idx : Nat) : n ≠ getServiceName source idx := by
  rintro rfl
  rw [isVideoServiceName_getServiceName] at h
  cases h

theorem lost_tryAddVideoService {source : VideoSource} {idx : Nat} :
    (s.tryAddVideoService source idx).lost = s.lost := by
  unfold Server.tryAddVideoService
  split_ifs <;> rfl

theorem ServerInv.tryAddVideoService (h : ServerInv s) (source : VideoSource) (idx : Nat) :
    ServerInv (s.tryAddVideoService source idx) where
  regular := by
    intro n b hb
    have htrue : needsSnapshot (getServiceName source idx) = true := by
      rw [needsSnapshot, isVideoServiceName_getServiceName, Bool.or_true]
    by_cases hn : n = getServiceName source idx
    · subst hn
      have hneeds : s.needs (getServiceName source idx) ≠ some false := by
        intro hfalse
        rw [← h.regular _ _ hfalse] at htrue
        cases htrue
      rw [Server.needs_tryAddVideoService_self hneeds] at hb
      rw [htrue, Option.some.inj hb]
    · rw [Server.needs_tryAddVideoService hn] at hb
      exact h.regular n b hb
  lost := by
    rw [lost_tryAddVideoService]
    exact h.lost

theorem keeps_tryAddVideoService (source : VideoSource) (idx : Nat) :
    Keeps st c (s, p) (s.tryAddVideoService source idx, p) := by
  refine keeps_video (fun h => h.tryAddVideoService source idx)
    ⟨fun n i _ => ⟨Server.subscribed_tryAddVideoService, ?_⟩, fun n hn => ?_⟩
    (fun n _ => ⟨Server.subscribed_tryAddVideoService, ?_⟩)
    fun n _ hsub => .inl (Server.subscribed_tryAddVideoService.mp hsub)
  · rw [lost_tryAddVideoService]
  · exact Server.needs_tryAddVideoService (ne_getServiceName hn source idx)
  · rw [lost_tryAddVideoService]

theorem keeps_foldl_tryAdd (source : VideoSource) (idxs : List Nat) :
    Keeps st c (s, p) (idxs.foldl (fun s d => s.tryAddVideoService source d) s, p) := by
  induction idxs generalizing s with
  | nil => exact .refl _
  | cons d idxs ih => exact (keeps_tryAddVideoService source d).trans ih

/-- A request for one display of the source that the session is for. -/
theorem keeps_subscribe_video {between : Between μ} {sub : Bool} {idx : Nat} {source : VideoSource}
    (hmay : p.mayHear st (sourceTopic source) = true) :
    Keeps st c (s, p) (s.subscribe (getServiceName source idx) c sub between, p) := by
  refine keeps_video ServerInv.subscribe frame_subscribe (fun n hn => ?_) fun n _ hsub => ?_
  · have hne : (n, c) ≠ (getServiceName source idx, c) :=
      fun heq => ne_getServiceName hn source idx (congrArg Prod.fst heq)
    exact ⟨Server.subscribed_subscribe_of_ne hne, Server.lost_subscribe_of_ne hne⟩
  · rcases Server.subscribed_of_subscribe hsub with hold | ⟨rfl, -⟩
    · exact .inl hold
    · rw [topic_getServiceName]
      exact .inr hmay

theorem ServerInv.captureDisplays (h : ServerInv s) {source : VideoSource} {idxs : List Nat}
    {incl excl : Bool} {between : Between μ} :
    ServerInv (s.captureDisplays c source idxs incl excl between) := by
  have hstep : ∀ (s : Server μ) (k : List Char), ServerInv s → ServerInv (Server.captureDisplay c
      (idxs.map (getServiceName source)) incl excl between s k) := by
    intro s k hs
    unfold Server.captureDisplay
    split_ifs
    exacts [hs.subscribe, hs, hs.subscribe, hs, hs]
  unfold Server.captureDisplays
  induction s.services.keys generalizing s with
  | nil => exact h
  | cons k names ih => exact ih (hstep s k h)

theorem keeps_captureDisplays {source : VideoSource} {idxs : List Nat} {incl excl : Bool}
    {between : Between μ} (hmay : p.mayHear st (sourceTopic source) = true) :
    Keeps st c (s, p) (s.captureDisplays c source idxs incl excl between, p) := by
  refine keeps_video (fun h => h.captureDisplays)
    ⟨fun n i hi => Server.captureDisplays_of_ne (.inl hi), fun n _ => Server.needs_captureDisplays⟩
    (fun n hn => Server.captureDisplays_of_ne (.inr hn)) fun n _ hsub => ?_
  rcases Server.subscribed_of_captureDisplays hsub with hold | hin
  · exact .inl hold
  · obtain ⟨idx, -, rfl⟩ := List.mem_map.mp hin
    rw [topic_getServiceName]
    exact .inr hmay

theorem keeps_getSubbedDisplaysCount {between : Between μ} :
    Keeps st c (s, p) ((s.getSubbedDisplaysCount c between).2, p) := by
  refine keeps_video (fun h => ⟨fun n b hb => ?_, h.lost⟩)
    ⟨fun n i _ => ⟨Server.subscribed_getSubbedDisplaysCount, Iff.rfl⟩,
      fun n _ => Server.needs_getSubbedDisplaysCount⟩
    (fun n _ => ⟨Server.subscribed_getSubbedDisplaysCount, Iff.rfl⟩)
    fun n _ hsub => .inl (Server.subscribed_getSubbedDisplaysCount.mp hsub)
  rw [Server.needs_getSubbedDisplaysCount] at hb
  exact h.regular n b hb

theorem keeps_addCameraConnection (hmay : p.mayHear st .camera = true) (primary : Nat) :
    Keeps st c (s, p) (s.addCameraConnection c primary, p) := by
  have hother : ∀ n i, i ≠ c ∨ isVideoServiceName n = false →
      ((s.addCameraConnection c primary).Subscribed n i ↔ s.Subscribed n i) := by
    intro n i h
    rw [Server.subscribed_addCameraConnection]
    refine or_iff_left fun hnew => ?_
    rcases h with hi | hn
    · exact hi hnew.2.2
    · exact ne_getServiceName hn .camera primary hnew.2.1
  refine keeps_video (fun h => ⟨fun n b hb => ?_, h.lost⟩)
    ⟨fun n i hi => ⟨hother n i (.inl hi), Iff.rfl⟩, fun n _ => Server.needs_addCameraConnection⟩
    (fun n hn => ⟨hother n c (.inr hn), Iff.rfl⟩) fun n _ hsub => ?_
  · rw [Server.needs_addCameraConnection] at hb
    exact h.regular n b hb
  · rcases Server.subscribed_addCameraConnection.mp hsub with hold | ⟨-, rfl, -⟩
    · exact .inl hold
    · rw [topic_getServiceName]
      exact .inr hmay

theorem keepsIn_trySubCameraDisplays (camera : Bool) (x : Server μ × Peer) :
    KeepsIn st c .viewCamera x (trySubCameraDisplays c camera x) := by
  intro htype
  unfold trySubCameraDisplays
  dsimp only
  split_ifs
  · refine ⟨(keeps_tryAddVideoService .camera primaryCamera).trans ?_, htype⟩
    exact keeps_addCameraConnection (by rw [Peer.mayHear, htype]; rfl) primaryCamera
  · exact ⟨.refl x, htype⟩

/-- A session for the screen or for the camera sees what it is for. -/
theorem mayHear_videoSource
    (h : p.authedConnType = some .remote ∨ p.authedConnType = some .viewCamera) :
    p.mayHear st (sourceTopic p.videoSource) = true := by
  unfold Peer.videoSource
  rcases h with hremote | hcamera
  · rw [hremote, if_neg (by simp), sourceTopic, Peer.mayHear, hremote]
    rfl
  · rw [if_pos hcamera, sourceTopic, Peer.mayHear, hcamera]
    rfl

theorem keeps_switchDisplayTo {between : Nat → Between μ} {displayIdx : Nat}
    (h : p.authedConnType = some .remote ∨ p.authedConnType = some .viewCamera) :
    Keeps st c (s, p) (switchDisplayTo st c between displayIdx (s, p)) := by
  have hmay : p.mayHear st (sourceTopic p.videoSource) = true := mayHear_videoSource h
  unfold switchDisplayTo
  dsimp only
  have hidx : ∀ s : Server μ, Keeps st c (s, p) (s, { p with displayIdx }) := by
    intro s
    refine keeps_quiet (fun h => ⟨h.unauthorized, h.limited⟩) fun t => ?_
    cases t <;> exact ⟨fun h => h, fun h => h⟩
  refine Keeps.trans ?_ (hidx _)
  refine Keeps.trans ?_ (keeps_subscribe_video hmay)
  have hadd : Keeps st c (s, p)
      (if displayIdx ≠ st.primaryDisplay then s.tryAddVideoService p.videoSource displayIdx else s,
        p) := by
    split_ifs
    · exact keeps_tryAddVideoService _ _
    · exact .refl _
  refine hadd.trans ?_
  split_ifs
  exacts [.refl _, keeps_subscribe_video hmay, .refl _, keeps_subscribe_video hmay]

theorem keeps_captureDisplays_message {between : Nat → Between μ} {add sub set : List Nat}
    (h : p.authedConnType = some .remote ∨ p.authedConnType = some .viewCamera) :
    Keeps st c (s, p) (captureDisplays c between add sub set (s, p)) := by
  have hmay : p.mayHear st (sourceTopic p.videoSource) = true := mayHear_videoSource h
  unfold captureDisplays
  dsimp only
  have hadd : Keeps st c (s, p)
      ((add ++ set).foldl (fun (s : Server μ) d => s.tryAddVideoService p.videoSource d) s, p) :=
    keeps_foldl_tryAdd p.videoSource (add ++ set)
  generalize (add ++ set).foldl (fun s d => s.tryAddVideoService p.videoSource d) s = s₁ at hadd ⊢
  have hcapture : Keeps st c (s₁, p)
      (if add ≠ [] then s₁.captureDisplays c p.videoSource add true false (between 0)
        else if sub ≠ [] then s₁.captureDisplays c p.videoSource sub false true (between 0)
        else s₁.captureDisplays c p.videoSource set true true (between 0), p) := by
    split_ifs
    exacts [keeps_captureDisplays hmay, keeps_captureDisplays hmay, keeps_captureDisplays hmay]
  generalize (if add ≠ [] then s₁.captureDisplays c p.videoSource add true false (between 0)
    else if sub ≠ [] then s₁.captureDisplays c p.videoSource sub false true (between 0)
    else s₁.captureDisplays c p.videoSource set true true (between 0)) = s₂ at hcapture ⊢
  have hcount : Keeps st c (s₂, p) ((s₂.getSubbedDisplaysCount c (between 1)).2, p) :=
    keeps_getSubbedDisplaysCount
  generalize s₂.getSubbedDisplaysCount c (between 1) = counted at hcount ⊢
  refine hadd.trans (hcapture.trans (hcount.trans ?_))
  split_ifs with hfollow
  · intro hgood
    have hremote : p.authedConnType = some .remote := by
      by_contra hne
      have hnot : p.followRemoteWindow = false := (hgood.bare.limited hne).2
      rw [hnot] at hfollow
      cases hfollow
    refine keeps_resubscribe_one (p := p) mem_named.2.2.2.2 (fun _ => bare_of_remote hremote)
      (fun _ => ?_) (fun hmust => ?_) (fun t ht => ?_) hgood
    · rw [topic_nameWindowFocus, Peer.mayHear, hremote, hfollow]
      rfl
    · exact (Bool.and_eq_true_iff.mp hmust).2
    · cases t with
      | windowFocus => exact absurd rfl ht
      | audio | clipboard | cursor | pos | monitor | camera | other =>
        exact ⟨fun h => h, fun h => h⟩
  · refine keeps_quiet (fun h => ⟨h.unauthorized, h.limited⟩) fun t => ?_
    cases t with
    | windowFocus =>
      refine ⟨fun h => h, fun hmust => absurd ?_ hfollow⟩
      exact (Bool.and_eq_true_iff.mp (Bool.and_eq_true_iff.mp hmust).1).2
    | audio | clipboard | cursor | pos | monitor | camera | other => exact ⟨fun h => h, fun h => h⟩

/-! ### Permissions and calls -/

/-- Who has been given something by the host may hear no less. -/
theorem mayHear_switched {t : Topic} (h : p.mayHear st t = true) :
    ({ p with switched := true } : Peer).mayHear st t = true := by
  cases t with
  | pos | windowFocus | monitor | camera | other => exact h
  | audio =>
    simp only [Peer.mayHear, Bool.and_eq_true] at h ⊢
    refine ⟨h.1, ?_⟩
    have htype := h.2
    split at htype <;> simp_all
  | clipboard =>
    simp only [Peer.mayHear, Bool.and_eq_true] at h ⊢
    refine ⟨h.1, ?_⟩
    have htype := h.2
    split at htype <;> simp_all
  | cursor =>
    simp only [Peer.mayHear] at h ⊢
    split at h <;> simp_all

theorem mayHear_cursor_of (hswitched : p.switched = true)
    (h : (p.keyboard || p.showRemoteCursor) = true) : p.mayHear st .cursor = true := by
  rw [Peer.mayHear]
  split
  · exact h
  · exact hswitched
  · rw [h, hswitched, Bool.true_and]

theorem mustHear_cursor (h : p.mustHear st .cursor = true) :
    (p.keyboard || p.showRemoteCursor) = true := by
  have hkeyboard := (Bool.and_eq_true_iff.mp h).2
  rw [Peer.peerKeyboardEnabled, Bool.or_eq_true] at hkeyboard
  rw [Bool.or_eq_true]
  exact hkeyboard.imp_left fun hand => (Bool.and_eq_true_iff.mp hand).1

theorem keeps_switchPermission {between : Between μ} {name : String} {enabled : Bool} :
    Keeps st c (s, p) (switchPermission st c between name enabled (s, p)) := by
  have hgiven : Keeps st c (s, p) (s, { p with switched := true }) :=
    keeps_quiet (fun h => ⟨h.unauthorized, h.limited⟩) fun _ => ⟨mayHear_switched, fun h => h⟩
  refine hgiven.trans ?_
  unfold switchPermission
  dsimp only
  split_ifs with hkeyboard hclipboard haudio hauthed
  · refine keeps_resubscribe_two mem_named.2.1 mem_named.2.2.1 (by decide)
      (fun h => ⟨h.unauthorized, h.limited⟩) ⟨mayHear_clipboard_of_can (.inr rfl), ?_⟩
      ⟨mustHear_clipboard, mustHear_cursor⟩ fun t hclip hcursor => ?_
    · intro h
      rw [topic_nameCursor]
      refine mayHear_cursor_of ?_ h
      rfl
    cases t with
    | clipboard => exact absurd rfl hclip
    | cursor => exact absurd rfl hcursor
    | audio | pos | windowFocus | monitor | camera | other => exact ⟨fun h => h, fun h => h⟩
  · refine keeps_resubscribe_one mem_named.2.1 (fun h => ⟨h.unauthorized, h.limited⟩)
      (mayHear_clipboard_of_can (.inr rfl)) mustHear_clipboard fun t ht => ?_
    cases t with
    | clipboard => exact absurd rfl ht
    | audio | cursor | pos | windowFocus | monitor | camera | other =>
      exact ⟨fun h => h, fun h => h⟩
  · refine keeps_subscribeAudio rfl ?_ rfl (fun h => ⟨h.unauthorized, h.limited⟩)
      (fun _ _ => rfl) fun t ht => ?_
    · exact Option.isSome_iff_ne_none.mp hauthed
    · cases t with
      | audio => exact absurd rfl ht
      | clipboard | cursor | pos | windowFocus | monitor | camera | other =>
        exact ⟨fun h => h, fun h => h⟩
  · -- sounds are not asked for before the login
    have hnone : p.authedConnType = none := Option.not_isSome_iff_eq_none.mp hauthed
    refine keeps_quiet (fun h => ⟨h.unauthorized, h.limited⟩) fun t => ?_
    cases t with
    | audio => simp [Peer.mayHear, Peer.mustHear, hnone]
    | clipboard | cursor | pos | windowFocus | monitor | camera | other =>
      exact ⟨fun h => h, fun h => h⟩
  · exact .refl _

/-- A call is about the sounds of a camera session only. -/
theorem keeps_call {voiceCallRequested voiceCalling : Bool}
    (htype : p.authedConnType ≠ some .viewCamera)
    (hbare : p.Bare → ({ p with voiceCallRequested, voiceCalling } : Peer).Bare) :
    Keeps st c (s, p) (s, { p with voiceCallRequested, voiceCalling }) := by
  refine keeps_quiet hbare fun t => ?_
  cases t with
  | audio =>
    have hcamera : (p.authedConnType == some .viewCamera) = false := by simpa using htype
    rw [Peer.mustHear, Peer.mustHear, Peer.mayHear, Peer.mayHear]
    dsimp only
    rw [hcamera, Bool.false_and, Bool.false_and]
    refine ⟨fun h => ?_, fun h => h⟩
    split at h
    · exact h
    · next hsome => exact absurd hsome htype
    · exact h
    · exact h
  | clipboard | cursor | pos | windowFocus | monitor | camera | other =>
    exact ⟨fun h => h, fun h => h⟩

theorem keeps_camera_call {between : Between μ} {voiceCallRequested voiceCalling : Bool}
    (hcamera : p.authedConnType = some .viewCamera) :
    Keeps st c (s, p) (resubscribe c between [(audioService, p.audioEnabled && voiceCalling)] s,
      { p with voiceCallRequested, voiceCalling }) := by
  have hbare : p.Bare → ({ p with voiceCallRequested, voiceCalling } : Peer).Bare :=
    fun h => ⟨fun hnone => absurd (hcamera.symm.trans hnone) (by simp), h.limited⟩
  have hcamera' : ({ p with voiceCallRequested, voiceCalling } : Peer).authedConnType =
      some .viewCamera := hcamera
  refine keeps_resubscribe_one mem_named.1 hbare (fun hsub => ?_) (fun hmust => ?_) fun t ht => ?_
  · exact (mayHear_audio_camera hcamera').trans hsub
  · rw [topic_audioService] at hmust
    exact (mustHear_audio_camera hcamera').symm.trans hmust
  · cases t with
    | audio => exact absurd rfl ht
    | clipboard | cursor | pos | windowFocus | monitor | camera | other =>
      exact ⟨fun h => h, fun h => h⟩

theorem keeps_handleVoiceCall {between : Between μ} {accepted : Bool} :
    Keeps st c (s, p) (handleVoiceCall c between accepted (s, p)) := by
  unfold handleVoiceCall
  dsimp only
  split_ifs with hcall hcamera
  · exact keeps_camera_call hcamera
  · intro hgood
    refine keeps_call hcamera (fun h => ⟨fun hnone => ?_, h.limited⟩) hgood
    have hnot : p.voiceCallRequested = false := (hgood.bare.unauthorized hnone).2.1
    rw [hnot] at hcall
    cases hcall
  · exact .refl _

theorem keeps_closeVoiceCall {between : Between μ} :
    Keeps st c (s, p) (closeVoiceCall c between (s, p)) := by
  unfold closeVoiceCall
  dsimp only
  split_ifs with hcamera
  · have hkeeps : Keeps st c (s, p)
        (resubscribe c between [(audioService, p.audioEnabled && false)] s,
          { p with voiceCalling := false }) := keeps_camera_call hcamera
    rwa [Bool.and_false] at hkeeps
  · exact keeps_call hcamera fun h => ⟨fun hnone => ⟨(h.unauthorized hnone).1,
      (h.unauthorized hnone).2.1, rfl⟩, h.limited⟩

/-! ### The login -/

/-- What a session for the screen asks for at its login. -/
def Peer.asks (st : Settings) (p : Peer) : Topic → Bool
  | .audio => p.audioEnabled
  | .clipboard => p.canSubClipboardService st
  | .cursor => p.peerKeyboardEnabled || p.showRemoteCursor
  | .pos => p.showRemoteCursor
  | .windowFocus => p.followRemoteWindow
  | .monitor | .camera | .other => true

theorem mem_noperms {n : List Char} :
    n ∈ noperms st p ↔ n ∈ named ∧ p.asks st (topic n) = false := by
  have hmem : n ∈ noperms st p ↔ n = nameCursor ∧ p.asks st .cursor = false ∨
      n = namePos ∧ p.asks st .pos = false ∨ n = nameWindowFocus ∧ p.asks st .windowFocus = false ∨
      n = clipboardService ∧ p.asks st .clipboard = false ∨
      n = audioService ∧ p.asks st .audio = false := by
    simp only [noperms, Peer.asks, List.mem_append, List.mem_ite_nil_right, List.mem_singleton,
      Bool.not_eq_true', Bool.and_eq_true, Bool.or_eq_false_iff, or_assoc, and_comm]
  rw [hmem, named]
  simp only [List.mem_cons, List.not_mem_nil, or_false]
  constructor
  · rintro (⟨rfl, h⟩ | ⟨rfl, h⟩ | ⟨rfl, h⟩ | ⟨rfl, h⟩ | ⟨rfl, h⟩)
    · rw [topic_nameCursor]
      exact ⟨.inr (.inr (.inl rfl)), h⟩
    · rw [topic_namePos]
      exact ⟨.inr (.inr (.inr (.inl rfl))), h⟩
    · rw [topic_nameWindowFocus]
      exact ⟨.inr (.inr (.inr (.inr rfl))), h⟩
    · rw [topic_clipboardService]
      exact ⟨.inr (.inl rfl), h⟩
    · rw [topic_audioService]
      exact ⟨.inl rfl, h⟩
  · rintro ⟨rfl | rfl | rfl | rfl | rfl, h⟩
    · rw [topic_audioService] at h
      exact .inr (.inr (.inr (.inr ⟨rfl, h⟩)))
    · rw [topic_clipboardService] at h
      exact .inr (.inr (.inr (.inl ⟨rfl, h⟩)))
    · rw [topic_nameCursor] at h
      exact .inl ⟨rfl, h⟩
    · rw [topic_namePos] at h
      exact .inr (.inl ⟨rfl, h⟩)
    · rw [topic_nameWindowFocus] at h
      exact .inr (.inr (.inl ⟨rfl, h⟩))

theorem mayHear_of_asks {t : Topic} (hremote : p.authedConnType = some .remote)
    (ht : t ≠ .camera) (h : p.asks st t = true) : p.mayHear st t = true := by
  cases t with
  | camera => exact absurd rfl ht
  | clipboard => exact mayHear_clipboard_of_can (.inl hremote) h
  | audio =>
    rw [Peer.mayHear, hremote, show p.audioEnabled = true from h]
    rfl
  | cursor =>
    have hkeyboard : (p.keyboard && !p.disableKeyboard || p.showRemoteCursor) = true := h
    rw [Peer.mayHear, hremote]
    revert hkeyboard
    cases p.keyboard <;> cases p.showRemoteCursor <;> simp
  | pos =>
    rw [Peer.mayHear, hremote, show p.showRemoteCursor = true from h]
    rfl
  | windowFocus =>
    rw [Peer.mayHear, hremote, show p.followRemoteWindow = true from h]
    rfl
  | monitor | other =>
    rw [Peer.mayHear, hremote]
    rfl

theorem asks_of_mustHear {t : Topic} (h : p.mustHear st t = true) : p.asks st t = true := by
  cases t with
  | monitor | camera | other => rfl
  | audio => exact (Bool.and_eq_true_iff.mp h).1
  | clipboard | cursor | pos => exact (Bool.and_eq_true_iff.mp h).2
  | windowFocus => exact (Bool.and_eq_true_iff.mp (Bool.and_eq_true_iff.mp h).1).2

/-- The services that are left out at a login are those that it does not ask for. -/
theorem addable_iff {n : List Char} {primary : Nat} (h : isVideoServiceName n = false) :
    Server.addable primary (noperms st p) n = true ↔ n ∉ named ∨ p.asks st (topic n) = true := by
  rw [Server.addable, h, Bool.false_and, Bool.not_false, Bool.true_and, Bool.not_eq_true',
    ← Bool.not_eq_true, List.contains_iff_mem, mem_noperms, not_and_or, Bool.not_eq_false]

/-- A session for the screen is given no camera. -/
theorem topic_ne_camera_of_addable {n : List Char} {primary : Nat} {names : List (List Char)}
    (h : Server.addable primary names n = true) : topic n ≠ .camera := by
  intro hcamera
  have hvideo : isVideoServiceName n = true := isVideoServiceName_iff.mpr (.inr hcamera)
  rw [Server.addable, hvideo, Bool.true_and, Bool.and_eq_true, Bool.not_eq_true',
    bne_eq_false_iff_eq] at h
  rw [h.1, topic_getServiceName] at hcamera
  cases hcamera

theorem asks_of_not_named {n : List Char} (h : n ∉ named) : p.asks st (topic n) = true := by
  have hne : ∀ m ∈ named, topic n ≠ topic m := fun m hm heq => h (eq_of_topic hm heq ▸ hm)
  cases ht : topic n with
  | audio => exact absurd ht (hne _ mem_named.1)
  | clipboard => exact absurd ht (hne _ mem_named.2.1)
  | cursor => exact absurd ht (hne _ mem_named.2.2.1)
  | pos => exact absurd ht (hne _ mem_named.2.2.2.1)
  | windowFocus => exact absurd ht (hne _ mem_named.2.2.2.2)
  | monitor | camera | other => rfl

theorem keepsIn_trySubMonitorServices (x : Server μ × Peer) :
    KeepsIn st c .remote x (trySubMonitorServices st c x) := by
  obtain ⟨s, p⟩ := x
  intro hremote
  unfold trySubMonitorServices
  dsimp only at hremote ⊢
  split_ifs
  · refine ⟨(keeps_tryAddVideoService .monitor st.primaryDisplay).trans ?_, hremote⟩
    generalize s.tryAddVideoService .monitor st.primaryDisplay = s
    intro hgood
    have hmay : ∀ t, ({ p with servicesSubed := true } : Peer).mayHear st t = p.mayHear st t := by
      intro t
      cases t <;> rfl
    have hasks : ∀ t, ({ p with servicesSubed := true } : Peer).asks st t = p.asks st t := by
      intro t
      cases t <;> rfl
    refine ⟨⟨⟨fun n b hb => ?_, hgood.server.lost⟩, bare_of_remote hremote, fun n hn => ⟨?_, ?_⟩⟩,
      fun n i hi => ⟨?_, Iff.rfl⟩, fun n _ => Server.needs_addConnection⟩
    · rw [Server.needs_addConnection] at hb
      exact hgood.server.regular n b hb
    · intro hsub
      rw [hmay]
      rcases Server.subscribed_addConnection.mp hsub with hold | ⟨-, -, hadd⟩
      · exact (hgood.follows n hn).may hold
      · have hcamera : topic n ≠ .camera := topic_ne_camera_of_addable hadd
        refine mayHear_of_asks hremote hcamera ?_
        cases hvideo : isVideoServiceName n with
        | true =>
          rcases isVideoServiceName_iff.mp hvideo with ht | ht
          · rw [ht, Peer.asks]
          · exact absurd ht hcamera
        | false =>
          rcases (addable_iff hvideo).mp hadd with hnot | hasks
          · exact asks_of_not_named hnot
          · exact hasks
    · intro hthere hmust
      rw [Server.subscribed_addConnection]
      rw [← Server.isSome_needs, Server.needs_addConnection, Server.isSome_needs] at hthere
      have hvideo : isVideoServiceName n = false := by
        by_contra hne
        rw [mustHear_video (Bool.eq_true_of_not_eq_false hne)] at hmust
        cases hmust
      refine .inr ⟨hthere, rfl, (addable_iff hvideo).mpr (.inr ?_)⟩
      rw [← hasks]
      exact asks_of_mustHear hmust
    · rw [Server.subscribed_addConnection]
      exact or_iff_left fun h => hi h.2.1
  · exact ⟨.refl _, hremote⟩

theorem keeps_authorize {type : AuthConnType} {supportMultiUi : Bool}
    (hnone : p.authedConnType = none) :
    Keeps st c (s, p) (s, { p with authedConnType := some type, supportMultiUi }) := by
  intro hgood
  obtain ⟨hsubed, hrequested, hcalling⟩ := hgood.bare.unauthorized hnone
  obtain ⟨hshow, hfollow⟩ := hgood.bare.limited (by simp [show p.authedConnType = none from hnone])
  dsimp only at hsubed hrequested hcalling hshow hfollow
  refine keeps_quiet (fun _ => ⟨fun h => absurd h (by simp), fun _ => ⟨hshow, hfollow⟩⟩)
    (fun t => ⟨?_, ?_⟩) hgood
  · intro hmay
    cases t with
    | audio | pos | windowFocus | monitor | camera | other =>
      simp [Peer.mayHear, hnone] at hmay
    | clipboard =>
      simp only [Peer.mayHear, hnone, Bool.and_eq_true] at hmay ⊢
      refine ⟨hmay.1, ?_⟩
      cases type <;> simp [hmay.2]
    | cursor =>
      simp only [Peer.mayHear, hnone, Bool.and_eq_true] at hmay ⊢
      cases type <;> simp [hmay]
  · intro hmust
    cases t with
    | monitor | camera => cases hmust
    | audio => simp [Peer.mustHear, hsubed, hcalling] at hmust
    | clipboard | cursor | other => simp [Peer.mustHear, hsubed] at hmust
    | pos => simp [Peer.mustHear, hshow] at hmust
    | windowFocus => simp [Peer.mustHear, hfollow] at hmust

/-- A limited session has no keyboard. -/
theorem keepsIn_noKeyboard {type : AuthConnType} (hlimited : type ≠ .remote)
    (x : Server μ × Peer) : KeepsIn st c type x (x.1, { x.2 with keyboard := false }) := by
  obtain ⟨s, p⟩ := x
  intro htype
  dsimp only at htype
  refine ⟨keeps_quiet (fun h => ⟨h.unauthorized, h.limited⟩) fun t => ?_, htype⟩
  cases t with
  | audio | pos | windowFocus | monitor | camera | other => exact ⟨fun h => h, fun h => h⟩
  | clipboard =>
    simp only [Peer.mayHear, Peer.mustHear, htype]
    cases type <;> simp_all [Peer.clipboardEnabled]
  | cursor =>
    simp only [Peer.mayHear, Peer.mustHear, htype]
    cases type <;> simp_all

theorem keepsIn_updateScopedLoginOptions {between : Nat → Between μ} {type : AuthConnType}
    {option : Option OptionMessage} (x : Server μ × Peer) :
    KeepsIn st c type x (updateScopedLoginOptions st c between type option x) := by
  unfold updateScopedLoginOptions
  split
  · next o hsome =>
    obtain ⟨o', -, ho⟩ := Option.bind_eq_some_iff.mp hsome
    rw [scopedLoginOption_fst] at ho
    exact keepsIn_updateOptions (passes_scoped ho) x
  · exact fun htype => ⟨.refl x, htype⟩

theorem keeps_login {between : Nat → Between μ} {type : AuthConnType}
    {option : Option OptionMessage} {supportMultiUi displays waitSid camera : Bool}
    (hnone : p.authedConnType = none) : Keeps st c (s, p)
      (login st c between type option supportMultiUi displays waitSid camera (s, p)) := by
  have hauthorize : Keeps st c (s, p) (s, { p with authedConnType := some type, supportMultiUi }) :=
    keeps_authorize hnone
  refine hauthorize.trans ?_
  have hoptions : KeepsIn st c type (s, { p with authedConnType := some type, supportMultiUi })
      (updateScopedLoginOptions st c between type option
        (s, { p with authedConnType := some type, supportMultiUi })) :=
    keepsIn_updateScopedLoginOptions _
  unfold login
  dsimp only
  generalize updateScopedLoginOptions st c between type option
    (s, { p with authedConnType := some type, supportMultiUi }) = x at hoptions ⊢
  by_cases hforward : type = .portForward
  · rw [if_pos hforward]
    exact .refl _
  · rw [if_neg hforward]
    cases type with
    | portForward => exact absurd rfl hforward
    | fileTransfer => exact ((hoptions.trans (keepsIn_noKeyboard (by simp) x)) rfl).1
    | terminal => exact ((hoptions.trans (keepsIn_noKeyboard (by simp) x)) rfl).1
    | viewCamera =>
      dsimp only
      split_ifs
      · exact ((hoptions.trans (keepsIn_noKeyboard (by simp) x)) rfl).1
      · exact (((hoptions.trans (keepsIn_trySubCameraDisplays camera x)).trans
          (keepsIn_noKeyboard (by simp) _)) rfl).1
    | remote =>
      dsimp only
      split_ifs
      · exact ((hoptions.trans (keepsIn_trySubMonitorServices x)) rfl).1
      · exact (hoptions rfl).1

end Handlers

/-! ### Each message -/

section Messages

variable {st : Settings} {c : Int} {x : Server μ × Peer}

theorem authed_of_accepts {msg : Message} (h : x.2.accepts msg = true) :
    x.2.authedConnType ≠ none := by
  intro hnone
  rw [Peer.accepts, hnone] at h
  cases h

/-- Only sessions for the screen and for the camera choose displays. -/
theorem type_of_accepts_displays (h : x.2.accepts (.misc .switchDisplay) = true ∨
    x.2.accepts (.misc .captureDisplays) = true) :
    x.2.authedConnType = some .remote ∨ x.2.authedConnType = some .viewCamera := by
  cases htype : x.2.authedConnType with
  | none => simp [Peer.accepts, htype] at h
  | some type =>
    cases type with
    | remote => exact .inl rfl
    | viewCamera => exact .inr rfl
    | fileTransfer | portForward | terminal =>
      simp only [Peer.accepts, htype, Option.any_some] at h
      rcases h with h | h <;> cases h

theorem keeps_onOption {between : Nat → Between μ} {o : OptionMessage} :
    Keeps st c x (onOption st c between o x) := by
  unfold onOption
  split
  · next o' hsome =>
    obtain ⟨type, htype, ho⟩ := Option.bind_eq_some_iff.mp hsome
    exact (keepsIn_updateOptions (passes_scoped ho) x htype).1
  · exact .refl x

theorem keeps_onSelectedSid {camera : Bool} : Keeps st c x (onSelectedSid st c camera x) := by
  unfold onSelectedSid
  split
  · next htype => exact (keepsIn_trySubCameraDisplays camera x htype).1
  · next htype => exact (keepsIn_trySubMonitorServices x htype).1
  · exact .refl x

/-- Whatever a connection receives, it hears what it may and must, and nobody else's
subscriptions change. -/
theorem keeps_handle (between : Nat → Between μ) (e : ConnEvent) :
    Keeps st c x (handle st c between e x) := by
  cases e with
  | login type option supportMultiUi displays waitSid camera =>
    simp only [handle]
    split_ifs with hauthed
    · exact .refl x
    · exact keeps_login (Option.not_isSome_iff_eq_none.mp hauthed)
  | selectedSid camera =>
    simp only [handle]
    split_ifs
    exacts [keeps_onSelectedSid, .refl x]
  | option o =>
    simp only [handle]
    split_ifs
    exacts [keeps_onOption, .refl x]
  | switchDisplay display =>
    simp only [handle]
    split_ifs with haccepts
    exacts [keeps_switchDisplayTo (type_of_accepts_displays (.inl haccepts.1)), .refl x]
  | captureDisplays add sub set =>
    simp only [handle]
    split_ifs with haccepts
    exacts [keeps_captureDisplays_message (type_of_accepts_displays (.inr haccepts)), .refl x]
  | voiceCallRequest isConnect =>
    simp only [handle]
    split_ifs with haccepts
    · refine keeps_quiet (fun h => ⟨fun hnone => absurd hnone (authed_of_accepts haccepts),
        h.limited⟩) fun t => ?_
      cases t <;> exact ⟨fun h => h, fun h => h⟩
    · exact keeps_closeVoiceCall
    · exact .refl x
  | switchPermission name enabled => exact keeps_switchPermission
  | voiceCallResponse accepted => exact keeps_handleVoiceCall
  | closeVoiceCall => exact keeps_closeVoiceCall

end Messages

end MDesk.HostServices
