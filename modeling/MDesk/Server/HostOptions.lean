import MDesk.Server.HostServices

/-!
# The options of a connection and its services

A handler of a connection asks again for the services that its change is about. Behind it the
connection hears what it may and must, and no other connection has changed.
-/

namespace MDesk.HostServices

open Core
open HostLogin (AuthConnType)
open OptionScope (OptionMessage Message scopedLoginOption scopedViewCameraOption
  scopedTerminalLoginOption)

variable {μ : Type*}

/-- A subscription that is allowed, and none that is missing. -/
structure Peer.Follows (st : Settings) (p : Peer) (t : Topic) (there sub : Prop) : Prop where
  may : sub → p.mayHear st t = true
  must : there → p.mustHear st t = true → sub

/-- The services need the snapshots that their names say, and only of those that need one a
subscription is lost. -/
structure ServerInv (s : Server μ) : Prop where
  regular : ∀ n b, s.needs n = some b → b = needsSnapshot n
  lost : ∀ n c, (n, c) ∈ s.lost → needsSnapshot n = true

/-- What a connection has only behind its login, or only in a session for the screen. -/
structure Peer.Bare (p : Peer) : Prop where
  unauthorized : p.authedConnType = none →
    p.servicesSubed = false ∧ p.voiceCallRequested = false ∧ p.voiceCalling = false
  limited : p.authedConnType ≠ some .remote →
    p.showRemoteCursor = false ∧ p.followRemoteWindow = false

/-- A connection that hears what it may and must. -/
structure Good (st : Settings) (c : Int) (x : Server μ × Peer) : Prop where
  server : ServerInv x.1
  bare : x.2.Bare
  follows : ∀ n, (n, c) ∉ x.1.lost ∨ isVideoServiceName n = true →
    x.2.Follows st (topic n) (x.1.contains n = true) (x.1.Subscribed n c)

/-- What a handler of one connection leaves alone. -/
structure Frame (c : Int) (s s' : Server μ) : Prop where
  others : ∀ n i, i ≠ c →
    (s'.Subscribed n i ↔ s.Subscribed n i) ∧ ((n, i) ∈ s'.lost ↔ (n, i) ∈ s.lost)
  needs : ∀ n, isVideoServiceName n = false → s'.needs n = s.needs n

section Topics

variable {n m : List Char}

/-- The services with names of their own. -/
def named : List (List Char) :=
  [audioService, clipboardService, nameCursor, namePos, nameWindowFocus]

theorem topic_audioService : topic audioService = .audio := rfl

theorem topic_clipboardService : topic clipboardService = .clipboard := rfl

theorem topic_nameCursor : topic nameCursor = .cursor := rfl

theorem topic_namePos : topic namePos = .pos := rfl

theorem topic_nameWindowFocus : topic nameWindowFocus = .windowFocus := rfl

/-- The services of one name are told by their topics. -/
theorem eq_of_topic (hm : m ∈ named) (h : topic n = topic m) : n = m := by
  simp only [named, List.mem_cons, List.not_mem_nil, or_false] at hm
  rcases hm with rfl | rfl | rfl | rfl | rfl
  · rw [topic_audioService, topic] at h
    split_ifs at h
    assumption
  · rw [topic_clipboardService, topic] at h
    split_ifs at h
    assumption
  · rw [topic_nameCursor, topic] at h
    split_ifs at h
    assumption
  · rw [topic_namePos, topic] at h
    split_ifs at h
    assumption
  · rw [topic_nameWindowFocus, topic] at h
    split_ifs at h
    assumption

theorem isVideoServiceName_of_mem (hm : m ∈ named) : isVideoServiceName m = false := by
  simp only [named, List.mem_cons, List.not_mem_nil, or_false] at hm
  rcases hm with rfl | rfl | rfl | rfl | rfl <;> decide

theorem isVideoServiceName_iff :
    isVideoServiceName n = true ↔ topic n = .monitor ∨ topic n = .camera := by
  unfold topic
  split_ifs with haudio hclip hcursor hpos hfocus hmonitor hcamera
  · subst haudio; decide
  · subst hclip; decide
  · subst hcursor; decide
  · subst hpos; decide
  · subst hfocus; decide
  · simp [isVideoServiceName, hmonitor]
  · simp [isVideoServiceName, hcamera]
  · simp [isVideoServiceName, hmonitor, hcamera]

/-- The topic of the video services of a source. -/
def sourceTopic : VideoSource → Topic
  | .monitor => .monitor
  | .camera => .camera

theorem topic_getServiceName (source : VideoSource) (idx : Nat) :
    topic (getServiceName source idx) = sourceTopic source := by
  cases source with
  | monitor => rfl
  | camera => rfl

end Topics

theorem Frame.refl (c : Int) (s : Server μ) : Frame c s s :=
  ⟨fun _ _ _ => ⟨Iff.rfl, Iff.rfl⟩, fun _ _ => rfl⟩

theorem Frame.trans {c : Int} {s s' s'' : Server μ} (h : Frame c s s') (h' : Frame c s' s'') :
    Frame c s s'' where
  others := fun n i hi => ⟨(h'.others n i hi).1.trans (h.others n i hi).1,
    (h'.others n i hi).2.trans (h.others n i hi).2⟩
  needs := fun n hn => (h'.needs n hn).trans (h.needs n hn)

section Subscribe

variable {s : Server μ} {c i : Int} {n name : List Char} {sub : Bool} {between : Between μ}

theorem ServerInv.subscribe (h : ServerInv s) : ServerInv (s.subscribe name c sub between) where
  regular := by
    intro n b hb
    rw [Server.needs_subscribe] at hb
    exact h.regular n b hb
  lost := by
    intro n i hlost
    by_cases heq : (n, i) = (name, c)
    · cases heq
      by_contra hneeds
      refine Server.not_mem_lost_subscribe (fun hsome => hneeds ?_) hlost
      exact (h.regular _ true hsome).symm
    · exact h.lost n i ((Server.lost_subscribe_of_ne heq).mp hlost)

theorem frame_subscribe : Frame c s (s.subscribe name c sub between) where
  others := by
    intro n i hi
    have hne : (n, i) ≠ (name, c) := fun heq => hi (congrArg Prod.snd heq)
    exact ⟨Server.subscribed_subscribe_of_ne hne, Server.lost_subscribe_of_ne hne⟩
  needs := fun n _ => Server.needs_subscribe

theorem needs_resubscribe {wants : List (List Char × Bool)} :
    (resubscribe c between wants s).needs n = s.needs n := by
  induction wants generalizing s with
  | nil => rfl
  | cons e wants ih => exact ih.trans Server.needs_subscribe

theorem ServerInv.resubscribe (h : ServerInv s) (wants : List (List Char × Bool)) :
    ServerInv (resubscribe c between wants s) := by
  induction wants generalizing s with
  | nil => exact h
  | cons e wants ih => exact ih h.subscribe

theorem frame_resubscribe (wants : List (List Char × Bool)) :
    Frame c s (resubscribe c between wants s) := by
  induction wants generalizing s with
  | nil => exact .refl c s
  | cons e wants ih => exact frame_subscribe.trans ih

theorem resubscribe_of_not_mem (c i : Int) (between : Between μ) (s : Server μ)
    {wants : List (List Char × Bool)} (h : n ∉ wants.map Prod.fst) :
    ((resubscribe c between wants s).Subscribed n i ↔ s.Subscribed n i) ∧
      ((n, i) ∈ (resubscribe c between wants s).lost ↔ (n, i) ∈ s.lost) := by
  induction wants generalizing s with
  | nil => exact ⟨Iff.rfl, Iff.rfl⟩
  | cons e wants ih =>
    rw [List.map_cons, List.mem_cons, not_or] at h
    have hne : (n, i) ≠ (e.1, c) := fun heq => h.1 (congrArg Prod.fst heq)
    obtain ⟨hsub, hlost⟩ := ih (s.subscribe e.1 c e.2 between) h.2
    exact ⟨hsub.trans (Server.subscribed_subscribe_of_ne hne),
      hlost.trans (Server.lost_subscribe_of_ne hne)⟩

/-- Each request is met, unless its subscriber is missed. -/
theorem resubscribe_of_mem {wants : List (List Char × Bool)}
    (hnodup : (wants.map Prod.fst).Nodup) (hmem : (n, sub) ∈ wants)
    (h : (n, c) ∉ (resubscribe c between wants s).lost) :
    (resubscribe c between wants s).Subscribed n c ↔ s.contains n = true ∧ sub = true := by
  induction wants generalizing s with
  | nil => cases hmem
  | cons e wants ih =>
    obtain ⟨he, hrest⟩ := List.nodup_cons.mp hnodup
    rcases List.mem_cons.mp hmem with heq | hin
    · have hnot : n ∉ wants.map Prod.fst := by
        rw [← heq] at he
        exact he
      have hsame := resubscribe_of_not_mem c c between (s.subscribe e.1 c e.2 between) hnot
      have hlost : (n, c) ∉ (s.subscribe e.1 c e.2 between).lost := fun hin => h (hsame.2.mpr hin)
      refine hsame.1.trans ?_
      rw [← heq] at hlost ⊢
      exact Server.subscribed_subscribe_self hlost
    · refine (ih hrest hin h).trans ?_
      rw [← Server.isSome_needs, Server.needs_subscribe, Server.isSome_needs]

end Subscribe

section Handlers

variable {st : Settings} {c : Int} {s : Server μ} {p p' : Peer}

/-- A handler that changes a connection and asks again for what the change is about. -/
theorem Good.resubscribe {between : Between μ} (h : Good st c (s, p))
    (wants : List (List Char × Bool)) (hnodup : (wants.map Prod.fst).Nodup)
    (hnamed : ∀ e ∈ wants, e.1 ∈ named)
    (hbare : p'.Bare)
    (hwants : ∀ e ∈ wants, (e.2 = true → p'.mayHear st (topic e.1) = true) ∧
      (p'.mustHear st (topic e.1) = true → e.2 = true))
    (hrest : ∀ t, t ∉ wants.map (fun e => topic e.1) →
      (p.mayHear st t = true → p'.mayHear st t = true) ∧
        (p'.mustHear st t = true → p.mustHear st t = true)) :
    Good st c (resubscribe c between wants s, p') where
  server := h.server.resubscribe wants
  bare := hbare
  follows := by
    intro n hn
    dsimp only at hn ⊢
    have hcontains : (HostServices.resubscribe c between wants s).contains n = s.contains n := by
      rw [← Server.isSome_needs, needs_resubscribe, Server.isSome_needs]
    rw [hcontains]
    by_cases hmem : n ∈ wants.map Prod.fst
    · obtain ⟨⟨m, sub⟩, hin, rfl⟩ := List.mem_map.mp hmem
      have hlost : (m, c) ∉ (HostServices.resubscribe c between wants s).lost := by
        rcases hn with hlost | hvideo
        · exact hlost
        · rw [isVideoServiceName_of_mem (hnamed _ hin)] at hvideo
          cases hvideo
      have hsub := resubscribe_of_mem hnodup hin hlost
      dsimp only
      refine ⟨fun hnew => (hwants _ hin).1 (hsub.mp hnew).2, fun hthere hmust => hsub.mpr ?_⟩
      exact ⟨hthere, (hwants _ hin).2 hmust⟩
    · obtain ⟨hsub, hlost⟩ := resubscribe_of_not_mem c c between s hmem
      have hold := h.follows n (hn.imp_left fun hnot hin => hnot (hlost.mpr hin))
      have ht : topic n ∉ wants.map fun e => topic e.1 := by
        intro hin
        obtain ⟨e, he, heq⟩ := List.mem_map.mp hin
        exact hmem (List.mem_map.mpr ⟨e, he, (eq_of_topic (hnamed e he) heq.symm).symm⟩)
      obtain ⟨hmay, hmust⟩ := hrest _ ht
      exact ⟨fun hnew => hmay (hold.may (hsub.mp hnew)),
        fun hthere hnew => hsub.mpr (hold.must hthere (hmust hnew))⟩

/-- What one handler of a connection keeps. -/
def Keeps (st : Settings) (c : Int) (x y : Server μ × Peer) : Prop :=
  Good st c x → Good st c y ∧ Frame c x.1 y.1

theorem Keeps.refl (x : Server μ × Peer) : Keeps st c x x := fun h => ⟨h, .refl c x.1⟩

theorem Keeps.trans {x y z : Server μ × Peer} (h : Keeps st c x y) (h' : Keeps st c y z) :
    Keeps st c x z := by
  intro hx
  obtain ⟨hy, hframe⟩ := h hx
  obtain ⟨hz, hframe'⟩ := h' hy
  exact ⟨hz, hframe.trans hframe'⟩

theorem keeps_resubscribe_one {between : Between μ} {m : List Char} {sub : Bool} (hm : m ∈ named)
    (hbare : p.Bare → p'.Bare)
    (hmay : sub = true → p'.mayHear st (topic m) = true)
    (hmust : p'.mustHear st (topic m) = true → sub = true)
    (hrest : ∀ t, t ≠ topic m → (p.mayHear st t = true → p'.mayHear st t = true) ∧
      (p'.mustHear st t = true → p.mustHear st t = true)) :
    Keeps st c (s, p) (resubscribe c between [(m, sub)] s, p') := by
  intro h
  refine ⟨h.resubscribe _ (List.nodup_singleton _) ?_ (hbare h.bare) ?_ ?_, frame_resubscribe _⟩
  · exact List.forall_mem_singleton.mpr hm
  · exact List.forall_mem_singleton.mpr ⟨hmay, hmust⟩
  · intro t ht
    exact hrest t fun heq => ht (List.mem_singleton.mpr heq)

theorem keeps_resubscribe_two {between : Between μ} {m m' : List Char} {sub sub' : Bool}
    (hm : m ∈ named) (hm' : m' ∈ named) (hne : m ≠ m')
    (hbare : p.Bare → p'.Bare)
    (hmay : (sub = true → p'.mayHear st (topic m) = true) ∧
      (sub' = true → p'.mayHear st (topic m') = true))
    (hmust : (p'.mustHear st (topic m) = true → sub = true) ∧
      (p'.mustHear st (topic m') = true → sub' = true))
    (hrest : ∀ t, t ≠ topic m → t ≠ topic m' → (p.mayHear st t = true → p'.mayHear st t = true) ∧
      (p'.mustHear st t = true → p.mustHear st t = true)) :
    Keeps st c (s, p) (resubscribe c between [(m, sub), (m', sub')] s, p') := by
  intro h
  refine ⟨h.resubscribe _ ?_ ?_ (hbare h.bare) ?_ ?_, frame_resubscribe _⟩
  · exact List.nodup_cons.mpr ⟨fun hin => hne (List.mem_singleton.mp hin), List.nodup_singleton _⟩
  · exact List.forall_mem_cons.mpr ⟨hm, List.forall_mem_singleton.mpr hm'⟩
  · exact List.forall_mem_cons.mpr
      ⟨⟨hmay.1, hmust.1⟩, List.forall_mem_singleton.mpr ⟨hmay.2, hmust.2⟩⟩
  · intro t ht
    simp only [List.map_cons, List.map_nil, List.mem_cons, List.not_mem_nil, or_false,
      not_or] at ht
    exact hrest t ht.1 ht.2

theorem bare_of_remote (h : p.authedConnType = some .remote) : p.Bare :=
  ⟨fun hnone => absurd (h.symm.trans hnone) (by simp), fun hne => absurd h hne⟩

theorem mem_named : audioService ∈ named ∧ clipboardService ∈ named ∧ nameCursor ∈ named ∧
    namePos ∈ named ∧ nameWindowFocus ∈ named := by decide

/-! ### Options -/

theorem keeps_setShowRemoteCursor {between : Between μ} {on : Bool}
    (hremote : p.authedConnType = some .remote) :
    Keeps st c (s, p) (setShowRemoteCursor c between on (s, p)) := by
  refine keeps_resubscribe_two mem_named.2.2.1 mem_named.2.2.2.1 (by decide)
    (fun _ => bare_of_remote hremote) ?_ ?_ ?_
  · simp [topic_nameCursor, topic_namePos, Peer.mayHear, Peer.peerKeyboardEnabled, hremote]
    tauto
  · simp [topic_nameCursor, topic_namePos, Peer.mustHear, Peer.peerKeyboardEnabled, hremote]
  · rw [topic_nameCursor, topic_namePos]
    intro t hcursor hpos
    cases t with
    | cursor => exact absurd rfl hcursor
    | pos => exact absurd rfl hpos
    | audio | clipboard | windowFocus | monitor | camera | other =>
      exact ⟨fun h => h, fun h => h⟩

theorem keeps_setFollowRemoteWindow {between : Between μ} {on : Bool}
    (hremote : p.authedConnType = some .remote) :
    Keeps st c (s, p) (setFollowRemoteWindow c between on (s, p)) := by
  refine keeps_resubscribe_one mem_named.2.2.2.2 (fun _ => bare_of_remote hremote) ?_ ?_ ?_
  · simp [topic_nameWindowFocus, Peer.mayHear, hremote]
  · simp +contextual [topic_nameWindowFocus, Peer.mustHear, hremote]
  · rw [topic_nameWindowFocus]
    intro t hfocus
    cases t with
    | windowFocus => exact absurd rfl hfocus
    | audio | clipboard | cursor | pos | monitor | camera | other => exact ⟨fun h => h, fun h => h⟩

/-- A change that nothing is asked for. -/
theorem keeps_quiet (hbare : p.Bare → p'.Bare)
    (hrest : ∀ t, (p.mayHear st t = true → p'.mayHear st t = true) ∧
      (p'.mustHear st t = true → p.mustHear st t = true)) : Keeps st c (s, p) (s, p') := by
  intro h
  refine ⟨⟨h.server, hbare h.bare, fun n hn => ?_⟩, .refl c s⟩
  have hold := h.follows n hn
  exact ⟨fun hsub => (hrest _).1 (hold.may hsub),
    fun hthere hmust => hold.must hthere ((hrest _).2 hmust)⟩

theorem mayHear_audio_camera (h : p.authedConnType = some .viewCamera) :
    p.mayHear st .audio = (p.audioEnabled && p.voiceCalling) := by
  rw [Peer.mayHear, h]

theorem mustHear_audio_camera (h : p.authedConnType = some .viewCamera) :
    p.mustHear st .audio = (p.audioEnabled && p.voiceCalling) := by
  rw [Peer.mustHear, h]
  rfl

theorem mustHear_audio (h : p.mustHear st .audio = true) : p.audioEnabled = true :=
  (Bool.and_eq_true_iff.mp h).1

/-- Behind a change of what sounds a session may hear. -/
theorem keeps_subscribeAudio {between : Between μ} (htype : p'.authedConnType = p.authedConnType)
    (hauthed : p.authedConnType ≠ none) (hvoice : p'.voiceCalling = p.voiceCalling)
    (hbare : p.Bare → p'.Bare)
    (hlimited : p.authedConnType ≠ some .remote → p.authedConnType ≠ some .viewCamera →
      p'.switched = true)
    (hrest : ∀ t, t ≠ Topic.audio → (p.mayHear st t = true → p'.mayHear st t = true) ∧
      (p'.mustHear st t = true → p.mustHear st t = true)) :
    Keeps st c (s, p) (subscribeAudio c between (s, p')) := by
  unfold subscribeAudio
  dsimp only
  by_cases hcamera : p'.authedConnType = some .viewCamera
  · rw [if_pos hcamera]
    by_cases hcall : (p'.voiceCalling || !p'.audioEnabled) = true
    · rw [if_pos hcall]
      refine keeps_resubscribe_one mem_named.1 hbare (fun hsub => ?_) mustHear_audio hrest
      rw [topic_audioService, mayHear_audio_camera hcamera, hsub]
      simpa [hsub] using hcall
    · rw [if_neg hcall]
      -- nobody hears a camera outside a call
      obtain ⟨hquiet, -⟩ : p'.voiceCalling = false ∧ p'.audioEnabled = true := by
        simpa using hcall
      refine keeps_quiet hbare fun t => ?_
      by_cases ht : t = .audio
      · subst ht
        rw [mayHear_audio_camera (htype.symm.trans hcamera), mustHear_audio_camera hcamera, hquiet,
          ← hvoice, hquiet, Bool.and_false, Bool.and_false]
        exact ⟨fun h => absurd h Bool.false_ne_true, fun h => absurd h Bool.false_ne_true⟩
      · exact hrest t ht
  · rw [if_neg hcamera]
    refine keeps_resubscribe_one mem_named.1 hbare (fun hsub => ?_) mustHear_audio hrest
    rw [topic_audioService, Peer.mayHear, hsub, Bool.true_and]
    cases hconn : p'.authedConnType with
    | none => exact absurd (htype.symm.trans hconn) hauthed
    | some type =>
      rw [htype] at hconn hcamera
      cases type with
      | remote => rfl
      | viewCamera => exact absurd hconn hcamera
      | fileTransfer | portForward | terminal => exact hlimited (by simp [hconn]) hcamera

theorem keeps_setDisableAudio {between : Between μ} {on : Bool}
    (htype : p.authedConnType = some .remote ∨ p.authedConnType = some .viewCamera) :
    Keeps st c (s, p) (setDisableAudio c between on (s, p)) := by
  refine keeps_subscribeAudio rfl ?_ rfl (fun h => ⟨h.unauthorized, h.limited⟩) ?_ fun t ht => ?_
  · rcases htype with h | h <;> simp [h]
  · exact fun hremote hcamera => (htype.elim hremote hcamera).elim
  · cases t with
    | audio => exact absurd rfl ht
    | clipboard | cursor | pos | windowFocus | monitor | camera | other =>
      exact ⟨fun h => h, fun h => h⟩

theorem mayHear_clipboard_of_can (hauth : p.authedConnType = some .remote ∨ p.switched = true)
    (h : p.canSubClipboardService st = true) : p.mayHear st .clipboard = true := by
  simp only [Peer.canSubClipboardService, Peer.peerKeyboardEnabled, Bool.and_eq_true] at h
  obtain ⟨⟨hclip, hkeyboard, hdisable⟩, hway⟩ := h
  rw [Peer.mayHear, hclip, hdisable, hway, Bool.true_and, Bool.true_and, Bool.true_and]
  rcases hauth with hremote | hswitched
  · rw [hremote]
    exact hkeyboard
  · split
    · exact hkeyboard
    · exact hswitched
    · rw [hkeyboard, hswitched, Bool.true_and]

theorem mustHear_clipboard (h : p.mustHear st .clipboard = true) :
    p.canSubClipboardService st = true := (Bool.and_eq_true_iff.mp h).2

theorem keeps_setDisableClipboard {between : Between μ} {on : Bool}
    (hremote : p.authedConnType = some .remote) :
    Keeps st c (s, p) (setDisableClipboard st c between on (s, p)) := by
  refine keeps_resubscribe_one mem_named.2.1 (fun _ => bare_of_remote hremote)
    (mayHear_clipboard_of_can (.inl hremote)) mustHear_clipboard fun t ht => ?_
  cases t with
  | clipboard => exact absurd rfl ht
  | audio | cursor | pos | windowFocus | monitor | camera | other => exact ⟨fun h => h, fun h => h⟩

theorem keeps_setDisableKeyboard {between : Between μ} {on : Bool}
    (hremote : p.authedConnType = some .remote) :
    Keeps st c (s, p) (setDisableKeyboard st c between on (s, p)) := by
  refine keeps_resubscribe_two mem_named.2.1 mem_named.2.2.1 (by decide)
    (fun _ => bare_of_remote hremote) ⟨mayHear_clipboard_of_can (.inl hremote), ?_⟩
    ⟨mustHear_clipboard, ?_⟩ fun t hclip hcursor => ?_
  · simp [topic_nameCursor, Peer.mayHear, Peer.peerKeyboardEnabled, hremote]
    tauto
  · simp [topic_nameCursor, Peer.mustHear, Peer.peerKeyboardEnabled, hremote]
  · cases t with
    | clipboard => exact absurd rfl hclip
    | cursor => exact absurd rfl hcursor
    | audio | pos | windowFocus | monitor | camera | other => exact ⟨fun h => h, fun h => h⟩

/-- `Keeps`, in a session of a type. -/
def KeepsIn (st : Settings) (c : Int) (type : AuthConnType) (x y : Server μ × Peer) : Prop :=
  x.2.authedConnType = some type → Keeps st c x y ∧ y.2.authedConnType = some type

theorem KeepsIn.trans {type : AuthConnType} {x y z : Server μ × Peer}
    (h : KeepsIn st c type x y) (h' : KeepsIn st c type y z) : KeepsIn st c type x z := by
  intro hx
  obtain ⟨hkeeps, hy⟩ := h hx
  obtain ⟨hkeeps', hz⟩ := h' hy
  exact ⟨hkeeps.trans hkeeps', hz⟩

theorem keepsIn_whenSet {type : AuthConnType} {value : Int} {set : Bool → Handler μ}
    {x : Server μ × Peer} (h : ∀ on, KeepsIn st c type x (set on x)) :
    KeepsIn st c type x (whenSet value set x) := by
  unfold whenSet
  split
  · exact h true
  · exact h false
  · exact fun hx => ⟨.refl x, hx⟩
  · exact fun hx => ⟨.refl x, hx⟩

theorem whenSet_zero {set : Bool → Handler μ} {x : Server μ × Peer} : whenSet 0 set x = x := rfl

theorem authedConnType_subscribeAudio {between : Between μ} {x : Server μ × Peer} :
    (subscribeAudio c between x).2.authedConnType = x.2.authedConnType := by
  unfold subscribeAudio
  dsimp only
  split_ifs <;> rfl

/-- The options that a session of a type passes on. -/
def Passes (type : AuthConnType) (o : OptionMessage) : Prop :=
  (type ≠ .remote → o.showRemoteCursor = 0 ∧ o.followRemoteWindow = 0 ∧ o.disableClipboard = 0 ∧
    o.disableKeyboard = 0) ∧ (type ≠ .remote → type ≠ .viewCamera → o.disableAudio = 0)

theorem passes_scoped {type : AuthConnType} {o o' : OptionMessage}
    (h : scopedUpdateOptionMessage type o = some o') : Passes type o' := by
  cases type with
  | remote => exact ⟨fun hne => absurd rfl hne, fun hne => absurd rfl hne⟩
  | viewCamera =>
    simp only [scopedUpdateOptionMessage, scopedViewCameraOption] at h
    split_ifs at h
    cases h
    exact ⟨fun _ => ⟨rfl, rfl, rfl, rfl⟩, fun _ hne => absurd rfl hne⟩
  | terminal =>
    simp only [scopedUpdateOptionMessage, scopedTerminalLoginOption] at h
    split_ifs at h
    cases h
    exact ⟨fun _ => ⟨rfl, rfl, rfl, rfl⟩, fun _ _ => rfl⟩
  | fileTransfer | portForward => cases h

theorem scopedLoginOption_fst (type : AuthConnType) (o : OptionMessage) :
    (scopedLoginOption type o).1 = scopedUpdateOptionMessage type o := by
  cases type <;> rfl

/-- The options in their order, each by the type of the session. -/
theorem keepsIn_updateOptions {between : Nat → Between μ} {o : OptionMessage}
    {type : AuthConnType} (hpass : Passes type o) (x : Server μ × Peer) :
    KeepsIn st c type x (updateOptions st c between o x) := by
  unfold updateOptions
  dsimp only
  by_cases hremote : type = .remote
  · subst hremote
    have hshow : ∀ x : Server μ × Peer, KeepsIn st c .remote x
        (whenSet o.showRemoteCursor (setShowRemoteCursor c (between 0)) x) :=
      fun x => keepsIn_whenSet fun on hx => ⟨keeps_setShowRemoteCursor hx, hx⟩
    have hfollow : ∀ x : Server μ × Peer, KeepsIn st c .remote x
        (whenSet o.followRemoteWindow (setFollowRemoteWindow c (between 1)) x) :=
      fun x => keepsIn_whenSet fun on hx => ⟨keeps_setFollowRemoteWindow hx, hx⟩
    have haudio : ∀ x : Server μ × Peer, KeepsIn st c .remote x
        (whenSet o.disableAudio (setDisableAudio c (between 2)) x) :=
      fun x => keepsIn_whenSet fun on hx =>
        ⟨keeps_setDisableAudio (.inl hx), authedConnType_subscribeAudio.trans hx⟩
    have hclip : ∀ x : Server μ × Peer, KeepsIn st c .remote x
        (whenSet o.disableClipboard (setDisableClipboard st c (between 3)) x) :=
      fun x => keepsIn_whenSet fun on hx => ⟨keeps_setDisableClipboard hx, hx⟩
    have hkeyboard : ∀ x : Server μ × Peer, KeepsIn st c .remote x
        (whenSet o.disableKeyboard (setDisableKeyboard st c (between 4)) x) :=
      fun x => keepsIn_whenSet fun on hx => ⟨keeps_setDisableKeyboard hx, hx⟩
    exact ((((hshow x).trans (hfollow _)).trans (haudio _)).trans (hclip _)).trans (hkeyboard _)
  · obtain ⟨hshow, hfollow, hclip, hkeyboard⟩ := hpass.1 hremote
    rw [hshow, hfollow, hclip, hkeyboard, whenSet_zero, whenSet_zero, whenSet_zero, whenSet_zero]
    by_cases hcamera : type = .viewCamera
    · subst hcamera
      have haudio : KeepsIn st c .viewCamera x
          (whenSet o.disableAudio (setDisableAudio c (between 2)) x) :=
        keepsIn_whenSet fun on hx =>
          ⟨keeps_setDisableAudio (.inr hx), authedConnType_subscribeAudio.trans hx⟩
      exact haudio
    · rw [hpass.2 hremote hcamera, whenSet_zero]
      exact fun hx => ⟨.refl x, hx⟩

end Handlers

end MDesk.HostServices
