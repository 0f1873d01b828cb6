import MDesk.Server.PortableLaunch

/-!
# When a launch of the portable service is exclusive

As long as `STARTING` is set back only while no launch is in progress, a launch in progress keeps it
set. Then the shared memory is created and given its token by one launch at a time, and a token that
a handshake gives back finds either the shared memory it was taken from or none of its own.
-/

namespace MDesk.PortableService

open Core

/-- A launch in progress keeps `STARTING` set, and is the only one. -/
structure Guarded (launches : Nat → LaunchPhase) (starting : Bool) : Prop where
  exclusive : ∀ i j, (launches i).inProgress = true → (launches j).inProgress = true → i = j
  starting : ∀ i, (launches i).inProgress = true → starting = true

/-- What holds of the tokens, wherever the launch is: those that may still be accepted have been
drawn and not been accepted; the shared memory of a launch is not the one of a handshake. -/
structure Tokens (launches : Nat → LaunchPhase) (runtime : Runtime) (handshake : Handshake)
    (accepted : List IpcToken) (names : List String) (tokens : List IpcToken) : Prop where
  matched : runtime.Matched
  cleared : ∀ i n, launches i = .cleared n → runtime = {}
  created : ∀ i n u, launches i = .created n u →
    runtime.ipcRuntimeToken = none ∧ runtime.Holds u ∧ u ∈ tokens ∧ u ∉ accepted ∧
      ∀ t name, handshake = .matched t name → t ≠ u ∧ runtime.shmemRuntimeName ≠ name
  pending : ∀ t name, handshake = .matched t name →
    (∃ n, name = some n ∧ n ∈ names) ∧ t ∈ tokens ∧ t ∉ accepted ∧
      runtime.ipcRuntimeToken ≠ some t
  current : ∀ t, runtime.ipcRuntimeToken = some t → t ∈ tokens ∧ t ∉ accepted
  named : ∀ n, runtime.shmemRuntimeName = some n → n ∈ names
  issued : ∀ t ∈ accepted, t ∈ tokens
  once : accepted.Nodup

section Guarded

variable {launches : Nat → LaunchPhase} {starting starting' : Bool} {i j : Nat}
  {phase : LaunchPhase}

theorem Guarded.of_idle (h : ∀ i, (launches i).inProgress = false) :
    Guarded launches starting := by
  refine ⟨fun i _ hi => ?_, fun i hi => ?_⟩
  · rw [h i] at hi
    cases hi
  · rw [h i] at hi
    cases hi

theorem Guarded.others (h : Guarded launches starting) (hi : (launches i).inProgress = true)
    (hj : j ≠ i) : (launches j).inProgress = false := by
  by_contra hne
  exact hj (h.exclusive j i (by simpa using hne) hi)

/-- A call goes on without beginning a launch. -/
theorem Guarded.move (h : Guarded launches starting)
    (hphase : phase.inProgress = true → (launches i).inProgress = true) :
    Guarded (Function.update launches i phase) starting := by
  have hwas : ∀ k, (Function.update launches i phase k).inProgress = true →
      (launches k).inProgress = true := by
    intro k hk
    by_cases hki : k = i
    · subst hki
      rw [Function.update_self] at hk
      exact hphase hk
    · rwa [Function.update_of_ne hki] at hk
  exact ⟨fun j k hj hk => h.exclusive j k (hwas j hj) (hwas k hk),
    fun k hk => h.starting k (hwas k hk)⟩

/-- A launch begins. -/
theorem Guarded.begin (h : ∀ j, (launches j).inProgress = false) :
    Guarded (Function.update launches i phase) true := by
  have hthis : ∀ k, (Function.update launches i phase k).inProgress = true → k = i := by
    intro k hk
    by_contra hki
    rw [Function.update_of_ne hki, h k] at hk
    cases hk
  exact ⟨fun j k hj hk => (hthis j hj).trans (hthis k hk).symm, fun _ _ => rfl⟩

end Guarded

section Tokens

variable {launches : Nat → LaunchPhase} {runtime runtime' : Runtime} {handshake : Handshake}
  {accepted : List IpcToken} {names : List String} {tokens : List IpcToken} {i n : Nat}
  {phase : LaunchPhase} {token : IpcToken} {name : String} {name' : Option String}

/-- A call goes on and leaves the tokens alone. -/
theorem Tokens.move (h : Tokens launches runtime handshake accepted names tokens)
    (hcleared : ∀ n, phase ≠ .cleared n) (hcreated : ∀ n u, phase ≠ .created n u) :
    Tokens (Function.update launches i phase) runtime handshake accepted names tokens := by
  refine { h with cleared := ?_, created := ?_ }
  · intro j n hj
    by_cases hji : j = i
    · subst hji
      rw [Function.update_self] at hj
      exact absurd hj (hcleared n)
    · rw [Function.update_of_ne hji] at hj
      exact h.cleared j n hj
  · intro j n u hj
    by_cases hji : j = i
    · subst hji
      rw [Function.update_self] at hj
      exact absurd hj (hcreated n u)
    · rw [Function.update_of_ne hji] at hj
      exact h.created j n u hj

/-- What a launch does to the shared memory while no other one is in progress. -/
theorem Tokens.of_launch (h : Tokens launches runtime handshake accepted names tokens)
    (hothers : ∀ j, j ≠ i → (launches j).inProgress = false)
    (hmatched : runtime'.Matched)
    (hcleared : ∀ n, phase = .cleared n → runtime' = {})
    (hcreated : ∀ n u, phase = .created n u →
      runtime'.ipcRuntimeToken = none ∧ runtime'.Holds u ∧ u ∈ tokens ∧ u ∉ accepted ∧
        ∀ t name, handshake = .matched t name → t ≠ u ∧ runtime'.shmemRuntimeName ≠ name)
    (hcurrent : ∀ t, runtime'.ipcRuntimeToken = some t → t ∈ tokens ∧ t ∉ accepted)
    (hpending : ∀ t name, handshake = .matched t name → runtime'.ipcRuntimeToken ≠ some t)
    (hnamed : ∀ n, runtime'.shmemRuntimeName = some n → n ∈ names) :
    Tokens (Function.update launches i phase) runtime' handshake accepted names tokens := by
  refine ⟨hmatched, ?_, ?_, ?_, hcurrent, hnamed, h.issued, h.once⟩
  · intro j n hj
    by_cases hji : j = i
    · subst hji
      rw [Function.update_self] at hj
      exact hcleared n hj
    · have hother := hothers j hji
      rw [Function.update_of_ne hji] at hj
      rw [hj] at hother
      cases hother
  · intro j n u hj
    by_cases hji : j = i
    · subst hji
      rw [Function.update_self] at hj
      exact hcreated n u hj
    · have hother := hothers j hji
      rw [Function.update_of_ne hji] at hj
      rw [hj] at hother
      cases hother
  · intro t name ht
    obtain ⟨hname, hissued, hnew, -⟩ := h.pending t name ht
    exact ⟨hname, hissued, hnew, hpending t name ht⟩

theorem Tokens.clear (h : Tokens launches runtime handshake accepted names tokens)
    (hothers : ∀ j, j ≠ i → (launches j).inProgress = false)
    (hcreated : ∀ n u, phase ≠ .created n u) :
    Tokens (Function.update launches i phase) {} handshake accepted names tokens := by
  refine h.of_launch hothers ?_ (fun _ _ => rfl) ?_ ?_ ?_ ?_
  · intro t ht
    cases ht
  · intro n u hphase
    exact absurd hphase (hcreated n u)
  · intro t ht
    cases ht
  · intro t name _ ht
    cases ht
  · intro n hn
    cases hn

/-- Names and tokens that are drawn. -/
theorem Tokens.draw (h : Tokens launches runtime handshake accepted names tokens) :
    Tokens launches runtime handshake accepted (name :: names) (token :: tokens) := by
  refine { h with created := ?_, pending := ?_, current := ?_, named := ?_, issued := ?_ }
  · intro j n u hj
    obtain ⟨hnone, hholds, hissued, hrest⟩ := h.created j n u hj
    exact ⟨hnone, hholds, List.mem_cons_of_mem _ hissued, hrest⟩
  · intro t name' ht
    obtain ⟨⟨n, hn, hmem⟩, hissued, hrest⟩ := h.pending t name' ht
    exact ⟨⟨n, hn, List.mem_cons_of_mem _ hmem⟩, List.mem_cons_of_mem _ hissued, hrest⟩
  · intro t ht
    obtain ⟨hissued, hnew⟩ := h.current t ht
    exact ⟨List.mem_cons_of_mem _ hissued, hnew⟩
  · exact fun n hn => List.mem_cons_of_mem _ (h.named n hn)
  · exact fun t ht => List.mem_cons_of_mem _ (h.issued t ht)

/-- The shared memory is created with a new name and a new token. -/
theorem Tokens.create (h : Tokens launches runtime handshake accepted names tokens)
    (hothers : ∀ j, j ≠ i → (launches j).inProgress = false) (hi : launches i = .cleared n)
    (hname : name ∉ names) (htoken : token ∉ tokens) {written : Bool}
    (hcreate : runtime.createShmem name token = (written, runtime')) :
    Tokens (Function.update launches i (if written then .created n token else .discarding))
      runtime' handshake accepted (name :: names) (token :: tokens) := by
  have hfacts : runtime'.ipcRuntimeToken = none ∧ runtime'.shmemRuntimeName = some name ∧
      (written = true → runtime'.Holds token) := by
    have hnone : runtime.ipcRuntimeToken = none := by rw [h.cleared i n hi]
    cases written with
    | true =>
      obtain ⟨hholds, hsame, hnew⟩ := Runtime.createShmem_holds hcreate
      exact ⟨hsame.trans hnone, hnew, fun _ => hholds⟩
    | false =>
      obtain ⟨hsame, hnew⟩ := Runtime.createShmem_failed hcreate
      exact ⟨hsame.trans hnone, hnew, fun hw => by cases hw⟩
  obtain ⟨hnone, hnew, hholds⟩ := hfacts
  refine h.draw.of_launch hothers ?_ ?_ ?_ ?_ ?_ ?_
  · intro t ht
    rw [hnone] at ht
    cases ht
  · intro m hm
    cases written <;> cases hm
  · intro m u hm
    cases written with
    | false => cases hm
    | true =>
      cases hm
      refine ⟨hnone, hholds rfl, List.mem_cons_self, fun hacc => htoken (h.issued _ hacc), ?_⟩
      intro t nm ht
      obtain ⟨⟨n', rfl, hn'⟩, hissued, -⟩ := h.pending t nm ht
      refine ⟨fun heq => htoken (heq ▸ hissued), ?_⟩
      rw [hnew]
      intro heq
      exact hname (Option.some.inj heq ▸ hn')
  · intro t ht
    rw [hnone] at ht
    cases ht
  · intro t nm _
    rw [hnone]
    exact fun ht => by cases ht
  · intro m hm
    rw [hnew] at hm
    rw [← Option.some.inj hm]
    exact List.mem_cons_self

/-- The token of a launch becomes the one that is accepted. -/
theorem Tokens.publish (h : Tokens launches runtime handshake accepted names tokens)
    (hothers : ∀ j, j ≠ i → (launches j).inProgress = false)
    (hi : launches i = .created n token) :
    Tokens (Function.update launches i (.prepared n)) (runtime.setRuntimeIpcToken token) handshake
      accepted names tokens := by
  obtain ⟨-, hholds, hissued, hnew, happart⟩ := h.created i n token hi
  refine h.of_launch hothers ?_ ?_ ?_ ?_ ?_ h.named
  · intro t ht
    cases ht
    exact ⟨hholds.shmem, hholds.name⟩
  · intro m hm
    cases hm
  · intro m u hm
    cases hm
  · intro t ht
    cases ht
    exact ⟨hissued, hnew⟩
  · intro t nm ht heq
    exact (happart t nm ht).1 (Option.some.inj heq).symm

/-- A token that matches is taken. -/
theorem Tokens.consume (h : Tokens launches runtime handshake accepted names tokens)
    (hconsume : runtime.consumeRuntimeIpcTokenIfMatch token = (true, name', runtime')) :
    Tokens launches runtime' (.matched token name') accepted names tokens := by
  obtain ⟨hcurrent, hname, hnone, hsame⟩ := Runtime.consume_matched hconsume
  obtain ⟨hissued, hnew⟩ := h.current token hcurrent
  obtain ⟨m, hm⟩ := (h.matched token hcurrent).name
  refine ⟨?_, ?_, ?_, ?_, ?_, ?_, h.issued, h.once⟩
  · intro t ht
    rw [hnone] at ht
    cases ht
  · intro j k hj
    rw [h.cleared j k hj] at hcurrent
    cases hcurrent
  · intro j k u hj
    rw [(h.created j k u hj).1] at hcurrent
    cases hcurrent
  · intro t nm heq
    cases heq
    refine ⟨⟨m, hname.symm.trans hm, h.named m hm⟩, hissued, hnew, ?_⟩
    rw [hnone]
    exact fun ht => by cases ht
  · intro t ht
    rw [hnone] at ht
    cases ht
  · intro k hk
    exact h.named k (hsame ▸ hk)

/-- A handshake succeeds. -/
theorem Tokens.accept (h : Tokens launches runtime (.matched token name') accepted names tokens) :
    Tokens launches runtime .idle (accepted ++ [token]) names tokens := by
  obtain ⟨-, hissued, hnew, hne⟩ := h.pending token name' rfl
  refine ⟨h.matched, h.cleared, ?_, ?_, ?_, h.named, ?_, ?_⟩
  · intro j n u hj
    obtain ⟨hnone, hholds, hmem, hu, happart⟩ := h.created j n u hj
    refine ⟨hnone, hholds, hmem, ?_, fun t nm heq => by cases heq⟩
    rw [List.mem_append, List.mem_singleton]
    exact fun hor => hor.elim hu fun heq => (happart token name' rfl).1 heq.symm
  · intro t nm heq
    cases heq
  · intro t ht
    obtain ⟨hmem, ht'⟩ := h.current t ht
    refine ⟨hmem, ?_⟩
    rw [List.mem_append, List.mem_singleton]
    exact fun hor => hor.elim ht' fun heq => hne (heq ▸ ht)
  · intro t ht
    rcases List.mem_append.mp ht with hold | hlast
    · exact h.issued t hold
    · rw [List.mem_singleton.mp hlast]
      exact hissued
  · exact List.nodup_append.mpr ⟨h.once, List.pairwise_singleton _ _, fun t ht u hu heq =>
      hnew (List.mem_singleton.mp hu ▸ heq ▸ ht)⟩

/-- A handshake ends that does not take a token with it. -/
theorem Tokens.drop (h : Tokens launches runtime handshake accepted names tokens)
    {handshake' : Handshake} (hnone : ∀ t nm, handshake' ≠ .matched t nm) :
    Tokens launches runtime handshake' accepted names tokens := by
  refine { h with created := ?_, pending := ?_ }
  · intro j n u hj
    obtain ⟨htoken, hholds, hmem, hu, -⟩ := h.created j n u hj
    exact ⟨htoken, hholds, hmem, hu, fun t nm heq => absurd heq (hnone t nm)⟩
  · intro t nm heq
    exact absurd heq (hnone t nm)

/-- A handshake fails. -/
theorem Tokens.reject (h : Tokens launches runtime (.matched token name') accepted names tokens) :
    Tokens launches (runtime.restoreRuntimeIpcTokenAfterFailedHandshake token name') .resetting
      accepted names tokens := by
  obtain ⟨⟨m, rfl, hm⟩, hissued, hnew, hne⟩ := h.pending token name' rfl
  rcases Runtime.restore_cases hne with hsame | ⟨htoken, hname, hthis, hholds⟩
  · rw [hsame]
    exact h.drop fun t nm heq => by cases heq
  · refine ⟨?_, ?_, ?_, ?_, ?_, ?_, h.issued, h.once⟩
    · intro t ht
      rw [htoken] at ht
      cases ht
      exact hholds
    · intro j n hj
      rw [h.cleared j n hj] at hthis
      cases hthis
    · intro j n u hj
      obtain ⟨-, -, -, -, happart⟩ := h.created j n u hj
      exact absurd hthis (happart token (some m) rfl).2
    · intro t nm heq
      cases heq
    · intro t ht
      rw [htoken] at ht
      cases ht
      exact ⟨hissued, hnew⟩
    · intro k hk
      exact h.named k (hname ▸ hk)

end Tokens

namespace Client

/-- What holds of the client as long as its events fit. -/
structure Inv (s : Client) : Prop where
  guarded : Guarded s.launches s.starting
  tokens : Tokens s.launches s.runtime s.handshake s.accepted s.issuedNames s.issuedTokens

variable {s : Client} {i : Nat} {phase : LaunchPhase}

/-- A call goes on without beginning a launch and leaves the tokens alone. -/
theorem Inv.setLaunch (h : Inv s) (phase : LaunchPhase) (hcleared : ∀ n, phase ≠ .cleared n)
    (hcreated : ∀ n u, phase ≠ .created n u)
    (hphase : phase.inProgress = true → (s.launches i).inProgress = true) :
    Inv (s.setLaunch i phase) :=
  ⟨h.guarded.move hphase, h.tokens.move hcleared hcreated⟩

/-- `STARTING` is set back while no launch is in progress. -/
theorem Inv.reset (h : Inv s) (hidle : s.Idle) : Inv { s with starting := false } :=
  ⟨Guarded.of_idle hidle, h.tokens⟩

theorem Inv.others (h : Inv s) (hi : (s.launches i).inProgress = true) (j : Nat) (hj : j ≠ i) :
    (s.launches j).inProgress = false := h.guarded.others hi hj

theorem Inv.look (h : Inv s) : Inv (s.look i) := by
  unfold Client.look
  cases hi : s.launches i with
  | idle =>
    exact h.setLaunch (.looked s.running) (by simp) (by simp) (fun hp => by cases hp)
  | _ => exact h

/-- The section under `STARTING` begins a launch only while none is in progress. -/
theorem Inv.lockStarting {running hasProcess : Bool} (h : Inv s)
    (hfits : running = false → s.starting = true → hasProcess = false → s.Idle) :
    Inv (s.lockStarting i running hasProcess) := by
  unfold Client.lockStarting
  by_cases hrepair : (s.starting && !running && !hasProcess) = true
  · have hand := hrepair
    rw [Bool.and_eq_true, Bool.and_eq_true, Bool.not_eq_true', Bool.not_eq_true'] at hand
    obtain ⟨⟨hstarting, hrunning⟩, hprocess⟩ := hand
    have hidle := hfits hrunning hstarting hprocess
    rw [if_pos hrepair, hrunning]
    exact ⟨Guarded.begin hidle, h.tokens.move (by simp) (by simp)⟩
  · rw [if_neg hrepair]
    by_cases hbusy : (s.starting || running) = true
    · simp only [if_pos hbusy]
      exact h.setLaunch .ended (by simp) (by simp) (fun hp => by cases hp)
    · simp only [if_neg hbusy]
      have hidle : s.Idle := by
        intro j
        by_contra hne
        have hset := h.guarded.starting j (by simpa using hne)
        exact hbusy (by rw [hset]; rfl)
      exact ⟨Guarded.begin hidle, h.tokens.move (by simp) (by simp)⟩

theorem Inv.acquire {hasProcess : Bool} (h : Inv s) (hfits : Fits s (.acquire i hasProcess)) :
    Inv (s.acquire i hasProcess) := by
  unfold Client.acquire
  cases hi : s.launches i with
  | looked running =>
    refine h.lockStarting fun hrunning => hfits ?_
    rw [hi, hrunning]
  | _ => exact h

theorem Inv.clear (h : Inv s) : Inv (s.clear i) := by
  unfold Client.clear
  cases hi : s.launches i with
  | begun n =>
    have hprog : (s.launches i).inProgress = true := by
      rw [hi]
      rfl
    exact ⟨h.guarded.move fun _ => hprog, h.tokens.clear (h.others hprog) (by simp)⟩
  | discarding =>
    have hprog : (s.launches i).inProgress = true := by
      rw [hi]
      rfl
    exact ⟨h.guarded.move fun _ => hprog, h.tokens.clear (h.others hprog) (by simp)⟩
  | _ => exact h

/-- The section under `SHMEM`, with a name and a token that are new. -/
theorem Inv.lockShmem {n : Nat} {name : String} {token : IpcToken} (h : Inv s)
    (hi : s.launches i = .cleared n) (hname : name ∉ s.issuedNames)
    (htoken : token ∉ s.issuedTokens) : Inv (s.lockShmem i n name token) := by
  have hprog : (s.launches i).inProgress = true := by
    rw [hi]
    rfl
  unfold Client.lockShmem
  by_cases hvalid : isValidPortableServiceShmemName name = true
  · rw [if_pos hvalid]
    exact ⟨h.guarded.move fun _ => hprog,
      h.tokens.create (h.others hprog) hi hname htoken (Prod.eta _).symm⟩
  · rw [if_neg hvalid]
    exact h.setLaunch _ (by simp) (by simp) (fun hp => by cases hp)

theorem Inv.create {random : Option (UInt32 × Vector UInt8 32)} (h : Inv s)
    (hfits : Fits s (.create i random)) : Inv (s.create i random) := by
  unfold Client.create
  cases hi : s.launches i with
  | cleared n =>
    cases random with
    | none => exact h.setLaunch .failed (by simp) (by simp) (fun hp => by cases hp)
    | some drawn =>
      obtain ⟨hname, htoken⟩ := hfits drawn.1 drawn.2 rfl
      exact h.lockShmem hi hname htoken
  | _ => exact h

theorem Inv.publish (h : Inv s) : Inv (s.publish i) := by
  unfold Client.publish
  cases hi : s.launches i with
  | created n token =>
    have hprog : (s.launches i).inProgress = true := by
      rw [hi]
      rfl
    exact ⟨h.guarded.move fun _ => hprog, h.tokens.publish (h.others hprog) hi⟩
  | _ => exact h

theorem Inv.runHelper {outcome : RunOutcome} (h : Inv s) : Inv (s.runHelper i outcome) := by
  unfold Client.runHelper
  cases hi : s.launches i with
  | prepared n =>
    have hprog : (s.launches i).inProgress = true := by
      rw [hi]
      rfl
    cases outcome with
    | ran => exact ⟨h.guarded.move fun _ => hprog, h.tokens.move (by simp) (by simp)⟩
    | failed => exact h.setLaunch _ (by simp) (by simp) fun _ => hprog
    | unknownExe => exact h.setLaunch _ (by simp) (by simp) fun _ => hprog
  | _ => exact h

theorem Inv.leave (h : Inv s) : Inv (s.leave i) := by
  unfold Client.leave
  cases hi : s.launches i with
  | watched => exact h.setLaunch .ended (by simp) (by simp) (fun hp => by cases hp)
  | _ => exact h

theorem Inv.resetFailed (h : Inv s) (hfits : Fits s (.resetFailed i)) :
    Inv (s.resetFailed i) := by
  unfold Client.resetFailed
  cases hi : s.launches i with
  | failed =>
    exact (h.reset (hfits hi)).setLaunch .ended (by simp) (by simp)
      (fun hp => by cases hp)
  | _ => exact h

/-- The watchdog of a launch goes on. -/
theorem Inv.watch (h : Inv s) (hfits : Fits s (.watchdog i)) : Inv (s.watch i) := by
  unfold Client.watch
  cases hi : s.watchdogs i with
  | decided => exact ⟨Guarded.of_idle (hfits hi), h.tokens⟩
  | _ => exact ⟨h.guarded, h.tokens⟩

theorem Inv.validate {candidate : IpcToken} (h : Inv s) : Inv (s.validate candidate) := by
  unfold Client.validate
  cases hhandshake : s.handshake with
  | idle =>
    rcases hconsume : s.runtime.consumeRuntimeIpcTokenIfMatch candidate with
      ⟨matched, shmemName, runtime⟩
    cases matched with
    | true => exact ⟨h.guarded, h.tokens.consume hconsume⟩
    | false =>
      have htokens := h.tokens
      rw [hhandshake, ← Runtime.consume_unmatched hconsume] at htokens
      exact ⟨h.guarded, htokens⟩
  | _ => exact h

theorem Inv.accept (h : Inv s) : Inv s.accept := by
  unfold Client.accept
  cases hhandshake : s.handshake with
  | matched token shmemName =>
    have htokens := h.tokens
    rw [hhandshake] at htokens
    exact ⟨h.guarded, htokens.accept⟩
  | _ => exact h

theorem Inv.reject (h : Inv s) : Inv s.reject := by
  unfold Client.reject
  cases hhandshake : s.handshake with
  | matched token shmemName =>
    have htokens := h.tokens
    rw [hhandshake] at htokens
    exact ⟨h.guarded, htokens.reject⟩
  | _ => exact h

theorem Inv.resetRejected (h : Inv s) (hfits : Fits s .resetRejected) :
    Inv s.resetRejected := by
  unfold Client.resetRejected
  cases hhandshake : s.handshake with
  | resetting => exact ⟨Guarded.of_idle (hfits hhandshake), h.tokens.drop (by simp)⟩
  | _ => exact h

theorem Inv.serve {c : Nat} (h : Inv s) : Inv (s.serve c) := by
  unfold Client.serve
  split
  · exact ⟨h.guarded, h.tokens⟩
  · exact h

/-- The task of a connection goes on. -/
theorem Inv.advance {c : Nat} {old new : ConnectionPhase} {next : Client} (h : Inv s)
    (hnext : s.connections c = old → Inv next) : Inv (s.advance c old new next) := by
  unfold Client.advance
  by_cases hold : s.connections c = old
  · rw [if_pos hold]
    exact ⟨(hnext hold).guarded, (hnext hold).tokens⟩
  · rw [if_neg hold]
    exact h

/-- What one event that fits does to the client. -/
theorem Inv.step {e : Event} (h : Inv s) (hfits : Fits s e) : Inv (s.step e) := by
  cases e with
  | look i => exact h.look
  | acquire i hasProcess => exact h.acquire hfits
  | clear i => exact h.clear
  | create i random => exact h.create hfits
  | publish i => exact h.publish
  | run i outcome => exact h.runHelper
  | leave i => exact h.leave
  | resetFailed i => exact h.resetFailed hfits
  | watchdog i => exact h.watch hfits
  | validate candidate => exact h.validate
  | accept => exact h.accept
  | reject => exact h.reject
  | resetRejected => exact h.resetRejected hfits
  | serve c => exact h.serve
  | pong c => exact h.advance fun _ => ⟨h.guarded, h.tokens⟩
  | pongReset c => exact h.advance fun hc => h.reset (hfits hc)
  | stop c => exact h.advance fun _ => ⟨h.guarded, h.tokens⟩
  | stopReset c => exact h.advance fun hc => ⟨Guarded.of_idle (hfits hc), h.tokens⟩

theorem Inv.start {pid : Nat} : Inv { pid } := by
  refine ⟨Guarded.of_idle fun _ => rfl, ?_⟩
  refine ⟨?_, ?_, ?_, ?_, ?_, ?_, ?_, List.nodup_nil⟩
  · intro t ht
    cases ht
  · intro i n hi
    cases hi
  · intro i n u hi
    cases hi
  · intro t name ht
    cases ht
  · intro t ht
    cases ht
  · intro n hn
    cases hn
  · intro t ht
    cases ht

/-- In a run whose events fit, launches exclude each other, the shared memory has the token that is
accepted while no launch is in progress, and no token is accepted twice. -/
theorem launches_apart_of_fits {pid : Nat} {es : List Event}
    (h : Allowed Client.step Fits { pid } es) :
    (run Client.step { pid } es).Exclusive ∧
      ((run Client.step { pid } es).Idle → (run Client.step { pid } es).runtime.Matched) ∧
      (run Client.step { pid } es).accepted.Nodup := by
  have hinv : Inv (run Client.step { pid } es) :=
    run_keeps (fun s e hs he => hs.step he) Inv.start h
  exact ⟨hinv.guarded.exclusive, fun _ => hinv.tokens.matched, hinv.tokens.once⟩

/-- A launch whose helper connects before the call has returned. -/
theorem launches_apart_connected :
    (run Client.step { pid := 7 } [.look 0, .acquire 0 false, .clear 0,
      .create 0 (some (5, Vector.replicate 32 171)), .publish 0, .run 0 .ran,
      .validate (generateOneTimeIpcToken (Vector.replicate 32 171)), .accept, .leave 0, .serve 0,
      .pong 0]).accepted.Nodup := by
  refine (launches_apart_of_fits ?_).2.2
  simp only [Allowed, Fits, true_and, and_true]
  refine ⟨fun _ hstarting => ?_, fun number bytes _ => ⟨?_, ?_⟩⟩
  · cases hstarting
  · exact List.not_mem_nil
  · exact List.not_mem_nil

/-- The repair of a state that is not stale lets a second launch begin next to the first one. -/
theorem launches_apart_repair : ¬ (run Client.step { pid := 7 }
    [.look 0, .acquire 0 false, .look 1, .acquire 1 false]).Exclusive := by
  intro h
  have heq := h 0 1 rfl rfl
  cases heq

end Client

end MDesk.PortableService
