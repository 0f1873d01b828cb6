import MDesk.Net.Handshake

/-!
# Whose key it is

A controller's key reaches the one host run it was sealed to, and no one else, while the id it
dialled stands for an honest host. A host, which does not know who it talks to, may be given a
key that its controller made for somebody else.
-/

namespace MDesk.Net.Handshake

open MDesk.Core MDesk.Core.Symbolic

variable {R : String → Name → Prop} {W W' : World} {h : HostRun} {c : ControllerRun} {d : Dial}
  {res : Received} {peerId : String} {t : Value}

/-- The controller dialled an id of the adversary's. -/
def ControllerRun.Lured (c : ControllerRun) : Prop := ∃ n, c.signPk = .signPk (.adversary n)

/-- The key went to the box key of a host run. -/
def ControllerRun.SealedTo (c : ControllerRun) (h : HostRun) : Prop :=
  c.sealedKey = .boxed c.key (.boxPk (.honest h.run)) (.honest c.run)

/-- What the server, the hosts and the controllers have done with their names. -/
def World.deeds (R : String → Name → Prop) (W : World) : Deeds Name where
  leaked n := ∃ c ∈ W.controllers, n = .honest c.run ∧ c.Lured
  issued n body :=
    (∃ id m, R id m ∧ n = .rendezvous ∧ body = .pair (.text id) (.signPk m)) ∨
    ∃ h ∈ W.hosts, n = .honest h.host ∧ body = .pair (.text h.id) (.boxPk (.honest h.run))
  posted body pk n := ∃ c ∈ W.controllers, c.sealedKey = .boxed body pk n

/-- Whom a controller has sealed its key to: the adversary may choose if the id is its own. -/
structure ControllerRun.Vouched (R : String → Name → Prop) (W : World) (c : ControllerRun) :
    Prop where
  key : c.key = .key (.honest c.run)
  signer : ∃ n theirPk, R c.peerId n ∧ c.signPk = .signPk n ∧
    c.sealedKey = .boxed c.key theirPk (.honest c.run) ∧
    match n with
    | .adversary _ => True
    | .honest host => ∃ h ∈ W.hosts, h.host = host ∧ h.id = c.peerId ∧
        theirPk = .boxPk (.honest h.run)
    | .rendezvous => ∃ m, theirPk = .signPk m

/-- The runs so far, hosts' and controllers'. -/
def World.runs (W : World) : List Nat :=
  W.hosts.map HostRun.run ++ (W.dialing.map Dial.run ++ W.controllers.map ControllerRun.run)

structure Inv (R : String → Name → Prop) (W : World) : Prop where
  sent : ∀ t ∈ W.sent, Safe Bad (W.deeds R) t
  fresh : ∀ r ∈ W.runs, r < W.next
  nodup : W.runs.Nodup
  waiting : ∀ h ∈ W.waiting, h ∈ W.hosts
  dialing : ∀ d ∈ W.dialing, ∃ n, R d.peerId n ∧ d.signPk = .signPk n
  vouched : ∀ c ∈ W.controllers, c.Vouched R W
  installed : ∀ p ∈ W.installed, p.1 ∈ W.hosts ∧
    (Safe Bad (W.deeds R) p.2 ∨ ∃ c ∈ W.controllers, p.2 = c.key ∧ c.SealedTo p.1)

section Growth

variable (hhosts : ∀ h ∈ W.hosts, h ∈ W'.hosts)
  (hcontrollers : ∀ c ∈ W.controllers, c ∈ W'.controllers)

include hhosts hcontrollers

theorem safe_grows (h : Safe Bad (W.deeds R) t) : Safe Bad (W'.deeds R) t := by
  refine h.mono ?_ ?_ ?_
  · rintro n ⟨c, hc, hn⟩
    exact ⟨c, hcontrollers c hc, hn⟩
  · rintro n body (hserver | ⟨h, hh, hbody⟩)
    · exact .inl hserver
    · exact .inr ⟨h, hhosts h hh, hbody⟩
  · rintro body pk n ⟨c, hc, hsealed⟩
    exact ⟨c, hcontrollers c hc, hsealed⟩

omit hcontrollers in
theorem vouched_grows (h : c.Vouched R W) : c.Vouched R W' := by
  refine ⟨h.key, ?_⟩
  obtain ⟨n, theirPk, hR, hpk, hsealed, hn⟩ := h.signer
  refine ⟨n, theirPk, hR, hpk, hsealed, ?_⟩
  match n with
  | .adversary _ => trivial
  | .rendezvous => exact hn
  | .honest host =>
    obtain ⟨g, hg, hhost⟩ := hn
    exact ⟨g, hhosts g hg, hhost⟩

/-- The part of the invariant about keys that are set stands as the world grows. -/
theorem installed_grows {p : HostRun × Value}
    (h : p.1 ∈ W.hosts ∧ (Safe Bad (W.deeds R) p.2 ∨
      ∃ c ∈ W.controllers, p.2 = c.key ∧ c.SealedTo p.1)) :
    p.1 ∈ W'.hosts ∧ (Safe Bad (W'.deeds R) p.2 ∨
      ∃ c ∈ W'.controllers, p.2 = c.key ∧ c.SealedTo p.1) := by
  refine ⟨hhosts _ h.1, h.2.imp (safe_grows hhosts hcontrollers) ?_⟩
  rintro ⟨c, hc, hkey⟩
  exact ⟨c, hcontrollers c hc, hkey⟩

end Growth

section Knowledge

/-- The adversary knows no more than is safe. -/
theorem Inv.safe (hI : Inv R W) (ht : W.Knows R t) : Safe Bad (W.deeds R) t := by
  refine Derives.safe ?_ ht
  rintro t (⟨id, n, hR, rfl⟩ | hsent)
  · exact ⟨⟨trivial, trivial⟩, .inr (.inl ⟨id, n, hR, rfl, rfl⟩)⟩
  · exact hI.sent t hsent

/-- Two controllers with one run are one. -/
theorem Inv.controller_eq (hI : Inv R W) {c c' : ControllerRun} (hc : c ∈ W.controllers)
    (hc' : c' ∈ W.controllers) (hrun : c.run = c'.run) : c = c' := by
  have hnodup : (W.controllers.map ControllerRun.run).Nodup :=
    (List.nodup_append.mp (List.nodup_append.mp hI.nodup).2.1).2.1
  exact List.inj_on_of_nodup_map hnodup hc hc' hrun

theorem Inv.host_eq (hI : Inv R W) {g g' : HostRun} (hg : g ∈ W.hosts) (hg' : g' ∈ W.hosts)
    (hrun : g.run = g'.run) : g = g' :=
  List.inj_on_of_nodup_map (List.nodup_append.mp hI.nodup).1 hg hg' hrun

theorem Inv.host_ne_controller (hI : Inv R W) (hh : h ∈ W.hosts) (hc : c ∈ W.controllers) :
    h.run ≠ c.run := by
  refine (List.nodup_append.mp hI.nodup).2.2 h.run (List.mem_map_of_mem hh) c.run ?_
  exact List.mem_append_right _ (List.mem_map_of_mem hc)

/-- A key that is safe to know was sealed to the adversary. -/
theorem Inv.lured_of_safe (hI : Inv R W) (hc : c ∈ W.controllers)
    (hkey : Safe Bad (W.deeds R) c.key) : c.Lured := by
  rw [(hI.vouched c hc).key] at hkey
  obtain ⟨c', hc', hrun, hlured⟩ := hkey.resolve_left id
  obtain rfl := hI.controller_eq hc hc' (Name.honest.inj hrun)
  exact hlured

/-- What a host opens is known to the adversary, or was sealed to this very run. -/
theorem Inv.opened (hI : Inv R W) (hh : h ∈ W.hosts) {theirPk sealedBody key : Value}
    (hsafe : Safe Bad (W.deeds R) sealedBody)
    (hopen : sealedBody.boxOpen theirPk (.honest h.run) = some key) :
    Safe Bad (W.deeds R) key ∨ ∃ c ∈ W.controllers, key = c.key ∧ c.SealedTo h := by
  obtain ⟨pk, n, rfl, hends⟩ := Term.boxOpen_eq_some hopen
  refine hsafe.imp_right ?_
  rintro ⟨⟨c, hc, hsealed⟩, -, -⟩
  obtain ⟨m, theirPk', -, -, hbox, -⟩ := (hI.vouched c hc).signer
  obtain ⟨rfl, rfl, rfl⟩ := Term.boxed.inj (hbox.symm.trans hsealed)
  refine ⟨c, hc, rfl, ?_⟩
  rcases hends with ⟨rfl, -⟩ | ⟨hrun, -⟩
  · exact hbox
  · exact absurd (Name.honest.inj hrun).symm (hI.host_ne_controller hh hc)

end Knowledge

section Steps

theorem Inv.accept (hI : Inv R W) (host : Nat) (id : String) : Inv R (W.accept host id) := by
  have hhosts : ∀ h ∈ W.hosts, h ∈ (W.accept host id).hosts := fun h hh =>
    List.mem_cons_of_mem _ hh
  have hcontrollers : ∀ c ∈ W.controllers, c ∈ (W.accept host id).controllers := fun c hc => hc
  refine ⟨?_, ?_, ?_, ?_, hI.dialing, ?_, ?_⟩
  · intro t ht
    rcases List.mem_cons.mp ht with rfl | ht
    · exact ⟨⟨trivial, trivial⟩, .inr (.inr ⟨_, List.mem_cons_self, rfl, rfl⟩)⟩
    · exact safe_grows hhosts hcontrollers (hI.sent t ht)
  · intro r hr
    rcases List.mem_cons.mp hr with rfl | hr
    · exact Nat.lt_succ_self _
    · exact Nat.lt_succ_of_lt (hI.fresh r hr)
  · refine List.nodup_cons.mpr ⟨fun hnext => ?_, hI.nodup⟩
    exact Nat.lt_irrefl _ (hI.fresh _ hnext)
  · intro h hh
    rcases List.mem_cons.mp hh with rfl | hh
    · exact List.mem_cons_self
    · exact hhosts h (hI.waiting h hh)
  · exact fun c hc => vouched_grows hhosts (hI.vouched c hc)
  · exact fun p hp => installed_grows hhosts hcontrollers (hI.installed p hp)

theorem Inv.toHost (hI : Inv R W) (hh : h ∈ W.waiting) (hres : ∀ t ∈ res.values, W.Knows R t) :
    Inv R (W.toHost h res) := by
  have hwaiting : ∀ g ∈ W.waiting.erase h, g ∈ W.hosts := fun g hg =>
    hI.waiting g (List.mem_of_mem_erase hg)
  rcases W.toHost_cases h res with ⟨theirPk, sealedBody, key, rfl, hopen, heq⟩ | heq
  · rw [heq]
    refine ⟨hI.sent, hI.fresh, hI.nodup, hwaiting, hI.dialing,
      fun c hc => ⟨(hI.vouched c hc).key, (hI.vouched c hc).signer⟩, ?_⟩
    intro p hp
    rcases List.mem_cons.mp hp with rfl | hp
    · have hsafe : Safe Bad (W.deeds R) sealedBody := hI.safe (hres sealedBody (by
        simp [Received.values, Message.values, Union.values]))
      exact ⟨hI.waiting h hh, hI.opened (hI.waiting h hh) hsafe hopen⟩
    · exact hI.installed p hp
  · rw [heq]
    exact ⟨hI.sent, hI.fresh, hI.nodup, hwaiting, hI.dialing,
      fun c hc => ⟨(hI.vouched c hc).key, (hI.vouched c hc).signer⟩, hI.installed⟩

/-- Texts may be sent to anybody. -/
theorem Inv.texts (hI : Inv R W) {vs : List Value} (hvs : ∀ t ∈ vs, t = .text "") :
    Inv R { W with sent := vs ++ W.sent } := by
  refine ⟨?_, hI.fresh, hI.nodup, hI.waiting, hI.dialing,
    fun c hc => ⟨(hI.vouched c hc).key, (hI.vouched c hc).signer⟩, hI.installed⟩
  intro t ht
  rcases List.mem_append.mp ht with ht | ht
  · rw [hvs t ht]
    trivial
  · exact hI.sent t ht

theorem Inv.dropDial (hI : Inv R W) (d : Dial) :
    Inv R { W with dialing := W.dialing.erase d } := by
  have hruns : (World.runs { W with dialing := W.dialing.erase d }).Sublist W.runs :=
    (List.Sublist.refl _).append ((List.erase_sublist.map _).append (.refl _))
  exact ⟨hI.sent, fun r hr => hI.fresh r (hruns.subset hr), hruns.nodup hI.nodup, hI.waiting,
    fun g hg => hI.dialing g (List.mem_of_mem_erase hg),
    fun c hc => ⟨(hI.vouched c hc).key, (hI.vouched c hc).signer⟩, hI.installed⟩

theorem Inv.dial (hI : Inv R W) {signedIdPk : Value} {rsPk : Option Value}
    (hsigned : W.Knows R signedIdPk) (hrs : ∀ pk ∈ rsPk, pk = .signPk .rendezvous) :
    Inv R (W.dial peerId signedIdPk rsPk) := by
  cases hpk : signPkOf peerId signedIdPk rsPk with
  | none =>
    have heq : W.dial peerId signedIdPk rsPk = { W with sent := unvouched.values ++ W.sent } := by
      simp only [World.dial, hpk]
    rw [heq]
    exact hI.texts (by simp [unvouched, Outcome.values, Message.values])
  | some signPk =>
    have heq : W.dial peerId signedIdPk rsPk =
        { W with next := W.next + 1, dialing := ⟨W.next, peerId, signPk⟩ :: W.dialing } := by
      simp only [World.dial, hpk]
    have hruns : (W.dial peerId signedIdPk rsPk).runs.Perm (W.next :: W.runs) := by
      rw [heq]
      exact List.perm_middle
    obtain ⟨rs, hmem, hdec⟩ := signPkOf_eq_some hpk
    obtain rfl := hrs rs hmem
    obtain ⟨n, rfl, hn⟩ := decodeIdPk_eq_some hdec
    obtain rfl := Term.signPk.inj hn
    rw [heq] at hruns ⊢
    refine ⟨hI.sent, ?_, ?_, hI.waiting, ?_,
      fun c hc => ⟨(hI.vouched c hc).key, (hI.vouched c hc).signer⟩, hI.installed⟩
    · intro r hr
      rcases List.mem_cons.mp (hruns.subset hr) with rfl | hr
      · exact Nat.lt_succ_self _
      · exact Nat.lt_succ_of_lt (hI.fresh r hr)
    · refine hruns.nodup_iff.mpr (List.nodup_cons.mpr ⟨fun hnext => ?_, hI.nodup⟩)
      exact Nat.lt_irrefl _ (hI.fresh _ hnext)
    · intro d hd
      rcases List.mem_cons.mp hd with rfl | hd
      · -- only the server itself has signed under its key
        obtain ⟨-, hbad | ⟨id, m, hR, -, hbody⟩ | ⟨h, -, hhost, -⟩⟩ := hI.safe hsigned
        · exact hbad.elim
        · obtain ⟨hid, hpk⟩ := Term.pair.inj hbody
          obtain rfl := Term.text.inj hid
          exact ⟨m, hR, hpk⟩
        · cases hhost
      · exact hI.dialing d hd

/-- A signed box key is that of a host run, where the signer is a host. -/
theorem Inv.signer (hI : Inv R W) (hd : d ∈ W.dialing) {si theirPk : Value}
    (hsi : W.Knows R si) (hdec : decodeIdPk si d.signPk = some (d.peerId, theirPk)) :
    ∃ n, R d.peerId n ∧ d.signPk = .signPk n ∧
      match n with
      | .adversary _ => True
      | .honest host => ∃ h ∈ W.hosts, h.host = host ∧ h.id = d.peerId ∧
          theirPk = .boxPk (.honest h.run)
      | .rendezvous => ∃ m, theirPk = .signPk m := by
  obtain ⟨n, hR, hpk⟩ := hI.dialing d hd
  obtain ⟨n', rfl, hpk'⟩ := decodeIdPk_eq_some hdec
  obtain rfl := Term.signPk.inj (hpk.symm.trans hpk')
  refine ⟨n, hR, hpk, ?_⟩
  obtain ⟨-, hsigned⟩ := hI.safe hsi
  match n with
  | .adversary _ => trivial
  | .rendezvous =>
    obtain hbad | ⟨id, m, -, -, hbody⟩ | ⟨h, -, hhost, -⟩ := hsigned
    · exact hbad.elim
    · exact ⟨m, (Term.pair.inj hbody).2⟩
    · cases hhost
  | .honest host =>
    obtain hbad | ⟨id, m, -, hserver, -⟩ | ⟨h, hh, hhost, hbody⟩ := hsigned
    · exact hbad.elim
    · cases hserver
    · obtain ⟨hid, htheir⟩ := Term.pair.inj hbody
      exact ⟨h, hh, (Name.honest.inj hhost).symm, (Term.text.inj hid).symm, htheir⟩

theorem Inv.toController (hI : Inv R W) (hd : d ∈ W.dialing)
    (hres : ∀ t ∈ res.values, W.Knows R t) : Inv R (W.toController d res) := by
  rcases W.toController_cases d res with ⟨si, theirPk, rfl, hdec, heq⟩ | ⟨vs, hvs, heq⟩
  · have hsi : W.Knows R si := hres si List.mem_cons_self
    obtain ⟨n, hR, hpk, htheir⟩ := hI.signer hd hsi hdec
    generalize W.toController d (.message (some (.signedId si))) = W' at heq
    have hhosts : ∀ h ∈ W.hosts, h ∈ W'.hosts := by
      rw [heq]
      exact fun h hh => hh
    have hcontrollers : ∀ c ∈ W.controllers, c ∈ W'.controllers := by
      rw [heq]
      exact fun c hc => List.mem_cons_of_mem _ hc
    have hruns : W'.runs.Perm W.runs := by
      rw [heq]
      refine List.Perm.append_left _ (List.perm_middle.trans ?_)
      exact ((List.perm_cons_erase hd).map Dial.run).symm.append_right _
    have hsent : Safe Bad (W'.deeds R)
        (.boxed (.key (.honest d.run)) theirPk (.honest d.run)) := by
      rw [heq]
      match n with
      | .adversary m => exact .inl (.inr ⟨_, List.mem_cons_self, rfl, m, hpk⟩)
      | .honest host =>
        obtain ⟨h, -, -, -, rfl⟩ := htheir
        refine .inr ⟨⟨_, List.mem_cons_self, rfl⟩, id, ?_⟩
        rintro m hm
        obtain rfl := Term.boxPk.inj hm
        exact id
      | .rendezvous =>
        obtain ⟨m, rfl⟩ := htheir
        exact .inr ⟨⟨_, List.mem_cons_self, rfl⟩, id, fun m hm => by cases hm⟩
    have hsafe : ∀ t ∈ W.sent, Safe Bad (W'.deeds R) t := fun t ht =>
      safe_grows hhosts hcontrollers (hI.sent t ht)
    have hvouched : ∀ c ∈ W.controllers, c.Vouched R W' := fun c hc =>
      vouched_grows hhosts (hI.vouched c hc)
    have hinstalled := fun p hp => installed_grows hhosts hcontrollers (hI.installed p hp)
    rw [heq] at hruns hsent hsafe hvouched hinstalled ⊢
    refine ⟨?_, fun r hr => hI.fresh r (hruns.subset hr), hruns.nodup_iff.mpr hI.nodup,
      hI.waiting, fun g hg => hI.dialing g (List.mem_of_mem_erase hg), ?_, hinstalled⟩
    · intro t ht
      rcases List.mem_cons.mp ht with rfl | ht
      · trivial
      · rcases List.mem_cons.mp ht with rfl | ht
        · exact hsent
        · exact hsafe t ht
    · intro c hc
      rcases List.mem_cons.mp hc with rfl | hc
      · exact ⟨rfl, n, theirPk, hR, hpk, rfl, htheir⟩
      · exact hvouched c hc
  · rw [heq]
    exact (hI.dropDial d).texts hvs

theorem inv_init : Inv R World.init :=
  ⟨by simp [World.init], by simp [World.init, World.runs], List.nodup_nil, by simp [World.init],
    by simp [World.init], by simp [World.init], by simp [World.init]⟩

theorem Inv.step (hI : Inv R W) (e : Event) (he : W.Enabled R e) : Inv R (step W e) :=
  match e with
  | .accept host id => hI.accept host id
  | .toHost _ _ => hI.toHost he.1 he.2
  | .dial _ _ _ => hI.dial he.1 he.2
  | .toController _ _ => hI.toController he.1 he.2

/-- The invariant holds whatever the adversary does. -/
theorem inv_run {es : List Event} (hes : Allowed step (World.Enabled R) .init es) :
    Inv R (run step .init es) :=
  run_keeps (fun _ e hI he => hI.step e he) inv_init hes

end Steps

section Authentic

/-- An id that stands for an honest host alone lures nobody. -/
theorem Inv.sealed_to_host (hI : Inv R W) {host : Nat} (hR : ∀ n, R peerId n → n = .honest host)
    (hc : c ∈ W.controllers) (hid : c.peerId = peerId) :
    ¬ c.Lured ∧ ∃ h ∈ W.hosts, h.host = host ∧ h.id = peerId ∧ c.SealedTo h := by
  obtain ⟨n, theirPk, hn, hpk, hsealed, hsigner⟩ := (hI.vouched c hc).signer
  subst hid
  obtain rfl := hR n hn
  constructor
  · rintro ⟨m, hm⟩
    cases hpk.symm.trans hm
  · obtain ⟨h, hh, hhost, hid, rfl⟩ := hsigner
    exact ⟨h, hh, hhost, hid, hsealed⟩

theorem Inv.keys_nodup (hI : Inv R W) : (W.controllers.map ControllerRun.key).Nodup := by
  have hruns : (W.controllers.map ControllerRun.run).Nodup :=
    (List.nodup_append.mp (List.nodup_append.mp hI.nodup).2.1).2.1
  refine List.Nodup.map_on ?_ hruns.of_map
  intro c hc c' hc' hkey
  rw [(hI.vouched c hc).key, (hI.vouched c' hc').key] at hkey
  exact hI.controller_eq hc hc' (Name.honest.inj (Term.key.inj hkey))

/-- A key of a controller that a host sets was made for this run, if not for the adversary. -/
theorem Inv.set_key (hI : Inv R W) {p : HostRun × Value} (hp : p ∈ W.installed)
    (hc : c ∈ W.controllers) (hkey : p.2 = c.key) :
    (∃ n, R c.peerId (.adversary n)) ∨
      p.1.id = c.peerId ∧ R c.peerId (.honest p.1.host) ∧ c.SealedTo p.1 := by
  obtain ⟨n, theirPk, hn, hpk, hsealed, hsigner⟩ := (hI.vouched c hc).signer
  obtain ⟨hhost, hsafe | ⟨c', hc', hkey', hto⟩⟩ := hI.installed p hp
  · obtain ⟨m, hm⟩ := hI.lured_of_safe hc (hkey ▸ hsafe)
    obtain rfl := Term.signPk.inj (hpk.symm.trans hm)
    exact .inl ⟨m, hn⟩
  · have hsame : c'.key = c.key := hkey'.symm.trans hkey
    rw [(hI.vouched c hc).key, (hI.vouched c' hc').key] at hsame
    obtain rfl := hI.controller_eq hc' hc (Name.honest.inj (Term.key.inj hsame))
    have htheir : theirPk = .boxPk (.honest p.1.run) :=
      (Term.boxed.inj (hsealed.symm.trans hto)).2.1
    match n with
    | .adversary m => exact .inl ⟨m, hn⟩
    | .rendezvous =>
      obtain ⟨m, hm⟩ := hsigner
      cases hm.symm.trans htheir
    | .honest host =>
      obtain ⟨h, hh, rfl, hid, hbox⟩ := hsigner
      have hrun := Name.honest.inj (Term.boxPk.inj (hbox.symm.trans htheir))
      obtain rfl := hI.host_eq hh hhost hrun
      exact .inr ⟨hid, hn, hto⟩

/-- In every run, with an adversary on every connection: a controller that sets a key for an id
of one host has sealed it to a box key of that host, and only they know it; no two controllers
have one key; and a controller's key that a host sets was sealed to this run of the host, which
the controller dialled, unless the id it dialled is one of the adversary's. -/
theorem handshake_authentic (R : String → Name → Prop) {es : List Event}
    (hes : Allowed step (World.Enabled R) .init es) :
    (∀ peerId host, (∀ n, R peerId n → n = .honest host) →
      ∀ c ∈ (run step .init es).controllers, c.peerId = peerId →
        (∃ h ∈ (run step .init es).hosts, h.host = host ∧ h.id = peerId ∧ c.SealedTo h) ∧
        ¬ (run step .init es).Knows R c.key) ∧
    ((run step .init es).controllers.map ControllerRun.key).Nodup ∧
    ∀ p ∈ (run step .init es).installed, ∀ c ∈ (run step .init es).controllers, p.2 = c.key →
      (∃ n, R c.peerId (.adversary n)) ∨
        p.1.id = c.peerId ∧ R c.peerId (.honest p.1.host) ∧ c.SealedTo p.1 := by
  have hI := inv_run hes
  refine ⟨fun peerId host hR c hc hid => ?_, hI.keys_nodup, fun p hp c hc => hI.set_key hp hc⟩
  obtain ⟨hlured, hto⟩ := hI.sealed_to_host hR hc hid
  exact ⟨hto, fun hknown => hlured (hI.lured_of_safe hc (hI.safe hknown))⟩

/-- Host 7 is registered, and so is an id of the adversary's. -/
def Registered (id : String) (n : Name) : Prop :=
  id = "host" ∧ n = .honest 7 ∨ id = "mallory" ∧ n = .adversary 0

def hostRun : HostRun := ⟨0, 7, "host"⟩

/-- The messages of an honest handshake, delivered as they are. -/
def delivered : List Event :=
  [.accept 7 "host",
    .dial "host" (.signed (.pair (.text "host") (.signPk (.honest 7))) .rendezvous)
      (some (.signPk .rendezvous)),
    .toController ⟨1, "host", .signPk (.honest 7)⟩ (.message (some (.signedId hostRun.signedId))),
    .toHost hostRun (.message (some (.publicKey (.boxPk (.honest 1))
      (.boxed (.key (.honest 1)) (.boxPk (.honest 0)) (.honest 1)))))]

theorem delivered_allowed : Allowed step (World.Enabled Registered) .init delivered := by
  refine ⟨trivial, ⟨.known (.inl ⟨"host", .honest 7, .inl ⟨rfl, rfl⟩, rfl⟩), ?_⟩, ⟨?_, ?_⟩,
    ⟨?_, ?_⟩, trivial⟩
  · intro pk hpk
    exact (Option.some.inj hpk).symm
  · decide +kernel
  · intro t ht
    obtain rfl := List.mem_singleton.mp ht
    exact .known (.inr (by decide +kernel))
  · decide +kernel
  · intro t ht
    rcases List.mem_pair.mp ht with rfl | rfl
    · exact .boxPk _
    · exact .known (.inr (by decide +kernel))

theorem registered_host {n : Name} (h : Registered "host" n) : n = .honest 7 := by
  rcases h with ⟨-, rfl⟩ | ⟨hid, -⟩
  · rfl
  · exact absurd hid (by decide)

theorem handshake_authentic_sample :
    (hostRun, .key (.honest 1)) ∈ (run step .init delivered).installed ∧
    ¬ (run step .init delivered).Knows Registered (.key (.honest 1)) := by
  have hcontroller : (⟨1, "host", .signPk (.honest 7),
      .boxed (.key (.honest 1)) (.boxPk (.honest 0)) (.honest 1), .key (.honest 1)⟩ :
        ControllerRun) ∈ (run step .init delivered).controllers := by
    decide +kernel
  obtain ⟨hhost, -, -⟩ := handshake_authentic Registered delivered_allowed
  exact ⟨by decide +kernel, (hhost "host" 7 (fun _ => registered_host) _ hcontroller rfl).2⟩

/-- A controller calls the adversary, which hands the key on to a host. -/
def handedOn : List Event :=
  [.accept 7 "host",
    .dial "mallory" (.signed (.pair (.text "mallory") (.signPk (.adversary 0))) .rendezvous)
      (some (.signPk .rendezvous)),
    .toController ⟨1, "mallory", .signPk (.adversary 0)⟩ (.message (some (.signedId
      (.signed (.pair (.text "mallory") (.boxPk (.adversary 0))) (.adversary 0))))),
    .toHost hostRun (.message (some (.publicKey (.boxPk (.adversary 0))
      (.boxed (.key (.honest 1)) (.boxPk (.honest 0)) (.adversary 0)))))]

theorem handedOn_allowed : Allowed step (World.Enabled Registered) .init handedOn := by
  refine ⟨trivial, ⟨.known (.inl ⟨"mallory", .adversary 0, .inr ⟨rfl, rfl⟩, rfl⟩), ?_⟩, ⟨?_, ?_⟩,
    ⟨?_, ?_⟩, trivial⟩
  · intro pk hpk
    exact (Option.some.inj hpk).symm
  · decide +kernel
  · intro t ht
    obtain rfl := List.mem_singleton.mp ht
    exact .sign (.pair (.text _) (.boxPk _)) (.signSk trivial)
  · decide +kernel
  · intro t ht
    rcases List.mem_pair.mp ht with rfl | rfl
    · exact .boxPk _
    · -- it opens the box that the controller has sealed to it
      refine .box (.unboxTo (n := .honest 1) (m := .adversary 0) ?_ (.boxSk trivial))
        (.boxPk _) (.boxSk trivial)
      exact .known (.inr (by decide +kernel))

theorem handed_on_key_set : ¬ ∀ (R : String → Name → Prop) (es : List Event),
    Allowed step (World.Enabled R) .init es →
    ∀ p ∈ (run step .init es).installed, (∀ n, R p.1.id n → n = .honest p.1.host) →
      ∀ c ∈ (run step .init es).controllers, p.2 = c.key →
        c.peerId = p.1.id ∧ c.SealedTo p.1 := by
  intro hall
  have hinstalled : (hostRun, .key (.honest 1)) ∈ (run step .init handedOn).installed := by
    decide +kernel
  have hcontroller : (⟨1, "mallory", .signPk (.adversary 0),
      .boxed (.key (.honest 1)) (.boxPk (.adversary 0)) (.honest 1), .key (.honest 1)⟩ :
        ControllerRun) ∈ (run step .init handedOn).controllers := by
    decide +kernel
  have hid := (hall Registered handedOn handedOn_allowed _ hinstalled (fun _ => registered_host) _
    hcontroller rfl).1
  exact absurd hid (by decide)

end Authentic

end MDesk.Net.Handshake
