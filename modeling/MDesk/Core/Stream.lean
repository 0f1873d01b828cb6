import Mathlib.Data.List.Basic

/-!
# Resumable stream decoders

A stream decoder is handed a buffer that grows by whatever the transport delivers.
Each call either extracts one item, asks for more input, or fails. The laws of
`StreamDecoder` say that a call never looks past the bytes it needs; they are
enough to show that cutting a stream into chunks does not change what is decoded.
-/

namespace MDesk.Core

/-- A decoder with the laws that make its answers independent of the bytes that
have not arrived yet. The laws are asked of the `valid` states only; `weight`
bounds the items still to come. -/
structure StreamDecoder (σ β α ε : Type*) where
  decode : σ → List β → Except ε (Option α × σ × List β)
  weight : σ → List β → Nat
  valid : σ → Prop
  progress : ∀ {s buf a s' rest}, decode s buf = .ok (some a, s', rest) →
    weight s' rest < weight s buf
  valid_next : ∀ {s buf item s' rest}, valid s → decode s buf = .ok (item, s', rest) → valid s'
  some_append : ∀ {s buf a s' rest} (more : List β), valid s →
    decode s buf = .ok (some a, s', rest) →
    decode s (buf ++ more) = .ok (some a, s', rest ++ more)
  none_append : ∀ {s buf s' rest} (more : List β), valid s →
    decode s buf = .ok (none, s', rest) → decode s (buf ++ more) = decode s' (rest ++ more)
  error_append : ∀ {s buf e} (more : List β), valid s →
    decode s buf = .error e → decode s (buf ++ more) = .error e

namespace StreamDecoder

variable {σ β α ε : Type*} (d : StreamDecoder σ β α ε)

/-- Call the decoder until it asks for more input, keeping the items in order. -/
def drain (s : σ) (buf : List β) : List α × Except ε (σ × List β) :=
  match _h : d.decode s buf with
  | .error e => ([], .error e)
  | .ok (none, s', rest) => ([], .ok (s', rest))
  | .ok (some a, s', rest) => (a :: (drain s' rest).1, (drain s' rest).2)
  termination_by d.weight s buf
  decreasing_by all_goals exact d.progress _h

/-- Continue with `next` from where a drain stopped, unless it failed. -/
def andThen (r : List α × Except ε (σ × List β))
    (next : σ → List β → List α × Except ε (σ × List β)) : List α × Except ε (σ × List β) :=
  match r with
  | (items, .error e) => (items, .error e)
  | (items, .ok (s, rest)) => (items ++ (next s rest).1, (next s rest).2)

/-- Append each chunk to what is left of the buffer and drain it. -/
def feed (s : σ) (buf : List β) : List (List β) → List α × Except ε (σ × List β)
  | [] => ([], .ok (s, buf))
  | chunk :: chunks => andThen (d.drain s (buf ++ chunk)) fun s' rest => feed s' rest chunks

theorem drain_error {s : σ} {buf : List β} {e : ε} (h : d.decode s buf = .error e) :
    d.drain s buf = ([], .error e) := by
  rw [drain]
  split <;> simp_all

theorem drain_none {s s' : σ} {buf rest : List β} (h : d.decode s buf = .ok (none, s', rest)) :
    d.drain s buf = ([], .ok (s', rest)) := by
  rw [drain]
  split <;> simp_all

theorem drain_some {s s' : σ} {buf rest : List β} {a : α}
    (h : d.decode s buf = .ok (some a, s', rest)) :
    d.drain s buf = (a :: (d.drain s' rest).1, (d.drain s' rest).2) := by
  rw [drain]
  split <;> simp_all

/-- Two calls that answer alike drain alike. -/
theorem drain_congr {s t : σ} {buf buf' : List β} (h : d.decode s buf = d.decode t buf') :
    d.drain s buf = d.drain t buf' := by
  cases ht : d.decode t buf' with
  | error e => rw [d.drain_error (h.trans ht), d.drain_error ht]
  | ok r =>
    obtain ⟨item, u, rest⟩ := r
    cases item with
    | none => rw [d.drain_none (h.trans ht), d.drain_none ht]
    | some a => rw [d.drain_some (h.trans ht), d.drain_some ht]

/-- The decoder has nothing more to say about this buffer. -/
def Quiescent (s : σ) (buf : List β) : Prop := d.decode s buf = .ok (none, s, buf)

/-- A request for more input leaves the decoder quiescent. -/
theorem quiescent_of_none {s s' : σ} {buf rest : List β} (hv : d.valid s)
    (h : d.decode s buf = .ok (none, s', rest)) : d.Quiescent s' rest := by
  have hagain := d.none_append [] hv h
  rw [List.append_nil, List.append_nil] at hagain
  exact hagain.symm.trans h

/-- Draining always ends in a valid quiescent state unless the decoder fails. -/
theorem quiescent_of_drain {s s' : σ} {buf rest : List β} {items : List α} (hv : d.valid s)
    (h : d.drain s buf = (items, .ok (s', rest))) : d.valid s' ∧ d.Quiescent s' rest := by
  induction s, buf using drain.induct d generalizing items with
  | case1 s buf e hd => simp [d.drain_error hd] at h
  | case2 s buf t rest' hd =>
    rw [d.drain_none hd] at h
    cases h
    exact ⟨d.valid_next hv hd, d.quiescent_of_none hv hd⟩
  | case3 s buf a t rest' hd ih =>
    rw [d.drain_some hd] at h
    exact ih (d.valid_next hv hd) (Prod.ext rfl (Prod.mk.inj h).2)

theorem andThen_cons (a : α) (r : List α × Except ε (σ × List β))
    (next : σ → List β → List α × Except ε (σ × List β)) :
    andThen (a :: r.1, r.2) next = (a :: (andThen r next).1, (andThen r next).2) := by
  obtain ⟨items, r⟩ := r
  cases r <;> rfl

/-- Draining a longer buffer first drains the part already received. -/
theorem drain_append {s : σ} {buf : List β} (hv : d.valid s) (more : List β) :
    d.drain s (buf ++ more) = andThen (d.drain s buf) fun s' rest => d.drain s' (rest ++ more) := by
  induction s, buf using drain.induct d with
  | case1 s buf e hd =>
    rw [d.drain_error hd, d.drain_error (d.error_append more hv hd)]
    rfl
  | case2 s buf t rest hd =>
    rw [d.drain_none hd, d.drain_congr (d.none_append more hv hd)]
    rfl
  | case3 s buf a t rest hd ih =>
    rw [d.drain_some hd, d.drain_some (d.some_append more hv hd),
      ih (d.valid_next hv hd), andThen_cons]

/-- Chunk boundaries are invisible: feeding chunks to a quiescent decoder is
draining their concatenation. -/
theorem feed_eq_drain {s : σ} {buf : List β} (hv : d.valid s) (h : d.Quiescent s buf)
    (chunks : List (List β)) : d.feed s buf chunks = d.drain s (buf ++ chunks.flatten) := by
  induction chunks generalizing s buf with
  | nil => rw [feed, List.flatten_nil, List.append_nil, d.drain_none h]
  | cons chunk chunks ih =>
    rw [feed, List.flatten_cons, ← List.append_assoc, d.drain_append hv chunks.flatten]
    cases hd : d.drain s (buf ++ chunk) with
    | mk items r =>
      cases r with
      | error e => rfl
      | ok sr =>
        obtain ⟨s', rest⟩ := sr
        obtain ⟨hv', hq⟩ := d.quiescent_of_drain hv hd
        simp only [andThen, ih hv' hq]

section Pending

/-- The items a stream still has to bring, from a decoder that has read part of it, and what
comes behind them. -/
def Pending (ready : σ → Prop) (s : σ) (buf : List β) : List α → List β → Prop
  | [], tail => ready s ∧ buf = tail
  | a :: as, tail =>
    ∃ s' rest, d.decode s buf = .ok (some a, s', rest) ∧ Pending ready s' rest as tail

variable {d} {ready : σ → Prop} {s s' : σ} {buf net rest tail : List β} {a b : α} {as : List α}

/-- More bytes lengthen what comes behind the items. -/
theorem Pending.more (h : d.Pending ready s buf as tail) (hv : d.valid s) (extra : List β) :
    d.Pending ready s (buf ++ extra) as (tail ++ extra) := by
  induction as generalizing s buf with
  | nil => exact ⟨h.1, by rw [h.2]⟩
  | cons a as ih =>
    obtain ⟨s', rest, hd, hrest⟩ := h
    exact ⟨s', rest ++ extra, d.some_append extra hv hd, ih hrest (d.valid_next hv hd)⟩

/-- A packet of one item goes behind the others. -/
theorem Pending.push (h : d.Pending ready s buf as []) (hv : d.valid s) {packet : List β}
    (hpacket : ∀ s, d.valid s → ready s →
      ∃ s', ready s' ∧ d.decode s packet = .ok (some a, s', [])) :
    d.Pending ready s (buf ++ packet) (as ++ [a]) [] := by
  induction as generalizing s buf with
  | nil =>
    obtain ⟨hready, rfl⟩ := h
    obtain ⟨s', hready', hd⟩ := hpacket s hv hready
    exact ⟨s', [], hd, hready', rfl⟩
  | cons b as ih =>
    obtain ⟨s', rest, hd, hrest⟩ := h
    exact ⟨s', rest ++ packet, d.some_append packet hv hd, ih hrest (d.valid_next hv hd)⟩

/-- The decoder does not fail on the bytes of an item that have arrived. -/
theorem Pending.decode_ne_error (h : d.Pending ready s (buf ++ net) (a :: as) tail)
    (hv : d.valid s) (e : ε) : d.decode s buf ≠ .error e := by
  intro he
  obtain ⟨s', rest, hd, -⟩ := h
  cases (d.error_append net hv he).symm.trans hd

/-- A decoder that asks for more input has lost nothing. -/
theorem Pending.decode_none (h : d.Pending ready s (buf ++ net) (a :: as) tail) (hv : d.valid s)
    (hd : d.decode s buf = .ok (none, s', rest)) :
    d.Pending ready s' (rest ++ net) (a :: as) tail := by
  obtain ⟨t, u, ht, hrest⟩ := h
  exact ⟨t, u, (d.none_append net hv hd).symm.trans ht, hrest⟩

/-- The next item is the first that is pending. -/
theorem Pending.decode_some (h : d.Pending ready s (buf ++ net) (a :: as) tail) (hv : d.valid s)
    (hd : d.decode s buf = .ok (some b, s', rest)) :
    b = a ∧ d.Pending ready s' (rest ++ net) as tail := by
  obtain ⟨t, u, ht, hrest⟩ := h
  cases (d.some_append net hv hd).symm.trans ht
  exact ⟨rfl, hrest⟩

end Pending

end StreamDecoder

end MDesk.Core
