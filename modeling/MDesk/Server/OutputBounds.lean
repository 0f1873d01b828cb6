import MDesk.Server.OutputBuffer

/-!
# The bounds of the output buffer

What an append makes of the buffered lines, and when the trimming that follows leaves no more
than the buffer may hold. Bytes that `total_size` leaves out are not trimmed away, and an
append that ends in an open line does not trim at all.
-/

namespace MDesk

open Core

namespace OutputBuffer

/-- The lines of some bytes, each with its newline; the last one may lack it. -/
def pieces : Bytes → List Bytes
  | [] => []
  | b :: data =>
    if b = newline then [b] :: pieces data
    else
      match pieces data with
      | [] => [[b]]
      | piece :: rest => (b :: piece) :: rest

/-- The bytes end in an open line. -/
def endsOpen (data : Bytes) : Bool := data.getLast?.any (· ≠ newline)

@[simp] theorem pieces_nil : pieces [] = [] := rfl

theorem pieces_ne_nil {data : Bytes} (h : data ≠ []) : pieces data ≠ [] := by
  cases data with
  | nil => exact absurd rfl h
  | cons b data =>
    unfold pieces
    split_ifs
    · exact List.cons_ne_nil _ _
    · split <;> exact List.cons_ne_nil _ _

theorem flatten_pieces (data : Bytes) : (pieces data).flatten = data := by
  induction data with
  | nil => rfl
  | cons b data ih =>
    unfold pieces
    split_ifs
    · rw [List.flatten_cons, ih, List.singleton_append]
    · split
      · rename_i hnil
        rw [hnil] at ih
        rw [← ih]
        rfl
      · rename_i piece rest hpieces
        rw [hpieces, List.flatten_cons] at ih
        rw [List.flatten_cons, List.cons_append, ih]

theorem endsOpen_cons {b : UInt8} {data : Bytes} (h : data ≠ []) :
    endsOpen (b :: data) = endsOpen data := by
  obtain ⟨c, hc⟩ := List.getLast?_isSome.mpr h |> Option.isSome_iff_exists.mp
  rw [endsOpen, endsOpen, List.getLast?_cons, hc, Option.getD_some]

/-- The lines of a split: every part but the last one had a newline. -/
def joined (init : List Bytes) (last : Bytes) : List Bytes :=
  init.map (· ++ [newline]) ++ if last = [] then [] else [last]

/-- The split that an append goes through. -/
theorem split_eq (data : Bytes) : ∃ init last, data.splitOnP (· == newline) = init ++ [last] ∧
    pieces data = joined init last ∧ (last ≠ [] ↔ endsOpen data = true) := by
  induction data with
  | nil => exact ⟨[], [], rfl, rfl, by simp [endsOpen]⟩
  | cons b data ih =>
    obtain ⟨init, last, hsplit, hpieces, hlast⟩ := ih
    rw [List.splitOnP_cons_eq_if_modifyHead, hsplit]
    by_cases hb : b = newline
    · refine ⟨[] :: init, last, ?_, ?_, ?_⟩
      · rw [if_pos (by simp [hb]), List.cons_append]
      · rw [pieces, if_pos hb, hpieces, hb]
        rfl
      · rw [hlast]
        by_cases hdata : data = []
        · rw [hdata, hb]
          decide
        · rw [endsOpen_cons hdata]
    · rw [if_neg (by simpa using hb)]
      cases init with
      | nil =>
        refine ⟨[], b :: last, rfl, ?_, ?_⟩
        · rw [pieces, if_neg hb, hpieces]
          by_cases hl : last = []
          · rw [hl]
            rfl
          · rw [joined, if_neg hl]
            rfl
        · refine ⟨fun _ => ?_, fun _ => List.cons_ne_nil _ _⟩
          by_cases hdata : data = []
          · rw [hdata]
            simpa [endsOpen] using hb
          · rw [endsOpen_cons hdata, ← hlast]
            rintro rfl
            exact pieces_ne_nil hdata (hpieces.trans rfl)
      | cons i init =>
        refine ⟨(b :: i) :: init, last, rfl, ?_, ?_⟩
        · rw [pieces, if_neg hb, hpieces]
          rfl
        · rw [hlast, endsOpen_cons]
          rintro rfl
          rw [pieces_nil] at hpieces
          cases hpieces

variable {buf buf' : OutputBuffer} {data : Bytes} {lines kept : List Bytes} {n missing : Nat}

/-- The loop over the parts in front of the last one. -/
theorem foldl_pushLine_init (ends : Bool) (init : List Bytes) (k : Nat) (buf : OutputBuffer) :
    (init.zipIdx k).foldl (pushLine ends (k + init.length + 1)) buf =
      { buf with
        lines := buf.lines ++ init.map (· ++ [newline])
        totalSize := buf.totalSize + buffered (init.map (· ++ [newline])) } := by
  induction init generalizing k buf with
  | nil => simp
  | cons i init ih =>
    have hlast : decide (k = k + (i :: init).length + 1 - 1) = false := by simp
    have hlt : decide (k < k + (i :: init).length + 1 - 1) = true := by simp
    have hpush : buf.pushLine ends (k + (i :: init).length + 1) (i, k) =
        { buf with
          lines := buf.lines ++ [i ++ [newline]]
          totalSize := buf.totalSize + (i ++ [newline]).length } := by
      simp only [pushLine, hlast, hlt]
      simp
    have hcount : k + (i :: init).length + 1 = k + 1 + init.length + 1 := by
      rw [List.length_cons]
      omega
    rw [List.zipIdx_cons, List.foldl_cons, hpush, hcount, ih]
    simp [Nat.add_assoc]

/-- What an append pushes. -/
theorem pushLines_eq (buf : OutputBuffer) (data : Bytes) :
    buf.pushLines data =
      { lines := buf.lines ++ pieces data
        totalSize := buf.totalSize + data.length
        lastLineIncomplete := buf.lastLineIncomplete || endsOpen data } := by
  obtain ⟨init, last, hsplit, hpieces, hlast⟩ := split_eq data
  have hlen : buffered (pieces data) = data.length := by
    rw [buffered, ← List.length_flatten, flatten_pieces]
  rw [hpieces] at hlen
  simp only [pushLines]
  rw [hsplit, List.zipIdx_append, List.foldl_append, List.length_append, List.length_singleton]
  have hinit := foldl_pushLine_init (data.getLast? == some newline) init 0 buf
  rw [Nat.zero_add] at hinit
  rw [hinit, hpieces, ← hlen]
  by_cases hl : last = []
  · have hopen : endsOpen data = false := by
      rw [← Bool.not_eq_true, ← hlast]
      exact not_not.mpr hl
    have hjoined : joined init last = init.map (· ++ [newline]) := by
      rw [joined, if_pos hl, List.append_nil]
    rw [hjoined]
    simp [pushLine, hl, hopen]
  · have hopen : endsOpen data = true := hlast.mp hl
    have hends : (data.getLast? == some newline) = false := by
      unfold endsOpen at hopen
      cases hg : data.getLast? with
      | none => rfl
      | some b =>
        rw [hg] at hopen
        simpa using hopen
    have hjoined : joined init last = init.map (· ++ [newline]) ++ [last] := by
      rw [joined, if_neg hl]
    simp [pushLine, hl, hopen, hends, hjoined, Nat.add_assoc]

/-! ## Trimming -/

/-- No more bytes and lines than a buffer may hold, when some of the bytes do not count. -/
def Within (missing : Nat) (lines : List Bytes) : Prop :=
  buffered lines ≤ maxOutputBufferSize + missing ∧ lines.length ≤ maxBufferLines

theorem within_nil : Within missing [] := ⟨Nat.zero_le _, Nat.zero_le _⟩

theorem Within.suffix (h : Within missing lines) (hs : kept <:+ lines) : Within missing kept := by
  obtain ⟨front, rfl⟩ := hs
  obtain ⟨hbytes, hlen⟩ := h
  rw [buffered_append] at hbytes
  rw [List.length_append] at hlen
  exact ⟨by omega, by omega⟩

theorem buffered_suffix (hs : kept <:+ lines) : buffered kept ≤ buffered lines := by
  obtain ⟨front, rfl⟩ := hs
  rw [buffered_append]
  exact Nat.le_add_left _ _

/-- The bytes that do not count make no difference: they are no more than what is kept, and the
first line that has to go is also one too many without them. -/
def TrimsInTime (missing : Nat) (lines : List Bytes) : Prop :=
  ∀ line kept, line :: kept <:+ lines → ¬ Within 0 (line :: kept) → Within 0 kept →
    missing ≤ buffered kept ∧ ¬ Within missing (line :: kept)

/-- Lines that are too many have a last one that is. -/
theorem exists_crossing (h : ¬ Within missing lines) :
    ∃ line kept, line :: kept <:+ lines ∧ ¬ Within missing (line :: kept) ∧
      Within missing kept := by
  induction lines with
  | nil => exact absurd within_nil h
  | cons line lines ih =>
    by_cases hrest : Within missing lines
    · exact ⟨line, lines, List.suffix_rfl, h, hrest⟩
    · obtain ⟨line', kept, hs, hover, hkept⟩ := ih hrest
      exact ⟨line', kept, hs.trans (List.suffix_cons line lines), hover, hkept⟩

/-- The loop goes on while the counted bytes and the lines are too many. -/
theorem trim_goes_on (h : n + missing = buffered lines) :
    (n > maxOutputBufferSize ∨ lines.length > maxBufferLines) ↔ ¬ Within missing lines := by
  unfold Within
  omega

/-- Trimming by a count that leaves bytes out keeps the bounds exactly when the bytes left out
make no difference. -/
theorem trim_within_iff (h : n + missing = buffered lines) :
    (∃ r, trim n lines = .ok r ∧ Within 0 r.2) ↔ TrimsInTime missing lines := by
  induction lines generalizing n with
  | nil =>
    constructor
    · rintro - line kept hs
      exact absurd (List.suffix_nil.mp hs) (List.cons_ne_nil _ _)
    · intro _
      rw [buffered_nil] at h
      exact ⟨(n, []), if_neg (by omega), within_nil⟩
  | cons removed lines ih =>
    have hover := trim_goes_on h
    rw [List.length_cons] at hover
    by_cases hw : Within 0 (removed :: lines)
    · -- nothing has to go
      constructor
      · rintro - line kept hs hnot
        exact absurd (hw.suffix hs) hnot
      · intro _
        refine ⟨(n, removed :: lines), ?_, hw⟩
        rw [trim, if_neg]
        rw [hover, not_not]
        exact ⟨Nat.le_trans hw.1 (Nat.le_add_right _ _), hw.2⟩
    · obtain ⟨line, kept, hs, hline, hkept⟩ := exists_crossing hw
      by_cases hm : Within missing (removed :: lines)
      · -- the loop stops too early
        constructor
        · rintro ⟨r, hr, hr'⟩
          rw [trim, if_neg (hover.not.mpr (not_not.mpr hm))] at hr
          cases hr
          exact absurd hr' hw
        · intro hall
          exact absurd (hm.suffix hs) (hall line kept hs hline hkept).2
      · rw [buffered_cons] at h
        simp only [trim, if_pos (hover.mpr hm)]
        by_cases hlt : n < removed.length
        · -- the subtraction goes below zero
          rw [if_pos hlt]
          constructor
          · rintro ⟨r, hr, -⟩
            cases hr
          · intro hall
            have hle := (hall line kept hs hline hkept).1
            have hsub : kept <:+ lines := by
              rcases List.suffix_cons_iff.mp hs with heq | hs'
              · obtain ⟨-, rfl⟩ := List.cons.inj heq
                exact List.suffix_rfl
              · exact (List.suffix_cons line kept).trans hs'
            have hbytes := buffered_suffix hsub
            omega
        · rw [if_neg hlt, ih (by omega)]
          constructor
          · intro hall line kept hs hline hkept
            rcases List.suffix_cons_iff.mp hs with heq | hs'
            · obtain ⟨rfl, rfl⟩ := List.cons.inj heq
              exact ⟨by omega, hm⟩
            · exact hall line kept hs' hline hkept
          · intro hall line kept hs
            exact hall line kept (hs.trans (List.suffix_cons removed lines))

/-! ## Appending -/

/-- The bytes that `total_size` leaves out. -/
def uncounted (buf : OutputBuffer) : Nat := buffered buf.lines - buf.totalSize

/-- The buffer with its open line completed. -/
def completed (buf : OutputBuffer) (lastLine data : Bytes) (newlinePos : Nat) : OutputBuffer :=
  { buf with
    lines := buf.lines.dropLast ++ [lastLine ++ data.take (newlinePos + 1)]
    lastLineIncomplete := false }

/-- The bytes fit: an open line that goes on is not trimmed, so that it must not get too long,
and the bytes that are not counted make no difference when lines have to go. -/
def Fits (buf : OutputBuffer) (data : Bytes) : Prop :=
  match buf.openLine with
  | none => TrimsInTime buf.uncounted (buf.lines ++ pieces data)
  | some lastLine =>
    match data.findIdx? (· == newline) with
    | some newlinePos => TrimsInTime (buf.uncounted + (newlinePos + 1))
        ((buf.completed lastLine data newlinePos).lines ++ pieces (data.drop (newlinePos + 1)))
    | none => buffered buf.lines + data.length ≤ maxOutputBufferSize

theorem lacks_uncounted (h : buf.Lacks missing) : buf.Lacks buf.uncounted := by
  unfold Lacks uncounted at *
  omega

theorem openLine_eq_some {lastLine : Bytes} (h : buf.openLine = some lastLine) :
    buf.lines.getLast? = some lastLine := by
  unfold openLine at h
  split_ifs at h
  exact h

/-- Completing an open line leaves its end uncounted. -/
theorem Lacks.completed {lastLine : Bytes} {pos : Nat} (h : buf.Lacks missing)
    (hopen : buf.openLine = some lastLine) (hpos : pos < data.length) :
    (buf.completed lastLine data pos).Lacks (missing + (pos + 1)) := by
  unfold Lacks at h ⊢
  show buf.totalSize + (missing + (pos + 1)) = buffered _
  rw [OutputBuffer.completed, buffered_extend (openLine_eq_some hopen), List.length_take]
  omega

/-- The bytes behind the open line keep the bounds exactly when they trim in time. -/
theorem appendRemaining_within_iff (h : buf.Lacks missing) (data : Bytes) :
    (∃ buf', buf.appendRemaining data = .ok buf' ∧ Within 0 buf'.lines) ↔
      TrimsInTime missing (buf.lines ++ pieces data) := by
  have hpushed := h.pushLines data
  have hpush := pushLines_eq buf data
  unfold Lacks at hpushed
  have hlines : (buf.pushLines data).lines = buf.lines ++ pieces data := by rw [hpush]
  rw [← hlines, ← trim_within_iff hpushed]
  simp only [appendRemaining]
  constructor
  · rintro ⟨buf', hbuf', hw⟩
    split at hbuf'
    · cases hbuf'
    · rename_i htrim
      cases hbuf'
      exact ⟨_, htrim, hw⟩
  · rintro ⟨r, hr, hw⟩
    rw [hr]
    exact ⟨_, rfl, hw⟩

/-- An append keeps the bounds exactly when the bytes fit. -/
theorem append_within_iff (h : buf.Lacks missing) (hw : Within 0 buf.lines) (data : Bytes) :
    (∃ buf', buf.append data = .ok buf' ∧ Within 0 buf'.lines) ↔ buf.Fits data := by
  have hlacks := lacks_uncounted h
  unfold OutputBuffer.append Fits
  cases hopen : buf.openLine with
  | none =>
    rw [← appendRemaining_within_iff hlacks data]
    by_cases hdata : data.isEmpty = true
    · rw [if_pos hdata]
      obtain rfl := List.isEmpty_iff.mp hdata
      refine ⟨fun _ => ?_, fun _ => ⟨buf, rfl, hw⟩⟩
      rw [appendRemaining_within_iff hlacks [], pieces_nil, List.append_nil]
      exact fun line kept hs hnot => absurd (hw.suffix hs) hnot
    · rw [if_neg hdata]
  | some lastLine =>
    have hlines : ∀ tail, Within 0 (buf.lines.dropLast ++ [lastLine ++ tail]) ↔
        buffered buf.lines + tail.length ≤ maxOutputBufferSize := by
      intro tail
      obtain ⟨front, hfront⟩ := List.getLast?_eq_some_iff.mp (openLine_eq_some hopen)
      have hcount := hw.2
      unfold Within
      rw [buffered_extend (openLine_eq_some hopen), hfront, List.dropLast_concat] at *
      simp only [List.length_append, List.length_singleton] at *
      omega
    by_cases hdata : data.isEmpty = true
    · obtain rfl := List.isEmpty_iff.mp hdata
      exact ⟨fun _ => hw.1, fun _ => ⟨buf, rfl, hw⟩⟩
    · rw [if_neg hdata]
      cases hfind : data.findIdx? (· == newline) with
      | none =>
        dsimp only
        rw [← hlines data]
        constructor
        · rintro ⟨buf', hbuf', hw'⟩
          cases hbuf'
          exact hw'
        · exact fun hw' => ⟨_, rfl, hw'⟩
      | some pos =>
        rw [List.findIdx?_eq_some_iff_getElem] at hfind
        exact appendRemaining_within_iff (hlacks.completed hopen hfind.1) _

/-- The calls so far came back, and the buffer holds no more than it may. -/
def Bounded (r : Except TrimFault OutputBuffer) : Prop := ∃ buf, r = .ok buf ∧ Within 0 buf.lines

/-- A call whose bytes fit. -/
def CallFits (r : Except TrimFault OutputBuffer) (data : Bytes) : Prop :=
  ∀ buf ∈ r.toOption, buf.Fits data

/-- No call counts more bytes than are buffered. -/
theorem append_lacks (h : ∃ missing, buf.Lacks missing) (hr : buf.append data = .ok buf') :
    ∃ missing, buf'.Lacks missing := by
  obtain ⟨missing, h⟩ := h
  unfold OutputBuffer.append at hr
  split_ifs at hr
  · cases hr
    exact ⟨missing, h⟩
  · cases hopen : buf.openLine with
    | none =>
      rw [hopen] at hr
      exact ⟨missing, h.appendRemaining hr⟩
    | some lastLine =>
      rw [hopen] at hr
      cases hfind : data.findIdx? (· == newline) with
      | none =>
        rw [hfind] at hr
        cases hr
        refine ⟨missing, ?_⟩
        show buf.totalSize + data.length + missing = buffered _
        rw [buffered_extend (openLine_eq_some hopen), ← h]
        omega
      | some pos =>
        rw [hfind] at hr
        rw [List.findIdx?_eq_some_iff_getElem] at hfind
        exact ⟨_, (h.completed hopen hfind.1).appendRemaining hr⟩

theorem run_lacks (calls : List Bytes) :
    ∀ buf, run call (.ok new) calls = .ok buf → ∃ missing, buf.Lacks missing := by
  induction calls using List.reverseRecOn with
  | nil =>
    rintro buf hbuf
    cases hbuf
    exact ⟨0, rfl⟩
  | append_singleton calls data ih =>
    intro buf' hbuf'
    rw [run_append, run_cons, run_nil] at hbuf'
    cases hrun : run call (.ok new) calls with
    | error e =>
      rw [hrun] at hbuf'
      cases hbuf'
    | ok buf =>
      rw [hrun] at hbuf'
      exact append_lacks (ih buf hrun) hbuf'

/-- In every run the buffer holds no more bytes and lines than it may, and every call comes back,
exactly as long as the bytes of every call fit. -/
theorem bounded_iff (calls : List Bytes) :
    (∀ pre, pre <+: calls → Bounded (run call (.ok new) pre)) ↔
      Allowed call CallFits (.ok new) calls := by
  have hkeeps : (∀ pre, pre <+: calls → ∃ buf, run call (.ok new) pre = .ok buf ∧
      Within 0 buf.lines ∧ ∃ missing, buf.Lacks missing) ↔
        Allowed call CallFits (.ok new) calls := by
    refine allowed_iff_keeps (Q := fun r : Except TrimFault OutputBuffer =>
      ∃ buf, r = .ok buf ∧ Within 0 buf.lines ∧ ∃ missing, buf.Lacks missing) ?_
      ⟨new, rfl, within_nil, 0, rfl⟩
    rintro r data ⟨buf, rfl, hw, missing, hlacks⟩
    have hstep := append_within_iff hlacks hw data
    constructor
    · rintro ⟨buf', hbuf', hw', -⟩ b hb
      obtain rfl : buf = b := Option.some.inj hb
      exact hstep.mp ⟨buf', hbuf', hw'⟩
    · intro hfits
      obtain ⟨buf', hbuf', hw'⟩ := hstep.mpr (hfits buf rfl)
      exact ⟨buf', hbuf', hw', append_lacks ⟨missing, hlacks⟩ hbuf'⟩
  rw [← hkeeps]
  refine forall₂_congr fun pre _ => ⟨?_, ?_⟩
  · rintro ⟨buf, hrun, hw⟩
    exact ⟨buf, hrun, hw, run_lacks pre buf hrun⟩
  · rintro ⟨buf, hrun, hw, -⟩
    exact ⟨buf, hrun, hw⟩

theorem pieces_of_not_mem (hne : data ≠ []) (h : newline ∉ data) : pieces data = [data] := by
  induction data with
  | nil => exact absurd rfl hne
  | cons b data ih =>
    obtain ⟨hb, hdata⟩ := not_or.mp (List.mem_cons.not.mp h)
    rw [pieces, if_neg (Ne.symm hb)]
    by_cases hnil : data = []
    · rw [hnil]
      rfl
    · rw [ih hnil hdata]

/-- The first open line of a buffer. -/
theorem append_new (hne : data ≠ []) (h : newline ∉ data)
    (hlen : data.length ≤ maxOutputBufferSize) :
    new.append data = .ok ⟨[data], data.length, true⟩ := by
  obtain ⟨b, hb⟩ := Option.isSome_iff_exists.mp (List.getLast?_isSome.mpr hne)
  have hopen : endsOpen data = true := by
    have hne' : b ≠ newline := fun heq => h (heq ▸ List.mem_of_getLast? hb)
    simpa [endsOpen, hb] using hne'
  have hempty : ¬ data.isEmpty = true := List.isEmpty_iff.not.mpr hne
  have hnone : new.openLine = none := rfl
  have htrim : trim data.length [data] = .ok (data.length, [data]) := by
    rw [trim, if_neg]
    rw [not_or]
    exact ⟨by omega, by decide⟩
  simp only [append, hempty, hnone, appendRemaining, pushLines_eq, pieces_of_not_mem hne h]
  simp [new, htrim, hopen]

/-- An open line that goes on. -/
theorem append_open {line : Bytes} (hline : newline ∉ data) (n : Nat) :
    (⟨[line], n, true⟩ : OutputBuffer).append data =
      .ok ⟨[line ++ data], n + data.length, true⟩ := by
  unfold append
  by_cases hdata : data.isEmpty = true
  · rw [if_pos hdata, List.isEmpty_iff.mp hdata]
    simp
  · have hnone : data.findIdx? (· == newline) = none := by
      rw [List.findIdx?_eq_none_iff]
      intro b hb
      rw [beq_eq_false_iff_ne]
      exact fun heq => hline (heq ▸ hb)
    rw [if_neg hdata, hnone]
    rfl

/-- An open line that goes on for ever is never trimmed. -/
theorem open_line_unbounded :
    ¬ ∀ calls : List Bytes, Bounded (run call (.ok new) calls) := by
  intro hall
  obtain ⟨data, hlen, hmem⟩ : ∃ data : Bytes, data.length = maxOutputBufferSize ∧
      newline ∉ data :=
    ⟨List.replicate maxOutputBufferSize 97, List.length_replicate, fun hin =>
      absurd (List.eq_of_mem_replicate hin) (by decide)⟩
  have hne : data ≠ [] := by
    rintro rfl
    exact absurd hlen (by decide)
  obtain ⟨buf, hrun, hw, -⟩ := hall [data, [97]]
  have hfirst : call (.ok new) data = .ok ⟨[data], data.length, true⟩ :=
    append_new hne hmem (Nat.le_of_eq hlen)
  have hnot : newline ∉ [(97 : UInt8)] := by decide
  have hsecond : call (.ok ⟨[data], data.length, true⟩) [97] =
      .ok ⟨[data ++ [97]], data.length + 1, true⟩ := append_open hnot data.length
  rw [run_cons, run_cons, run_nil, hfirst, hsecond] at hrun
  cases hrun
  rw [buffered_cons, List.length_append, hlen] at hw
  exact absurd hw (Nat.not_succ_le_self maxOutputBufferSize)

end OutputBuffer

end MDesk
