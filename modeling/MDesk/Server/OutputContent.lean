import MDesk.Server.OutputBounds

/-!
# The content of the output buffer

The buffered lines are the end of all output, cut behind each newline, and the flag says
whether the last one is still open. Trimming breaks this where it drops an open line: the
flag stays behind.
-/

namespace MDesk

open Core

namespace OutputBuffer

/-- A line with its newline. -/
def IsLine (line : Bytes) : Prop := ∃ front, line = front ++ [newline] ∧ newline ∉ front

/-- The open line behind the whole ones, if there is one. -/
def openPart (tail : Bytes) : List Bytes := if tail = [] then [] else [tail]

/-- Whole lines, and then an open one. -/
structure Cut (lines whole : List Bytes) (tail : Bytes) : Prop where
  eq : lines = whole ++ openPart tail
  whole : ∀ line ∈ whole, IsLine line
  tail : newline ∉ tail

variable {buf buf' : OutputBuffer} {data line tail : Bytes} {lines whole kept : List Bytes}
  {n missing : Nat} {opens : Bool}

/-- What an append splits is cut. -/
theorem cut_pieces (data : Bytes) : ∃ whole tail, Cut (pieces data) whole tail ∧
    (endsOpen data = true ↔ tail ≠ []) := by
  induction data with
  | nil => exact ⟨[], [], ⟨rfl, nofun, List.not_mem_nil⟩, by decide⟩
  | cons b data ih =>
    obtain ⟨whole, tail, ⟨heq, hwhole, htail⟩, hopen⟩ := ih
    have hends : data ≠ [] → (endsOpen (b :: data) = true ↔ tail ≠ []) := by
      intro hdata
      rw [endsOpen_cons hdata]
      exact hopen
    by_cases hb : b = newline
    · refine ⟨[newline] :: whole, tail, ⟨?_, ?_, htail⟩, ?_⟩
      · rw [pieces, if_pos hb, heq, hb, List.cons_append]
      · rintro line (_ | ⟨_, hline⟩)
        · exact ⟨[], rfl, List.not_mem_nil⟩
        · exact hwhole line hline
      · by_cases hdata : data = []
        · rw [← hopen, hdata, hb]
          decide
        · exact hends hdata
    · cases whole with
      | nil =>
        have hnew : newline ∉ b :: tail := List.mem_cons.not.mpr (not_or.mpr ⟨Ne.symm hb, htail⟩)
        refine ⟨[], b :: tail, ⟨?_, nofun, hnew⟩, ?_⟩
        · have hcons : openPart (b :: tail) = [b :: tail] := if_neg (List.cons_ne_nil b tail)
          rw [pieces, if_neg hb, heq, hcons]
          by_cases hnil : tail = []
          · rw [hnil]
            rfl
          · rw [openPart, if_neg hnil]
            rfl
        · refine ⟨fun _ => List.cons_ne_nil b tail, fun _ => ?_⟩
          by_cases hdata : data = []
          · rw [hdata]
            simpa [endsOpen] using hb
          · refine (hends hdata).mpr ?_
            rintro rfl
            exact pieces_ne_nil hdata heq
      | cons line whole =>
        obtain ⟨front, hline, hfront⟩ := hwhole line List.mem_cons_self
        refine ⟨(b :: line) :: whole, tail, ⟨?_, ?_, htail⟩, hends ?_⟩
        · rw [pieces, if_neg hb, heq]
          rfl
        · rintro l (_ | ⟨_, hl⟩)
          · exact ⟨b :: front, by rw [hline, List.cons_append], List.mem_cons.not.mpr
              (not_or.mpr ⟨Ne.symm hb, hfront⟩)⟩
          · exact hwhole l (List.mem_cons_of_mem line hl)
        · rintro rfl
          cases heq

/-- What is kept of cut lines is cut. -/
theorem Cut.suffix (h : Cut lines whole tail) (hs : kept <:+ lines) (hkept : kept ≠ []) :
    ∃ whole', Cut kept whole' tail := by
  obtain ⟨rfl, hwhole, htail⟩ := h
  induction whole with
  | nil =>
    rw [List.nil_append] at hs
    refine ⟨[], ?_, nofun, htail⟩
    unfold openPart at hs ⊢
    split_ifs at hs ⊢
    · exact absurd (List.suffix_nil.mp hs) hkept
    · rcases List.suffix_cons_iff.mp hs with rfl | hnil
      · rfl
      · exact absurd (List.suffix_nil.mp hnil) hkept
  | cons line whole ih =>
    rcases List.suffix_cons_iff.mp hs with rfl | hs'
    · exact ⟨line :: whole, rfl, hwhole, htail⟩
    · exact ih (fun l hl => hwhole l (List.mem_cons_of_mem line hl)) hs'

/-- More output behind whole lines. -/
theorem Cut.pieces (h : Cut lines whole []) (data : Bytes) : ∃ whole' tail,
    Cut (lines ++ pieces data) whole' tail ∧ (endsOpen data = true ↔ tail ≠ []) := by
  obtain ⟨whole', tail, ⟨heq, hwhole', htail⟩, hopen⟩ := cut_pieces data
  refine ⟨whole ++ whole', tail, ⟨?_, ?_, htail⟩, hopen⟩
  · rw [h.eq, heq, openPart, if_pos rfl, List.append_nil, List.append_assoc]
  · intro line hline
    rcases List.mem_append.mp hline with hin | hin
    · exact h.whole line hin
    · exact hwhole' line hin

/-- The flag of a buffer says whether its last line is open. -/
def Tidy (buf : OutputBuffer) : Prop :=
  ∃ whole tail, Cut buf.lines whole tail ∧ (buf.lastLineIncomplete = true ↔ tail ≠ [])

/-- What the buffer says of all that was appended: its lines are the end of it, every line but
the last one is whole, the flag says whether the last one is open, and what is shown of it is
the longest end of whole lines that fits. -/
structure Content (appended : Bytes) (buf : OutputBuffer) : Prop where
  suffix : buf.lines.flatten <:+ appended
  whole : ∀ line ∈ buf.lines.dropLast, IsLine line
  flag : buf.lastLineIncomplete = true ↔
    ∃ line, buf.lines.getLast? = some line ∧ line.getLast? ≠ some newline
  recent : ∀ maxBytes, ∃ kept, kept <:+ buf.lines ∧ buf.getRecent maxBytes = kept.flatten ∧
    buffered kept ≤ maxBytes ∧
      ∀ longer, longer <:+ buf.lines → buffered longer ≤ maxBytes → longer <:+ kept

theorem isLine_getLast? (h : IsLine line) : line.getLast? = some newline := by
  obtain ⟨front, rfl, -⟩ := h
  exact List.getLast?_concat

/-- The last of cut lines is open exactly when there is an open part. -/
theorem Cut.getLast?_iff (h : Cut lines whole tail) :
    (∃ line, lines.getLast? = some line ∧ line.getLast? ≠ some newline) ↔ tail ≠ [] := by
  obtain ⟨rfl, hwhole, htail⟩ := h
  unfold openPart
  split_ifs with hnil
  · refine ⟨?_, fun hne => absurd hnil hne⟩
    rintro ⟨line, hline, hne⟩
    rw [List.append_nil] at hline
    exact absurd (isLine_getLast? (hwhole line (List.mem_of_getLast? hline))) hne
  · refine ⟨fun _ => hnil, fun _ => ⟨tail, List.getLast?_concat, fun hlast => ?_⟩⟩
    exact htail (List.mem_of_getLast? hlast)

theorem Cut.dropLast_whole (h : Cut lines whole tail) : ∀ line ∈ lines.dropLast, IsLine line := by
  obtain ⟨rfl, hwhole, -⟩ := h
  intro line hline
  unfold openPart at hline
  split_ifs at hline
  · rw [List.append_nil] at hline
    exact hwhole line (List.dropLast_subset whole hline)
  · rw [List.dropLast_concat] at hline
    exact hwhole line hline

/-- What is shown is the longest end of the lines that fits, whatever the buffer holds. -/
theorem recentLines_longest {maxBytes size : Nat} (lines : List Bytes) (h : size ≤ maxBytes) :
    ∃ kept, kept <+: lines ∧ recentLines maxBytes size lines = kept.reverse.flatten ∧
      size + buffered kept ≤ maxBytes ∧
        ∀ longer, longer <+: lines → size + buffered longer ≤ maxBytes → longer <+: kept := by
  induction lines generalizing size with
  | nil => exact ⟨[], List.nil_prefix, rfl, h, fun longer hl _ => hl⟩
  | cons line lines ih =>
    unfold recentLines
    split_ifs with hover
    · refine ⟨[], List.nil_prefix, rfl, h, fun longer hl hfits => ?_⟩
      cases longer with
      | nil => exact List.nil_prefix
      | cons l longer =>
        obtain ⟨rfl, -⟩ := List.cons_prefix_cons.mp hl
        rw [buffered_cons] at hfits
        omega
    · obtain ⟨kept, hkept, hrecent, hsize, hlongest⟩ := @ih (size + line.length) (by omega)
      refine ⟨line :: kept, (List.prefix_cons_inj line).mpr hkept, ?_, ?_,
        fun longer hl hfits => ?_⟩
      · rw [hrecent, List.reverse_cons, List.flatten_append, List.flatten_singleton]
      · rw [buffered_cons]
        omega
      · cases longer with
        | nil => exact List.nil_prefix
        | cons l longer =>
          obtain ⟨rfl, hl'⟩ := List.cons_prefix_cons.mp hl
          rw [buffered_cons] at hfits
          exact (List.prefix_cons_inj l).mpr (hlongest longer hl' (by omega))

theorem buffered_reverse (lines : List Bytes) : buffered lines.reverse = buffered lines := by
  rw [buffered, List.map_reverse, List.sum_reverse, buffered]

theorem getRecent_longest (buf : OutputBuffer) (maxBytes : Nat) : ∃ kept, kept <:+ buf.lines ∧
    buf.getRecent maxBytes = kept.flatten ∧ buffered kept ≤ maxBytes ∧
      ∀ longer, longer <:+ buf.lines → buffered longer ≤ maxBytes → longer <:+ kept := by
  obtain ⟨kept, hkept, hrecent, hsize, hlongest⟩ :=
    recentLines_longest buf.lines.reverse maxBytes.zero_le
  rw [Nat.zero_add] at hsize
  refine ⟨kept.reverse, ?_, hrecent, ?_, fun longer hl hfits => ?_⟩
  · rwa [← List.reverse_prefix, List.reverse_reverse]
  · rwa [buffered_reverse]
  · rw [← List.reverse_prefix, List.reverse_reverse]
    refine hlongest longer.reverse (List.reverse_prefix.mpr hl) ?_
    rwa [Nat.zero_add, buffered_reverse]

/-- A tidy buffer that holds the end of the output says what it should. -/
theorem Tidy.content {appended : Bytes} (h : buf.Tidy) (hs : buf.lines.flatten <:+ appended) :
    buf.Content appended := by
  obtain ⟨whole, tail, hcut, hflag⟩ := h
  refine ⟨hs, hcut.dropLast_whole, ?_, buf.getRecent_longest⟩
  rw [hcut.getLast?_iff, hflag]

/-! ## Appending -/

/-- Trimming comes to an end, and leaves an open line. -/
def TrimsTo (missing : Nat) (lines : List Bytes) (opens : Bool) : Prop :=
  ∃ kept, kept <:+ lines ∧ missing ≤ buffered kept ∧ Within missing kept ∧
    (opens = true → kept ≠ [])

theorem trim_keeps_iff (h : n + missing = buffered lines) :
    (∃ r, trim n lines = .ok r ∧ (opens = true → r.2 ≠ [])) ↔ TrimsTo missing lines opens := by
  induction lines generalizing n with
  | nil =>
    rw [buffered_nil] at h
    constructor
    · rintro ⟨r, hr, hopen⟩
      rw [trim, if_neg (by omega)] at hr
      cases hr
      exact ⟨[], List.suffix_rfl, by omega, within_nil, hopen⟩
    · rintro ⟨kept, hs, -, -, hopen⟩
      obtain rfl := List.suffix_nil.mp hs
      exact ⟨(n, []), if_neg (by omega), hopen⟩
  | cons removed lines ih =>
    have hover := trim_goes_on h
    rw [List.length_cons] at hover
    by_cases hw : Within missing (removed :: lines)
    · refine iff_of_true ⟨(n, removed :: lines), ?_, fun _ => List.cons_ne_nil removed lines⟩
        ⟨removed :: lines, List.suffix_rfl, by omega, hw, fun _ => List.cons_ne_nil removed lines⟩
      rw [trim, if_neg (hover.not.mpr (not_not.mpr hw))]
    · have hshorter : TrimsTo missing (removed :: lines) opens ↔ TrimsTo missing lines opens := by
        constructor
        · rintro ⟨kept, hs, hle, hw', hopen⟩
          rcases List.suffix_cons_iff.mp hs with rfl | hs'
          · exact absurd hw' hw
          · exact ⟨kept, hs', hle, hw', hopen⟩
        · rintro ⟨kept, hs, hrest⟩
          exact ⟨kept, hs.trans (List.suffix_cons removed lines), hrest⟩
      rw [buffered_cons] at h
      simp only [trim, if_pos (hover.mpr hw)]
      rw [hshorter]
      by_cases hlt : n < removed.length
      · rw [if_pos hlt]
        constructor
        · rintro ⟨r, hr, -⟩
          cases hr
        · rintro ⟨kept, hs, hle, -⟩
          have hbytes := buffered_suffix hs
          omega
      · rw [if_neg hlt]
        exact ih (by omega)

theorem trim_suffix {r : Nat × List Bytes} (hr : trim n lines = .ok r) : r.2 <:+ lines := by
  induction lines generalizing n with
  | nil =>
    simp only [trim] at hr
    split_ifs at hr
    cases hr
    exact List.suffix_rfl
  | cons removed lines ih =>
    simp only [trim] at hr
    split_ifs at hr
    · exact (ih hr).trans (List.suffix_cons removed lines)
    · cases hr
      exact List.suffix_rfl

/-- The bytes behind the whole lines are kept right exactly when trimming leaves an open line. -/
theorem appendRemaining_content_iff {appended : Bytes} (h : buf.Lacks missing)
    (hcut : Cut buf.lines whole []) (hflag : buf.lastLineIncomplete = false)
    (hs : (buf.lines ++ pieces data).flatten <:+ appended) :
    (TrimsTo missing (buf.lines ++ pieces data) (endsOpen data) →
      ∃ buf', buf.appendRemaining data = .ok buf' ∧ buf'.Tidy ∧ buf'.Content appended) ∧
    ((∃ buf', buf.appendRemaining data = .ok buf' ∧ buf'.Content appended) →
      TrimsTo missing (buf.lines ++ pieces data) (endsOpen data)) := by
  have hpushed := h.pushLines data
  have hpush := pushLines_eq buf data
  unfold Lacks at hpushed
  have hlines : (buf.pushLines data).lines = buf.lines ++ pieces data := by rw [hpush]
  have hopen : (buf.pushLines data).lastLineIncomplete = endsOpen data := by
    rw [hpush, hflag, Bool.false_or]
  rw [hlines] at hpushed
  rw [← trim_keeps_iff hpushed]
  simp only [appendRemaining]
  rw [hlines]
  constructor
  · rintro ⟨r, hr, hkeeps⟩
    rw [hr]
    have hsuffix := trim_suffix hr
    have htidy : Tidy { buf.pushLines data with totalSize := r.1, lines := r.2 } := by
      obtain ⟨whole', tail, hcut', htail⟩ := hcut.pieces data
      by_cases hnil : r.2 = []
      · refine ⟨[], [], ⟨hnil, List.forall_mem_nil _, List.not_mem_nil⟩, ?_⟩
        dsimp only
        rw [hopen]
        exact ⟨fun hends => absurd hnil (hkeeps hends), fun hne => absurd rfl hne⟩
      · obtain ⟨kept, hkept⟩ := hcut'.suffix hsuffix hnil
        exact ⟨kept, tail, hkept, by dsimp only; rw [hopen]; exact htail⟩
    refine ⟨_, rfl, htidy, htidy.content (List.IsSuffix.trans ?_ hs)⟩
    obtain ⟨front, hfront⟩ := hsuffix
    exact ⟨front.flatten, by rw [← hfront, List.flatten_append]⟩
  · rintro ⟨buf', hbuf', hcontent⟩
    split at hbuf'
    · cases hbuf'
    · rename_i totalSize kept htrim
      cases hbuf'
      refine ⟨(totalSize, kept), htrim, fun hends hnil => ?_⟩
      obtain ⟨line, hline, -⟩ := hcontent.flag.mp (hopen.trans hends)
      dsimp only at hline hnil
      rw [hnil] at hline
      cases hline

/-- The bytes leave the buffer in order: they only continue an open line, or the trimming that
follows comes to an end and leaves an open line. -/
def InOrder (buf : OutputBuffer) (data : Bytes) : Prop :=
  data = [] ∨
    match buf.openLine with
    | none => TrimsTo buf.uncounted (buf.lines ++ pieces data) (endsOpen data)
    | some lastLine =>
      match data.findIdx? (· == newline) with
      | some newlinePos => TrimsTo (buf.uncounted + (newlinePos + 1))
          ((buf.completed lastLine data newlinePos).lines ++ pieces (data.drop (newlinePos + 1)))
          (endsOpen (data.drop (newlinePos + 1)))
      | none => True

/-- The lines of a tidy buffer in which the last one is open. -/
theorem Tidy.open (h : buf.Tidy) {lastLine : Bytes} (hopen : buf.openLine = some lastLine) :
    ∃ whole, Cut buf.lines whole lastLine ∧ lastLine ≠ [] ∧ buf.lastLineIncomplete = true := by
  obtain ⟨whole, tail, hcut, hflag⟩ := h
  have hlast := openLine_eq_some hopen
  unfold openLine at hopen
  split_ifs at hopen with hincomplete
  have hne := hflag.mp hincomplete
  rw [hcut.eq, openPart, if_neg hne, List.getLast?_concat] at hlast
  obtain rfl := Option.some.inj hlast
  exact ⟨whole, hcut, hne, hincomplete⟩

theorem Tidy.closed (h : buf.Tidy) (hopen : buf.openLine = none) :
    ∃ whole, Cut buf.lines whole [] ∧ buf.lastLineIncomplete = false := by
  obtain ⟨whole, tail, hcut, hflag⟩ := h
  by_cases hne : tail = []
  · subst hne
    refine ⟨whole, hcut, ?_⟩
    rw [← Bool.not_eq_true, hflag]
    exact not_not.mpr rfl
  · unfold openLine at hopen
    rw [if_pos (hflag.mpr hne), hcut.eq, openPart, if_neg hne, List.getLast?_concat] at hopen
    cases hopen

/-- An append keeps a tidy buffer right exactly when the bytes leave it in order. -/
theorem append_content_iff {appended : Bytes} (h : buf.Lacks missing) (htidy : buf.Tidy)
    (hs : buf.lines.flatten <:+ appended) :
    (buf.InOrder data → ∃ buf', buf.append data = .ok buf' ∧ buf'.Tidy ∧
      buf'.Content (appended ++ data)) ∧
    ((∃ buf', buf.append data = .ok buf' ∧ buf'.Content (appended ++ data)) →
      buf.InOrder data) := by
  have hlacks := lacks_uncounted h
  unfold OutputBuffer.append InOrder
  by_cases hdata : data = []
  · have hempty : data.isEmpty = true := List.isEmpty_iff.mpr hdata
    rw [if_pos hempty, hdata, List.append_nil]
    exact ⟨fun _ => ⟨buf, rfl, htidy, htidy.content hs⟩, fun _ => .inl rfl⟩
  · have hempty : ¬ data.isEmpty = true := List.isEmpty_iff.not.mpr hdata
    rw [if_neg hempty]
    simp only [hdata, false_or]
    cases hopen : buf.openLine with
    | none =>
      obtain ⟨whole, hcut, hflag⟩ := htidy.closed hopen
      refine appendRemaining_content_iff hlacks hcut hflag ?_
      rw [List.flatten_append, flatten_pieces]
      exact List.suffix_append_self_iff.mpr hs
    | some lastLine =>
      obtain ⟨whole, hcut, hne, hincomplete⟩ := htidy.open hopen
      have hlines : buf.lines = whole ++ [lastLine] := by rw [hcut.eq, openPart, if_neg hne]
      rw [hlines, List.flatten_append, List.flatten_singleton] at hs
      cases hfind : data.findIdx? (· == newline) with
      | none =>
        -- the open line goes on
        have hnot : newline ∉ data := by
          intro hin
          rw [List.findIdx?_eq_none_iff] at hfind
          exact absurd (hfind newline hin) (by decide)
        have hext : Tidy { buf with
            lines := buf.lines.dropLast ++ [lastLine ++ data]
            totalSize := buf.totalSize + data.length } := by
          refine ⟨whole, lastLine ++ data, ⟨?_, hcut.whole, ?_⟩, ?_⟩
          · dsimp only
            rw [hlines, List.dropLast_concat, openPart, if_neg]
            exact List.append_ne_nil_of_left_ne_nil hne data
          · rw [List.mem_append, not_or]
            exact ⟨hcut.tail, hnot⟩
          · exact iff_of_true hincomplete (List.append_ne_nil_of_left_ne_nil hne data)
        refine ⟨fun _ => ⟨_, rfl, hext, hext.content ?_⟩, fun _ => trivial⟩
        dsimp only
        rw [hlines, List.dropLast_concat, List.flatten_append, List.flatten_singleton,
          ← List.append_assoc]
        exact List.suffix_append_self_iff.mpr hs
      | some pos =>
        -- the open line is completed
        obtain ⟨hpos, hfound, hfront⟩ := List.findIdx?_eq_some_iff_getElem.mp hfind
        have htake : data.take (pos + 1) = data.take pos ++ [newline] := by
          rw [List.take_add_one, List.getElem?_eq_getElem hpos, Option.toList_some,
            eq_of_beq hfound]
        have hnot : newline ∉ data.take pos := by
          intro hin
          obtain ⟨j, hj, hget⟩ := List.mem_iff_getElem.mp hin
          rw [List.length_take] at hj
          rw [List.getElem_take] at hget
          exact absurd (beq_iff_eq.mpr hget) (hfront j (by omega))
        have hcompleted : Cut (buf.completed lastLine data pos).lines
            (whole ++ [lastLine ++ data.take (pos + 1)]) [] := by
          refine ⟨?_, fun line hline => ?_, List.not_mem_nil⟩
          · rw [completed, hlines, List.dropLast_concat, openPart, if_pos rfl, List.append_nil]
          · rcases List.mem_append.mp hline with hin | hin
            · exact hcut.whole line hin
            · rw [List.mem_singleton.mp hin, htake]
              refine ⟨lastLine ++ data.take pos, List.append_assoc .. |>.symm, ?_⟩
              rw [List.mem_append, not_or]
              exact ⟨hcut.tail, hnot⟩
        refine appendRemaining_content_iff (hlacks.completed hopen hpos) hcompleted rfl ?_
        rw [List.flatten_append, flatten_pieces, completed, hlines, List.dropLast_concat,
          List.flatten_append, List.flatten_singleton, List.append_assoc, List.append_assoc,
          List.take_append_drop, ← List.append_assoc]
        exact List.suffix_append_self_iff.mpr hs

/-- The calls so far came back, and the buffer says of them what it should. -/
def SaysAll (calls : List Bytes) (r : Except TrimFault OutputBuffer) : Prop :=
  ∃ buf, r = .ok buf ∧ buf.Content calls.flatten

/-- A call whose bytes leave the buffer in order. -/
def CallInOrder (r : Except TrimFault OutputBuffer) (data : Bytes) : Prop :=
  ∀ buf ∈ r.toOption, buf.InOrder data

/-- In every run the buffer says what it should of all that was appended, and every call comes
back, exactly as long as every call leaves the buffer in order. -/
theorem content_iff (calls : List Bytes) :
    (∀ pre, pre <+: calls → SaysAll pre (run call (.ok new) pre)) ↔
      Allowed call CallInOrder (.ok new) calls := by
  have hnew : new.Tidy := ⟨[], [], ⟨rfl, nofun, List.not_mem_nil⟩, by decide⟩
  refine allowed_iff_holds_past (P := SaysAll)
    (Q := fun pre r => ∃ buf, r = .ok buf ∧ buf.Tidy ∧ buf.Content pre.flatten ∧
      ∃ missing, buf.Lacks missing) ?_ ?_ ?_ ?_
  · rintro pre r ⟨buf, rfl, -, hcontent, -⟩
    exact ⟨buf, rfl, hcontent⟩
  · rintro pre data ⟨buf, hrun, htidy, hcontent, missing, hlacks⟩ ⟨buf', hbuf', hcontent'⟩
    rw [hrun] at hbuf' ⊢
    rw [List.flatten_append, List.flatten_singleton] at hcontent'
    intro b hb
    obtain rfl : buf = b := Option.some.inj hb
    exact (append_content_iff hlacks htidy hcontent.suffix).2 ⟨buf', hbuf', hcontent'⟩
  · rintro pre data ⟨buf, hrun, htidy, hcontent, missing, hlacks⟩ hok
    rw [hrun] at hok ⊢
    obtain ⟨buf', hbuf', htidy', hcontent'⟩ :=
      (append_content_iff hlacks htidy hcontent.suffix).1 (hok buf rfl)
    rw [List.flatten_append, List.flatten_singleton]
    exact ⟨buf', hbuf', htidy', hcontent', append_lacks ⟨missing, hlacks⟩ hbuf'⟩
  · exact ⟨new, rfl, hnew, hnew.content List.suffix_rfl, 0, rfl⟩

/-- An open line that is trimmed away leaves its flag behind. -/
theorem flag_left_behind :
    ¬ ∀ calls : List Bytes, SaysAll calls (run call (.ok new) calls) := by
  intro hall
  obtain ⟨data, hlen, hmem⟩ : ∃ data : Bytes, data.length = maxOutputBufferSize + 1 ∧
      newline ∉ data :=
    ⟨List.replicate (maxOutputBufferSize + 1) 97, List.length_replicate, fun hin =>
      absurd (List.eq_of_mem_replicate hin) (by decide)⟩
  have hne : data ≠ [] := by
    rintro rfl
    exact absurd hlen (by decide)
  obtain ⟨buf, hrun, hcontent⟩ := hall [data]
  rw [run_cons, run_nil] at hrun
  rw [List.flatten_singleton] at hcontent
  have hlacks : new.Lacks 0 := rfl
  have htidy : new.Tidy := ⟨[], [], ⟨rfl, nofun, List.not_mem_nil⟩, by decide⟩
  have hs : new.lines.flatten <:+ [] := List.suffix_rfl
  have hinorder : new.InOrder data := (append_content_iff hlacks htidy hs).2 ⟨buf, hrun, hcontent⟩
  rcases hinorder with hnil | ⟨kept, hs, -, hw, hopen⟩
  · exact hne hnil
  · have hopens : endsOpen data = true := by
      obtain ⟨b, hb⟩ := Option.isSome_iff_exists.mp (List.getLast?_isSome.mpr hne)
      have hb' : b ≠ newline := fun heq => hmem (heq ▸ List.mem_of_getLast? hb)
      simpa [endsOpen, hb] using hb'
    rw [pieces_of_not_mem hne hmem] at hs
    rcases List.suffix_cons_iff.mp hs with rfl | hs'
    · have hbytes := hw.1
      rw [buffered_cons, hlen] at hbytes
      exact absurd hbytes (Nat.not_succ_le_self maxOutputBufferSize)
    · exact hopen hopens (List.suffix_nil.mp hs')

end OutputBuffer

end MDesk
