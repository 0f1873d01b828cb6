import Mathlib.Algebra.GroupWithZero.Nat
import MDesk.Core.Run
import MDesk.Codec.BytesCodec

/-!
# The output buffer of a terminal session

`OutputBuffer` of the terminal service keeps the recent output of a session line by line
and counts its bytes in `total_size`, by which old lines are dropped. Bytes that complete
an unfinished line are not counted, so the count is right exactly as long as no newline
arrives for a line that is still open.
-/

namespace MDesk

open Core

/-- `MAX_OUTPUT_BUFFER_SIZE`: one megabyte for each terminal. -/
def maxOutputBufferSize : Nat := 1024 * 1024

/-- `MAX_BUFFER_LINES`. -/
def maxBufferLines : Nat := 10000

/-- `b'\n'`. -/
def newline : UInt8 := 10

structure OutputBuffer where
  lines : List Bytes
  totalSize : Nat
  lastLineIncomplete : Bool
  deriving DecidableEq, Repr

namespace OutputBuffer

/-- How the loop that drops old lines goes wrong: a subtraction from `total_size` below
zero, or a round that finds no line and changes nothing. -/
inductive TrimFault where
  | underflow
  | endless
  deriving DecidableEq, Repr

def new : OutputBuffer := ⟨[], 0, false⟩

/-- The bytes that are really buffered. -/
def buffered (lines : List Bytes) : Nat := (lines.map List.length).sum

/-- The loop that trims old data, on `total_size` and the lines. -/
def trim (totalSize : Nat) : List Bytes → Except TrimFault (Nat × List Bytes)
  | [] => if totalSize > maxOutputBufferSize then .error .endless else .ok (totalSize, [])
  | removed :: lines =>
    if totalSize > maxOutputBufferSize ∨ lines.length + 1 > maxBufferLines then
      if totalSize < removed.length then .error .underflow
      else trim (totalSize - removed.length) lines
    else .ok (totalSize, removed :: lines)

/-- One round of the loop over the split lines: line `i` of `count`. -/
def pushLine (endsWithNewline : Bool) (count : Nat) (buf : OutputBuffer) (line : Bytes × Nat) :
    OutputBuffer :=
  let (line, i) := line
  let buf := { buf with
    lastLineIncomplete := buf.lastLineIncomplete ||
      (decide (i = count - 1) && !endsWithNewline && !line.isEmpty) }
  if !line.isEmpty || decide (i < count - 1) then
    let lineData := if decide (i < count - 1) || endsWithNewline then line ++ [newline] else line
    { buf with totalSize := buf.totalSize + lineData.length, lines := buf.lines ++ [lineData] }
  else buf

/-- The loop over the split lines. -/
def pushLines (buf : OutputBuffer) (remaining : Bytes) : OutputBuffer :=
  let endsWithNewline := remaining.getLast? == some newline
  let lines := remaining.splitOnP (· == newline)
  lines.zipIdx.foldl (pushLine endsWithNewline lines.length) buf

/-- The part of `append` behind the unfinished line. -/
def appendRemaining (buf : OutputBuffer) (remaining : Bytes) : Except TrimFault OutputBuffer :=
  let buf := buf.pushLines remaining
  match trim buf.totalSize buf.lines with
  | .error e => .error e
  | .ok (totalSize, lines) => .ok { buf with totalSize, lines }

/-- The line that the next bytes continue. -/
def openLine (buf : OutputBuffer) : Option Bytes :=
  if buf.lastLineIncomplete then buf.lines.getLast? else none

/-- `OutputBuffer::append`. -/
def append (buf : OutputBuffer) (data : Bytes) : Except TrimFault OutputBuffer :=
  if data.isEmpty then .ok buf
  else
    match buf.openLine with
    | none => buf.appendRemaining data
    | some lastLine =>
      match data.findIdx? (· == newline) with
      | some newlinePos =>
        -- `total_size` stays behind here
        appendRemaining { buf with
          lines := buf.lines.dropLast ++ [lastLine ++ data.take (newlinePos + 1)]
          lastLineIncomplete := false } (data.drop (newlinePos + 1))
      | none => .ok { buf with
          lines := buf.lines.dropLast ++ [lastLine ++ data]
          totalSize := buf.totalSize + data.length }

/-- `OutputBuffer::get_recent`, over the lines from the last one back. -/
def recentLines (maxBytes : Nat) : Nat → List Bytes → Bytes
  | _, [] => []
  | size, line :: lines =>
    if size + line.length > maxBytes then []
    else recentLines maxBytes (size + line.length) lines ++ line

def getRecent (buf : OutputBuffer) (maxBytes : Nat) : Bytes :=
  recentLines maxBytes 0 buf.lines.reverse

/-- `total_size` is `missing` bytes short of what is buffered. -/
def Lacks (missing : Nat) (buf : OutputBuffer) : Prop :=
  buf.totalSize + missing = buffered buf.lines

/-- `total_size` is the number of bytes buffered. -/
def Accounted (buf : OutputBuffer) : Prop := buf.totalSize = buffered buf.lines

/-- These bytes end a line that is still open. -/
def Completes (buf : OutputBuffer) (data : Bytes) : Prop :=
  buf.openLine.isSome ∧ newline ∈ data

instance (buf : OutputBuffer) : Decidable buf.Accounted :=
  inferInstanceAs (Decidable (_ = _))

instance (buf : OutputBuffer) (data : Bytes) : Decidable (buf.Completes data) :=
  inferInstanceAs (Decidable (_ ∧ _))

variable {buf buf' : OutputBuffer} {data line : Bytes} {lines : List Bytes} {missing n : Nat}

theorem accounted_iff : buf.Accounted ↔ buf.Lacks 0 := Iff.rfl

@[simp] theorem buffered_nil : buffered [] = 0 := rfl

@[simp] theorem buffered_cons (line : Bytes) (lines : List Bytes) :
    buffered (line :: lines) = line.length + buffered lines := by simp [buffered]

@[simp] theorem buffered_append (lines lines' : List Bytes) :
    buffered (lines ++ lines') = buffered lines + buffered lines' := by simp [buffered]

/-- A longer last line. -/
theorem buffered_extend (h : lines.getLast? = some line) (data : Bytes) :
    buffered (lines.dropLast ++ [line ++ data]) = buffered lines + data.length := by
  obtain ⟨front, rfl⟩ := List.getLast?_eq_some_iff.mp h
  simp
  omega

/-- A pushed line is counted. -/
theorem Lacks.pushLine (h : buf.Lacks missing) (ends : Bool) (count : Nat) (line : Bytes × Nat) :
    (buf.pushLine ends count line).Lacks missing := by
  obtain ⟨line, i⟩ := line
  unfold Lacks at h ⊢
  simp only [OutputBuffer.pushLine]
  split
  · simp only [buffered_append, buffered_cons, buffered_nil]
    omega
  · exact h

theorem Lacks.pushLines (h : buf.Lacks missing) (remaining : Bytes) :
    (buf.pushLines remaining).Lacks missing := by
  simp only [OutputBuffer.pushLines]
  generalize (remaining.splitOnP (· == newline)).length = count
  generalize (remaining.splitOnP (· == newline)).zipIdx = lines
  generalize (remaining.getLast? == some newline) = ends
  induction lines generalizing buf with
  | nil => exact h
  | cons line lines ih => exact ih (h.pushLine ends count line)

/-- Trimming drops as many bytes from the count as from the lines. -/
theorem trim_lacks {r : Nat × List Bytes} (h : n + missing = buffered lines)
    (hr : trim n lines = .ok r) : r.1 + missing = buffered r.2 := by
  induction lines generalizing n with
  | nil =>
    simp only [trim] at hr
    split at hr
    · cases hr
    · cases hr
      exact h
  | cons removed lines ih =>
    simp only [trim] at hr
    split at hr
    · split at hr
      · cases hr
      · rw [buffered_cons] at h
        exact ih (by omega) hr
    · cases hr
      exact h

/-- A count that is right trims without a fault. -/
theorem trim_total (h : n = buffered lines) : ∃ r, trim n lines = .ok r := by
  induction lines generalizing n with
  | nil =>
    refine ⟨(n, []), if_neg ?_⟩
    rw [h, buffered_nil]
    exact Nat.not_lt_zero _
  | cons removed lines ih =>
    rw [buffered_cons] at h
    simp only [trim]
    split
    · rw [if_neg (by omega)]
      exact ih (by omega)
    · exact ⟨_, rfl⟩

/-- What the rest of the bytes leave uncounted is what was uncounted before. -/
theorem Lacks.appendRemaining (h : buf.Lacks missing)
    (hr : buf.appendRemaining data = .ok buf') : buf'.Lacks missing := by
  simp only [OutputBuffer.appendRemaining] at hr
  split at hr
  · cases hr
  · rename_i htrim
    cases hr
    exact trim_lacks (h.pushLines data) htrim

/-- Behind a right count the rest of the bytes are appended without a fault. -/
theorem Accounted.appendRemaining (h : buf.Accounted) (data : Bytes) :
    ∃ buf', buf.appendRemaining data = .ok buf' ∧ buf'.Accounted := by
  have hpushed : (buf.pushLines data).Accounted := (accounted_iff.mp h).pushLines data
  obtain ⟨r, hr⟩ := trim_total hpushed
  have hok : buf.appendRemaining data =
      .ok { buf.pushLines data with totalSize := r.1, lines := r.2 } := by
    simp only [OutputBuffer.appendRemaining]
    rw [hr]
  exact ⟨_, hok, (accounted_iff.mp h).appendRemaining hok⟩

theorem findIdx?_newline (h : newline ∈ data) : ∃ pos, data.findIdx? (· == newline) = some pos ∧
    pos < data.length := by
  have hsome : (data.findIdx? (· == newline)).isSome := by
    rw [List.findIdx?_isSome]
    simpa using h
  obtain ⟨pos, hpos⟩ := Option.isSome_iff_exists.mp hsome
  refine ⟨pos, hpos, ?_⟩
  rw [List.findIdx?_eq_some_iff_getElem] at hpos
  exact hpos.1

/-- Bytes that complete no open line keep the count right. -/
theorem Accounted.append (h : buf.Accounted) (hdata : ¬ buf.Completes data) :
    ∃ buf', buf.append data = .ok buf' ∧ buf'.Accounted := by
  unfold OutputBuffer.append
  split_ifs
  · exact ⟨buf, rfl, h⟩
  · split
    · exact h.appendRemaining data
    · rename_i lastLine hopen
      have hnone : data.findIdx? (· == newline) = none := by
        rw [List.findIdx?_eq_none_iff]
        intro b hb
        rw [beq_eq_false_iff_ne]
        rintro rfl
        exact hdata ⟨by rw [hopen]; rfl, hb⟩
      rw [hnone]
      refine ⟨_, rfl, ?_⟩
      unfold openLine at hopen
      split_ifs at hopen
      show buf.totalSize + data.length = buffered _
      rw [buffered_extend hopen, h]

/-- Bytes that complete an open line leave the count short for good. -/
theorem Accounted.completes (h : buf.Accounted) (hdata : buf.Completes data)
    (hr : buf.append data = .ok buf') : ¬ buf'.Accounted := by
  obtain ⟨lastLine, hopen⟩ := Option.isSome_iff_exists.mp hdata.1
  obtain ⟨pos, hpos, hlt⟩ := findIdx?_newline hdata.2
  have hne : data.isEmpty = false := by
    rw [List.isEmpty_eq_false_iff_exists_mem]
    exact ⟨newline, hdata.2⟩
  simp only [OutputBuffer.append, hne, hopen, hpos] at hr
  unfold openLine at hopen
  split_ifs at hopen
  have hlacks : Lacks (pos + 1) { buf with
      lines := buf.lines.dropLast ++ [lastLine ++ data.take (pos + 1)]
      lastLineIncomplete := false } := by
    show buf.totalSize + (pos + 1) = buffered _
    rw [buffered_extend hopen, List.length_take, h]
    omega
  have hafter : buf'.totalSize + (pos + 1) = buffered buf'.lines := hlacks.appendRemaining hr
  unfold Accounted
  omega

/-- A call of `append` on what the calls before have left. -/
def call (r : Except TrimFault OutputBuffer) (data : Bytes) : Except TrimFault OutputBuffer :=
  r.bind fun buf => buf.append data

/-- A call that completes no open line. -/
def NoneCompleted (r : Except TrimFault OutputBuffer) (data : Bytes) : Prop :=
  ∀ buf ∈ r.toOption, ¬ buf.Completes data

/-- The calls so far came back, and the count is right. -/
def Sound (r : Except TrimFault OutputBuffer) : Prop := ∃ buf, r = .ok buf ∧ buf.Accounted

theorem sound_call {r : Except TrimFault OutputBuffer} (h : Sound r) (data : Bytes) :
    Sound (call r data) ↔ NoneCompleted r data := by
  obtain ⟨buf, rfl, hbuf⟩ := h
  constructor
  · rintro ⟨buf', hr, hafter⟩ b hb hdata
    obtain rfl : buf = b := Option.some.inj hb
    exact hbuf.completes hdata hr hafter
  · intro hnone
    exact hbuf.append (hnone buf rfl)

theorem recentLines_suffix {maxBytes size : Nat} (h : size ≤ maxBytes) (lines : List Bytes) :
    recentLines maxBytes size lines <:+ lines.reverse.flatten ∧
      size + (recentLines maxBytes size lines).length ≤ maxBytes := by
  induction lines generalizing size with
  | nil => exact ⟨List.nil_suffix, h⟩
  | cons line lines ih =>
    unfold recentLines
    split
    · exact ⟨List.nil_suffix, h⟩
    · obtain ⟨⟨front, hfront⟩, hlen⟩ := @ih (size + line.length) (by omega)
      refine ⟨⟨front, ?_⟩, ?_⟩
      · rw [List.reverse_cons, List.flatten_append, ← hfront]
        simp
      · rw [List.length_append]
        omega

/-- What is shown of a session is the end of its output, within the bytes asked for. -/
theorem getRecent_suffix (buf : OutputBuffer) (maxBytes : Nat) :
    buf.getRecent maxBytes <:+ buf.lines.flatten ∧ (buf.getRecent maxBytes).length ≤ maxBytes := by
  obtain ⟨hsuffix, hlen⟩ := recentLines_suffix maxBytes.zero_le buf.lines.reverse
  rw [List.reverse_reverse] at hsuffix
  rw [Nat.zero_add] at hlen
  exact ⟨hsuffix, hlen⟩

/-- The size of the buffer is right, and every call comes back, exactly as long as no call
completes an open line. -/
theorem size_accounted_iff (calls : List Bytes) :
    (∀ pre, pre <+: calls → Sound (run call (.ok new) pre)) ↔
      Allowed call NoneCompleted (.ok new) calls :=
  allowed_iff_keeps (Q := Sound) (fun _ data h => sound_call h data) ⟨new, rfl, rfl⟩

/-- Two calls that write one line leave its end uncounted. -/
theorem size_lost_by_completed_line :
    ¬ ∀ calls : List Bytes, Sound (run call (.ok new) calls) := by
  intro hall
  obtain ⟨buf, hrun, hbuf⟩ := hall [[97], [newline]]
  have hlost : run call (.ok new) [[97], [newline]] = .ok ⟨[[97, newline]], 1, false⟩ := by decide
  rw [hlost] at hrun
  cases hrun
  exact absurd hbuf (by decide)

end OutputBuffer

end MDesk
