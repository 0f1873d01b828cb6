import MDesk.Clipboard.FileList

/-!
# Where a list of clipboard files ends the process

Writing a descriptor subtracts the length of a name from the length of its field. Reading
descriptors takes bytes off a buffer, which has to have them, and scales a time that the peer
has chosen.
-/

namespace MDesk.Clipboard

open Core

namespace LocalFile

/-- What the system says of a file. -/
structure Metadata where
  len : UInt64
  isDir : Bool
  readonly : Bool
  /-- Nanoseconds since the Unix epoch. -/
  modified : Option Int
  mode : UInt32

/-- `try_open` on a file that is there. -/
def tryOpen (relativeRoot path : PathBuf) (mt : Metadata) : LocalFile :=
  let hidden := (pathString path).toList.head? == some '.'
  { relativeRoot
    path
    name := String.ofList (((pathString path).toList.dropWhile (· = '/')).map fun c =>
      if c = '/' then '\\' else c)
    size := mt.len
    lastWriteTime := mt.modified.getD 0
    isDir := mt.isDir
    perm := mt.mode
    readOnly := mt.readonly
    hidden
    normal := !(mt.isDir || mt.readonly || hidden) }

/-- A file gets its descriptor of 592 bytes exactly when its name under the root is at most 260
units of UTF-16 long; its time never leaves 64 bits. -/
theorem asBin_iff (f : LocalFile) : f.win32Time < 2 ^ 64 ∧
    ((∃ record, f.asBin = some record ∧ record.length = 592) ↔
      (utf16Encode f.relativeName.toList).length ≤ 260) := by
  have hname : f.nameBytes.length = 2 * (utf16Encode f.relativeName.toList).length := by
    rw [nameBytes, utf16LeBytes_length]
  constructor
  · unfold win32Time ldapEpochDelta
    omega
  · constructor
    · rintro ⟨record, hbin, -⟩
      unfold asBin at hbin
      dsimp only at hbin
      split_ifs at hbin
      omega
    · intro hfits
      refine ⟨_, if_neg (by omega), ?_⟩
      simp only [List.length_append, leBytes_length, List.length_replicate]
      omega

/-- A folder with a long name in another one has no descriptor. -/
theorem asBin_long_name : ¬ ∀ (relativeRoot path : PathBuf) (mt : Metadata), ∃ record,
    (tryOpen relativeRoot path mt).asBin = some record ∧ record.length = 592 := by
  intro h
  have hfits := (asBin_iff _).2.mp (h ["", "home"]
    ["", "home", String.ofList (List.replicate 200 'a'), String.ofList (List.replicate 200 'b')]
    ⟨4096, true, false, some 1700000000000000000, 0o40755⟩)
  have hlen := (length_le_utf16Encode _).trans hfits
  simp [relativeName, tryOpen, pathString, List.isPrefixOf?, joinSlash, List.intercalate,
    -List.reduceReplicate] at hlen

end LocalFile

namespace FileDescription

/-! ## Reading with the checks of the machine -/

namespace Checked

/-- `Buf::get_u32_le` and `Buf::get_u64_le`. -/
def getLe (w : Nat) (bytes : Bytes) : Except CliprdrError (Nat × Bytes) :=
  if bytes.length < w then .error .aborted else .ok (Core.getLe w bytes)

/-- `Buf::advance`. -/
def advance (n : Nat) (bytes : Bytes) : Except CliprdrError Bytes :=
  if bytes.length < n then .error .aborted else .ok (bytes.drop n)

/-- `&block[..n]`. -/
def slice (n : Nat) (block : Bytes) : Except CliprdrError Bytes :=
  if block.length < n then .error .aborted else .ok (block.take n)

/-- A product of 64 bits. -/
def mul (a b : Nat) : Except CliprdrError Nat :=
  if 2 ^ 64 ≤ a * b then .error .aborted else .ok (a * b)

/-- The time of a record. -/
def modified (flags lastWriteTime : Nat) : Except CliprdrError Nat :=
  if flags &&& flagsFdLastWrite ≠ 0 ∧ lastWriteTime ≥ ldapEpochDelta then
    mul (lastWriteTime - ldapEpochDelta) 100
  else .ok 0

/-- Read one descriptor off the front of the buffer. -/
def readRecord (bytes : Bytes) : Except CliprdrError (Record × Bytes) := do
  let (flags, bytes) ← getLe 4 bytes
  let bytes ← advance 32 bytes
  let (attributes, bytes) ← getLe 4 bytes
  let bytes ← advance 12 bytes
  let (perm, bytes) ← getLe 4 bytes
  let (lastWriteTime, bytes) ← getLe 8 bytes
  let (fileSizeHigh, bytes) ← getLe 4 bytes
  let (fileSizeLow, bytes) ← getLe 4 bytes
  let block := bytes
  let bytes ← advance 520 bytes
  let block ← slice 520 block
  .ok ({ flags, attributes, perm := perm % 2 ^ 16, lastWriteTime, fileSizeHigh, fileSizeLow,
         block }, bytes)

/-- What a record says about a file. -/
def describe (r : Record) (connId : Int) : Except CliprdrError FileDescription :=
  match wstr r.block with
  | none => .error .conversionFailure
  | some name =>
    if r.flags &&& flagsFdAttributes = 0 then
      .error (.invalidRequest "file description must have valid attributes")
    else do
      let lastModified ← modified r.flags r.lastWriteTime
      .ok {
        connId
        name := normalName name
        kind := if r.attributes &&& 0x10 ≠ 0 then .directory else .file
        atime := lastModified
        lastModified
        lastMetadataChanged := lastModified
        creationTime := lastModified
        size := r.fileSizeHigh <<< 32 + r.fileSizeLow
        perm := if r.flags &&& flagsFdUnixMode ≠ 0 then r.perm else defaultPerm r.attributes }

/-- `parse_file_descriptor`, which ends the process where an operation is not defined. -/
def parseFileDescriptor (bytes : Bytes) (connId : Int) :
    Except CliprdrError (FileDescription × Bytes) := do
  let (r, bytes) ← readRecord bytes
  let desc ← describe r connId
  .ok (desc, bytes)

def parseAll (connId : Int) : Nat → Bytes → Except CliprdrError (List FileDescription)
  | 0, _ => .ok []
  | count + 1, bytes => do
    let (desc, bytes) ← parseFileDescriptor bytes connId
    let files ← parseAll connId count bytes
    .ok (desc :: files)

/-- `parse_file_descriptors`, as far as it returns. -/
def parseFileDescriptors (pdu : Bytes) (connId : Int) :
    Except CliprdrError (List FileDescription) :=
  if pdu.length < 4 then
    .error (.invalidRequest "file descriptor request with infficient length")
  else do
    let (count, data) ← getLe 4 pdu
    if data.length = 0 ∧ count = 0 then .ok []
    else if data.length ≠ 592 * count then
      .error (.invalidRequest "file descriptor request with invalid length")
    else parseAll connId count data

end Checked

/-- A record that is taken as far as its time: its name is text and its attributes are valid. -/
def Record.Readable (r : Record) : Prop :=
  (wstr r.block).isSome ∧ r.flags &&& flagsFdAttributes ≠ 0

/-- The time of a record is not one of 64 bits in nanoseconds. -/
def Record.Overflows (r : Record) : Prop :=
  r.flags &&& flagsFdLastWrite ≠ 0 ∧ ldapEpochDelta ≤ r.lastWriteTime ∧
    2 ^ 64 ≤ (r.lastWriteTime - ldapEpochDelta) * 100

instance (r : Record) : Decidable r.Readable := inferInstanceAs (Decidable (_ ∧ _))

instance (r : Record) : Decidable r.Overflows := inferInstanceAs (Decidable (_ ∧ _))

variable {bytes : Bytes} {r : Record}

theorem modified_checked (r : Record) : Checked.modified r.flags r.lastWriteTime =
    if r.Overflows then .error .aborted else .ok r.modified := by
  unfold Checked.modified Checked.mul Record.modified
  by_cases hvalid : r.flags &&& flagsFdLastWrite ≠ 0 ∧ r.lastWriteTime ≥ ldapEpochDelta
  · rw [if_pos hvalid, if_pos hvalid]
    by_cases hbig : 2 ^ 64 ≤ (r.lastWriteTime - ldapEpochDelta) * 100
    · rw [if_pos hbig, if_pos (show r.Overflows from ⟨hvalid.1, hvalid.2, hbig⟩)]
    · have hsmall : ¬ r.Overflows := fun h => hbig h.2.2
      rw [if_neg hbig, if_neg hsmall, Nat.mod_eq_of_lt (Nat.lt_of_not_le hbig)]
  · have hsmall : ¬ r.Overflows := fun h => hvalid ⟨h.1, h.2.1⟩
    rw [if_neg hvalid, if_neg hvalid, if_neg hsmall]

/-- A descriptor that is there is read without a fault. -/
theorem readRecord_checked (h : 592 ≤ bytes.length) :
    Checked.readRecord bytes = .ok (readRecord bytes) := by
  have hget (w : Nat) (bs : Bytes) (hw : w ≤ bs.length) :
      Checked.getLe w bs = .ok (Core.getLe w bs) := if_neg (by omega)
  have hadvance (n : Nat) (bs : Bytes) (hn : n ≤ bs.length) :
      Checked.advance n bs = .ok (bs.drop n) := if_neg (by omega)
  have hslice (n : Nat) (bs : Bytes) (hn : n ≤ bs.length) :
      Checked.slice n bs = .ok (bs.take n) := if_neg (by omega)
  unfold Checked.readRecord readRecord
  simp (disch := (try simp only [List.length_drop]); omega) only [hget, hadvance, hslice,
    bind, Except.bind, Core.getLe, List.drop_drop]

theorem describe_checked (r : Record) (connId : Int) : Checked.describe r connId =
    if r.Readable ∧ r.Overflows then .error .aborted else r.describe connId := by
  unfold Checked.describe Record.describe
  cases hname : wstr r.block with
  | none =>
    have hunreadable : ¬ (r.Readable ∧ r.Overflows) := by
      rintro ⟨⟨hsome, -⟩, -⟩
      rw [hname] at hsome
      cases hsome
    rw [if_neg hunreadable]
  | some name =>
    by_cases hattributes : r.flags &&& flagsFdAttributes = 0
    · have hunreadable : ¬ (r.Readable ∧ r.Overflows) := fun h => h.1.2 hattributes
      simp only [if_neg hunreadable, if_pos hattributes]
    · have hreadable : r.Readable := ⟨by rw [hname]; rfl, hattributes⟩
      simp only [if_neg hattributes, modified_checked]
      by_cases hoverflows : r.Overflows
      · have hboth : r.Readable ∧ r.Overflows := ⟨hreadable, hoverflows⟩
        simp only [if_pos hoverflows, if_pos hboth]
        rfl
      · have hsmall : ¬ (r.Readable ∧ r.Overflows) := fun h => hoverflows h.2
        simp only [if_neg hoverflows, if_neg hsmall]
        rfl

/-- A descriptor that is there is parsed without a fault, but for its time. -/
theorem parseFileDescriptor_checked (h : 592 ≤ bytes.length) (connId : Int) :
    Checked.parseFileDescriptor bytes connId =
      if (readRecord bytes).1.Readable ∧ (readRecord bytes).1.Overflows then .error .aborted
      else parseFileDescriptor bytes connId := by
  unfold Checked.parseFileDescriptor FileDescription.parseFileDescriptor
  rw [readRecord_checked h]
  simp only [bind, Except.bind, describe_checked]
  split_ifs
  · rfl
  · cases (readRecord bytes).1.describe connId <;> rfl

/-- A record is described or refused, by what it is. -/
theorem describe_cases (r : Record) (connId : Int) :
    (r.Readable ∧ ∃ desc, r.describe connId = .ok desc) ∨
      (¬ r.Readable ∧ ∃ e, r.describe connId = .error e ∧ e ≠ .aborted) := by
  unfold Record.describe
  cases hname : wstr r.block with
  | none =>
    refine .inr ⟨?_, _, rfl, nofun⟩
    rintro ⟨hsome, -⟩
    rw [hname] at hsome
    cases hsome
  | some name =>
    by_cases hattributes : r.flags &&& flagsFdAttributes = 0
    · exact .inr ⟨fun h => h.2 hattributes, _, if_pos hattributes, nofun⟩
    · exact .inl ⟨⟨by rw [hname]; rfl, hattributes⟩, _, if_neg hattributes⟩

theorem readRecord_rest (bytes : Bytes) : (readRecord bytes).2 = bytes.drop 592 := by
  simp only [readRecord, Core.getLe, List.drop_drop]

/-- What comes of the first descriptor: it is read, refused, or its time faults. -/
theorem parseFileDescriptor_cases (h : 592 ≤ bytes.length) (connId : Int) :
    let r := (readRecord bytes).1
    (r.Readable ∧ r.Overflows ∧ Checked.parseFileDescriptor bytes connId = .error .aborted) ∨
      (r.Readable ∧ ¬ r.Overflows ∧ ∃ desc,
        Checked.parseFileDescriptor bytes connId = .ok (desc, bytes.drop 592)) ∨
      (¬ r.Readable ∧ ∃ e, Checked.parseFileDescriptor bytes connId = .error e ∧
        e ≠ .aborted) := by
  intro r
  rw [parseFileDescriptor_checked h]
  unfold FileDescription.parseFileDescriptor
  rcases describe_cases r connId with ⟨hreadable, desc, hdesc⟩ | ⟨hunreadable, e, herror, hne⟩
  · by_cases hoverflows : r.Overflows
    · exact .inl ⟨hreadable, hoverflows, if_pos ⟨hreadable, hoverflows⟩⟩
    · refine .inr (.inl ⟨hreadable, hoverflows, desc, ?_⟩)
      rw [if_neg fun hboth => hoverflows hboth.2, hdesc, readRecord_rest]
      rfl
  · refine .inr (.inr ⟨hunreadable, e, ?_, hne⟩)
    rw [if_neg fun hboth => hunreadable hboth.1, herror]
    rfl

/-- The record at a place in a row of descriptors. -/
def recordAt (data : Bytes) (k : Nat) : Record := (readRecord (data.drop (592 * k))).1

/-- A time that does not fit, in a record that is reached. -/
def Faults (data : Bytes) (k : Nat) : Prop :=
  (∀ j ≤ k, (recordAt data j).Readable) ∧ (recordAt data k).Overflows

theorem recordAt_drop (data : Bytes) (k : Nat) :
    recordAt (data.drop 592) k = recordAt data (k + 1) := by
  unfold recordAt
  rw [List.drop_drop, Nat.mul_succ, Nat.add_comm]

/-- A fault further on is one behind a readable record. -/
theorem faults_succ (data : Bytes) (k : Nat) :
    Faults data (k + 1) ↔ (readRecord data).1.Readable ∧ Faults (data.drop 592) k := by
  unfold Faults
  simp only [recordAt_drop]
  constructor
  · rintro ⟨hall, hoverflows⟩
    exact ⟨hall 0 (Nat.zero_le _), fun j hj => hall (j + 1) (Nat.succ_le_succ hj), hoverflows⟩
  · rintro ⟨hfirst, hall, hoverflows⟩
    refine ⟨fun j hj => ?_, hoverflows⟩
    cases j with
    | zero => exact hfirst
    | succ j => exact hall j (Nat.le_of_succ_le_succ hj)

/-- Descriptors behind one another end the process exactly when one of them does. -/
theorem parseAll_aborted_iff (connId : Int) {count : Nat} (h : 592 * count ≤ bytes.length) :
    Checked.parseAll connId count bytes = .error .aborted ↔ ∃ k < count, Faults bytes k := by
  induction count generalizing bytes with
  | zero => exact ⟨nofun, fun ⟨_, hk, _⟩ => absurd hk (Nat.not_lt_zero _)⟩
  | succ count ih =>
    have hrest : 592 * count ≤ (bytes.drop 592).length := by
      rw [List.length_drop]
      omega
    unfold Checked.parseAll
    rcases parseFileDescriptor_cases (show 592 ≤ bytes.length by omega) connId with
      ⟨hreadable, hoverflows, hparse⟩ | ⟨hreadable, hsmall, desc, hparse⟩ |
      ⟨hunreadable, e, hparse, hne⟩
    · rw [hparse]
      refine iff_of_true rfl ⟨0, Nat.succ_pos _, fun j hj => ?_, hoverflows⟩
      obtain rfl := Nat.le_zero.mp hj
      exact hreadable
    · have hhead : Checked.parseAll connId count (bytes.drop 592) = .error .aborted ↔
          ((Checked.parseFileDescriptor bytes connId).bind fun x =>
            (Checked.parseAll connId count x.2).bind fun files => .ok (x.1 :: files)) =
              (.error .aborted : Except CliprdrError (List FileDescription)) := by
        rw [hparse]
        cases hmore : Checked.parseAll connId count (bytes.drop 592) <;>
          simp [Except.bind, hmore]
      refine hhead.symm.trans ((ih hrest).trans ⟨?_, ?_⟩)
      · rintro ⟨k, hk, hfaults⟩
        exact ⟨k + 1, Nat.succ_lt_succ hk, (faults_succ bytes k).mpr ⟨hreadable, hfaults⟩⟩
      · rintro ⟨k, hk, hfaults⟩
        cases k with
        | zero => exact absurd hfaults.2 hsmall
        | succ k => exact ⟨k, Nat.lt_of_succ_lt_succ hk, ((faults_succ bytes k).mp hfaults).2⟩
    · rw [hparse]
      refine iff_of_false (fun heq => hne (Except.error.inj heq)) ?_
      rintro ⟨k, -, hall, -⟩
      exact hunreadable (hall 0 (Nat.zero_le _))

/-- As many files are returned as were asked for. -/
theorem parseAll_length {connId : Int} {count : Nat} {files : List FileDescription}
    (h : Checked.parseAll connId count bytes = .ok files) : files.length = count := by
  induction count generalizing bytes files with
  | zero =>
    cases h
    rfl
  | succ count ih =>
    unfold Checked.parseAll at h
    cases hparse : Checked.parseFileDescriptor bytes connId with
    | error e =>
      rw [hparse] at h
      cases h
    | ok x =>
      rw [hparse] at h
      cases hmore : Checked.parseAll connId count x.2 with
      | error e =>
        simp only [bind, Except.bind, hmore] at h
        cases h
      | ok more =>
        simp only [bind, Except.bind, hmore] at h
        cases h
        rw [List.length_cons, ih hmore]

/-- Where nothing faults, the checks change nothing. -/
theorem parseAll_checked (connId : Int) {count : Nat} (h : 592 * count ≤ bytes.length)
    (hfault : Checked.parseAll connId count bytes ≠ .error .aborted) :
    Checked.parseAll connId count bytes = parseAll connId count bytes := by
  induction count generalizing bytes with
  | zero => rfl
  | succ count ih =>
    have hrest : 592 * count ≤ (bytes.drop 592).length := by
      rw [List.length_drop]
      omega
    have hchecked := parseFileDescriptor_checked (show 592 ≤ bytes.length by omega) connId
    unfold Checked.parseAll at hfault ⊢
    unfold parseAll
    split_ifs at hchecked with hboth
    · rw [hchecked] at hfault
      exact absurd rfl hfault
    · rw [hchecked] at hfault ⊢
      cases hparse : parseFileDescriptor bytes connId with
      | error e => rfl
      | ok x =>
        have hx : x.2 = bytes.drop 592 := by
          unfold FileDescription.parseFileDescriptor at hparse
          cases hdesc : (readRecord bytes).1.describe connId with
          | error e =>
            rw [hdesc] at hparse
            cases hparse
          | ok desc =>
            rw [hdesc] at hparse
            cases hparse
            exact readRecord_rest bytes
        rw [hparse] at hfault
        have hmore := ih (hx ▸ hrest) fun haborted => hfault (by
          simp only [bind, Except.bind, haborted])
        simp only [bind, Except.bind, hmore]

/-- The number of entries that a list declares. -/
def declared (pdu : Bytes) : Nat := leNat (pdu.take 4)

/-- No record that is reached has a time that does not fit. -/
def TimesFit (pdu : Bytes) : Prop :=
  pdu.length = 4 + 592 * declared pdu → ∀ k < declared pdu, ¬ Faults (pdu.drop 4) k

/-- A list that does not end the process is read as without the checks. -/
theorem parseFileDescriptors_checked {pdu : Bytes} {connId : Int}
    (h : Checked.parseFileDescriptors pdu connId ≠ .error .aborted) :
    Checked.parseFileDescriptors pdu connId = parseFileDescriptors pdu connId := by
  unfold Checked.parseFileDescriptors at h ⊢
  unfold parseFileDescriptors
  split_ifs at h ⊢ with hshort
  · rfl
  · have hget : Checked.getLe 4 pdu = .ok (Core.getLe 4 pdu) := if_neg (by omega)
    simp only [hget, bind, Except.bind] at h ⊢
    split_ifs at h ⊢ with hempty hwrong
    · rfl
    · rfl
    · exact parseAll_checked connId (not_not.mp hwrong).ge h

/-- Any bytes are read to a result, of as many entries as they declare, exactly when no record that
is reached has a time of more nanoseconds than fit into 64 bits. -/
theorem parseFileDescriptors_total_iff (pdu : Bytes) (connId : Int) :
    (Checked.parseFileDescriptors pdu connId ≠ .error .aborted ∧
      ∀ files, Checked.parseFileDescriptors pdu connId = .ok files →
        files.length = declared pdu) ↔ TimesFit pdu := by
  unfold Checked.parseFileDescriptors TimesFit
  split_ifs with hshort
  · refine iff_of_true ⟨nofun, nofun⟩ fun hlen => ?_
    omega
  · have hget : Checked.getLe 4 pdu = .ok (declared pdu, pdu.drop 4) := if_neg (by omega)
    have hlength : (pdu.drop 4).length = pdu.length - 4 := List.length_drop
    simp only [hget, bind, Except.bind]
    split_ifs with hempty hwrong
    · refine iff_of_true ⟨nofun, fun files hfiles => ?_⟩ fun _ k hk => ?_
      · cases hfiles
        exact hempty.2.symm
      · omega
    · exact iff_of_true ⟨nofun, nofun⟩ fun hlen => absurd (by omega) hwrong
    · have hlen : pdu.length = 4 + 592 * declared pdu := by omega
      have hiff : Checked.parseAll connId (declared pdu) (pdu.drop 4) = .error .aborted ↔ _ :=
        parseAll_aborted_iff connId (by omega)
      constructor
      · rintro ⟨hfault, -⟩ - k hk hfaults
        exact hfault (hiff.mpr ⟨k, hk, hfaults⟩)
      · intro hfit
        refine ⟨fun hfault => ?_, fun files hfiles => parseAll_length hfiles⟩
        obtain ⟨k, hk, hfaults⟩ := hiff.mp hfault
        exact hfit hlen k hk hfaults

/-- One record with the last time of all. -/
def lateTime : Bytes :=
  leBytes 4 1 ++ (leBytes 4 0x24 ++ (List.replicate 52 0 ++ (leBytes 8 (2 ^ 64 - 1) ++
    List.replicate 528 0)))

theorem parseFileDescriptors_aborts : ¬ ∀ (pdu : Bytes) (connId : Int),
    Checked.parseFileDescriptors pdu connId ≠ .error .aborted ∧
      ∀ files, Checked.parseFileDescriptors pdu connId = .ok files →
        files.length = declared pdu := by
  intro h
  have hfit := (parseFileDescriptors_total_iff lateTime 0).mp (h lateTime 0)
  have hfault : Faults (lateTime.drop 4) 0 := by
    refine ⟨fun j hj => ?_, by decide +kernel⟩
    obtain rfl := Nat.le_zero.mp hj
    decide +kernel
  exact hfit (by decide +kernel) 0 (by decide +kernel) hfault

end FileDescription

end MDesk.Clipboard
