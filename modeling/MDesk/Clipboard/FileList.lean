import Mathlib.Data.List.DropRight
import Mathlib.Data.UInt
import MDesk.Clipboard.LocalFile

/-!
# The list of clipboard files on the wire

The files offered for pasting travel as one descriptor of 592 bytes each behind their
count. `as_bin` writes a descriptor and `parse_file_descriptor` reads it on the other
machine; 12 of the 16 bytes that the format reserves stay zero and the last 4 carry the
Unix mode. Times before the Unix epoch travel as the epoch.
-/

namespace MDesk.Clipboard

open Core

def flagsFdAttributes : Nat := 0x04
def flagsFdSize : Nat := 0x40
def flagsFdLastWrite : Nat := 0x20
def flagsFdProgressUi : Nat := 0x4000
def flagsFdUnixMode : Nat := 0x08

/-- `LDAP_EPOCH_DELTA`: the Unix epoch in the time of the format, in units of 100 ns. -/
def ldapEpochDelta : Nat := 116444772610000000

def permRead : Nat := 0o444
def permRw : Nat := 0o644
def permSelfRo : Nat := 0o400
def permRwx : Nat := 0o755

namespace LocalFile

/-- The bits of `file_attributes`. -/
def fileAttributes (f : LocalFile) : Nat :=
  (if f.readOnly then 0x1 else 0) ||| (if f.hidden then 0x2 else 0) |||
    (if f.system then 0x4 else 0) ||| (if f.isDir then 0x10 else 0) |||
    (if f.archive then 0x20 else 0) ||| (if f.normal then 0x80 else 0)

/-- The last write time as the format has it. A time before the epoch counts as the epoch,
and the nanoseconds are cut to 64 bits. -/
def win32Time (f : LocalFile) : Nat := f.lastWriteTime.toNat % 2 ^ 64 / 100 + ldapEpochDelta

/-- The name in the bytes of UTF-16. -/
def nameBytes (f : LocalFile) : Bytes := utf16LeBytes (utf16Encode f.relativeName.toList)

/-- `LocalFile::as_bin`, `none` where the padding of the name would be negative. -/
def asBin (f : LocalFile) : Option Bytes :=
  let flags := flagsFdSize ||| flagsFdLastWrite ||| flagsFdAttributes ||| flagsFdProgressUi |||
    flagsFdUnixMode
  let sizeHigh := f.size.toNat / 2 ^ 32
  let sizeLow := f.size.toNat % 2 ^ 32
  if f.nameBytes.length > 520 then none
  else some (leBytes 4 flags ++ (List.replicate 32 0 ++ (leBytes 4 f.fileAttributes ++
    (List.replicate 12 0 ++ (leBytes 4 f.perm.toNat ++ (leBytes 8 f.win32Time ++
    (leBytes 4 sizeHigh ++ (leBytes 4 sizeLow ++
    (f.nameBytes ++ List.replicate (520 - f.nameBytes.length) 0)))))))))

end LocalFile

/-- `build_file_list_pdu`. -/
def buildFileListPdu (fileList : List LocalFile) : Option Bytes :=
  (fileList.mapM LocalFile.asBin).map fun records =>
    leBytes 4 fileList.length ++ records.flatten

/-- `FileType`, as far as a descriptor gives it. -/
inductive FileType where
  | file
  | directory
  deriving DecidableEq, Repr

/-- Times are nanoseconds since the Unix epoch, and the name is the text of its path. -/
structure FileDescription where
  connId : Int
  name : String
  kind : FileType
  atime : Nat
  lastModified : Nat
  lastMetadataChanged : Nat
  creationTime : Nat
  size : Nat
  perm : Nat
  deriving DecidableEq, Repr

namespace FileDescription

/-- The fields of a descriptor as they are read. -/
structure Record where
  flags : Nat
  attributes : Nat
  perm : Nat
  lastWriteTime : Nat
  fileSizeHigh : Nat
  fileSizeLow : Nat
  block : Bytes
  deriving DecidableEq, Repr

/-- Read one descriptor off the front of the PDU. -/
def readRecord (bytes : Bytes) : Record × Bytes :=
  let (flags, bytes) := getLe 4 bytes
  let bytes := bytes.drop 32
  let (attributes, bytes) := getLe 4 bytes
  let bytes := bytes.drop 12
  let (perm, bytes) := getLe 4 bytes
  let (lastWriteTime, bytes) := getLe 8 bytes
  let (fileSizeHigh, bytes) := getLe 4 bytes
  let (fileSizeLow, bytes) := getLe 4 bytes
  ({ flags, attributes, perm := perm % 2 ^ 16, lastWriteTime, fileSizeHigh, fileSizeLow,
     block := bytes.take 520 }, bytes.drop 520)

/-- `WStr::from_utf16le`. -/
def wstr (block : Bytes) : Option (List Char) := (utf16LeUnits block).bind utf16Decode

/-- `replace('\\', "/")` and `trim_end_matches('\0')`. -/
def normalName (name : List Char) : String :=
  String.ofList ((name.map fun c => if c = '\\' then '/' else c).rdropWhile (· = '\x00'))

/-- What a record without the flag of a Unix mode allows. -/
def defaultPerm (attributes : Nat) : Nat :=
  if attributes = 0x80 then permRwx
  else if attributes &&& 0x01 ≠ 0 then permRead
  else if attributes &&& 0x02 ≠ 0 then permSelfRo
  else if attributes &&& 0x10 ≠ 0 then permRwx
  else permRw

/-- The time of a record, the epoch when it is not valid or lies before it. -/
def Record.modified (r : Record) : Nat :=
  if r.flags &&& flagsFdLastWrite ≠ 0 ∧ r.lastWriteTime ≥ ldapEpochDelta then
    (r.lastWriteTime - ldapEpochDelta) * 100 % 2 ^ 64
  else 0

/-- What a record says about a file. -/
def Record.describe (r : Record) (connId : Int) : Except CliprdrError FileDescription :=
  match wstr r.block with
  | none => .error .conversionFailure
  | some name =>
    if r.flags &&& flagsFdAttributes = 0 then
      .error (.invalidRequest "file description must have valid attributes")
    else .ok {
      connId
      name := normalName name
      kind := if r.attributes &&& 0x10 ≠ 0 then .directory else .file
      atime := r.modified
      lastModified := r.modified
      lastMetadataChanged := r.modified
      creationTime := r.modified
      size := r.fileSizeHigh <<< 32 + r.fileSizeLow
      perm := if r.flags &&& flagsFdUnixMode ≠ 0 then r.perm else defaultPerm r.attributes }

/-- `parse_file_descriptor`, with the bytes behind the record. -/
def parseFileDescriptor (bytes : Bytes) (connId : Int) :
    Except CliprdrError (FileDescription × Bytes) :=
  ((readRecord bytes).1.describe connId).map fun desc => (desc, (readRecord bytes).2)

/-- The loop of `parse_file_descriptors`. -/
def parseAll (connId : Int) : Nat → Bytes → Except CliprdrError (List FileDescription)
  | 0, _ => .ok []
  | count + 1, bytes => do
    let (desc, bytes) ← parseFileDescriptor bytes connId
    let files ← parseAll connId count bytes
    .ok (desc :: files)

/-- `parse_file_descriptors`. -/
def parseFileDescriptors (pdu : Bytes) (connId : Int) :
    Except CliprdrError (List FileDescription) :=
  if pdu.length < 4 then
    .error (.invalidRequest "file descriptor request with infficient length")
  else
    let (count, data) := getLe 4 pdu
    if data.length = 0 ∧ count = 0 then .ok []
    else if data.length ≠ 592 * count then
      .error (.invalidRequest "file descriptor request with invalid length")
    else parseAll connId count data

end FileDescription

/-- What is to be read on the other machine about a file. -/
def LocalFile.described (f : LocalFile) (connId : Int) : FileDescription where
  connId
  name := f.relativeName
  kind := if f.isDir then .directory else .file
  atime := f.lastWriteTime.toNat / 100 * 100
  lastModified := f.lastWriteTime.toNat / 100 * 100
  lastMetadataChanged := f.lastWriteTime.toNat / 100 * 100
  creationTime := f.lastWriteTime.toNat / 100 * 100
  size := f.size.toNat
  perm := f.perm.toNat % 2 ^ 16

/-- The name of a file fits its field and means the same on both systems. -/
structure LocalFile.Portable (f : LocalFile) : Prop where
  fits : (utf16Encode f.relativeName.toList).length ≤ 260
  backslash : '\\' ∉ f.relativeName.toList
  nul : '\x00' ∉ f.relativeName.toList

namespace FileDescription

open LocalFile

variable {f : LocalFile}

/-- The attributes keep the kind of a file. -/
theorem fileAttributes_spec (f : LocalFile) :
    f.fileAttributes < 256 ^ 4 ∧ (f.fileAttributes &&& 0x10 ≠ 0 ↔ f.isDir = true) := by
  unfold fileAttributes
  generalize f.readOnly = readOnly, f.hidden = hidden, f.system = system, f.isDir = isDir,
    f.archive = archive, f.normal = normal
  revert readOnly hidden system isDir archive normal
  decide

/-- A block of a name and its padding is read as the name. -/
theorem wstr_padded (name : List Char) (k : Nat) :
    wstr (utf16LeBytes (utf16Encode name) ++ List.replicate (2 * k) 0) =
      some (name ++ List.replicate k '\x00') := by
  have hbytes : utf16LeBytes (utf16Encode name) ++ List.replicate (2 * k) 0 =
      utf16LeBytes (utf16Encode (name ++ List.replicate k '\x00')) := by
    rw [utf16Encode_append, utf16LeBytes_append, utf16Encode_replicate_zero,
      utf16LeBytes_replicate_zero]
  rw [wstr, hbytes, utf16LeUnits_bytes (utf16Encode_lt _)]
  exact utf16Decode_encode _

/-- A name without backslashes and zeros comes out of its padding as it was. -/
theorem normalName_padded {name : List Char} (hback : '\\' ∉ name) (hnul : '\x00' ∉ name)
    (k : Nat) : normalName (name ++ List.replicate k '\x00') = String.ofList name := by
  have hmap : (name ++ List.replicate k '\x00').map (fun c => if c = '\\' then '/' else c) =
      name ++ List.replicate k '\x00' := by
    conv_rhs => rw [← List.map_id (name ++ List.replicate k '\x00')]
    apply List.map_congr_left
    intro c hc
    refine if_neg ?_
    rintro rfl
    rcases List.mem_append.mp hc with hin | hin
    · exact hback hin
    · cases List.eq_of_mem_replicate hin
  have htrim : (name ++ List.replicate k '\x00').rdropWhile (· = '\x00') = name := by
    clear hmap
    induction k with
    | zero =>
      rw [List.replicate_zero, List.append_nil, List.rdropWhile_eq_self_iff]
      intro hne hlast
      have hzero : name.getLast hne = '\x00' := by simpa using hlast
      exact hnul (hzero ▸ List.getLast_mem hne)
    | succ k ih =>
      rw [List.replicate_succ', ← List.append_assoc, List.rdropWhile_concat_pos _ _ _ (by simp)]
      exact ih
  rw [normalName, hmap, htrim]

/-- A descriptor is as long as the reader takes it to be. -/
theorem asBin_eq (h : f.Portable) : ∃ record, f.asBin = some record ∧ record.length = 592 ∧
    ∀ rest, readRecord (record ++ rest) =
      ({ flags := 0x406c
         attributes := f.fileAttributes
         perm := f.perm.toNat % 2 ^ 16
         lastWriteTime := f.win32Time
         fileSizeHigh := f.size.toNat / 2 ^ 32
         fileSizeLow := f.size.toNat % 2 ^ 32
         block := f.nameBytes ++ List.replicate (520 - f.nameBytes.length) 0 }, rest) := by
  have hname : f.nameBytes.length ≤ 520 := by
    have hfits := h.fits
    rw [nameBytes, utf16LeBytes_length]
    omega
  have hblock : (f.nameBytes ++ List.replicate (520 - f.nameBytes.length) 0).length = 520 := by
    simp
    omega
  have hperm := f.perm.toNat_lt
  have hsize := f.size.toNat_lt
  have htime : f.win32Time < 256 ^ 8 := by
    unfold win32Time ldapEpochDelta
    omega
  refine ⟨_, if_neg (by omega), ?_, fun rest => ?_⟩
  · simp only [List.length_append, leBytes_length, List.length_replicate]
    omega
  · have hskip (n : Nat) (bytes : Bytes) : (List.replicate n 0 ++ bytes).drop n = bytes :=
      List.drop_left' List.length_replicate
    generalize f.nameBytes ++ List.replicate (520 - f.nameBytes.length) 0 = block at hblock ⊢
    simp only [readRecord, List.append_assoc]
    rw [getLe_leBytes (by decide)]
    simp only [hskip]
    rw [getLe_leBytes (fileAttributes_spec f).1]
    simp only [hskip]
    rw [getLe_leBytes (by omega), getLe_leBytes htime, getLe_leBytes (by omega),
      getLe_leBytes (by omega), List.take_left' hblock, List.drop_left' hblock]
    rfl

/-- The time of a file comes back cut to units of 100 ns. -/
theorem modified_win32Time {r : Record} (hflags : r.flags &&& flagsFdLastWrite ≠ 0)
    (htime : r.lastWriteTime = f.win32Time) (h : f.lastWriteTime < 2 ^ 64) :
    r.modified = f.lastWriteTime.toNat / 100 * 100 := by
  have hcut : f.lastWriteTime.toNat % 2 ^ 64 = f.lastWriteTime.toNat :=
    Nat.mod_eq_of_lt (by omega)
  rw [Record.modified, htime, win32Time, hcut, if_pos ⟨hflags, Nat.le_add_left _ _⟩,
    Nat.add_sub_cancel, Nat.mod_eq_of_lt (by omega)]

/-- A descriptor is read as the file it was written for, and no further. -/
theorem parseFileDescriptor_asBin (h : f.Portable) (htime : f.lastWriteTime < 2 ^ 64)
    (connId : Int) : ∃ record, f.asBin = some record ∧ record.length = 592 ∧
      ∀ rest, parseFileDescriptor (record ++ rest) connId = .ok (f.described connId, rest) := by
  obtain ⟨record, hbin, hlen, hread⟩ := asBin_eq h
  refine ⟨record, hbin, hlen, fun rest => ?_⟩
  have hfits := h.fits
  have hpad : 520 - f.nameBytes.length =
      2 * (260 - (utf16Encode f.relativeName.toList).length) := by
    rw [nameBytes, utf16LeBytes_length]
    omega
  have hname : wstr (f.nameBytes ++ List.replicate (520 - f.nameBytes.length) 0) =
      some (f.relativeName.toList ++
        List.replicate (260 - (utf16Encode f.relativeName.toList).length) '\x00') := by
    rw [hpad]
    exact wstr_padded _ _
  have hsize : (f.size.toNat / 2 ^ 32) <<< 32 + f.size.toNat % 2 ^ 32 = f.size.toNat := by
    rw [Nat.shiftLeft_eq]
    omega
  simp only [parseFileDescriptor, hread, Record.describe, hname]
  rw [if_neg (show ¬ 0x406c &&& flagsFdAttributes = 0 by decide),
    if_pos (show 0x406c &&& flagsFdUnixMode ≠ 0 by decide), hsize,
    normalName_padded h.backslash h.nul, String.ofList_toList,
    modified_win32Time (show 0x406c &&& flagsFdLastWrite ≠ 0 by decide) rfl htime]
  simp only [(fileAttributes_spec f).2]
  rfl

/-- Descriptors behind one another are read one after another. -/
theorem parseAll_records {fileList : List LocalFile} (h : ∀ f ∈ fileList, f.Portable)
    (htime : ∀ f ∈ fileList, f.lastWriteTime < 2 ^ 64) (connId : Int) :
    ∃ records, fileList.mapM LocalFile.asBin = some records ∧
      records.flatten.length = 592 * fileList.length ∧
      parseAll connId fileList.length records.flatten =
        .ok (fileList.map fun f => f.described connId) := by
  induction fileList with
  | nil => exact ⟨[], rfl, rfl, rfl⟩
  | cons f fileList ih =>
    obtain ⟨record, hbin, hlen, hparse⟩ := parseFileDescriptor_asBin (h f List.mem_cons_self)
      (htime f List.mem_cons_self) connId
    obtain ⟨records, hrest, hlens, hall⟩ := ih (fun g hg => h g (List.mem_cons_of_mem f hg))
      fun g hg => htime g (List.mem_cons_of_mem f hg)
    refine ⟨record :: records, ?_, ?_, ?_⟩
    · rw [List.mapM_cons, hbin, hrest]
      rfl
    · rw [List.flatten_cons, List.length_append, hlen, hlens, List.length_cons]
      omega
    · simp only [List.flatten_cons, List.length_cons, parseAll, hparse, bind, Except.bind, hall,
        List.map_cons]

/-- The list of files that is read is the one that was written, with the times from the
epoch on and the mode in 16 bits. -/
theorem file_list_round_trip (fileList : List LocalFile) (connId : Int)
    (h : ∀ f ∈ fileList, f.Portable) (htime : ∀ f ∈ fileList, f.lastWriteTime < 2 ^ 64)
    (hcount : fileList.length < 2 ^ 32) :
    ∃ pdu, buildFileListPdu fileList = some pdu ∧
      parseFileDescriptors pdu connId = .ok (fileList.map fun f => f.described connId) := by
  obtain ⟨records, hbin, hlen, hall⟩ := parseAll_records h htime connId
  refine ⟨leBytes 4 fileList.length ++ records.flatten, ?_, ?_⟩
  · rw [buildFileListPdu, hbin]
    rfl
  · unfold parseFileDescriptors
    rw [if_neg (by simp), getLe_leBytes (by omega)]
    simp only [hlen]
    split_ifs with hempty hwrong
    · obtain rfl : fileList = [] := List.eq_nil_of_length_eq_zero hempty.2
      rfl
    · exact absurd rfl hwrong
    · exact hall

/-- A directory and a file whose name leaves the basic plane. -/
def sampleFiles : List LocalFile :=
  [{ relativeRoot := ["", "home"], path := ["", "home", "docs"], name := "home\\docs",
     size := 4096, lastWriteTime := 1700000000123456789, isDir := true, perm := 0o40755 },
   { relativeRoot := ["", "home"], path := ["", "home", "docs", "메모𝄞.txt"],
     name := "home\\docs\\메모𝄞.txt", size := 2 ^ 33 + 5, lastWriteTime := 1700000000000000050,
     isDir := false, perm := 0o100644, normal := true }]

theorem sampleFiles_portable : ∀ f ∈ sampleFiles, f.Portable := by
  intro f hf
  simp only [sampleFiles, List.mem_cons, List.not_mem_nil, or_false] at hf
  rcases hf with rfl | rfl
  all_goals exact ⟨by decide, by decide, by decide⟩

/-- Their list comes back. -/
theorem file_list_round_trip_sample : ∃ pdu, buildFileListPdu sampleFiles = some pdu ∧
    parseFileDescriptors pdu 1 = .ok (sampleFiles.map fun f => f.described 1) :=
  file_list_round_trip sampleFiles 1 sampleFiles_portable (by decide) (by decide)

/-- A time that a `FILETIME` holds: units of 100 ns from the year 1601 on, in 64 bits. -/
def FileTime (t : Int) : Prop := 0 ≤ t / 100 + 116444736000000000 ∧
  t / 100 + 116444736000000000 < 2 ^ 64

/-- A file last written a second before the epoch. -/
def oldFile : LocalFile where
  relativeRoot := [""]
  path := ["", "old"]
  name := "old"
  size := 0
  lastWriteTime := -1000000000
  isDir := false
  perm := 0o100644

/-- The time of a file from before the epoch is not read back. -/
theorem time_before_epoch_lost :
    ¬ ∀ (fileList : List LocalFile) (connId : Int), (∀ f ∈ fileList, f.Portable) →
      (∀ f ∈ fileList, FileTime f.lastWriteTime) →
      ∃ pdu files, buildFileListPdu fileList = some pdu ∧
        parseFileDescriptors pdu connId = .ok files ∧
        files.map (fun d => (d.lastModified : Int)) =
          fileList.map fun f => f.lastWriteTime / 100 * 100 := by
  intro hall
  obtain ⟨pdu, files, hbuild, hparse, htimes⟩ := hall [oldFile] 0
    (by
      intro f hf
      obtain rfl := List.mem_singleton.mp hf
      exact ⟨by decide, by decide, by decide⟩)
    (by
      intro f hf
      obtain rfl := List.mem_singleton.mp hf
      exact ⟨by decide, by decide⟩)
  have hread : (buildFileListPdu [oldFile]).bind (fun pdu =>
      (parseFileDescriptors pdu 0).toOption.map fun files =>
        files.map fun d => d.lastModified) = some [0] := by decide +kernel
  rw [hbuild, Option.bind_some, hparse] at hread
  have hzero : files.map (fun d => d.lastModified) = [0] := Option.some.inj hread
  obtain ⟨d, rfl, hd⟩ : ∃ d, files = [d] ∧ d.lastModified = 0 := by
    simpa [List.map_eq_singleton_iff] using hzero
  rw [List.map_singleton, hd] at htimes
  exact absurd htimes (by decide)

end FileDescription

end MDesk.Clipboard
