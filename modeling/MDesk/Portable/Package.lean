import MDesk.Codec.BytesCodec
import MDesk.Core.Endian
import MDesk.Core.Utf8

/-!
# The self-extracting package

`generate.py` writes the files of the portable build into one table and `BinaryReader`
reads them back when the package starts. Each entry is a path, the compressed contents and
an MD5 code; the identifier that opens the table also ends it, and is looked for where the
next entry would start. An entry starts with the length of its path, so the identifier can
only be mistaken for a path of 1920300916 bytes that starts with `desk`.
-/

namespace MDesk.Portable

open Core

/-- `"rustdesk"` in bytes. -/
def identifier : Bytes := utf8Bytes "rustdesk".toList

/-- A row of the table: the compressed contents under a path, with the hexadecimal MD5 code
of the contents. -/
structure TableEntry where
  path : String
  compressedData : Bytes
  md5Code : Bytes
  length_md5Code : md5Code.length = 32
  deriving DecidableEq, Repr

/-- `path.encode(encoding='utf-8')`. -/
def TableEntry.pathBytes (e : TableEntry) : Bytes := utf8Bytes e.path.toList

/-- `n.to_bytes(length=4, byteorder='big')`, `none` where it raises `OverflowError`. -/
def toBytes (n : Nat) : Option Bytes := if n < 2 ^ 32 then some (beBytes 4 n) else none

/-- One round of the loop of `write_package_metadata`. -/
def writeEntry (e : TableEntry) : Option Bytes := do
  let pathLength ← toBytes e.pathBytes.length
  let dataLength ← toBytes e.compressedData.length
  some (pathLength ++ (e.pathBytes ++ (dataLength ++ (e.compressedData ++ e.md5Code))))

/-- `write_package_metadata`. -/
def writePackageMetadata (md5Table : List TableEntry) (exe : String) : Option Bytes := do
  let entries ← md5Table.mapM writeEntry
  some (identifier ++ (entries.flatten ++ (identifier ++ utf8Bytes exe.toList)))

structure BinaryData where
  md5Code : Bytes
  raw : Bytes
  path : String
  deriving DecidableEq, Repr

/-- `BIN_DATA[..n]` and what is behind it, `none` where the slice is out of bounds. -/
def slice (n : Nat) (data : Bytes) : Option (Bytes × Bytes) :=
  if n ≤ data.length then some (data.take n, data.drop n) else none

/-- Read one entry at the front of the data. -/
def readEntry (data : Bytes) : Option (BinaryData × Bytes) := do
  let (pathLength, data) ← slice 4 data
  let (path, data) ← slice (beNat pathLength) data
  let (fileLength, data) ← slice 4 data
  let (raw, data) ← slice (beNat fileLength) data
  let (md5, data) ← slice 32 data
  some ({ md5Code := md5, raw, path := String.ofList (utf8Lossy path) }, data)

theorem slice_some {n : Nat} {data front rest : Bytes} (h : slice n data = some (front, rest)) :
    data = front ++ rest ∧ front.length = n := by
  unfold slice at h
  split_ifs at h with hn
  cases h
  exact ⟨(List.take_append_drop n data).symm, List.length_take_of_le hn⟩

@[simp] theorem slice_append {n : Nat} {front : Bytes} (h : front.length = n) (rest : Bytes) :
    slice n (front ++ rest) = some (front, rest) := by
  rw [slice, if_pos (by rw [List.length_append]; omega), List.take_left' h, List.drop_left' h]

/-- An entry takes bytes. -/
theorem readEntry_length {data rest : Bytes} {file : BinaryData}
    (h : readEntry data = some (file, rest)) : rest.length < data.length := by
  simp only [readEntry, bind, Option.bind_eq_some_iff] at h
  obtain ⟨⟨a, d1⟩, h1, ⟨b, d2⟩, h2, ⟨c, d3⟩, h3, ⟨d, d4⟩, h4, ⟨e, d5⟩, h5, h6⟩ := h
  cases h6
  obtain ⟨rfl, ha⟩ := slice_some h1
  obtain ⟨rfl, -⟩ := slice_some h2
  obtain ⟨rfl, -⟩ := slice_some h3
  obtain ⟨rfl, -⟩ := slice_some h4
  obtain ⟨rfl, -⟩ := slice_some h5
  simp only [List.length_append]
  omega

/-- The loop of `BinaryReader::read`: the entries up to the identifier, and what is
behind it. -/
def readEntries (data : Bytes) : Option (List BinaryData × Bytes) :=
  match slice 8 data with
  | none => none
  | some (iden, rest) =>
    if utf8Lossy iden = "rustdesk".toList then some ([], rest)
    else
      match _h : readEntry data with
      | none => none
      | some (file, rest) => (readEntries rest).map fun (files, rest) => (file :: files, rest)
  termination_by data.length
  decreasing_by exact readEntry_length _h

/-- `BinaryReader::read`, `none` where it panics. -/
def read (data : Bytes) : Option (List BinaryData × String) := do
  guard (8 < data.length)
  let (iden, data) ← slice 8 data
  guard (utf8Lossy iden = "rustdesk".toList)
  let (parsed, data) ← readEntries data
  some (parsed, String.ofList (utf8Lossy data))

/-- What an entry is to be read as. -/
def TableEntry.data (e : TableEntry) : BinaryData := ⟨e.md5Code, e.compressedData, e.path⟩

/-- The entry starts like the end of the table: the length of its path spells `rust`, and
the path starts with `desk`. -/
def TableEntry.Ambiguous (e : TableEntry) : Prop :=
  e.pathBytes.length = 0x72757374 ∧ utf8Bytes "desk".toList <+: e.pathBytes

/-- What the entries of a table are written as. -/
def TableEntry.wire (e : TableEntry) : Bytes :=
  beBytes 4 e.pathBytes.length ++ (e.pathBytes ++
    (beBytes 4 e.compressedData.length ++ (e.compressedData ++ e.md5Code)))

variable {e : TableEntry} {data rest : Bytes}

/-- A reader takes the identifier for what it is, and nothing else. -/
theorem lossy_identifier_iff (iden : Bytes) :
    utf8Lossy iden = "rustdesk".toList ↔ iden = identifier := by
  constructor
  · intro h
    have hchar : replacementChar ∉ utf8Lossy iden := by
      rw [h]
      decide
    rw [bytes_of_utf8Lossy hchar, h]
    rfl
  · rintro rfl
    exact utf8Lossy_bytes _

/-- An entry is written when its lengths fit in four bytes. -/
theorem writeEntry_some (h : writeEntry e = some data) :
    data = e.wire ∧ e.pathBytes.length < 2 ^ 32 ∧ e.compressedData.length < 2 ^ 32 := by
  simp only [writeEntry, toBytes, bind, Option.bind_eq_some_iff, Option.ite_none_right_eq_some] at h
  obtain ⟨_, ⟨hpath, hpathLength⟩, _, ⟨hdata, hdataLength⟩, hentry⟩ := h
  cases hpathLength
  cases hdataLength
  exact ⟨(Option.some.inj hentry).symm, hpath, hdata⟩

/-- An entry is read as it was written. -/
theorem readEntry_wire (hpath : e.pathBytes.length < 2 ^ 32)
    (hdata : e.compressedData.length < 2 ^ 32) (rest : Bytes) :
    readEntry (e.wire ++ rest) = some (e.data, rest) := by
  have hlen : beNat (beBytes 4 e.pathBytes.length) = e.pathBytes.length :=
    beNat_beBytes (by omega)
  have hraw : beNat (beBytes 4 e.compressedData.length) = e.compressedData.length :=
    beNat_beBytes (by omega)
  have hname : String.ofList (utf8Lossy e.pathBytes) = e.path := by
    rw [TableEntry.pathBytes, utf8Lossy_bytes, String.ofList_toList]
  simp only [readEntry, TableEntry.wire, List.append_assoc, slice_append (beBytes_length 4 _),
    slice_append hlen.symm, slice_append hraw.symm, slice_append e.length_md5Code, bind,
    Option.bind_some, hname]
  rfl

theorem identifier_eq : identifier = beBytes 4 0x72757374 ++ utf8Bytes "desk".toList := by decide

/-- An entry is taken for the end of the table exactly when it is ambiguous. -/
theorem wire_take_iff (hpath : e.pathBytes.length < 2 ^ 32) (rest : Bytes) :
    (e.wire ++ rest).take 8 = identifier ↔ e.Ambiguous := by
  have htake : (e.wire ++ rest).take 8 = beBytes 4 e.pathBytes.length ++
      (e.pathBytes ++ (beBytes 4 e.compressedData.length ++ (e.compressedData ++ e.md5Code)) ++
        rest).take 4 := by
    rw [TableEntry.wire, List.append_assoc, List.take_append, beBytes_length,
      List.take_of_length_le (by simp)]
  rw [htake, identifier_eq]
  constructor
  · intro h
    obtain ⟨hlen, hdesk⟩ := List.append_inj h (by simp)
    have hlen' : e.pathBytes.length = 0x72757374 := by
      have hnat := congrArg beNat hlen
      rwa [beNat_beBytes (by omega), beNat_beBytes (by decide)] at hnat
    refine ⟨hlen', ?_⟩
    rw [List.append_assoc, List.take_append_of_le_length (by omega)] at hdesk
    rw [← hdesk]
    exact List.take_prefix 4 _
  · rintro ⟨hlen, hdesk⟩
    rw [hlen, List.append_assoc, List.take_append_of_le_length (by omega)]
    rw [show utf8Bytes "desk".toList = e.pathBytes.take 4 from
      List.prefix_iff_eq_take.mp hdesk]

theorem slice_wire (e : TableEntry) (more : Bytes) : slice 8 (e.wire ++ more) =
    some ((e.wire ++ more).take 8, (e.wire ++ more).drop 8) := by
  refine if_pos ?_
  simp only [TableEntry.wire, List.length_append, beBytes_length]
  omega

theorem readEntries_end (h : slice 8 data = some (identifier, rest)) :
    readEntries data = some ([], rest) := by
  rw [readEntries, h]
  exact if_pos ((lossy_identifier_iff _).mpr rfl)

theorem readEntries_entry {iden behind : Bytes} {file : BinaryData}
    (h : slice 8 data = some (iden, behind)) (hiden : iden ≠ identifier)
    (hentry : readEntry data = some (file, rest)) : readEntries data =
      (readEntries rest).map fun (files, rest) => (file :: files, rest) := by
  rw [readEntries, h]
  simp only
  rw [if_neg fun heq => hiden ((lossy_identifier_iff _).mp heq)]
  split
  · rename_i hnone
    rw [hentry] at hnone
    cases hnone
  · rename_i hsome
    rw [hentry] at hsome
    cases hsome
    rfl

/-- The entries fit their length fields. -/
def Fits (table : List TableEntry) : Prop :=
  ∀ e ∈ table, e.pathBytes.length < 2 ^ 32 ∧ e.compressedData.length < 2 ^ 32

/-- Behind an ambiguous entry nothing is read. -/
theorem readEntries_ambiguous (hpath : e.pathBytes.length < 2 ^ 32) (hamb : e.Ambiguous)
    (more : Bytes) : ∃ rest, readEntries (e.wire ++ more) = some ([], rest) := by
  have hslice := slice_wire e more
  rw [(wire_take_iff hpath more).mpr hamb] at hslice
  exact ⟨_, readEntries_end hslice⟩

/-- Any other entry is read, and then what is behind it. -/
theorem readEntries_clear (hpath : e.pathBytes.length < 2 ^ 32)
    (hdata : e.compressedData.length < 2 ^ 32) (hclear : ¬ e.Ambiguous) (more : Bytes) :
    readEntries (e.wire ++ more) =
      (readEntries more).map fun (files, rest) => (e.data :: files, rest) :=
  readEntries_entry (slice_wire e more) (fun heq => hclear ((wire_take_iff hpath more).mp heq))
    (readEntry_wire hpath hdata more)

/-- A table without ambiguous entries is read to its end. -/
theorem readEntries_table {table : List TableEntry} (h : Fits table) (tail : Bytes)
    (hclear : ∀ e ∈ table, ¬ e.Ambiguous) :
    readEntries ((table.map TableEntry.wire).flatten ++ (identifier ++ tail)) =
      some (table.map TableEntry.data, tail) := by
  induction table with
  | nil => exact readEntries_end (slice_append (by decide) tail)
  | cons e table ih =>
    obtain ⟨hpath, hdata⟩ := h e List.mem_cons_self
    rw [List.map_cons, List.flatten_cons, List.append_assoc,
      readEntries_clear hpath hdata (hclear e List.mem_cons_self),
      ih (fun e' he' => h e' (List.mem_cons_of_mem e he'))
        fun e' he' => hclear e' (List.mem_cons_of_mem e he')]
    rfl

/-- A table with an ambiguous entry loses at least that one. -/
theorem readEntries_short {table : List TableEntry} (h : Fits table) (tail : Bytes)
    (hamb : ∃ e ∈ table, e.Ambiguous) : ∃ files rest,
      readEntries ((table.map TableEntry.wire).flatten ++ (identifier ++ tail)) =
        some (files, rest) ∧ files.length < table.length := by
  induction table with
  | nil =>
    obtain ⟨e, he, -⟩ := hamb
    cases he
  | cons e table ih =>
    obtain ⟨hpath, hdata⟩ := h e List.mem_cons_self
    rw [List.map_cons, List.flatten_cons, List.append_assoc]
    by_cases hhere : e.Ambiguous
    · obtain ⟨rest, hread⟩ := readEntries_ambiguous hpath hhere _
      exact ⟨[], rest, hread, Nat.zero_lt_succ _⟩
    · have hbehind : ∃ e' ∈ table, e'.Ambiguous := by
        obtain ⟨e', he', hamb'⟩ := hamb
        rcases List.mem_cons.mp he' with rfl | hin
        · exact absurd hamb' hhere
        · exact ⟨e', hin, hamb'⟩
      obtain ⟨files, rest, hread, hlt⟩ :=
        ih (fun e' he' => h e' (List.mem_cons_of_mem e he')) hbehind
      refine ⟨e.data :: files, rest, ?_, Nat.succ_lt_succ hlt⟩
      rw [readEntries_clear hpath hdata hhere, hread]
      rfl

theorem mapM_writeEntry {table : List TableEntry} {entries : List Bytes}
    (h : table.mapM writeEntry = some entries) :
    entries = table.map TableEntry.wire ∧ Fits table := by
  induction table generalizing entries with
  | nil =>
    cases h
    exact ⟨rfl, nofun⟩
  | cons e table ih =>
    simp only [List.mapM_cons, bind, Option.bind_eq_some_iff] at h
    obtain ⟨_, hentry, _, hrest, hcons⟩ := h
    cases hcons
    obtain ⟨rfl, hpath, hdata⟩ := writeEntry_some hentry
    obtain ⟨rfl, hfits⟩ := ih hrest
    refine ⟨rfl, fun e' he' => ?_⟩
    rcases List.mem_cons.mp he' with rfl | hin
    · exact ⟨hpath, hdata⟩
    · exact hfits e' hin

/-- A package starts the reader on its entries. -/
theorem read_package (entries : Bytes) (exe : String) :
    read (identifier ++ (entries ++ (identifier ++ utf8Bytes exe.toList))) =
      (readEntries (entries ++ (identifier ++ utf8Bytes exe.toList))).map
        fun (parsed, data) => (parsed, String.ofList (utf8Lossy data)) := by
  have hlong : 8 < (identifier ++ (entries ++ (identifier ++ utf8Bytes exe.toList))).length := by
    simp only [List.length_append, show identifier.length = 8 by decide]
    omega
  simp only [read, hlong, slice_append (show identifier.length = 8 by decide),
    (lossy_identifier_iff _).mpr, guard, if_true, bind, pure, Option.bind_some]
  cases readEntries (entries ++ (identifier ++ utf8Bytes exe.toList)) <;> rfl

/-- What the package holds is read back, in order and with the name of the executable,
exactly when no entry starts like the end of the table. -/
theorem package_round_trip_iff (table : List TableEntry) (exe : String) {package : Bytes}
    (h : writePackageMetadata table exe = some package) :
    read package = some (table.map TableEntry.data, exe) ↔ ∀ e ∈ table, ¬ e.Ambiguous := by
  simp only [writePackageMetadata, bind, Option.bind_eq_some_iff] at h
  obtain ⟨entries, hentries, hpackage⟩ := h
  cases hpackage
  obtain ⟨rfl, hfits⟩ := mapM_writeEntry hentries
  rw [read_package]
  constructor
  · intro hread
    by_contra hamb
    push Not at hamb
    obtain ⟨files, rest, hshort, hlt⟩ := readEntries_short hfits (utf8Bytes exe.toList) hamb
    rw [hshort, Option.map_some] at hread
    have hfiles : files = table.map TableEntry.data := congrArg Prod.fst (Option.some.inj hread)
    rw [hfiles, List.length_map] at hlt
    exact lt_irrefl _ hlt
  · intro hclear
    rw [readEntries_table hfits _ hclear, Option.map_some]
    simp only [utf8Lossy_bytes, String.ofList_toList]

/-- Two files and an executable. -/
def sampleTable : List TableEntry :=
  [{ path := "./MDesk.exe", compressedData := [1, 2, 3], md5Code := List.replicate 32 0x61,
     length_md5Code := rfl },
   { path := "./rustdesk", compressedData := identifier, md5Code := List.replicate 32 0x66,
     length_md5Code := rfl }]

/-- Their package is read back, with the identifier among its contents. -/
theorem package_round_trip_sample :
    ∃ package, writePackageMetadata sampleTable "./MDesk.exe" = some package ∧
      read package = some (sampleTable.map TableEntry.data, "./MDesk.exe") := by
  refine ⟨_, rfl, (package_round_trip_iff sampleTable "./MDesk.exe" rfl).mpr ?_⟩
  unfold TableEntry.Ambiguous
  decide

/-- An entry with a path of `n` bytes behind `desk`. -/
def longEntry (n : Nat) : TableEntry where
  path := String.ofList ("desk".toList ++ List.replicate n 'a')
  compressedData := []
  md5Code := List.replicate 32 0x61
  length_md5Code := rfl

theorem longEntry_pathBytes (n : Nat) :
    (longEntry n).pathBytes = utf8Bytes "desk".toList ++ List.replicate n 0x61 := by
  have hbytes : utf8Bytes (List.replicate n 'a') = List.replicate n 0x61 := by
    induction n with
    | zero => rfl
    | succ n ih =>
      rw [List.replicate_succ, utf8Bytes_cons, ih]
      rfl
  have hpath : (longEntry n).path = String.ofList ("desk".toList ++ List.replicate n 'a') := rfl
  rw [TableEntry.pathBytes, hpath, String.toList_ofList, utf8Bytes_append, hbytes]

/-- A path of 1920300916 bytes that starts with `desk` ends the table. -/
theorem package_lost_behind_long_path :
    ¬ ∀ (table : List TableEntry) (exe : String) (package : Bytes), Fits table →
      writePackageMetadata table exe = some package →
      read package = some (table.map TableEntry.data, exe) := by
  intro hall
  obtain ⟨n, hn⟩ : ∃ n, n + 4 = 0x72757374 := ⟨0x72757374 - 4, by norm_num⟩
  have hlen : (longEntry n).pathBytes.length = 0x72757374 := by
    rw [longEntry_pathBytes, List.length_append, List.length_replicate, ← hn, Nat.add_comm]
    rfl
  have hamb : (longEntry n).Ambiguous := ⟨hlen, longEntry_pathBytes n ▸ List.prefix_append _ _⟩
  have hfits : Fits [longEntry n] := by
    intro e he
    obtain rfl := List.mem_singleton.mp he
    exact ⟨by omega, show 0 < 2 ^ 32 by decide⟩
  have hwrite : writePackageMetadata [longEntry n] "" =
      some (identifier ++ ([(longEntry n).wire].flatten ++
        (identifier ++ utf8Bytes "".toList))) := by
    have hpath : toBytes (longEntry n).pathBytes.length =
        some (beBytes 4 (longEntry n).pathBytes.length) := if_pos (by omega)
    have hentry : writeEntry (longEntry n) = some (longEntry n).wire := by
      rw [writeEntry, hpath]
      rfl
    rw [writePackageMetadata, List.mapM_cons, hentry]
    rfl
  have hread := hall [longEntry n] "" _ hfits hwrite
  obtain ⟨files, rest, hshort, hlt⟩ :=
    readEntries_short hfits (utf8Bytes "".toList) ⟨_, List.mem_singleton_self _, hamb⟩
  rw [List.map_singleton] at hshort
  rw [read_package, hshort, Option.map_some] at hread
  have hfiles : files = [(longEntry n).data] := congrArg Prod.fst (Option.some.inj hread)
  rw [hfiles] at hlt
  exact lt_irrefl _ hlt

end MDesk.Portable
