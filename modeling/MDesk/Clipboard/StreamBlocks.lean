import MDesk.Clipboard.FileStream

/-!
# Blocks of clipboard streams

What the sending thread reads of a file decodes to its next block; what a receiver has
accepted and not given to the reader yet is a part of the file.
-/

namespace MDesk.Clipboard

variable (P : Platform)

theorem needed_pos {size offset : Nat} (h : offset < size) : 0 < needed size offset := by
  unfold needed blockBytes
  omega

theorem add_needed_le {size offset : Nat} (h : offset ≤ size) :
    offset + needed size offset ≤ size := by
  unfold needed
  omega

theorem needed_le (size offset : Nat) : needed size offset ≤ blockBytes := Nat.min_le_right _ _

theorem length_block (contents : Bytes) (offset : Nat) :
    ((contents.drop offset).take blockBytes).length = needed contents.length offset := by
  rw [List.length_take, List.length_drop, needed, Nat.min_comm]

/-- What a block carries decodes to `data`. -/
structure Packed (data wire : Bytes) (compressed : Bool) : Prop where
  ne_nil : wire ≠ []
  length_le : wire.length ≤ blockBytes
  decoded : (compressed = false ∧ wire = data) ∨ (compressed = true ∧ P.decodeAll wire = some data)

/-- The open file of a job that reads from `offset`. -/
structure ReadsAt (path : PathBuf) (offset : Nat) (job : TransferJob) : Prop where
  source : job.dataSource = .filePath ["clipboard.bin"]
  files : ∃ entry, job.files = [entry]
  fileNum : job.fileNum = 0
  detection : job.enableOverwriteDetection = false
  stream : job.dataStream = some (.fileStream path offset .read)
  finishedSize : job.finishedSize = offset

/-- The job of a stream reads from the offset it asks for. -/
theorem readsAt_fromClipboardFile (path : PathBuf) {contents : Bytes} {offset : Nat}
    (h : offset ≤ contents.length) (fileName : String) :
    ∃ job, fromClipboardFile path contents offset fileName = .ok job ∧ ReadsAt path offset job := by
  refine ⟨_, if_neg (Nat.not_lt.mpr h), ?_⟩
  exact ⟨rfl, ⟨_, rfl⟩, rfl, rfl, rfl, rfl⟩

/-- What goes on the wire decodes to the buffer. -/
theorem packed_wireData (hcompress : ∀ data, P.decompress (P.compress data) = data)
    (hempty : P.decompress [] = []) (job : TransferJob) (name : String) {data : Bytes}
    (hne : data ≠ []) (hlen : data.length ≤ blockBytes) :
    Packed P data (job.wireData P name data).1 (job.wireData P name data).2 := by
  unfold TransferJob.wireData
  split_ifs with hshort
  · have hdata := hcompress data
    refine ⟨?_, hshort.2.2.le.trans hlen, .inr ⟨rfl, Platform.decodeAll_eq hdata hne⟩⟩
    intro (hnil : P.compress data = [])
    rw [hnil, hempty] at hdata
    exact hne hdata.symm
  · exact ⟨hne, hlen, .inl ⟨rfl, rfl⟩⟩

/-- A read inside the file gives its next block. -/
theorem read_block (hcompress : ∀ data, P.decompress (P.compress data) = data)
    (hempty : P.decompress [] = []) {fs : Fs} {path : PathBuf} {contents : Bytes}
    (hfile : fs.lookup path = some (.file contents)) (hsize : contents.length < 2 ^ 64)
    {offset : Nat} (hlt : offset < contents.length) {job : TransferJob}
    (hjob : ReadsAt path offset job) :
    ∃ block job', job.read P fs = (.ok (some block), job') ∧
      Packed P ((contents.drop offset).take blockBytes) block.data block.compressed ∧
      ReadsAt path (offset + needed contents.length offset) job' := by
  obtain ⟨entry, hfiles⟩ := hjob.files
  obtain ⟨name, hname⟩ : ∃ name, job.readName = some name := by
    simp only [TransferJob.readName, hjob.source, hfiles, hjob.fileNum]
    exact ⟨_, rfl⟩
  have hlen := length_block contents offset
  have hpos := needed_pos hlt
  obtain ⟨byte, bytes, hdata⟩ : ∃ byte bytes, (contents.drop offset).take blockBytes =
      byte :: bytes := by
    apply List.exists_cons_of_ne_nil
    intro hnil
    rw [hnil, List.length_nil] at hlen
    omega
  have hfill : DataStream.fill fs (.fileStream path offset .read) = .ok (byte :: bytes,
      .fileStream path (offset + (byte :: bytes).length) .read) := by
    simp only [DataStream.fill, hfile]
    rw [← hdata]
    rfl
  have hle : (byte :: bytes).length ≤ blockBytes := by
    rw [← hdata, hlen]
    exact needed_le _ _
  have hpacked := packed_wireData P hcompress hempty job name (List.cons_ne_nil byte bytes) hle
  rw [hdata] at hlen ⊢
  refine ⟨job.blockFor (job.wireData P name (byte :: bytes)).1
      (job.wireData P name (byte :: bytes)).2,
    { job with
      dataStream := some (.fileStream path (offset + (byte :: bytes).length) .read)
      finishedSize := (job.finishedSize + (byte :: bytes).length) % 2 ^ 64
      transferred := (job.transferred + (job.wireData P name (byte :: bytes)).1.length) % 2 ^ 64 },
    ?_, hpacked, ?_⟩
  · simp only [TransferJob.read, hjob.detection, Bool.false_eq_true, false_and, and_false, if_false,
      hname, hjob.stream, hfill]
  · constructor
    · exact hjob.source
    · exact hjob.files
    · exact hjob.fileNum
    · exact hjob.detection
    · rw [← hlen]
    · have hend := add_needed_le hlt.le
      show (job.finishedSize + (byte :: bytes).length) % 2 ^ 64 = _
      rw [hjob.finishedSize, hlen, Nat.mod_eq_of_lt (by omega)]

variable {P} {contents data : Bytes} {r r' : Receive} {f : Frame} {want : Nat}

/-- The receiver decodes what was packed. -/
theorem Packed.blockData (h : Packed P data f.data f.compressed) (hlen : data.length ≤ blockBytes) :
    Receive.blockData P f = .ok data := by
  unfold Receive.blockData
  rw [if_neg fun hor => hor.elim h.ne_nil (Nat.not_lt.mpr h.length_le)]
  rcases h.decoded with ⟨hcomp, hdata⟩ | ⟨hcomp, hdec⟩
  · rw [hcomp, hdata]
    rfl
  · rw [if_pos hcomp]
    simp only [TransferJob.decompressDirectTransferBlock, hdec, if_neg (Nat.not_lt.mpr hlen)]

namespace Receive

/-- The stream behind a block of `data`. -/
def push (r : Receive) (data : Bytes) : Receive :=
  { r with received := r.received + data.length, chunks := r.chunks ++ [data] }

/-- The next block is accepted when it fits into the window. -/
theorem accept_block (habout : f.About r.frame) (hoffset : f.offset = r.received)
    (hended : r.ended = false) (hfailed : r.failed = false) (hkind : f.kind = .block)
    (hdata : blockData P f = .ok data) (hle : r.received ≤ r.frame.size)
    (hlen : data.length = Clipboard.needed r.frame.size r.received) (hne : data ≠ [])
    (hwindow : r.received - r.consumed + data.length ≤ windowBytes) :
    r.accept P f = .ok (r.push data) := by
  unfold accept
  rw [if_neg (by simp [habout, hoffset, hended, hfailed]), hkind]
  simp only [hdata]
  rw [if_neg (Nat.not_lt.mpr hle), if_neg]
  · rfl
  · rintro (hor | hor | hor)
    · exact hor hlen
    · exact hne hor
    · exact Nat.not_lt.mpr hwindow hor

/-- The end is accepted when everything was received. -/
theorem accept_end (habout : f.About r.frame) (hoffset : f.offset = r.received)
    (hended : r.ended = false) (hfailed : r.failed = false) (hkind : f.kind = .end)
    (hdata : f.data = []) (hcompressed : f.compressed = false)
    (hreceived : r.received = r.frame.size) : r.accept P f = .ok { r with ended := true } := by
  unfold accept
  rw [if_neg (by simp [habout, hoffset, hended, hfailed]), hkind]
  exact if_pos ⟨hdata, by simp [hcompressed], hreceived⟩

/-- What the receiver accepts: the next block, or the end. -/
theorem accept_cases (h : r.accept P f = .ok r') :
    f.About r.frame ∧ f.offset = r.received ∧
      ((f.kind = .block ∧ ∃ data, blockData P f = .ok data ∧ data ≠ [] ∧ r' = r.push data) ∨
        (f.kind = .end ∧ r' = { r with ended := true })) := by
  unfold accept at h
  by_cases hmismatch : ¬ f.About r.frame ∨ f.offset ≠ r.received ∨ r.ended ∨ r.failed
  · rw [if_pos hmismatch] at h
    cases h
  rw [if_neg hmismatch] at h
  push Not at hmismatch
  refine ⟨hmismatch.1, hmismatch.2.1, ?_⟩
  split at h
  · rename_i hkind
    cases hdata : blockData P f with
    | error e =>
      rw [hdata] at h
      cases h
    | ok data =>
      rw [hdata] at h
      dsimp only at h
      split_ifs at h with hsize hbad
      push Not at hbad
      cases h
      exact .inl ⟨hkind, data, rfl, hbad.2.1, rfl⟩
  · rename_i hkind
    split_ifs at h
    cases h
    exact .inr ⟨hkind, rfl⟩
  · cases h

/-- The chunks hold what was received of a file and not consumed yet. -/
structure Stored (contents : Bytes) (r : Receive) : Prop where
  consumed_le : r.consumed ≤ r.received
  received_le : r.received ≤ contents.length
  bytes : r.chunks.flatten.drop r.front =
    (contents.drop r.consumed).take (r.received - r.consumed)
  front_lt : ∀ chunk ∈ r.chunks.head?, r.front < chunk.length
  front_nil : r.chunks = [] → r.front = 0
  ne_nil : ∀ chunk ∈ r.chunks, chunk ≠ []

theorem Stored.new {frame : Frame} (h : frame.offset ≤ contents.length) :
    Stored contents (Receive.new frame) where
  consumed_le := Nat.le_refl _
  received_le := h
  bytes := by
    rw [Receive.new, Nat.sub_self]
    rfl
  front_lt := nofun
  front_nil _ := rfl
  ne_nil := List.forall_mem_nil _

theorem Stored.front_le (h : r.Stored contents) : r.front ≤ r.chunks.flatten.length := by
  cases hchunks : r.chunks with
  | nil => rw [h.front_nil hchunks]; exact Nat.zero_le _
  | cons chunk chunks =>
    have hlt := h.front_lt chunk (by rw [hchunks]; rfl)
    rw [List.flatten_cons, List.length_append]
    omega

/-- Nothing is stored exactly when everything received was consumed. -/
theorem Stored.chunks_eq_nil_iff (h : r.Stored contents) :
    r.chunks = [] ↔ r.consumed = r.received := by
  have hbytes := congrArg List.length h.bytes
  rw [List.length_drop, List.length_take, List.length_drop] at hbytes
  have hle := h.received_le
  have hle' := h.consumed_le
  constructor
  · intro hnil
    rw [hnil, List.flatten_nil, List.length_nil] at hbytes
    omega
  · intro heq
    cases hchunks : r.chunks with
    | nil => rfl
    | cons chunk chunks =>
      have hlt := h.front_lt chunk (by rw [hchunks]; rfl)
      rw [hchunks, List.flatten_cons, List.length_append] at hbytes
      omega

/-- The next part of the file is stored behind the chunks. -/
theorem Stored.push (h : r.Stored contents) (hdata : data <+: contents.drop r.received)
    (hne : data ≠ []) : (r.push data).Stored contents := by
  have hlen := hdata.length_le
  rw [List.length_drop] at hlen
  have hpos := List.length_pos_iff.mpr hne
  have hle := h.consumed_le
  constructor
  · exact hle.trans (Nat.le_add_right _ _)
  · show r.received + data.length ≤ contents.length
    omega
  · show (r.chunks ++ [data]).flatten.drop r.front =
      (contents.drop r.consumed).take (r.received + data.length - r.consumed)
    have hsub : r.received + data.length - r.consumed = r.received - r.consumed + data.length := by
      omega
    rw [List.flatten_append, List.flatten_singleton, List.drop_append_of_le_length h.front_le,
      h.bytes, hsub, List.take_add, List.drop_drop, Nat.add_sub_cancel' hle,
      ← List.prefix_iff_eq_take.mp hdata]
  · intro chunk hchunk
    show r.front < chunk.length
    cases hchunks : r.chunks with
    | nil =>
      simp only [Receive.push, hchunks] at hchunk
      cases hchunk
      rw [h.front_nil hchunks]
      exact hpos
    | cons head chunks =>
      simp only [Receive.push, hchunks] at hchunk
      cases hchunk
      exact h.front_lt _ (by rw [hchunks]; rfl)
  · intro hnil
    exact absurd hnil (by simp [Receive.push])
  · intro chunk hchunk
    rcases List.mem_append.mp hchunk with hchunk | hchunk
    · exact h.ne_nil chunk hchunk
    · rw [List.mem_singleton.mp hchunk]
      exact hne

/-- What a round of a read takes: the next bytes of the file. An emptied chunk is
acknowledged. -/
structure Takes (contents : Bytes) (r : Receive) (want : Nat) (data : Bytes)
    (credit : Option Frame) (r' : Receive) : Prop where
  data_eq : data = (contents.drop r.consumed).take data.length
  data_pos : 0 < data.length
  data_le : data.length ≤ want
  consumed : r'.consumed = r.consumed + data.length
  received : r'.received = r.received
  frame : r'.frame = r.frame
  ended : r'.ended = r.ended
  failed : r'.failed = r.failed
  stored : r'.Stored contents
  credit_eq : credit = some r'.credit ∨ credit = none ∧ r'.chunks ≠ []

/-- The last bytes of the first chunk. -/
theorem take_exhausted {front : Bytes} {chunks : List Bytes} (hchunks : r.chunks = front :: chunks)
    (hfront : r.front < front.length) (hwant : front.length - r.front ≤ want) :
    r.take want = (front.drop r.front,
      some { r.frame with
        kind := .credit, offset := r.consumed + (front.length - r.front) },
      { r with chunks, front := 0, consumed := r.consumed + (front.length - r.front) }) := by
  have hcount : min (front.length - r.front) want = front.length - r.front := Nat.min_eq_left hwant
  have hlast : r.front + (front.length - r.front) = front.length := by omega
  unfold take
  simp only [hchunks, hcount, hlast, if_true, credit]
  rw [List.take_of_length_le (by rw [List.length_drop])]

/-- Bytes of the first chunk that leave some. -/
theorem take_short {front : Bytes} {chunks : List Bytes} (hchunks : r.chunks = front :: chunks)
    (hwant : want < front.length - r.front) :
    r.take want = ((front.drop r.front).take want, none,
      { r with front := r.front + want, consumed := r.consumed + want }) := by
  have hcount : min (front.length - r.front) want = want := Nat.min_eq_right hwant.le
  unfold take
  simp only [hchunks, hcount]
  rw [if_neg (by omega)]

/-- A round of a read. -/
theorem Stored.take (h : r.Stored contents) (hne : r.chunks ≠ []) (hwant : 0 < want) :
    Takes contents r want (r.take want).1 (r.take want).2.1 (r.take want).2.2 := by
  obtain ⟨front, chunks, hchunks⟩ := List.exists_cons_of_ne_nil hne
  have hfront := h.front_lt front (by rw [hchunks]; rfl)
  have hbytes := h.bytes
  rw [hchunks, List.flatten_cons, List.drop_append_of_le_length hfront.le] at hbytes
  have hlen := congrArg List.length hbytes
  rw [List.length_append, List.length_drop, List.length_take, List.length_drop] at hlen
  have hle := h.consumed_le
  have hle' := h.received_le
  -- The stored bytes are cut behind the first `n`, which are no more than the first chunk.
  have hcut : ∀ n, n ≤ front.length - r.front →
      (front.drop r.front).take n = (contents.drop r.consumed).take n ∧
        (front.drop r.front).drop n ++ chunks.flatten =
          (contents.drop (r.consumed + n)).take (r.received - (r.consumed + n)) := by
    intro n hn
    have hn' : n ≤ (front.drop r.front).length := by rwa [List.length_drop]
    constructor
    · have htake := congrArg (List.take n) hbytes
      rw [List.take_append_of_le_length hn', List.take_take, Nat.min_eq_left (by omega)] at htake
      exact htake
    · have hdrop := congrArg (List.drop n) hbytes
      rw [List.drop_append_of_le_length hn', List.drop_take, Nat.sub_sub] at hdrop
      rw [hdrop, List.drop_drop]
  by_cases hall : front.length - r.front ≤ want
  · obtain ⟨htake, hdrop⟩ := hcut (front.length - r.front) (Nat.le_refl _)
    rw [List.take_of_length_le (by rw [List.length_drop])] at htake
    rw [List.drop_of_length_le (by rw [List.length_drop]), List.nil_append] at hdrop
    rw [take_exhausted hchunks hfront hall]
    have hdata : (front.drop r.front).length = front.length - r.front := List.length_drop
    refine ⟨?_, ?_, ?_, ?_, rfl, rfl, rfl, rfl, ?_, .inl rfl⟩
    · rw [hdata]
      exact htake
    · rw [hdata]
      omega
    · rw [hdata]
      exact hall
    · rw [hdata]
    · have hrest : ∀ chunk ∈ chunks, chunk ≠ [] := fun chunk hmem =>
        h.ne_nil chunk (hchunks ▸ List.mem_cons_of_mem _ hmem)
      constructor
      · show r.consumed + (front.length - r.front) ≤ r.received
        omega
      · exact hle'
      · exact hdrop
      · intro chunk hchunk
        exact List.length_pos_iff.mpr (hrest chunk (List.mem_of_mem_head? hchunk))
      · exact fun _ => rfl
      · exact hrest
  · rw [Nat.not_le] at hall
    obtain ⟨htake, hdrop⟩ := hcut want hall.le
    rw [take_short hchunks hall]
    have hdata : ((front.drop r.front).take want).length = want := by
      rw [List.length_take, List.length_drop]
      omega
    refine ⟨?_, ?_, ?_, ?_, rfl, rfl, rfl, rfl, ?_, .inr ⟨rfl, ?_⟩⟩
    · rw [hdata]
      exact htake
    · rw [hdata]
      exact hwant
    · rw [hdata]
    · rw [hdata]
    · constructor
      · show r.consumed + want ≤ r.received
        omega
      · exact hle'
      · show r.chunks.flatten.drop (r.front + want) = _
        rw [hchunks, List.flatten_cons, List.drop_append_of_le_length (by omega),
          ← List.drop_drop]
        exact hdrop
      · intro chunk hchunk
        rw [hchunks] at hchunk
        cases hchunk
        show r.front + want < front.length
        omega
      · intro hnil
        exact absurd hnil hne
      · exact h.ne_nil
    · exact hne

end Receive

end MDesk.Clipboard
