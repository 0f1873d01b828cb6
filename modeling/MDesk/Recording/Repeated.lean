import MDesk.Recording.SeekIndex

/-!
# Writing the metadata twice

The second time the metadata is found at the end of the file, and the `SeekHead` gets the entries
that it has. A void is left behind it for this, unless the new entries have filled all of its room.
-/

namespace MDesk

open Core

namespace RecordingNote

variable {header : Bytes} {cursor : Nat} {rest : Bytes}

theorem lt_length_of_drop {e : Element} (h : header.drop cursor = e.raw ++ rest) :
    cursor < header.length := by
  have hpos : 2 ≤ e.raw.length := (Item.whole e).raw_pos
  have hlen := congrArg List.length h
  rw [List.length_drop, List.length_append] at hlen
  omega

/-- The search for the `Info` passes an element. -/
theorem findInfo_step {e : Element} (h : header.drop cursor = e.raw ++ rest) :
    findInfo header cursor =
      if e.id = infoId then
        .ok (some ⟨e.id, cursor + e.header.raw.length, cursor + e.raw.length⟩)
      else findInfo header (cursor + e.raw.length) := by
  rw [findInfo, dif_pos (lt_length_of_drop h)]
  split
  · rename_i hparse
    rw [parse_whole h] at hparse
    cases hparse
  · rename_i hparse
    rw [parse_whole h] at hparse
    cases hparse
  · rename_i element hparse
    rw [parse_whole h] at hparse
    cases hparse
    rfl

/-- The first `Info` is found behind other elements. -/
theorem findInfo_eq {es : List Element} {info : Element} (hes : ∀ e ∈ es, e.id ≠ infoId)
    (hinfo : info.id = infoId) (h : header.drop cursor = rawAll es ++ (info.raw ++ rest)) :
    findInfo header cursor = .ok (some ⟨info.id,
      cursor + (rawAll es).length + info.header.raw.length,
      cursor + (rawAll es).length + info.raw.length⟩) := by
  induction es generalizing cursor with
  | nil =>
    rw [findInfo_step h, if_pos hinfo]
    rfl
  | cons e es ih =>
    rw [rawAll_cons, List.append_assoc] at h
    rw [findInfo_step h, if_neg (hes e List.mem_cons_self),
      ih (fun e' he' => hes e' (List.mem_cons_of_mem e he')) (drop_behind h), rawAll_cons,
      List.length_append, ← Nat.add_assoc]

/-- The search for the `Info` succeeds only if the first element is there. -/
theorem findInfo_there {e : Element} {element : EbmlElement}
    (h : header.drop cursor <+: e.raw ++ rest) (hok : findInfo header cursor = .ok (some element)) :
    ∃ behind, header.drop cursor = e.raw ++ behind := by
  rw [findInfo] at hok
  split at hok
  · split at hok
    · cases hok
    · cases hok
    · rename_i hparse
      obtain ⟨e', behind, he, hbehind⟩ := parse_item (i := .whole e) h hparse
      cases he
      exact ⟨behind, hbehind⟩
  · cases hok

/-- The first `Info` is found only if all of it is there, and all in front of it. -/
theorem findInfo_begun {es : List Element} {info : Element} {element : EbmlElement}
    (hes : ∀ e ∈ es, e.id ≠ infoId) (h : header.drop cursor <+: rawAll es ++ (info.raw ++ rest))
    (hok : findInfo header cursor = .ok (some element)) :
    rawAll es ++ info.raw <+: header.drop cursor := by
  induction es generalizing cursor with
  | nil =>
    obtain ⟨behind, hbehind⟩ := findInfo_there h hok
    exact ⟨behind, hbehind.symm⟩
  | cons e es ih =>
    rw [rawAll_cons, List.append_assoc] at h
    obtain ⟨behind, hbehind⟩ := findInfo_there h hok
    rw [findInfo_step hbehind, if_neg (hes e List.mem_cons_self)] at hok
    have hrest : header.drop (cursor + e.raw.length) <+: rawAll es ++ (info.raw ++ rest) := by
      rw [hbehind, List.prefix_append_right_inj] at h
      rwa [drop_behind hbehind]
    have hfound := ih (fun e' he' => hes e' (List.mem_cons_of_mem e he')) hrest hok
    rw [drop_behind hbehind] at hfound
    rw [hbehind, rawAll_cons, List.append_assoc, List.prefix_append_right_inj]
    exact hfound

/-- A file up to its first `Info`: the index in front of it, with whole entries, and whole fields in
the `Info`. What is behind may be anything. -/
structure Layout where
  head : Bytes
  width : Nat
  size : Nat
  front : List Element
  seekHead : SeekHead
  behind : List Element
  info : Element
  fields : List Element
  tail : Bytes
  widthValid : 1 ≤ width ∧ width ≤ 8
  sizeValid : size < 2 ^ (7 * width)
  headClear : ¬ segmentId <:+: head
  frontClear : ¬ seekHeadId <:+: rawAll front
  frontOthers : ∀ e ∈ front, e.id ≠ infoId
  behindOthers : ∀ e ∈ behind, e.id ≠ infoId
  infoIsInfo : info.id = infoId
  infoPayload : info.payload = rawAll fields

namespace Layout

variable (l : Layout) {t : Bytes} {title comment : String}

/-- What stands in front of the index. -/
def front' : Bytes := l.head ++ (segmentId ++ (vint l.width l.size ++ rawAll l.front))

/-- What stands behind the `SeekHead`, up to the `Info`. -/
def next : List Element := l.behind ++ [l.info]

def base : Bytes := l.front' ++ (l.seekHead.element.raw ++ rawAll l.next)

def content : Bytes := l.base ++ l.tail

/-- Where the segment begins. -/
def start : Nat := l.head.length + segmentId.length + l.width

/-- The first `Info` with another title. -/
def newInfo (title : String) : Except String Bytes := do
  let name ← buildEbmlElement titleId (utf8Bytes title.toList)
  buildEbmlElement infoId (rawAll (l.fields.filter fun e => e.id ≠ titleId) ++ name)

/-- The elements up to the `Info` and its own bytes, where the segment begins. -/
theorem drop_start (t : Bytes) : (l.base ++ t).drop l.start =
    rawAll l.front ++ (l.seekHead.element.raw ++ (rawAll l.next ++ t)) := by
  have hbase : l.base ++ t = (l.head ++ (segmentId ++ vint l.width l.size)) ++
      (rawAll l.front ++ (l.seekHead.element.raw ++ (rawAll l.next ++ t))) := by
    simp only [base, front', List.append_assoc]
  rw [hbase, List.drop_left']
  simp only [start, List.length_append, vint_length, Nat.add_assoc]

theorem front'_length : l.front'.length = l.start + (rawAll l.front).length := by
  simp only [front', start, List.length_append, vint_length, Nat.add_assoc]

/-- The elements in front of the `Info`. -/
def others : List Element := l.front ++ l.seekHead.element :: l.behind

theorem others_ne : ∀ e ∈ l.others, e.id ≠ infoId := by
  intro e he
  rcases List.mem_append.mp he with hfront | hbehind
  · exact l.frontOthers e hfront
  · rcases List.mem_cons.mp hbehind with rfl | hbehind
    · exact seekHead_ne_info l.seekHead
    · exact l.behindOthers e hbehind

theorem drop_start_others (t : Bytes) :
    (l.base ++ t).drop l.start = rawAll l.others ++ (l.info.raw ++ t) := by
  rw [drop_start]
  simp only [others, next, rawAll_append, rawAll_cons, rawAll_nil, List.append_assoc,
    List.append_nil]

theorem base_length : l.base.length = l.start + (rawAll l.others ++ l.info.raw).length := by
  have hdrop := congrArg List.length (l.drop_start_others [])
  have hstart : l.start ≤ l.base.length := by
    rw [base, List.length_append, front'_length]
    omega
  rw [List.append_nil, List.append_nil, List.length_drop] at hdrop
  omega

/-- The new `Info` is made from the first one. -/
theorem buildWebmInfoWithTitle_eq (t : Bytes) (title : String) :
    buildWebmInfoWithTitle (l.base ++ t) l.start title = l.newInfo title := by
  have hinfo := findInfo_eq l.others_ne l.infoIsInfo (l.drop_start_others t)
  have hfields : (l.base ++ t).drop (l.start + (rawAll l.others).length +
      l.info.header.raw.length) = rawAll l.fields ++ t := by
    apply drop_behind
    rw [drop_behind (l.drop_start_others t), Element.raw, l.infoPayload, List.append_assoc]
  have hstop : l.start + (rawAll l.others).length + l.info.raw.length =
      l.start + (rawAll l.others).length + l.info.header.raw.length +
        (rawAll l.fields).length := by
    rw [l.info.raw_length, l.infoPayload]
    omega
  simp only [buildWebmInfoWithTitle, hinfo, okOr, hstop, infoPayload_spec hfields, bind,
    Except.bind, newInfo]

theorem content_take {n : Nat} (h : l.base.length ≤ n) :
    l.content.take n = l.base ++ l.tail.take (n - l.base.length) := by
  rw [content, List.take_append, List.take_of_length_le h]

/-- What is known of the file before anything is written. -/
def prepared (info tags : Bytes) : Prepared where
  header := l.content.take (1024 * 1024)
  sizePos := l.head.length + segmentId.length
  segmentSize := l.size
  sizeWidth := l.width
  sizeIsUnknown := l.size == unknownSize l.width
  info
  tags

theorem content_eq : l.content = l.head ++ (segmentId ++ (vint l.width l.size ++
    (rawAll l.others ++ (l.info.raw ++ l.tail)))) := by
  simp only [content, base, front', others, next, rawAll_append, rawAll_cons, rawAll_nil,
    List.append_assoc, List.append_nil]

theorem prepare_eq {info tags : Bytes} (hbase : l.base.length ≤ 1024 * 1024)
    (hinfo : l.newInfo title = .ok info) (htags : buildWebmTags title comment = .ok tags) :
    prepare l.content title comment = .ok (l.prepared info tags) := by
  have hfind : findBytes segmentId (l.content.take (1024 * 1024)) = some l.head.length := by
    rw [l.content_take hbase, base, front']
    simp only [List.append_assoc]
    exact findBytes_append (by decide) l.headClear _
  have hsize : decodeEbmlSize ((l.content.take (1024 * 1024)).drop
      (l.head.length + segmentId.length)) =
        .ok (l.size, l.width, l.size == unknownSize l.width) := by
    rw [l.content_take hbase, base, front', ← List.drop_drop]
    simp only [List.append_assoc, List.drop_left]
    exact decode_vint l.widthValid.1 l.widthValid.2 l.sizeValid _
  have hlong : 12 ≤ l.content.length := by
    have hindex := l.seekHead.element.header.raw_length
    have hindexParts := l.seekHead.element.raw_length
    have hindexId : l.seekHead.element.header.id.length = 4 := congrArg List.length l.seekHead.id
    have hinfoParts := l.info.raw_length
    have hinfoHeader := l.info.header.raw_length
    have hinfoId : l.info.header.id.length = 4 := congrArg List.length l.infoIsInfo
    have hsegment : segmentId.length = 4 := rfl
    have hlen := l.base_length
    rw [content, List.length_append, hlen, start, others, rawAll_append, rawAll_cons]
    simp only [List.length_append]
    omega
  have hstart : l.head.length + segmentId.length + l.width ≤ l.content.length := by
    have hlen := l.base_length
    rw [content, List.length_append]
    rw [start] at hlen
    omega
  have hnew := l.buildWebmInfoWithTitle_eq (l.tail.take (1024 * 1024 - l.base.length)) title
  rw [← l.content_take hbase, start, hinfo] at hnew
  simp only [prepare, htags, ensure, if_pos hlong, hfind, okOr, hsize, if_pos hstart, hnew, bind,
    Except.bind]
  rfl

/-- The file is read only if the first `Info` is in the part that is looked at. -/
theorem base_length_le {p : Prepared} (h : prepare l.content title comment = .ok p) :
    l.base.length ≤ 1024 * 1024 := by
  simp only [prepare, bind_ok, okOr_ok, ensure_ok, Prod.exists] at h
  obtain ⟨tags, -, -, -, position, hposition, size, width, unknown, hsize, -, -, info, hinfo,
    -⟩ := h
  have hheader : l.content.take (1024 * 1024) <+: l.head ++ (segmentId ++
      (vint l.width l.size ++ (rawAll l.others ++ (l.info.raw ++ l.tail)))) := by
    rw [← l.content_eq]
    exact List.take_prefix _ _
  obtain rfl := segment_position l.headClear hheader hposition
  have hsizeThere : (l.content.take (1024 * 1024)).drop (l.head.length + segmentId.length) <+:
      vint l.width l.size ++ (rawAll l.others ++ (l.info.raw ++ l.tail)) := by
    have hdrop := List.IsPrefix.drop hheader (l.head.length + segmentId.length)
    rwa [← List.drop_drop (l := l.head ++ _), List.drop_left, List.drop_left] at hdrop
  obtain ⟨-, hr⟩ := decode_begun l.widthValid.1 l.widthValid.2 l.sizeValid hsizeThere hsize
  cases hr
  simp only [buildWebmInfoWithTitle, bind_ok, okOr_ok] at hinfo
  obtain ⟨_, hfind, _, rfl, -⟩ := hinfo
  have hthere : (l.content.take (1024 * 1024)).drop l.start <+:
      rawAll l.others ++ (l.info.raw ++ l.tail) := by
    have hdrop := List.IsPrefix.drop hsizeThere l.width
    rwa [List.drop_drop, List.drop_left' (vint_length _ _)] at hdrop
  have hfound := (findInfo_begun l.others_ne hthere hfind).length_le
  have hpos : 2 ≤ l.info.raw.length := (Item.whole l.info).raw_pos
  have hlen := l.base_length
  rw [List.length_drop, List.length_take] at hfound
  rw [List.length_append] at hfound hlen
  omega

theorem base_length_le_of_ok {file : Bytes}
    (hok : appendWebmMetadata l.content title comment = (.ok (), file)) :
    l.base.length ≤ 1024 * 1024 := by
  cases hprep : prepare l.content title comment with
  | error err => simp [appendWebmMetadata, hprep] at hok
  | ok p => exact l.base_length_le hprep

/-- A void of the form that is written stands behind the `SeekHead`. -/
def VoidNext : Prop :=
  ∃ void ∈ l.next.head?, void.id = [0xEC] ∧ buildEbmlVoid void.raw.length = .ok void.raw

/-- What the entries become where the `Info` stands at a position of the file. -/
def newEntries (infoPosition infoLength : Nat) : List SeekItem :=
  SeekItem.moveAll (seekEntry infoId (infoPosition - l.start) (by decide))
    (seekEntry tagsId (infoPosition + infoLength - l.start) (by decide)) l.seekHead.entries

theorem next_eq_cons : ∃ e more, l.next = e :: more := by
  cases h : l.behind with
  | nil => exact ⟨l.info, [], by rw [next, h]; rfl⟩
  | cons e more => exact ⟨e, more ++ [l.info], by rw [next, h]; rfl⟩

/-- The index is rewritten if a void is behind the `SeekHead`. -/
theorem reseek_eq {e : Element} {more : List Element} (hnext : l.next = e :: more) (t : Bytes)
    {infoPosition : Nat} (hposition : l.start ≤ infoPosition) (infoLength : Nat) :
    rewriteMetadataSeekPositions (l.base ++ t) l.start infoPosition (infoPosition + infoLength) =
      if e.id = [0xEC] then
        l.seekHead.patch l.front'.length e (l.newEntries infoPosition infoLength)
      else .error "WebM SeekHead 뒤의 예약 공간을 찾을 수 없습니다." := by
  have hdrop := l.drop_start t
  rw [hnext, rawAll_cons, List.append_assoc] at hdrop
  rw [rewrite_eq l.frontClear hdrop hposition (by omega) (buildSeekEntry_eq _ _ (by decide))
    (buildSeekEntry_eq _ _ (by decide)), l.front'_length]
  rfl

theorem content_split {e : Element} {more : List Element} (hnext : l.next = e :: more) :
    l.content = l.front' ++ (l.seekHead.element.raw ++ (e.raw ++ (rawAll more ++ l.tail))) := by
  simp only [content, base, hnext, rawAll_cons, List.append_assoc]

/-- Metadata that the file ends with, with its positions in the index, stays where a plain void is
behind the index. -/
theorem settled_iff {info tags : Bytes} (hbase : l.base.length ≤ 1024 * 1024)
    (hinfo : l.newInfo title = .ok info) (htags : buildWebmTags title comment = .ok tags)
    (hend : info ++ tags <:+ l.content)
    (hposition : l.start ≤ l.content.length - (info ++ tags).length)
    (hentries : l.newEntries (l.content.length - (info ++ tags).length) info.length =
      l.seekHead.entries)
    (hsize : l.size = unknownSize l.width ∨ l.size = l.content.length - l.start) :
    appendWebmMetadata l.content title comment = (.ok (), l.content) ↔ l.VoidNext := by
  obtain ⟨e, more, hnext⟩ := l.next_eq_cons
  have hreseek := l.reseek_eq hnext (l.tail.take (1024 * 1024 - l.base.length)) hposition
    info.length
  rw [← l.content_take hbase, hentries, SeekHead.patch_self] at hreseek
  have hvoid : l.VoidNext ↔ e.id = [0xEC] ∧ buildEbmlVoid e.raw.length = .ok e.raw := by
    simp [VoidNext, hnext]
  have hright : (l.size == unknownSize l.width) = true ∨ l.size = l.content.length - l.start := by
    simpa using hsize
  rw [hvoid]
  simp only [appendWebmMetadata, l.prepare_eq hbase hinfo htags, prepared, Prepared.payloadStart,
    decide_eq_true hend, if_true]
  rw [show l.head.length + segmentId.length + l.width = l.start from rfl, hreseek]
  by_cases hid : e.id = [0xEC]
  · rw [if_pos hid]
    cases hbuild : buildEbmlVoid e.raw.length with
    | error err => simp [bind, Except.bind]
    | ok r =>
      have hfile := SeekHead.self_written l.seekHead hbuild l.front' (rawAll more ++ l.tail)
      rw [← l.content_split hnext] at hfile
      simp only [bind, Except.bind, pure, Except.pure, hfile, if_pos hright]
      rw [l.content_split hnext]
      simp [hid]
  · rw [if_neg hid]
    simp [hid]

/-- The file with the metadata behind it, which is not added twice. -/
def extended (metadata : Bytes) : Layout :=
  { l with tail := if metadata <:+ l.content then l.tail else l.tail ++ metadata }

theorem extended_content (metadata : Bytes) : (l.extended metadata).content =
    if metadata <:+ l.content then l.content else l.content ++ metadata := by
  have hcontent : (l.extended metadata).content = l.base ++ (l.extended metadata).tail := rfl
  rw [hcontent, extended]
  split_ifs with hdone
  · rfl
  · rw [content, List.append_assoc]

/-- Where the new `Info` stands in the file. -/
def infoPosition (metadata : Bytes) : Nat :=
  (l.extended metadata).content.length - metadata.length

theorem infoPosition_eq (metadata : Bytes) : l.infoPosition metadata =
    if metadata <:+ l.content then l.content.length - metadata.length else l.content.length := by
  rw [infoPosition, extended_content]
  split_ifs
  · rfl
  · rw [List.length_append, Nat.add_sub_cancel]

/-- Metadata behind the index is behind the beginning of the segment. -/
theorem start_le_infoPosition {metadata : Bytes} (hbehind : metadata <:+ l.content →
    metadata.length ≤ (rawAll l.next.tail ++ l.tail).length) :
    l.start ≤ l.infoPosition metadata := by
  obtain ⟨e, more, hnext⟩ := l.next_eq_cons
  have hcontent := congrArg List.length (l.content_split hnext)
  rw [hnext, List.tail_cons, List.length_append] at hbehind
  simp only [List.length_append, front'_length] at hcontent
  rw [infoPosition_eq]
  split_ifs with hdone
  · have hmetadata := hbehind hdone
    omega
  · omega

/-- The room of the entries and the void behind them. -/
def indexRoom : Nat :=
  l.seekHead.element.payload.length + (l.next.head?.map fun void => void.raw.length).getD 0

def indexLength (infoPosition infoLength : Nat) : Nat :=
  (rawAll ((l.newEntries infoPosition infoLength).map SeekItem.element)).length

/-- The new index is shorter than its room, or a void of the form that is written follows. -/
def LeavesVoid (infoPosition infoLength : Nat) : Prop :=
  l.indexLength infoPosition infoLength < l.indexRoom ∨
    ∃ void ∈ l.next.tail.head?, void.id = [0xEC] ∧
      buildEbmlVoid void.raw.length = .ok void.raw

/-- The file that the first call leaves. -/
structure After (file metadata : Bytes) (infoLength : Nat) where
  void : Element
  index : Reindexed l.seekHead void (l.newEntries (l.infoPosition metadata) infoLength)
  after : Layout
  head : after.head = l.head
  width : after.width = l.width
  front : after.front = l.front
  seekHead : after.seekHead = index.after
  hadVoid : l.next.head? = some void
  next : after.next = index.voids ++ l.next.tail
  fields : after.fields = l.fields
  tail : after.tail = (l.extended metadata).tail
  content : file = after.content
  size : after.size = unknownSize after.width ∨
    after.size = after.content.length - after.start

/-- What stands in front of the `Info` is behind the index. -/
theorem behind_eq_cons {l : Layout} {e : Element} {more : List Element} (hnext : l.next = e :: more)
    (hid : e.id = [0xEC]) : ∃ middle, l.behind = e :: middle := by
  cases h : l.behind with
  | nil =>
    rw [Layout.next, h] at hnext
    obtain ⟨rfl, -⟩ := List.cons.inj hnext
    exact absurd l.infoIsInfo (void_ne_info hid)
  | cons e' middle =>
    rw [Layout.next, h] at hnext
    obtain ⟨rfl, -⟩ := List.cons.inj hnext
    exact ⟨middle, rfl⟩

section Reindex

variable {l} {void : Element} {entries : List SeekItem} {middle : List Element} {n : Nat}

/-- A file with another index and another size of its segment. -/
def reindexed (m : Reindexed l.seekHead void entries) (hmiddle : ∀ e ∈ middle, e.id ≠ infoId)
    (hn : n < 2 ^ (7 * l.width)) : Layout :=
  { l with
    size := n
    seekHead := m.after
    behind := m.voids ++ middle
    sizeValid := hn
    behindOthers := by
      intro e he
      rcases List.mem_append.mp he with hvoid | he
      · exact void_ne_info (m.empty e hvoid)
      · exact hmiddle e he }

theorem reindexed_content (m : Reindexed l.seekHead void entries)
    (hmiddle : ∀ e ∈ middle, e.id ≠ infoId) (hn : n < 2 ^ (7 * l.width)) :
    (reindexed m hmiddle hn).content = l.head ++ (segmentId ++ (vint l.width n ++
      (rawAll l.front ++ (m.after.element.raw ++ (rawAll m.voids ++
        (rawAll (middle ++ [l.info]) ++ l.tail)))))) := by
  simp only [content, base, front', Layout.next, reindexed, rawAll_append, List.append_assoc]

theorem reindexed_length (m : Reindexed l.seekHead void entries)
    (hbehind : l.behind = void :: middle) (hmiddle : ∀ e ∈ middle, e.id ≠ infoId)
    (hn : n < 2 ^ (7 * l.width)) :
    (reindexed m hmiddle hn).content.length = l.content.length := by
  have hnext : l.next = void :: (middle ++ [l.info]) := by rw [Layout.next, hbehind]; rfl
  have hlength := SeekHead.reindexed_length m
  rw [reindexed_content, l.content_split hnext, front']
  simp only [List.length_append, vint_length]
  omega

/-- The patches of the index, where the size of the segment stays. -/
theorem reindexed_written (m : Reindexed l.seekHead void entries)
    (hbehind : l.behind = void :: middle) (hmiddle : ∀ e ∈ middle, e.id ≠ infoId) :
    writeAt (writeAt l.content (l.front'.length + l.seekHead.element.header.raw.length)
        (m.after.element.payload ++ rawAll m.voids))
      (l.front'.length + seekHeadId.length)
      (vint m.after.element.header.width m.after.element.header.size) =
      (reindexed m hmiddle l.sizeValid).content := by
  have hnext : l.next = void :: (middle ++ [l.info]) := by rw [Layout.next, hbehind]; rfl
  rw [l.content_split hnext, SeekHead.patch_written m, reindexed_content, front']
  simp only [List.append_assoc]

/-- The size of the segment is written over the old one. -/
theorem reindexed_resized (m : Reindexed l.seekHead void entries)
    (hmiddle : ∀ e ∈ middle, e.id ≠ infoId) (hn : n < 2 ^ (7 * l.width)) :
    writeAt (reindexed m hmiddle l.sizeValid).content (l.head.length + segmentId.length)
      (vint l.width n) = (reindexed m hmiddle hn).content := by
  rw [reindexed_content, reindexed_content, ← List.append_assoc, ← List.length_append,
    writeAt_append (by simp), List.append_assoc]

end Reindex

/-- What the first call writes. -/
theorem embedded {info tags file : Bytes} (hinfo : l.newInfo title = .ok info)
    (htags : buildWebmTags title comment = .ok tags)
    (hposition : l.start ≤ l.infoPosition (info ++ tags))
    (hok : appendWebmMetadata l.content title comment = (.ok (), file)) :
    Nonempty (l.After file (info ++ tags) info.length) := by
  have hbase := l.base_length_le_of_ok hok
  obtain ⟨e, more, hnext⟩ := l.next_eq_cons
  have hreseek := l.reseek_eq hnext (l.tail.take (1024 * 1024 - l.base.length)) hposition
    info.length
  rw [← l.content_take hbase] at hreseek
  have hfile : (if decide (info ++ tags <:+ l.content) = true then l.content
      else l.content ++ (info ++ tags)) = (l.extended (info ++ tags)).content := by
    rw [extended_content]
    simp
  have hplace : (if decide (info ++ tags <:+ l.content) = true then
      l.content.length - (info ++ tags).length else l.content.length) =
        l.infoPosition (info ++ tags) := by
    rw [infoPosition_eq]
    simp
  simp only [appendWebmMetadata, l.prepare_eq hbase hinfo htags, prepared, Prepared.payloadStart,
    hfile, hplace] at hok
  rw [show l.head.length + segmentId.length + l.width = l.start from rfl, hreseek] at hok
  by_cases hid : e.id = [0xEC]
  · rw [if_pos hid] at hok
    cases hpatch : l.seekHead.patch l.front'.length e
        (l.newEntries (l.infoPosition (info ++ tags)) info.length) with
    | error err =>
      rw [hpatch] at hok
      cases hok
    | ok patch =>
      obtain ⟨m, rfl⟩ := SeekHead.patch_spec hpatch
      obtain ⟨middle, hbehind⟩ := behind_eq_cons hnext hid
      have hmiddle : ∀ e ∈ middle, e.id ≠ infoId :=
        fun e he => l.behindOthers e (hbehind ▸ List.mem_cons_of_mem _ he)
      have hwritten : writeAt (writeAt (l.extended (info ++ tags)).content
            (l.front'.length + l.seekHead.element.header.raw.length)
            (m.after.element.payload ++ rawAll m.voids))
          (l.front'.length + seekHeadId.length)
          (vint m.after.element.header.width m.after.element.header.size) =
          (reindexed (l := l.extended (info ++ tags)) m hmiddle l.sizeValid).content :=
        reindexed_written (l := l.extended (info ++ tags)) m hbehind hmiddle
      have hafter {n : Nat} (hn : n < 2 ^ (7 * l.width))
          (hfile : file = (reindexed (l := l.extended (info ++ tags)) m hmiddle hn).content)
          (hsize : n = unknownSize l.width ∨
            n = (l.extended (info ++ tags)).content.length - l.start) :
          Nonempty (l.After file (info ++ tags) info.length) := by
        refine ⟨{
          void := e, index := m, content := hfile
          after := reindexed (l := l.extended (info ++ tags)) m hmiddle hn
          head := rfl, width := rfl, front := rfl, seekHead := rfl, fields := rfl, tail := rfl
          hadVoid := by rw [hnext]; rfl
          next := ?_
          size := ?_ }⟩
        · rw [Layout.next, Layout.next, hbehind]
          exact List.append_assoc _ _ _
        · rw [reindexed_length (l := l.extended (info ++ tags)) m hbehind hmiddle hn]
          exact hsize
      rw [hpatch] at hok
      simp only [hwritten] at hok
      split_ifs at hok with hsize
      · -- the size is unknown, or right already
        exact hafter l.sizeValid (Prod.mk.inj hok).2.symm (by simpa using hsize)
      · cases hencode : encodeEbmlSize ((l.extended (info ++ tags)).content.length - l.start)
            (some l.width) with
        | error err =>
          rw [hencode] at hok
          cases hok
        | ok encoded =>
          obtain ⟨-, hfits, rfl⟩ := encode_some hencode
          have hn := Nat.lt_of_lt_of_le hfits (Nat.sub_le _ _)
          rw [hencode] at hok
          refine hafter hn ?_ (.inr rfl)
          rw [← (Prod.mk.inj hok).2]
          exact reindexed_resized (l := l.extended (info ++ tags)) m hmiddle hn
  · rw [if_neg hid] at hok
    cases hok

namespace After

variable {l} {file metadata : Bytes} {infoLength : Nat} (a : l.After file metadata infoLength)
include a

theorem next_eq : l.next = a.void :: l.next.tail := by
  obtain ⟨e, more, hnext⟩ := l.next_eq_cons
  have hvoid := a.hadVoid
  rw [hnext] at hvoid ⊢
  rw [← Option.some.inj hvoid]
  rfl

theorem start_eq : a.after.start = l.start := by
  rw [start, start, a.head, a.width]

theorem base_length_eq : a.after.base.length = l.base.length := by
  have hindex := SeekHead.reindexed_length a.index
  have hbefore : (rawAll l.next).length = a.void.raw.length + (rawAll l.next.tail).length := by
    rw [← List.length_append, ← rawAll_cons, ← a.next_eq]
  rw [base, base, List.length_append, List.length_append, List.length_append, List.length_append,
    front'_length, front'_length, a.start_eq, a.front, a.seekHead, a.next, rawAll_append,
    List.length_append, hbefore]
  omega

theorem content_length : a.after.content.length = (l.extended metadata).content.length := by
  have hbase : (l.extended metadata).base = l.base := rfl
  rw [Layout.content, Layout.content, List.length_append, List.length_append, a.base_length_eq,
    a.tail, hbase]

theorem infoPosition_eq : a.after.content.length - metadata.length = l.infoPosition metadata := by
  rw [a.content_length, infoPosition]

/-- The file ends with the metadata. -/
theorem ends (hbehind : metadata <:+ l.content →
    metadata.length ≤ (rawAll l.next.tail ++ l.tail).length) :
    metadata <:+ a.after.content := by
  have hcontent : a.after.content = (a.after.front' ++ (a.after.seekHead.element.raw ++
      rawAll a.index.voids)) ++ (rawAll l.next.tail ++ (l.extended metadata).tail) := by
    rw [Layout.content, base, a.next, a.tail]
    simp only [rawAll_append, List.append_assoc]
  rw [hcontent]
  by_cases hdone : metadata <:+ l.content
  · have hend : rawAll l.next.tail ++ l.tail <:+ l.content := by
      rw [l.content_split a.next_eq, ← List.append_assoc, ← List.append_assoc]
      exact List.suffix_append _ _
    rw [extended, if_pos hdone]
    exact (List.suffix_of_suffix_length_le hdone hend (hbehind hdone)).trans
      (List.suffix_append _ _)
  · rw [extended, if_neg hdone, ← List.append_assoc (rawAll l.next.tail),
      ← List.append_assoc _ _ metadata]
    exact List.suffix_append _ _

/-- The index has its entries already. -/
theorem newEntries_eq :
    a.after.newEntries (l.infoPosition metadata) infoLength = a.after.seekHead.entries := by
  rw [newEntries, a.start_eq, a.seekHead, a.index.entries, newEntries]
  exact SeekItem.moveAll_moveAll rfl rfl _

theorem voidNext_iff : a.after.VoidNext ↔ l.LeavesVoid (l.infoPosition metadata) infoLength := by
  have hroom : l.indexRoom = l.seekHead.element.payload.length + a.void.raw.length := by
    rw [indexRoom, a.hadVoid]
    rfl
  have hlength : l.indexLength (l.infoPosition metadata) infoLength =
      a.index.after.element.payload.length := by
    rw [indexLength, a.index.after.payload, a.index.entries]
  have hindex := a.index.room
  have hfew := a.index.few
  have hempty := a.index.empty
  have hleft := a.index.left
  rw [LeavesVoid, hroom, hlength, VoidNext, a.next]
  generalize a.index.voids = voids at hindex hfew hempty hleft
  match voids with
  | [] =>
    rw [rawAll_nil, List.length_nil] at hindex
    rw [List.nil_append, or_iff_right (by omega)]
  | [v] =>
    have hpos : 2 ≤ v.raw.length := (Item.whole v).raw_pos
    rw [rawAll_cons, rawAll_nil, List.append_nil] at hindex hleft
    apply iff_of_true
    · exact ⟨v, rfl, hempty v List.mem_cons_self, hleft⟩
    · exact .inl (by omega)
  | _ :: _ :: _ => simp at hfew

end After

/-- A small file with a void of a length. -/
def small (n : Nat) (h : n < 127) : Layout where
  head := sampleHead
  width := 1
  size := 0
  front := []
  seekHead := sampleSeekHead [] emptySeekHead_length
  behind := [sampleVoid n h]
  info := sampleInfo
  fields := [sampleTitle 65]
  tail := []
  widthValid := oneByte_valid
  sizeValid := by decide
  headClear := by decide
  frontClear := by decide
  frontOthers := nofun
  behindOthers := by simp [sampleVoid, sampleElement, Element.id, infoId]
  infoIsInfo := rfl
  infoPayload := (List.append_nil _).symm

/-- The small file with its metadata. -/
def smallFile (n : Nat) (h : n < 127) : Bytes :=
  (appendWebmMetadata (small n h).content "T" "C").2

end Layout

end RecordingNote

end MDesk
