import MDesk.Recording.Seeks

/-!
# What a recording is after its metadata was written

A recording is a head, a segment and its children. Writing the metadata changes the `SeekHead`
and the void behind it within their room, and adds `Info` and `Tags` behind the children.
-/

namespace MDesk

open Core

namespace RecordingNote

structure SeekHead where
  element : Element
  entries : List SeekItem
  id : element.id = seekHeadId
  payload : element.payload = rawAll (entries.map SeekItem.element)

variable {header bytes pattern : Bytes} {k start : Nat}

/-- The first position of a pattern. -/
theorem findBytes_some (h : findBytes pattern bytes = some k) :
    pattern <+: bytes.drop k ∧ ∀ j < k, ¬ pattern <+: bytes.drop j := by
  induction bytes generalizing k with
  | nil => cases h
  | cons b bs ih =>
    rw [findBytes] at h
    split_ifs at h with hfront
    · cases h
      exact ⟨hfront, nofun⟩
    · obtain ⟨i, hi, rfl⟩ := Option.map_eq_some_iff.mp h
      obtain ⟨hthere, hbefore⟩ := ih hi
      refine ⟨hthere, fun j hj => ?_⟩
      cases j with
      | zero => exact hfront
      | succ j => exact hbefore j (by omega)

/-- A pattern that a buffer would begin with if it were longer is found at its beginning. -/
theorem findBytes_zero {more : Bytes} (hbegun : bytes <+: pattern ++ more)
    (h : findBytes pattern bytes = some k) : k = 0 := by
  obtain ⟨hthere, hbefore⟩ := findBytes_some h
  by_contra hk
  refine hbefore 0 (Nat.pos_of_ne_zero hk) ?_
  have hlen := hthere.length_le
  rw [List.length_drop] at hlen
  rw [List.drop_zero]
  exact List.prefix_of_prefix_length_le (List.prefix_append _ _) hbegun (by omega)

/-- The entry that is added where none was there. -/
theorem added_entry {target r : Bytes} {position : Nat} {found : Bool}
    (hposition : position < 2 ^ 64)
    (h : addSeekEntry found target position = .ok r) :
    ∃ items : List SeekItem, r = rawAll (items.map SeekItem.element) ∧ ∀ t p,
      (t, p) ∈ points items ↔ found = false ∧ t = target ∧ p = position := by
  unfold addSeekEntry at h
  cases found with
  | true =>
    rw [if_pos rfl] at h
    cases h
    exact ⟨[], rfl, by simp [points]⟩
  | false =>
    rw [if_neg Bool.false_ne_true] at h
    obtain ⟨s, rfl, hpoint⟩ := buildSeekEntry_spec hposition h
    refine ⟨[s], by simp, fun t p => ?_⟩
    rw [mem_points_cons, hpoint]
    simp [points, eq_comm]

theorem points_append (items items' : List SeekItem) :
    points (items ++ items') = points items ++ points items' := List.filterMap_append

/-- With the entries that are added, `Info` and `Tags` have their positions. -/
theorem moved_added {infoPosition tagsPosition : Nat} {isInfo isTags : Bool}
    {old : Bytes → Nat → Prop} {target : Bytes} {position : Nat} :
    (Moved infoPosition tagsPosition isInfo isTags old target position ∨
        isInfo = false ∧ target = infoId ∧ position = infoPosition) ∨
        isTags = false ∧ target = tagsId ∧ position = tagsPosition ↔
      Moved infoPosition tagsPosition true true old target position := by
  unfold Moved
  split_ifs with hi ht
  · cases isInfo <;> simp [hi, infoId_ne_tagsId]
  · have hne : infoId ≠ tagsId := infoId_ne_tagsId
    cases isTags <;> simp [ht, hne.symm]
  · simp [hi, ht]

/-- What the new `SeekHead` is. -/
structure Reseeked (seekHead : SeekHead) (void : Element) (start infoPosition tagsPosition : Nat)
    (patch : SeekPatch) where
  after : SeekHead
  voids : List Element
  payloadStart : patch.payloadStart = start + seekHead.element.header.raw.length
  payload : patch.payload = after.element.payload ++ rawAll voids
  room : patch.payload.length = seekHead.element.payload.length + void.raw.length
  sizeStart : patch.sizeStart = start + seekHeadId.length
  sizeWidth : patch.size.length = seekHead.element.header.width
  raw : after.element.raw = seekHeadId ++ (patch.size ++ after.element.payload)
  few : voids.length ≤ 1
  empty : ∀ v ∈ voids, v.id = [0xEC]
  moved : ∀ target position, (target, position) ∈ points after.entries ↔
    Moved infoPosition tagsPosition true true
      (fun target position => (target, position) ∈ points seekHead.entries) target position

theorem rewrite_spec {seekHead : SeekHead} {void : Element} {more : Bytes} {patch : SeekPatch}
    {infoFile tagsFile : Nat} (hinfo : infoFile < 2 ^ 64) (htags : tagsFile < 2 ^ 64)
    (h : header.drop start <+: seekHead.element.raw ++ (void.raw ++ more))
    (hok : rewriteMetadataSeekPositions header start infoFile tagsFile = .ok patch) :
    start ≤ infoFile ∧ start ≤ tagsFile ∧
      Nonempty (Reseeked seekHead void start (infoFile - start) (tagsFile - start) patch) := by
  simp only [rewriteMetadataSeekPositions, bind_ok, ensure_ok, okOr_ok, Prod.exists] at hok
  obtain ⟨-, -, relative, hfind, _, hparse, _, rfl, _, hparse', _, rfl, -, ⟨-, hvoid⟩, -, hinfo', -,
    htags', entries, foundInfo, foundTags, hentries, info, haddInfo, tags, haddTags, -, hroom,
    remainder, hvoids, size, width, unknown, hsize, -, hknown, encoded, hencoded, hpatch⟩ := hok
  have hid : seekHead.element.header.id = seekHeadId := seekHead.id
  have hraw : seekHead.element.raw = seekHeadId ++ (vint seekHead.element.header.width
      seekHead.element.header.size ++ seekHead.element.payload) := by
    rw [Element.raw, ElementHeader.raw, hid, List.append_assoc]
  -- the buffer begins with the `SeekHead`, which is followed by the void
  obtain rfl : relative = 0 := by
    rw [hraw, List.append_assoc] at h
    exact findBytes_zero h hfind
  rw [Nat.add_zero] at hparse hsize hpatch
  obtain ⟨e, behind, he, hthere⟩ := parse_item (i := .whole seekHead.element) h hparse
  cases he
  rw [parse_whole hthere] at hparse
  cases hparse
  have hbehind : header.drop (start + seekHead.element.raw.length) <+: void.raw ++ more := by
    have hdrop := List.IsPrefix.drop h seekHead.element.raw.length
    rwa [List.drop_drop, List.drop_left] at hdrop
  obtain ⟨e, behind', he, hthere'⟩ := parse_item (i := .whole void) hbehind hparse'
  cases he
  rw [parse_whole hthere'] at hparse'
  cases hparse'
  -- its entries and its size
  have hpayload : header.drop (start + seekHead.element.header.raw.length) =
      rawAll (seekHead.entries.map SeekItem.element) ++ behind := by
    apply drop_behind
    rw [hthere, Element.raw, seekHead.payload, List.append_assoc]
  have hstop : start + seekHead.element.raw.length = start + seekHead.element.header.raw.length +
      (rawAll (seekHead.entries.map SeekItem.element)).length := by
    rw [seekHead.element.raw_length, seekHead.payload]
    omega
  simp only [hstop] at hentries
  obtain ⟨items, rfl, hpoints⟩ := rewriteSeeks_spec (by omega) (by omega) hpayload hentries
  obtain ⟨items', rfl, hpoints'⟩ := added_entry (by omega) haddInfo
  obtain ⟨items'', rfl, hpoints''⟩ := added_entry (by omega) haddTags
  have hsizeThere : header.drop (start + seekHeadId.length) =
      vint seekHead.element.header.width seekHead.element.header.size ++
        (seekHead.element.payload ++ behind) := by
    apply drop_behind
    rw [hthere, hraw]
    simp only [List.append_assoc]
  obtain ⟨hw, hw'⟩ := seekHead.element.header.widthValid
  rw [hsizeThere, decode_vint hw hw' seekHead.element.header.sizeValid] at hsize
  cases hsize
  obtain ⟨hwidth, hfits, rfl⟩ := encode_some hencoded
  obtain ⟨hvoidLength, voids, rfl, hfew, hempty⟩ := build_void hvoids
  cases hpatch
  have hall : rawAll (items.map SeekItem.element) ++ rawAll (items'.map SeekItem.element) ++
      rawAll (items''.map SeekItem.element) =
        rawAll ((items ++ items' ++ items'').map SeekItem.element) := by
    simp only [List.map_append, rawAll_append]
  rw [hall] at hfits hvoidLength hroom ⊢
  have hsmall := Nat.lt_of_lt_of_le hfits (Nat.sub_le _ _)
  refine ⟨hinfo', htags', ⟨{
    after := ⟨⟨⟨seekHeadId, seekHead.element.header.width, _, by decide, hwidth, hsmall⟩, _,
      Nat.ne_of_lt hfits, rfl⟩, items ++ items' ++ items'', rfl, rfl⟩
    voids
    payloadStart := rfl
    payload := rfl
    room := ?_
    sizeStart := rfl
    sizeWidth := vint_length _ _
    raw := ?_
    few := hfew
    empty := hempty
    moved := ?_ }⟩⟩
  · have hparts := seekHead.element.raw_length
    rw [List.length_append, hvoidLength]
    simp only at hroom ⊢
    omega
  · rw [Element.raw, ElementHeader.raw, List.append_assoc]
  · intro target position
    rw [points_append, points_append, List.mem_append, List.mem_append, hpoints, hpoints',
      hpoints'', moved_added]

/-- A recording: what is in front of the segment, the width and the meaning of its size, and
its children, which go on to the end of the file. -/
structure Webm where
  head : Bytes
  width : Nat
  known : Bool
  children : List Item
  widthValid : 1 ≤ width ∧ width ≤ 8
  fits : known = true → (rawItems children).length < unknownSize width

def Webm.size (f : Webm) : Nat :=
  if f.known then (rawItems f.children).length else unknownSize f.width

def Webm.content (f : Webm) : Bytes :=
  f.head ++ (segmentId ++ (vint f.width f.size ++ rawItems f.children))

theorem Webm.size_lt (f : Webm) : f.size < 2 ^ (7 * f.width) := by
  have hpos : 0 < 2 ^ (7 * f.width) := Nat.pow_pos (by decide)
  unfold size
  split_ifs with hknown
  · exact Nat.lt_of_lt_of_le (f.fits hknown) (Nat.sub_le _ _)
  · exact Nat.sub_lt hpos Nat.one_pos

theorem Webm.size_unknown (f : Webm) : (f.size == unknownSize f.width) = !f.known := by
  unfold size
  cases hknown : f.known with
  | true =>
    have hne := Nat.ne_of_lt (f.fits hknown)
    simpa using hne
  | false => simp

/-- The first `Info` among children whose sizes are known. -/
def FirstInfo (children : List Item) (info : Element) : Prop :=
  ∃ front behind, children = front ++ .whole info :: behind ∧ info.id = infoId ∧
    ∀ i ∈ front, ∃ e, i = .whole e ∧ e.id ≠ infoId

/-- An `Info` with its title replaced. -/
def Retitled (old new : Element) (title : String) : Prop :=
  new.id = infoId ∧ ∃ (fields : List Element) (name : Element), old.payload = rawAll fields ∧
    new.payload = rawAll ((fields.filter fun e => e.id ≠ titleId) ++ [name]) ∧
    name.id = titleId ∧ name.payload = utf8Bytes title.toList

def IsSimpleTag (e : Element) (name value : String) : Prop :=
  e.id = [0x67, 0xC8] ∧ ∃ n v : Element, e.payload = rawAll [n, v] ∧
    n.id = [0x45, 0xA3] ∧ n.payload = utf8Bytes name.toList ∧
    v.id = [0x44, 0x87] ∧ v.payload = utf8Bytes value.toList

/-- The `Tags` of a title and a comment. -/
def CarriesTags (e : Element) (title comment : String) : Prop :=
  e.id = tagsId ∧ ∃ tag targets t c : Element, e.payload = rawAll [tag] ∧ tag.id = [0x73, 0x73] ∧
    tag.payload = rawAll [targets, t, c] ∧ targets.id = targetsId ∧ targets.payload = [] ∧
    IsSimpleTag t "TITLE" title ∧ IsSimpleTag c "COMMENT" comment

/-- The segment is found where it is, unless its id is in the head. -/
theorem segment_position {head behind : Bytes} (hhead : ¬ segmentId <:+: head)
    (hheader : header <+: head ++ (segmentId ++ behind)) (h : findBytes segmentId header = some k) :
    k = head.length := by
  obtain ⟨hthere, hbefore⟩ := findBytes_some h
  have hlen := hthere.length_le
  rw [List.length_drop] at hlen
  rcases Nat.lt_trichotomy k head.length with hlt | heq | hgt
  · exfalso
    have hin : segmentId <+: head.drop k ++ (segmentId ++ behind) := by
      have hdrop := hthere.trans (List.IsPrefix.drop hheader k)
      rwa [List.drop_append_of_le_length (Nat.le_of_lt hlt)] at hdrop
    -- the id cannot reach from the head into itself
    match hd : head.drop k with
    | [] =>
      rw [List.drop_eq_nil_iff] at hd
      omega
    | [a] =>
      rw [hd] at hin
      simp [segmentId] at hin
    | [a, b] =>
      rw [hd] at hin
      simp [segmentId] at hin
    | [a, b, c] =>
      rw [hd] at hin
      simp [segmentId] at hin
    | a :: b :: c :: d :: more =>
      refine hhead ((List.prefix_of_prefix_length_le hin (List.prefix_append _ _) ?_).isInfix.trans
        (List.drop_suffix k head).isInfix)
      rw [hd]
      simp [segmentId]
  · exact heq
  · refine absurd ?_ (hbefore head.length hgt)
    have hdrop := List.IsPrefix.drop hheader head.length
    rw [List.drop_left] at hdrop
    refine List.prefix_of_prefix_length_le (List.prefix_append _ _) hdrop ?_
    rw [List.length_drop]
    have hfour : segmentId.length = 4 := rfl
    omega

theorem buildSimpleTag_spec {name value : String} {r : Bytes}
    (h : buildSimpleTag name value = .ok r) :
    ∃ e : Element, e.raw = r ∧ IsSimpleTag e name value := by
  simp only [buildSimpleTag, bind_ok] at h
  obtain ⟨n, hn, v, hv, h⟩ := h
  obtain ⟨ne, hnid, hnpayload, rfl⟩ := build_element (by decide) hn
  obtain ⟨ve, hvid, hvpayload, rfl⟩ := build_element (by decide) hv
  obtain ⟨e, hid, hpayload, rfl⟩ := build_element (by decide) h
  exact ⟨e, rfl, hid, ne, ve, by simpa using hpayload, hnid, hnpayload, hvid, hvpayload⟩

theorem buildWebmTags_spec {title comment : String} {r : Bytes}
    (h : buildWebmTags title comment = .ok r) :
    ∃ e : Element, e.raw = r ∧ CarriesTags e title comment := by
  simp only [buildWebmTags, bind_ok] at h
  obtain ⟨targets, htargets, t, ht, c, hc, tag, htag, h⟩ := h
  obtain ⟨targetsE, htargetsId, htargetsPayload, rfl⟩ := build_element (by decide) htargets
  obtain ⟨te, rfl, hte⟩ := buildSimpleTag_spec ht
  obtain ⟨ce, rfl, hce⟩ := buildSimpleTag_spec hc
  obtain ⟨tagE, htagId, htagPayload, rfl⟩ := build_element (by decide) htag
  obtain ⟨e, hid, hpayload, rfl⟩ := build_element (by decide) h
  refine ⟨e, rfl, hid, tagE, targetsE, te, ce, by simpa using hpayload, htagId, ?_, htargetsId,
    htargetsPayload, hte, hce⟩
  simpa using htagPayload

/-- The fields of every `Info` are elements. -/
def InfoFields (children : List Item) : Prop :=
  ∀ e, .whole e ∈ children → e.id = infoId → ∃ fields, e.payload = rawAll fields

/-- The `Info` that is built is the first one with its title replaced. -/
theorem buildWebmInfoWithTitle_spec {children : List Item} {title : String} {r : Bytes}
    (h : header.drop start <+: rawItems children) (hfields : InfoFields children)
    (hok : buildWebmInfoWithTitle header start title = .ok r) :
    ∃ info info' : Element,
      FirstInfo children info ∧ Retitled info info' title ∧ r = info'.raw := by
  simp only [buildWebmInfoWithTitle, bind_ok, okOr_ok] at hok
  obtain ⟨_, hfind, _, rfl, payload, hpayload, name, hname, hbuild⟩ := hok
  obtain ⟨front, info, behind, more, hchildren, hid, hfront, hthere, rfl⟩ := findInfo_spec h hfind
  obtain ⟨fields, hinfo⟩ := hfields info (hchildren ▸ by simp) hid
  have hfieldsThere : header.drop (start + (rawItems front).length + info.header.raw.length) =
      rawAll fields ++ more := by
    apply drop_behind
    rw [hthere, Element.raw, hinfo, List.append_assoc]
  have hstop : start + (rawItems front).length + info.raw.length =
      start + (rawItems front).length + info.header.raw.length + (rawAll fields).length := by
    rw [info.raw_length, hinfo]
    omega
  simp only [hstop] at hpayload
  rw [infoPayload_spec hfieldsThere] at hpayload
  cases hpayload
  obtain ⟨nameE, hnameId, hnamePayload, rfl⟩ := build_element (by decide) hname
  obtain ⟨info', hid', hpayload', rfl⟩ := build_element (by decide) hbuild
  refine ⟨info, info', ⟨front, behind, hchildren, hid, hfront⟩, ⟨hid', fields, nameE, hinfo, ?_,
    hnameId, hnamePayload⟩, rfl⟩
  simpa using hpayload'

/-- An `Info` is not in front of the first one. -/
theorem FirstInfo.tail {e info : Element} {children : List Item}
    (h : FirstInfo (.whole e :: children) info) (he : e.id ≠ infoId) : FirstInfo children info := by
  obtain ⟨front, behind, hchildren, hid, hfront⟩ := h
  cases front with
  | nil =>
    obtain ⟨hsame, -⟩ := List.cons.inj hchildren
    obtain rfl : e = info := Item.whole.inj hsame
    exact absurd hid he
  | cons i front =>
    exact ⟨front, behind, (List.cons.inj hchildren).2, hid,
      fun j hj => hfront j (List.mem_cons_of_mem i hj)⟩

/-- What is known before anything is written. -/
structure Known (f : Webm) (title comment : String) (p : Prepared) where
  info : Element
  info' : Element
  tags : Element
  header : p.header <+: f.content
  sizePos : p.sizePos = f.head.length + segmentId.length
  segmentSize : p.segmentSize = f.size
  sizeWidth : p.sizeWidth = f.width
  sizeIsUnknown : p.sizeIsUnknown = !f.known
  infoRaw : p.info = info'.raw
  tagsRaw : p.tags = tags.raw
  first : FirstInfo f.children info
  retitled : Retitled info info' title
  carries : CarriesTags tags title comment

theorem prepare_spec {f : Webm} {title comment : String} {p : Prepared}
    (hhead : ¬ segmentId <:+: f.head) (hfields : InfoFields f.children)
    (hok : prepare f.content title comment = .ok p) : Nonempty (Known f title comment p) := by
  simp only [prepare, bind_ok, okOr_ok, ensure_ok, Prod.exists] at hok
  obtain ⟨tags, htags, -, -, position, hposition, size, width, unknown, hsize, -, -, info, hinfo,
    hp⟩ := hok
  have hheader : f.content.take (1024 * 1024) <+: f.content := List.take_prefix _ _
  obtain rfl := segment_position hhead hheader hposition
  have hsizeThere : (f.content.take (1024 * 1024)).drop (f.head.length + segmentId.length) <+:
      vint f.width f.size ++ rawItems f.children := by
    have hdrop := List.IsPrefix.drop hheader (f.head.length + segmentId.length)
    rwa [Webm.content, ← List.drop_drop (l := f.head ++ _), List.drop_left, List.drop_left] at hdrop
  obtain ⟨-, hr⟩ := decode_begun f.widthValid.1 f.widthValid.2 f.size_lt hsizeThere hsize
  cases hr
  have hchildren : (f.content.take (1024 * 1024)).drop
      (f.head.length + segmentId.length + f.width) <+: rawItems f.children := by
    have hdrop := List.IsPrefix.drop hsizeThere f.width
    rwa [List.drop_drop, List.drop_left' (vint_length _ _)] at hdrop
  obtain ⟨info, info', hfirst, hretitled, rfl⟩ :=
    buildWebmInfoWithTitle_spec hchildren hfields hinfo
  obtain ⟨tagsE, rfl, hcarries⟩ := buildWebmTags_spec htags
  cases hp
  exact ⟨{
    info, info', tags := tagsE
    header := hheader
    sizePos := rfl
    segmentSize := rfl
    sizeWidth := rfl
    sizeIsUnknown := f.size_unknown
    infoRaw := rfl
    tagsRaw := rfl
    first := hfirst
    retitled := hretitled
    carries := hcarries }⟩

/-- What stands in a file where something of the same length is written. -/
theorem writeAt_append {front old new behind : Bytes} (h : new.length = old.length) :
    writeAt (front ++ (old ++ behind)) front.length new = front ++ (new ++ behind) := by
  rw [writeAt, List.take_left, h, ← List.drop_drop, List.drop_left, List.drop_left,
    List.append_assoc]

/-- The recording after its metadata was written. -/
structure Embedding (f : Webm) (seekHead : SeekHead) (void : Element) (rest : List Item)
    (title comment : String) where
  after : Webm
  newSeekHead : SeekHead
  voids : List Element
  info : Element
  newInfo : Element
  tags : Element
  /-- Where the new `Info` is in the segment. -/
  infoPosition : Nat
  head : after.head = f.head
  width : after.width = f.width
  known : after.known = f.known
  children : after.children = .whole newSeekHead.element :: (voids.map .whole ++ (rest ++
    if newInfo.raw ++ tags.raw <:+ f.content then [] else [.whole newInfo, .whole tags]))
  room : newSeekHead.element.raw.length + (rawAll voids).length =
    seekHead.element.raw.length + void.raw.length
  few : voids.length ≤ 1
  empty : ∀ v ∈ voids, v.id = [0xEC]
  first : FirstInfo rest info
  retitled : Retitled info newInfo title
  carries : CarriesTags tags title comment
  last : infoPosition + (newInfo.raw ++ tags.raw).length = (rawItems after.children).length
  moved : ∀ target position, (target, position) ∈ points newSeekHead.entries ↔
    Moved infoPosition (infoPosition + newInfo.raw.length) true true
      (fun target position => (target, position) ∈ points seekHead.entries) target position

/-- The room of the `SeekHead` and the void is the same. -/
theorem Reseeked.length {seekHead : SeekHead} {void : Element}
    {infoPosition tagsPosition : Nat} {patch : SeekPatch}
    (r : Reseeked seekHead void start infoPosition tagsPosition patch) :
    r.after.element.raw.length + (rawAll r.voids).length =
      seekHead.element.raw.length + void.raw.length := by
  have hid : seekHead.element.header.id = seekHeadId := seekHead.id
  have hroom := r.room
  have hwidth := r.sizeWidth
  have hraw := congrArg List.length r.raw
  have hheader := seekHead.element.header.raw_length
  have hparts := seekHead.element.raw_length
  rw [hid] at hheader
  rw [r.payload, List.length_append] at hroom
  rw [List.length_append, List.length_append] at hraw
  omega

namespace Reseeked

variable {seekHead : SeekHead} {void : Element} {infoPosition tagsPosition : Nat}
  {patch : SeekPatch}

/-- The children behind the new `SeekHead`, with what is added. -/
def children (r : Reseeked seekHead void start infoPosition tagsPosition patch)
    (behind : List Item) : List Item :=
  .whole r.after.element :: (r.voids.map .whole ++ behind)

theorem children_length (r : Reseeked seekHead void start infoPosition tagsPosition patch)
    (behind : List Item) : (rawItems (r.children behind)).length =
      (rawItems (.whole seekHead.element :: .whole void :: behind)).length := by
  have hroom := r.length
  simp only [children, rawItems_cons, rawItems_append, rawItems_whole, Item.raw,
    List.length_append]
  omega

end Reseeked

/-- The patches of the `SeekHead` replace it and the void behind it. -/
theorem patched {seekHead : SeekHead} {void : Element} {front : Bytes} {rest : List Item}
    {infoPosition tagsPosition : Nat} {patch : SeekPatch}
    (r : Reseeked seekHead void front.length infoPosition tagsPosition patch) :
    writeAt (writeAt (front ++ rawItems (.whole seekHead.element :: .whole void :: rest))
        patch.payloadStart patch.payload) patch.sizeStart patch.size =
      front ++ rawItems (r.children rest) := by
  have hid : seekHead.element.header.id = seekHeadId := seekHead.id
  have hold : front ++ rawItems (.whole seekHead.element :: .whole void :: rest) =
      (front ++ seekHead.element.header.raw) ++
        ((seekHead.element.payload ++ void.raw) ++ rawItems rest) := by
    simp only [rawItems_cons, Item.raw, Element.raw, List.append_assoc]
  have hstart : patch.payloadStart = (front ++ seekHead.element.header.raw).length := by
    rw [r.payloadStart, List.length_append]
  have hmiddle : (front ++ seekHead.element.header.raw) ++ (patch.payload ++ rawItems rest) =
      (front ++ seekHeadId) ++ (vint seekHead.element.header.width seekHead.element.header.size ++
        (patch.payload ++ rawItems rest)) := by
    simp only [ElementHeader.raw, hid, List.append_assoc]
  have hsize : patch.sizeStart = (front ++ seekHeadId).length := by
    rw [r.sizeStart, List.length_append]
  rw [hold, hstart, writeAt_append (r.room.trans (List.length_append ..).symm), hmiddle, hsize,
    writeAt_append (r.sizeWidth.trans (vint_length _ _).symm), r.payload]
  simp only [Reseeked.children, rawItems_cons, rawItems_append, rawItems_whole, Item.raw, r.raw,
    List.append_assoc]

/-- The bytes in front of the children. -/
def Webm.front (f : Webm) : Bytes := f.head ++ (segmentId ++ vint f.width f.size)

theorem Webm.content_eq (f : Webm) : f.content = f.front ++ rawItems f.children := by
  simp only [content, front, List.append_assoc]

theorem Webm.front_length (f : Webm) :
    f.front.length = f.head.length + segmentId.length + f.width := by
  simp only [front, List.length_append, vint_length, Nat.add_assoc]

/-- The size of the segment is written over the old one. -/
theorem resized (f : Webm) (size : Nat) (behind : Bytes) :
    writeAt (f.front ++ behind) (f.head.length + segmentId.length) (vint f.width size) =
      f.head ++ (segmentId ++ (vint f.width size ++ behind)) := by
  have hold : f.front ++ behind = (f.head ++ segmentId) ++ (vint f.width f.size ++ behind) := by
    simp only [Webm.front, List.append_assoc]
  rw [hold, ← List.length_append, writeAt_append (by simp), List.append_assoc]

/-- The children that are added, and the file with them. -/
theorem added_children (f : Webm) (seekHead : SeekHead) (void : Element) (rest : List Item)
    (newInfo tags : Element)
    (hchildren : f.children = .whole seekHead.element :: .whole void :: rest) :
    ∃ added, added = (if newInfo.raw ++ tags.raw <:+ f.content then [] else
        [.whole newInfo, .whole tags]) ∧
      (if decide (newInfo.raw ++ tags.raw <:+ f.content) = true then f.content
        else f.content ++ (newInfo.raw ++ tags.raw)) =
          f.front ++ rawItems (.whole seekHead.element :: .whole void :: (rest ++ added)) ∧
      (if decide (newInfo.raw ++ tags.raw <:+ f.content) = true then
        f.content.length - (newInfo.raw ++ tags.raw).length else f.content.length) +
          (newInfo.raw ++ tags.raw).length =
            f.front.length +
              (rawItems (.whole seekHead.element :: .whole void :: (rest ++ added))).length := by
  have hcontent := f.content_eq
  rw [hchildren] at hcontent
  by_cases hdone : newInfo.raw ++ tags.raw <:+ f.content
  · refine ⟨[], (if_pos hdone).symm, ?_, ?_⟩
    · rw [if_pos (decide_eq_true hdone), List.append_nil, hcontent]
    · rw [if_pos (decide_eq_true hdone), List.append_nil, ← List.length_append, ← hcontent]
      exact Nat.sub_add_cancel hdone.length_le
  · have hnot : ¬ decide (newInfo.raw ++ tags.raw <:+ f.content) = true := by simpa using hdone
    have hmore : f.content ++ (newInfo.raw ++ tags.raw) =
        f.front ++ rawItems (.whole seekHead.element :: .whole void ::
          (rest ++ [.whole newInfo, .whole tags])) := by
      rw [hcontent]
      simp only [rawItems_cons, rawItems_append, rawItems_nil, Item.raw, List.append_assoc,
        List.append_nil]
    refine ⟨_, (if_neg hdone).symm, ?_, ?_⟩
    · rw [if_neg hnot, hmore]
    · rw [if_neg hnot, ← List.length_append, hmore, List.length_append]

theorem seekHead_ne_info (seekHead : SeekHead) : seekHead.element.id ≠ infoId := by
  rw [seekHead.id]
  decide

theorem void_ne_info {void : Element} (h : void.id = [0xEC]) : void.id ≠ infoId := by
  rw [h]
  decide

theorem InfoFields.cons {e : Element} {children : List Item} (h : InfoFields children)
    (he : e.id ≠ infoId) : InfoFields (.whole e :: children) := by
  intro e' he' hid
  rcases List.mem_cons.mp he' with heq | hmem
  · obtain rfl := Item.whole.inj heq
    exact absurd hid he
  · exact h e' hmem hid

/-- The recording with the new children, whatever its size is. -/
theorem embedding_of {f : Webm} {seekHead : SeekHead} {void : Element} {rest added : List Item}
    {title comment : String} {p : Prepared} {patch : SeekPatch} {infoPosition : Nat}
    (hchildren : f.children = .whole seekHead.element :: .whole void :: rest)
    (hvoid : void.id = [0xEC]) (known : Known f title comment p)
    (r : Reseeked seekHead void start infoPosition (infoPosition + known.info'.raw.length) patch)
    (hadded : added = if known.info'.raw ++ known.tags.raw <:+ f.content then [] else
      [.whole known.info', .whole known.tags])
    (hend : infoPosition + (known.info'.raw ++ known.tags.raw).length =
      (rawItems (.whole seekHead.element :: .whole void :: (rest ++ added))).length)
    (after : Webm) (hhead : after.head = f.head) (hwidth : after.width = f.width)
    (hknown : after.known = f.known) (hafter : after.children = r.children (rest ++ added)) :
    ∃ e : Embedding f seekHead void rest title comment, e.after = after := by
  have hfirst := known.first
  rw [hchildren] at hfirst
  refine ⟨{
    after, newSeekHead := r.after, voids := r.voids, info := known.info
    newInfo := known.info', tags := known.tags, infoPosition
    head := hhead
    width := hwidth
    known := hknown
    children := by rw [hafter, hadded]; rfl
    room := r.length
    few := r.few
    empty := r.empty
    first := (hfirst.tail (seekHead_ne_info seekHead)).tail (void_ne_info hvoid)
    retitled := known.retitled
    carries := known.carries
    last := by rw [hafter, r.children_length, hend]
    moved := r.moved }, rfl⟩

/-- A recording whose size stays right keeps its bytes in front. -/
theorem content_kept {f g : Webm} (hhead : g.head = f.head) (hwidth : g.width = f.width)
    (hknown : g.known = f.known) (hsize : f.known = true → f.size = (rawItems g.children).length) :
    g.content = f.front ++ rawItems g.children := by
  have hsame : g.size = f.size := by
    by_cases h : f.known = true
    · rw [hsize h, Webm.size, if_pos (hknown.trans h)]
    · rw [Webm.size, Webm.size, if_neg h, if_neg (by rw [hknown]; exact h), hwidth]
  rw [Webm.content, hhead, hwidth, hsame]
  simp only [Webm.front, List.append_assoc]

/-- Where the metadata is written, the recording has its children where they were, but for the
`SeekHead` and the void in the room that they had, with the new `Info` and `Tags` at the end
and the `SeekHead` pointing to them. They are added unless the file ends with them already. -/
theorem metadata_embedded (f : Webm) (seekHead : SeekHead) (void : Element) (rest : List Item)
    (title comment : String) (file : Bytes)
    (hchildren : f.children = .whole seekHead.element :: .whole void :: rest)
    (hvoid : void.id = [0xEC]) (hfields : InfoFields rest) (hhead : ¬ segmentId <:+: f.head)
    (hlength : f.content.length < 2 ^ 63)
    (hok : appendWebmMetadata f.content title comment = (.ok (), file)) :
    ∃ e : Embedding f seekHead void rest title comment, file = e.after.content := by
  have hallFields : InfoFields f.children := by
    rw [hchildren]
    exact (hfields.cons (void_ne_info hvoid)).cons (seekHead_ne_info seekHead)
  unfold appendWebmMetadata at hok
  cases hprep : prepare f.content title comment with
  | error err =>
    rw [hprep] at hok
    cases hok
  | ok p =>
    obtain ⟨known⟩ := prepare_spec hhead hallFields hprep
    have hstart : p.payloadStart = f.front.length := by
      rw [Prepared.payloadStart, known.sizePos, known.sizeWidth, f.front_length]
    obtain ⟨added, hadded, hfile, hend⟩ :=
      added_children f seekHead void rest known.info' known.tags hchildren
    have hthere : p.header.drop f.front.length <+:
        seekHead.element.raw ++ (void.raw ++ rawItems rest) := by
      have hdrop := List.IsPrefix.drop known.header f.front.length
      rwa [f.content_eq, List.drop_left, hchildren] at hdrop
    rw [hprep] at hok
    simp only [known.infoRaw, known.tagsRaw, hfile, hstart] at hok
    have hsmall : (if decide (known.info'.raw ++ known.tags.raw <:+ f.content) = true then
        f.content.length - (known.info'.raw ++ known.tags.raw).length else f.content.length) ≤
          f.content.length := by
      split_ifs <;> omega
    generalize (if decide (known.info'.raw ++ known.tags.raw <:+ f.content) = true then
      f.content.length - (known.info'.raw ++ known.tags.raw).length else f.content.length) =
        infoFile at hok hend hsmall
    cases hrewrite : rewriteMetadataSeekPositions p.header f.front.length infoFile
        (infoFile + known.info'.raw.length) with
    | error err =>
      rw [hrewrite] at hok
      cases hok
    | ok patch =>
      have hinfoLength := known.info'.raw_length_lt
      obtain ⟨hle, -, ⟨r⟩⟩ := rewrite_spec (by omega) (by omega) hthere hrewrite
      have htags : infoFile + known.info'.raw.length - f.front.length =
          infoFile - f.front.length + known.info'.raw.length := by omega
      rw [htags] at r
      have hlengths := r.children_length (rest ++ added)
      have hembed := embedding_of hchildren hvoid known r hadded (by omega)
      have hunknown : (!f.known) = true → ¬ f.known = true := by simp
      rw [hrewrite] at hok
      simp only [patched r, List.length_append, Nat.add_sub_cancel_left, ← hlengths,
        known.sizeIsUnknown, known.segmentSize, known.sizeWidth, known.sizePos] at hok
      split_ifs at hok with hsize
      · -- the size is unknown, or right already
        have hright (hknown : f.known = true) :
            f.size = (rawItems (r.children (rest ++ added))).length :=
          hsize.resolve_left fun h => hunknown h hknown
        have hfits (hknown : f.known = true) :
            (rawItems (r.children (rest ++ added))).length < unknownSize f.width := by
          rw [← hright hknown, Webm.size, if_pos hknown]
          exact f.fits hknown
        obtain ⟨e, he⟩ := hembed ⟨f.head, f.width, f.known, _, f.widthValid, hfits⟩ rfl rfl rfl rfl
        have hkept : e.after.content = f.front ++ rawItems (r.children (rest ++ added)) := by
          rw [he]
          exact content_kept (f := f) rfl rfl rfl hright
        refine ⟨e, ?_⟩
        rw [hkept]
        exact (Prod.mk.inj hok).2.symm
      · -- the new size fits in the old width
        obtain ⟨hknown, -⟩ : f.known = true ∧ f.size ≠ _ := by simpa using hsize
        split at hok
        · cases hok
        · rename_i encoded hencode
          obtain ⟨-, hfits, rfl⟩ := encode_some hencode
          obtain ⟨e, he⟩ := hembed ⟨f.head, f.width, f.known, _, f.widthValid, fun _ => hfits⟩
            rfl rfl rfl rfl
          refine ⟨e, ?_⟩
          rw [← (Prod.mk.inj hok).2, resized, he, Webm.content, Webm.size, if_pos hknown]

/-- A recording is read in one way only. -/
theorem Webm.content_inj {f g : Webm} (hhead : f.head = g.head) (h : f.content = g.content) :
    f = g := by
  have hsizes : vint f.width f.size ++ rawItems f.children =
      vint g.width g.size ++ rawItems g.children := by
    rw [Webm.content, Webm.content, hhead] at h
    exact List.append_cancel_left (List.append_cancel_left h)
  obtain ⟨hwidth, hsize, hraw⟩ :=
    vint_inj f.widthValid g.widthValid f.size_lt g.size_lt hsizes
  have hknown : (!f.known) = !g.known := by
    rw [← f.size_unknown, ← g.size_unknown, hwidth, hsize]
  have hchildren := rawItems_inj hraw
  have hsame : f.known = g.known := by simpa using hknown
  cases f
  cases g
  simp only at hhead hwidth hsame hchildren
  subst hhead hwidth hsame hchildren
  rfl

theorem validId_seek : ValidId seekId := by decide

theorem validId_seekTarget : ValidId seekTargetId := by decide

theorem validId_seekPosition : ValidId seekPositionId := by decide

/-- A size may take one byte. -/
theorem oneByte_valid : 1 ≤ 1 ∧ 1 ≤ 8 := by decide

/-- A small element. -/
def sampleElement (id payload : Bytes) (hid : ValidId id) (hlen : payload.length < 127) : Element :=
  ⟨⟨id, 1, payload.length, hid, oneByte_valid, by omega⟩, payload, by
    have hunknown : unknownSize 1 = 127 := rfl
    rw [hunknown]
    exact Nat.ne_of_lt hlen, rfl⟩

def sampleTitle (c : UInt8) : Element := sampleElement titleId [c] (by decide) (by simp)

def sampleSeek (target : Bytes) (position : UInt8) (h : target.length = 4) : SeekItem :=
  let fields := [sampleElement seekTargetId target validId_seekTarget (by omega),
    sampleElement seekPositionId [position] validId_seekPosition (by simp)]
  .seek (sampleElement seekId (rawAll fields) validId_seek (by
    simp [fields, rawAll, Element.raw, ElementHeader.raw, sampleElement, h, seekTargetId,
      seekPositionId])) fields rfl rfl

theorem emptySeekHead_length :
    (rawAll (([] : List SeekItem).map SeekItem.element)).length < 127 := by decide

def sampleSeekHead (entries : List SeekItem)
    (h : (rawAll (entries.map SeekItem.element)).length < 127) : SeekHead :=
  ⟨sampleElement seekHeadId _ (by decide) h, entries, rfl, rfl⟩

def sampleVoid (n : Nat) (h : n < 127) : Element :=
  sampleElement [0xEC] (List.replicate n 0) (by decide) (by simpa using h)

/-- A recording with the title `A`. -/
def sampleInfo : Element := sampleElement infoId (sampleTitle 65).raw (by decide) (by decide)

/-- Its `Info` with the title `T`. -/
def sampleNewInfo : Element := sampleElement infoId (sampleTitle 84).raw (by decide) (by decide)

def sampleSimpleTag (name : Bytes) (value : UInt8) (h : name.length < 32) : Element :=
  sampleElement [0x67, 0xC8] (rawAll [sampleElement [0x45, 0xA3] name (by decide) (by omega),
    sampleElement [0x44, 0x87] [value] (by decide) (by simp)]) (by decide) (by
      simp [rawAll, Element.raw, ElementHeader.raw, sampleElement]
      omega)

/-- The `Tags` of the title `T` and the comment `C`. -/
def sampleTags : Element :=
  sampleElement tagsId (sampleElement [0x73, 0x73] (rawAll
    [sampleElement targetsId [] (by decide) (by decide),
      sampleSimpleTag [84, 73, 84, 76, 69] 84 (by decide),
      sampleSimpleTag [67, 79, 77, 77, 69, 78, 84] 67 (by decide)])
    (by decide) (by decide)).raw (by decide) (by decide)

def sampleHead : Bytes := [0x1A, 0x45, 0xDF, 0xA3, 0x80]

def sampleRest : List Item := [.whole sampleInfo]

def sampleBefore : Webm :=
  ⟨sampleHead, 1, true, .whole (sampleSeekHead [] emptySeekHead_length).element ::
    .whole (sampleVoid 40 (by decide)) :: sampleRest, by decide, fun _ => by decide⟩

def sampleAfterSeekHead : SeekHead :=
  sampleSeekHead [sampleSeek infoId 56 rfl, sampleSeek tagsId 65 rfl] (by decide)

def sampleAfter : Webm :=
  ⟨sampleHead, 1, true, .whole sampleAfterSeekHead.element :: .whole (sampleVoid 12 (by decide)) ::
    (sampleRest ++ [.whole sampleNewInfo, .whole sampleTags]), by decide, fun _ => by decide⟩

theorem sampleRest_fields (more : List Item) (h : InfoFields more) :
    InfoFields (sampleRest ++ more) := by
  intro e he hid
  rcases List.mem_append.mp he with hold | hmore
  · obtain rfl := Item.whole.inj (List.mem_singleton.mp hold)
    exact ⟨[sampleTitle 65], (List.append_nil _).symm⟩
  · exact h e hmore hid

/-- A small recording gets its metadata. -/
theorem metadata_embedded_sample :
    ∃ e : Embedding sampleBefore (sampleSeekHead [] (by decide)) (sampleVoid 40 (by decide))
      sampleRest "T" "C", sampleAfter.content = e.after.content :=
  metadata_embedded sampleBefore (sampleSeekHead [] (by decide)) (sampleVoid 40 (by decide))
    sampleRest "T" "C" sampleAfter.content rfl rfl
    (by simpa using sampleRest_fields [] nofun) (by decide) (by decide +kernel) (by decide +kernel)

/-- Metadata that a recording ends with is not added to it again. -/
theorem metadata_not_added_twice :
    ¬ ∀ (f : Webm) (seekHead : SeekHead) (void : Element) (rest : List Item)
      (title comment : String) (file : Bytes),
      f.children = .whole seekHead.element :: .whole void :: rest → void.id = [0xEC] →
      InfoFields rest → ¬ segmentId <:+: f.head → f.content.length < 2 ^ 63 →
      appendWebmMetadata f.content title comment = (.ok (), file) →
      ∃ (after : Webm) (newSeekHead : SeekHead) (voids : List Element) (info tags : Element),
        file = after.content ∧ after.head = f.head ∧
          after.children = .whole newSeekHead.element ::
            (voids.map .whole ++ (rest ++ [.whole info, .whole tags])) := by
  intro hall
  have hfields : InfoFields (sampleRest ++ [.whole sampleNewInfo, .whole sampleTags]) := by
    apply sampleRest_fields
    intro e he hid
    rcases List.mem_cons.mp he with h | h
    · obtain rfl := Item.whole.inj h
      exact ⟨[sampleTitle 84], (List.append_nil _).symm⟩
    · obtain rfl := Item.whole.inj (List.mem_singleton.mp h)
      exact absurd hid (by decide)
  obtain ⟨after, newSeekHead, voids, info, tags, hfile, hhead, hchildren⟩ :=
    hall sampleAfter sampleAfterSeekHead (sampleVoid 12 (by decide)) _ "T" "C" sampleAfter.content
      rfl rfl hfields (by decide) (by decide +kernel) (by decide +kernel)
  obtain rfl := Webm.content_inj hhead hfile.symm
  have hlength := congrArg List.length hchildren
  simp only [List.length_cons, List.length_append, List.length_map, List.length_nil,
    sampleAfter, sampleRest] at hlength
  omega

end RecordingNote

end MDesk
