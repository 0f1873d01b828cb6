import MDesk.Recording.EbmlMachine
import MDesk.Recording.Embedding

/-!
# What the index of a recording becomes

The entries for `Info` and `Tags` are replaced, or added behind the others. Doing so once more with
the same positions changes nothing.
-/

namespace MDesk

open Core

namespace RecordingNote

variable {header : Bytes} {cursor start : Nat} {rest : Bytes}

/-- A pattern whose first byte is not in it again is found behind a head without it. -/
theorem findBytes_append {a : UInt8} {q head : Bytes} (ha : a ∉ q) (h : ¬ (a :: q) <:+: head)
    (rest : Bytes) : findBytes (a :: q) (head ++ (a :: q ++ rest)) = some head.length := by
  induction head with
  | nil =>
    rw [List.nil_append, List.cons_append, findBytes, if_pos]
    · rfl
    · exact List.prefix_append (a :: q) rest
  | cons b head ih =>
    have hnot : ¬ (a :: q) <+: b :: head ++ (a :: q ++ rest) := by
      intro hfront
      rcases Nat.lt_or_ge (b :: head).length (a :: q).length with hshort | hlong
      · -- the pattern would begin again in itself
        obtain ⟨more, hmore⟩ := List.prefix_of_prefix_length_le (List.prefix_append _ _) hfront
          (Nat.le_of_lt hshort)
        have hbegins : more <+: a :: q ++ rest := by
          apply (List.prefix_append_right_inj (b :: head)).mp
          rw [hmore]
          exact hfront
        cases more with
        | nil =>
          rw [← hmore, List.append_nil] at hshort
          exact Nat.lt_irrefl _ hshort
        | cons c more =>
          obtain ⟨rfl, -⟩ := List.cons_prefix_cons.mp hbegins
          apply ha
          rw [List.cons_append] at hmore
          rw [← (List.cons.inj hmore).2]
          simp
      · exact h (List.prefix_of_prefix_length_le hfront (List.prefix_append _ _) hlong).isInfix
    have hrest : ¬ (a :: q) <:+: head := fun hin => h (hin.trans (List.suffix_cons b head).isInfix)
    rw [List.cons_append] at hnot
    rw [List.cons_append, findBytes, if_neg hnot, ih hrest]
    rfl

/-! ## Entries -/

theorem encodeEbmlUint_length_le (value : Nat) : (encodeEbmlUint value).length ≤ 8 := by
  rw [encodeEbmlUint, List.length_drop, beBytes_length]
  exact Nat.sub_le _ _

/-- A small element is built as it is. -/
theorem build_sampleElement (id payload : Bytes) (hid : ValidId id) (h : payload.length < 127) :
    buildEbmlElement id payload = .ok (sampleElement id payload hid h).raw := by
  have hsize : encodeEbmlSize payload.length none = .ok (vint 1 payload.length) := by
    rw [encodeEbmlSize_none (by decide) h fun v hv => pos_of_fits hv,
      encodeEbmlSize_some (by decide) h]
  simp only [buildEbmlElement, hsize, bind, Except.bind, pure, Except.pure]
  rfl

section Entry

variable (target : Bytes) (position : Nat) (h : target.length ≤ 4)

/-- The target of an entry and its position. -/
def seekFields : List Element :=
  have hposition := encodeEbmlUint_length_le position
  [sampleElement seekTargetId target validId_seekTarget (by omega),
    sampleElement seekPositionId (encodeEbmlUint position) validId_seekPosition (by omega)]

theorem seekFields_length : (rawAll (seekFields target position h)).length < 127 := by
  have hposition := encodeEbmlUint_length_le position
  simp [seekFields, Element.raw, ElementHeader.raw, sampleElement, seekTargetId, seekPositionId]
  omega

/-- The entry that gives a position for a target. -/
def seekEntry : SeekItem :=
  .seek (sampleElement seekId (rawAll (seekFields target position h)) validId_seek
    (seekFields_length target position h)) (seekFields target position h) rfl rfl

theorem buildSeekEntry_eq :
    buildSeekEntry target position = .ok (seekEntry target position h).element.raw := by
  have hposition := encodeEbmlUint_length_le position
  have hpair (a b : Element) : a.raw ++ b.raw = rawAll [a, b] := by simp
  simp only [buildSeekEntry, build_sampleElement seekTargetId target validId_seekTarget (by omega),
    build_sampleElement seekPositionId (encodeEbmlUint position) validId_seekPosition (by omega),
    bind, Except.bind, hpair]
  exact build_sampleElement _ _ validId_seek (seekFields_length target position h)

end Entry

namespace SeekItem

/-- What an entry becomes. -/
def move (info tags s : SeekItem) : SeekItem :=
  if s.target = some infoId then info else if s.target = some tagsId then tags else s

/-- What the entries become, with the ones that are missing added. -/
def moveAll (info tags : SeekItem) (items : List SeekItem) : List SeekItem :=
  items.map (move info tags) ++
    ((if items.any (fun s => s.target = some infoId) then [] else [info]) ++
      if items.any (fun s => s.target = some tagsId) then [] else [tags])

variable {info tags : SeekItem}

theorem move_move (hinfo : info.target = some infoId) (htags : tags.target = some tagsId)
    (s : SeekItem) : move info tags (move info tags s) = move info tags s := by
  have hne : ¬ tagsId = infoId := infoId_ne_tagsId.symm
  unfold move
  split_ifs with hi ht <;> simp_all

/-- Both are among what the entries become. -/
theorem mem_moveAll (info tags : SeekItem) (items : List SeekItem) :
    info ∈ moveAll info tags items ∧ tags ∈ moveAll info tags items := by
  have hne : tagsId ≠ infoId := infoId_ne_tagsId.symm
  unfold moveAll
  constructor
  · by_cases hany : items.any fun s => s.target = some infoId
    · obtain ⟨s, hs, htarget⟩ := List.any_eq_true.mp hany
      have hmove : move info tags s = info := if_pos (by simpa using htarget)
      exact List.mem_append_left _ (List.mem_map.mpr ⟨s, hs, hmove⟩)
    · simp [hany]
  · by_cases hany : items.any fun s => s.target = some tagsId
    · obtain ⟨s, hs, htarget⟩ := List.any_eq_true.mp hany
      have hmove : move info tags s = tags := by
        rw [decide_eq_true_iff] at htarget
        rw [move, if_neg (by rw [htarget]; simpa using hne), if_pos htarget]
      exact List.mem_append_left _ (List.mem_map.mpr ⟨s, hs, hmove⟩)
    · simp [hany]

/-- With the same positions the entries stay. -/
theorem moveAll_moveAll (hinfo : info.target = some infoId) (htags : tags.target = some tagsId)
    (items : List SeekItem) : moveAll info tags (moveAll info tags items) =
      moveAll info tags items := by
  have hmap : (moveAll info tags items).map (move info tags) = moveAll info tags items := by
    have hinfo' : move info tags info = info := if_pos hinfo
    have htags' : move info tags tags = tags := by
      rw [move, if_neg (by rw [htags]; simpa using infoId_ne_tagsId.symm), if_pos htags]
    have hmoved : move info tags ∘ move info tags = move info tags :=
      funext fun s => move_move hinfo htags s
    simp only [moveAll, List.map_append, List.map_map, hmoved,
      apply_ite (List.map (move info tags)), List.map_nil, List.map_cons, hinfo', htags']
  obtain ⟨hmemInfo, hmemTags⟩ := mem_moveAll info tags items
  have hanyInfo : (moveAll info tags items).any (fun s => s.target = some infoId) = true :=
    List.any_eq_true.mpr ⟨info, hmemInfo, by simpa using hinfo⟩
  have hanyTags : (moveAll info tags items).any (fun s => s.target = some tagsId) = true :=
    List.any_eq_true.mpr ⟨tags, hmemTags, by simpa using htags⟩
  rw [moveAll, hmap, hanyInfo, hanyTags]
  simp

end SeekItem

/-- What the entry for a target becomes, and whether it is that of `Info` or `Tags`. -/
theorem rewriteSeek_eq {s info tags : SeekItem} {infoPosition tagsPosition : Nat}
    (hinfo : buildSeekEntry infoId infoPosition = .ok info.element.raw)
    (htags : buildSeekEntry tagsId tagsPosition = .ok tags.element.raw)
    (h : header.drop cursor = s.element.raw ++ rest) :
    rewriteSeek header infoPosition tagsPosition cursor ⟨s.element.id,
      cursor + s.element.header.raw.length, cursor + s.element.raw.length⟩ =
        .ok ((SeekItem.move info tags s).element.raw, decide (s.target = some infoId),
          decide (s.target = some tagsId)) := by
  have hold : slice header cursor (cursor + s.element.raw.length) = s.element.raw := slice_front h
  cases s with
  | other e hid =>
    simp only [SeekItem.element] at h hold
    simp [rewriteSeek, SeekItem.element, hid, hold, SeekItem.move, SeekItem.target]
    rfl
  | seek e fields hid hpayload =>
    simp only [SeekItem.element] at h hold
    have hthere : header.drop (cursor + e.header.raw.length) = rawAll fields ++ rest := by
      apply drop_behind
      rw [h, Element.raw, hpayload, List.append_assoc]
    have hstop : cursor + e.raw.length =
        cursor + e.header.raw.length + (rawAll fields).length := by
      rw [e.raw_length, hpayload]
      omega
    have htarget : seekTarget header (cursor + e.header.raw.length) (cursor + e.raw.length) none =
        .ok (SeekItem.target (.seek e fields hid hpayload)) := by
      rw [hstop, seekTarget_spec hthere]
      rfl
    have hne : tagsId ≠ infoId := infoId_ne_tagsId.symm
    simp only [rewriteSeek, SeekItem.element, hid, ne_eq, not_true_eq_false, if_false, hold,
      htarget, bind, Except.bind, SeekItem.move]
    generalize SeekItem.target (.seek e fields hid hpayload) = target
    by_cases hi : target = some infoId
    · simp [hi, hinfo, hne.symm]
      rfl
    · by_cases ht : target = some tagsId
      · simp [ht, htags, hne]
        rfl
      · simp [hi, ht]
        rfl

/-- What the entries become, and whether there are some of `Info` and `Tags`. -/
theorem rewriteSeeks_eq {items : List SeekItem} {info tags : SeekItem}
    {infoPosition tagsPosition : Nat}
    (hinfo : buildSeekEntry infoId infoPosition = .ok info.element.raw)
    (htags : buildSeekEntry tagsId tagsPosition = .ok tags.element.raw)
    (h : header.drop cursor = rawAll (items.map SeekItem.element) ++ rest) :
    rewriteSeeks header infoPosition tagsPosition cursor
      (cursor + (rawAll (items.map SeekItem.element)).length) =
        .ok (rawAll ((items.map (SeekItem.move info tags)).map SeekItem.element),
          items.any fun s => s.target = some infoId,
          items.any fun s => s.target = some tagsId) := by
  induction items generalizing cursor with
  | nil =>
    rw [rewriteSeeks, dif_neg (by simp)]
    rfl
  | cons s items ih =>
    rw [List.map_cons, rawAll_cons, List.append_assoc] at h
    rw [List.map_cons, rewriteSeeks, dif_pos (lt_end_cons cursor _ _)]
    split
    · rename_i hparse
      rw [parse_whole h] at hparse
      cases hparse
    · rename_i hparse
      rw [parse_whole h] at hparse
      cases hparse
    · rename_i seek hparse
      rw [parse_whole h] at hparse
      cases hparse
      simp only
      rw [end_cons, ih (drop_behind h), rewriteSeek_eq hinfo htags h]
      simp only [bind, Except.bind, List.map_cons, rawAll_cons, List.any_cons]
      rfl

/-! ## The index -/

/-- What is written where the `SeekHead` gets new entries and a void is behind it. -/
def SeekHead.patch (seekHead : SeekHead) (start : Nat) (void : Element) (entries : List SeekItem) :
    Except String SeekPatch := do
  let newPayload := rawAll (entries.map SeekItem.element)
  let available := seekHead.element.payload.length + void.raw.length
  ensure (newPayload.length ≤ available) "WebM 메타정보 색인을 추가할 예약 공간이 부족합니다."
  let remainder ← buildEbmlVoid (available - newPayload.length)
  let encodedSize ← encodeEbmlSize newPayload.length (some seekHead.element.header.width)
  return ⟨start + seekHead.element.header.raw.length, newPayload ++ remainder,
    start + seekHeadId.length, encodedSize⟩

theorem addSeekEntry_eq {s : SeekItem} {target : Bytes} {position : Nat}
    (h : buildSeekEntry target position = .ok s.element.raw) (found : Bool) :
    addSeekEntry found target position =
      .ok (rawAll ((if found then [] else [s]).map SeekItem.element)) := by
  cases found with
  | true => rfl
  | false => simp [addSeekEntry, h]

/-- The index is rewritten where a void is behind the `SeekHead`. -/
theorem rewrite_eq {seekHead : SeekHead} {info tags : SeekItem} {e : Element} {front more : Bytes}
    {infoFile tagsFile : Nat} (hfront : ¬ seekHeadId <:+: front)
    (h : header.drop start = front ++ (seekHead.element.raw ++ (e.raw ++ more)))
    (hinfoFile : start ≤ infoFile) (htagsFile : start ≤ tagsFile)
    (hinfo : buildSeekEntry infoId (infoFile - start) = .ok info.element.raw)
    (htags : buildSeekEntry tagsId (tagsFile - start) = .ok tags.element.raw) :
    rewriteMetadataSeekPositions header start infoFile tagsFile =
      if e.id = [0xEC] then
        seekHead.patch (start + front.length) e (SeekItem.moveAll info tags seekHead.entries)
      else .error "WebM SeekHead 뒤의 예약 공간을 찾을 수 없습니다." := by
  have hraw : seekHead.element.raw = seekHeadId ++ (vint seekHead.element.header.width
      seekHead.element.header.size ++ seekHead.element.payload) := by
    rw [Element.raw, ElementHeader.raw, show seekHead.element.header.id = seekHeadId from
      seekHead.id, List.append_assoc]
  have hstart : start < header.length := by
    by_contra hge
    have hnil := congrArg List.length h
    have hpos : 2 ≤ seekHead.element.raw.length := (Item.whole seekHead.element).raw_pos
    rw [List.length_drop, List.length_append, List.length_append] at hnil
    omega
  have hfind : findBytes seekHeadId (header.drop start) = some front.length := by
    rw [h, hraw, List.append_assoc]
    exact findBytes_append (by decide) hfront _
  have hthere := drop_behind h
  have hbehind := drop_behind hthere
  have hparse := parse_whole hthere
  have hparse' := parse_whole hbehind
  have hpayload : header.drop (start + front.length + seekHead.element.header.raw.length) =
      rawAll (seekHead.entries.map SeekItem.element) ++ (e.raw ++ more) := by
    apply drop_behind
    rw [hthere, Element.raw, seekHead.payload, List.append_assoc]
  have hstop : start + front.length + seekHead.element.raw.length =
      start + front.length + seekHead.element.header.raw.length +
        (rawAll (seekHead.entries.map SeekItem.element)).length := by
    rw [seekHead.element.raw_length, seekHead.payload]
    omega
  have hsize : decodeEbmlSize (header.drop (start + front.length + seekHeadId.length)) =
      .ok (seekHead.element.header.size, seekHead.element.header.width, false) := by
    have hdrop : header.drop (start + front.length + seekHeadId.length) =
        vint seekHead.element.header.width seekHead.element.header.size ++
          (seekHead.element.payload ++ (e.raw ++ more)) := by
      apply drop_behind
      rw [hthere, hraw]
      simp only [List.append_assoc]
    have hknown : (seekHead.element.header.size == unknownSize seekHead.element.header.width) =
        false := by simpa using seekHead.element.sizeKnown
    rw [hdrop, decode_vint seekHead.element.header.widthValid.1
      seekHead.element.header.widthValid.2 seekHead.element.header.sizeValid, hknown]
  have hentries := rewriteSeeks_eq hinfo htags hpayload
  have hroom : start + front.length + seekHead.element.raw.length -
      (start + front.length + seekHead.element.header.raw.length) =
        seekHead.element.payload.length := by
    have hparts := seekHead.element.raw_length
    omega
  rw [← hstop] at hentries
  simp only [rewriteMetadataSeekPositions, ensure, if_pos hstart, hfind, okOr, hparse, hparse',
    seekHead.id, true_and, if_pos hinfoFile, if_pos htagsFile, hentries, hsize, hroom,
    Nat.add_sub_cancel_left, bind, Except.bind]
  rw [addSeekEntry_eq hinfo, addSeekEntry_eq htags]
  have hall : rawAll ((seekHead.entries.map (SeekItem.move info tags)).map SeekItem.element) ++
      rawAll ((if seekHead.entries.any (fun s => s.target = some infoId) then [] else [info]).map
        SeekItem.element) ++
      rawAll ((if seekHead.entries.any (fun s => s.target = some tagsId) then [] else [tags]).map
        SeekItem.element) =
        rawAll ((SeekItem.moveAll info tags seekHead.entries).map SeekItem.element) := by
    simp only [SeekItem.moveAll, List.map_append, rawAll_append, List.append_assoc]
  simp only [hall]
  by_cases hvoid : e.id = [0xEC]
  · simp only [if_pos hvoid]
    rfl
  · simp only [if_neg hvoid]

/-- What the `SeekHead` and the void behind it become. -/
structure Reindexed (seekHead : SeekHead) (void : Element) (entries : List SeekItem) where
  after : SeekHead
  voids : List Element
  entries : after.entries = entries
  width : after.element.header.width = seekHead.element.header.width
  room : after.element.payload.length + (rawAll voids).length =
    seekHead.element.payload.length + void.raw.length
  left : buildEbmlVoid (rawAll voids).length = .ok (rawAll voids)
  few : voids.length ≤ 1
  empty : ∀ v ∈ voids, v.id = [0xEC]

namespace SeekHead

variable {seekHead : SeekHead} {void : Element} {entries : List SeekItem}

theorem header_raw (seekHead : SeekHead) : seekHead.element.header.raw =
    seekHeadId ++ vint seekHead.element.header.width seekHead.element.header.size := by
  rw [ElementHeader.raw, show seekHead.element.header.id = seekHeadId from seekHead.id]

/-- The `SeekHead` and the void keep their place. -/
theorem reindexed_length (m : Reindexed seekHead void entries) :
    m.after.element.raw.length + (rawAll m.voids).length =
      seekHead.element.raw.length + void.raw.length := by
  have hroom := m.room
  have hafter := m.after.element.raw_length
  have hbefore := seekHead.element.raw_length
  rw [header_raw, List.length_append, vint_length] at hafter hbefore
  have hwidth := m.width
  omega

theorem patch_spec {p : SeekPatch} (h : seekHead.patch start void entries = .ok p) :
    ∃ m : Reindexed seekHead void entries,
      p = ⟨start + seekHead.element.header.raw.length, m.after.element.payload ++ rawAll m.voids,
        start + seekHeadId.length,
        vint m.after.element.header.width m.after.element.header.size⟩ := by
  simp only [patch, bind_ok, ensure_ok] at h
  obtain ⟨-, hroom, remainder, hvoid, encoded, hencoded, hp⟩ := h
  obtain ⟨hwidth, hfits, rfl⟩ := encode_some hencoded
  obtain ⟨hlength, voids, rfl, hfew, hempty⟩ := build_void hvoid
  have hsmall := Nat.lt_of_lt_of_le hfits (Nat.sub_le _ _)
  cases hp
  refine ⟨{
    after := ⟨⟨⟨seekHeadId, seekHead.element.header.width, _, by decide, hwidth, hsmall⟩, _,
      Nat.ne_of_lt hfits, rfl⟩, entries, rfl, rfl⟩
    voids
    entries := rfl
    width := rfl
    room := ?_
    left := ?_
    few := hfew
    empty := hempty }, rfl⟩
  · dsimp only
    omega
  · rw [hlength]
    exact hvoid

/-- The patches replace the `SeekHead` and the void behind it. -/
theorem patch_written (m : Reindexed seekHead void entries) (front rest : Bytes) :
    writeAt (writeAt (front ++ (seekHead.element.raw ++ (void.raw ++ rest)))
        (front.length + seekHead.element.header.raw.length)
        (m.after.element.payload ++ rawAll m.voids))
      (front.length + seekHeadId.length)
      (vint m.after.element.header.width m.after.element.header.size) =
      front ++ (m.after.element.raw ++ (rawAll m.voids ++ rest)) := by
  have hold : front ++ (seekHead.element.raw ++ (void.raw ++ rest)) =
      (front ++ seekHead.element.header.raw) ++
        ((seekHead.element.payload ++ void.raw) ++ rest) := by
    simp only [Element.raw, List.append_assoc]
  have hroom : (m.after.element.payload ++ rawAll m.voids).length =
      (seekHead.element.payload ++ void.raw).length := by
    rw [List.length_append, List.length_append, m.room]
  have hmiddle : (front ++ seekHead.element.header.raw) ++
      ((m.after.element.payload ++ rawAll m.voids) ++ rest) =
        (front ++ seekHeadId) ++ (vint seekHead.element.header.width seekHead.element.header.size ++
          ((m.after.element.payload ++ rawAll m.voids) ++ rest)) := by
    rw [header_raw]
    simp only [List.append_assoc]
  rw [hold, ← List.length_append, writeAt_append hroom, hmiddle, ← List.length_append,
    writeAt_append (by rw [vint_length, vint_length, m.width]), Element.raw, header_raw]
  simp only [List.append_assoc]

/-- An index whose entries stay stays, and the void behind it becomes a plain one. -/
theorem patch_self (seekHead : SeekHead) (start : Nat) (void : Element) :
    seekHead.patch start void seekHead.entries = do
      let remainder ← buildEbmlVoid void.raw.length
      return ⟨start + seekHead.element.header.raw.length, seekHead.element.payload ++ remainder,
        start + seekHeadId.length,
        vint seekHead.element.header.width seekHead.element.header.size⟩ := by
  have hfits : seekHead.element.header.size < 2 ^ (7 * seekHead.element.header.width) - 1 := by
    have hvalid := seekHead.element.header.sizeValid
    have hknown : seekHead.element.header.size ≠ 2 ^ (7 * seekHead.element.header.width) - 1 :=
      seekHead.element.sizeKnown
    omega
  rw [patch, ← seekHead.payload, ensure, if_pos (Nat.le_add_right _ _), Nat.add_sub_cancel_left,
    seekHead.element.payloadLength,
    encodeEbmlSize_some seekHead.element.header.widthValid.2 hfits]
  rfl

/-- Writing an index whose entries stay replaces the void behind it. -/
theorem self_written {r : Bytes} (seekHead : SeekHead)
    (hbuild : buildEbmlVoid void.raw.length = .ok r) (front rest : Bytes) :
    writeAt (writeAt (front ++ (seekHead.element.raw ++ (void.raw ++ rest)))
        (front.length + seekHead.element.header.raw.length) (seekHead.element.payload ++ r))
      (front.length + seekHeadId.length)
      (vint seekHead.element.header.width seekHead.element.header.size) =
      front ++ (seekHead.element.raw ++ (r ++ rest)) := by
  obtain ⟨hlen, voids, rfl, hfew, hempty⟩ := build_void hbuild
  let m : Reindexed seekHead void seekHead.entries :=
    { after := seekHead, voids, entries := rfl, width := rfl, few := hfew, empty := hempty
      room := by rw [hlen]
      left := by rw [hlen]; exact hbuild }
  exact patch_written m front rest

end SeekHead

end RecordingNote

end MDesk
