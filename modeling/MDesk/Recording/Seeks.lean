import MDesk.Recording.WebmMetadata

/-!
# The loops over the elements of a recording

What the loops of the recording notes find, where the buffer holds elements: the first `Info`,
its fields without the title, and the entries of the `SeekHead` with the positions of `Info`
and `Tags` replaced.
-/

namespace MDesk

open Core

namespace RecordingNote

variable {header bytes rest : Bytes} {cursor stop infoPosition tagsPosition : Nat}

/-- What stands behind the beginning of a buffer. -/
theorem drop_behind {a b : Bytes} (h : header.drop cursor = a ++ b) :
    header.drop (cursor + a.length) = b := by
  rw [← List.drop_drop, h, List.drop_left]

theorem slice_front {a b : Bytes} (h : header.drop cursor = a ++ b) :
    slice header cursor (cursor + a.length) = a := by
  rw [slice, h, Nat.add_sub_cancel_left, List.take_left]

/-- The payload of an element that is there. -/
theorem slice_payload {e : Element} (h : header.drop cursor = e.raw ++ rest) :
    slice header (cursor + e.header.raw.length) (cursor + e.raw.length) = e.payload := by
  have hbehind : header.drop (cursor + e.header.raw.length) = e.payload ++ rest := by
    apply drop_behind
    rw [h, Element.raw, List.append_assoc]
  have hstop : cursor + e.raw.length = cursor + e.header.raw.length + e.payload.length := by
    rw [e.raw_length]
    omega
  rw [hstop, slice_front hbehind]

/-- Elements end where those behind the first one end. -/
theorem end_cons (cursor : Nat) (e : Element) (es : List Element) :
    cursor + (rawAll (e :: es)).length = cursor + e.raw.length + (rawAll es).length := by
  rw [rawAll_cons, List.length_append, Nat.add_assoc]

theorem lt_end_cons (cursor : Nat) (e : Element) (es : List Element) :
    cursor < cursor + (rawAll (e :: es)).length := by
  have hpos : 2 ≤ e.raw.length := (Item.whole e).raw_pos
  rw [end_cons]
  omega

/-- The first `Info` is found, where everything in front of it is there. -/
theorem findInfo_spec {items : List Item} {element : EbmlElement}
    (h : header.drop cursor <+: rawItems items)
    (hok : findInfo header cursor = .ok (some element)) :
    ∃ front info behind more, items = front ++ .whole info :: behind ∧ info.id = infoId ∧
      (∀ i ∈ front, ∃ e, i = .whole e ∧ e.id ≠ infoId) ∧
      header.drop (cursor + (rawItems front).length) = info.raw ++ more ∧
      element = ⟨info.id, cursor + (rawItems front).length + info.header.raw.length,
        cursor + (rawItems front).length + info.raw.length⟩ := by
  induction items generalizing cursor with
  | nil =>
    have hend : ¬ cursor < header.length := by
      have hnil := List.prefix_nil.mp h
      rw [List.drop_eq_nil_iff] at hnil
      omega
    rw [findInfo, dif_neg hend] at hok
    cases hok
  | cons i items ih =>
    rw [findInfo] at hok
    split at hok
    · split at hok
      · cases hok
      · cases hok
      · rename_i element' hparse
        obtain ⟨e, more, rfl, hmore⟩ := parse_item h hparse
        rw [parse_whole hmore] at hparse
        cases hparse
        split at hok
        · rename_i hid
          cases hok
          exact ⟨[], e, items, more, rfl, hid, List.forall_mem_nil _, by simpa using hmore, by simp⟩
        · rename_i hid
          have hrest : header.drop (cursor + e.raw.length) <+: rawItems items := by
            have hbehind := List.IsPrefix.drop h e.raw.length
            rwa [List.drop_drop, rawItems_cons, Item.raw, List.drop_left] at hbehind
          obtain ⟨front, info, behind, more', rfl, hinfo, hfront, hthere, rfl⟩ := ih hrest hok
          have hlen : cursor + e.raw.length + (rawItems front).length =
              cursor + (rawItems (.whole e :: front)).length := by
            rw [rawItems_cons, List.length_append, Item.raw]
            omega
          rw [hlen] at hthere ⊢
          refine ⟨.whole e :: front, info, behind, more', rfl, hinfo, ?_, hthere, rfl⟩
          exact List.forall_mem_cons.mpr ⟨⟨e, rfl, hid⟩, hfront⟩
    · cases hok

/-- The fields of an `Info` but its titles. -/
theorem infoPayload_spec {fields : List Element} (h : header.drop cursor = rawAll fields ++ rest) :
    infoPayload header cursor (cursor + (rawAll fields).length) =
      .ok (rawAll (fields.filter fun e => e.id ≠ titleId)) := by
  induction fields generalizing cursor with
  | nil =>
    rw [infoPayload, dif_neg (by simp)]
    rfl
  | cons e fields ih =>
    rw [rawAll_cons, List.append_assoc] at h
    rw [infoPayload, dif_pos (lt_end_cons cursor e fields)]
    split
    · rename_i hparse
      rw [parse_whole h] at hparse
      cases hparse
    · rename_i hparse
      rw [parse_whole h] at hparse
      cases hparse
    · rename_i child hparse
      rw [parse_whole h] at hparse
      cases hparse
      simp only
      rw [end_cons, ih (drop_behind h), slice_front h]
      by_cases hid : e.id = titleId
      · rw [if_pos hid, List.filter_cons_of_neg (by simpa using hid)]
        rfl
      · rw [if_neg hid, List.filter_cons_of_pos (by simpa using hid)]
        rfl

/-- The payload of the last field with an id. -/
def lastField (id : Bytes) (fields : List Element) : Option Bytes :=
  fields.foldl (fun last e => if e.id = id then some e.payload else last) none

theorem seekTarget_spec {fields : List Element} {target : Option Bytes}
    (h : header.drop cursor = rawAll fields ++ rest) :
    seekTarget header cursor (cursor + (rawAll fields).length) target =
      .ok (fields.foldl (fun last e => if e.id = seekTargetId then some e.payload else last)
        target) := by
  induction fields generalizing cursor target with
  | nil =>
    rw [seekTarget, dif_neg (by simp)]
    rfl
  | cons e fields ih =>
    rw [rawAll_cons, List.append_assoc] at h
    rw [seekTarget, dif_pos (lt_end_cons cursor e fields)]
    split
    · rename_i hparse
      rw [parse_whole h] at hparse
      cases hparse
    · rename_i hparse
      rw [parse_whole h] at hparse
      cases hparse
    · rename_i child hparse
      rw [parse_whole h] at hparse
      cases hparse
      simp only
      rw [end_cons, slice_payload h, ih (drop_behind h)]
      rfl

/-- What is in a `SeekHead`: a `Seek` with its fields, or something else. -/
inductive SeekItem where
  | seek (e : Element) (fields : List Element) (id : e.id = seekId)
      (payload : e.payload = rawAll fields)
  | other (e : Element) (id : e.id ≠ seekId)

namespace SeekItem

def element : SeekItem → Element
  | .seek e _ _ _ => e
  | .other e _ => e

def target : SeekItem → Option Bytes
  | .seek _ fields _ _ => lastField seekTargetId fields
  | .other _ _ => none

/-- The target and the position that an entry gives for it. -/
def point : SeekItem → Option (Bytes × Nat)
  | .seek _ fields _ _ => do
    let target ← lastField seekTargetId fields
    let position ← lastField seekPositionId fields
    return (target, beNat position)
  | .other _ _ => none

theorem target_of_point {s : SeekItem} {target : Bytes} {position : Nat}
    (h : s.point = some (target, position)) : s.target = some target := by
  cases s with
  | seek e fields =>
    simp only [point, Option.bind_eq_bind, Option.bind_eq_some_iff, Option.pure_def,
      Option.some.injEq, Prod.mk.injEq] at h
    obtain ⟨t, ht, p, -, rfl, -⟩ := h
    exact ht
  | other => cases h

end SeekItem

/-- The positions that entries give. -/
def points (items : List SeekItem) : List (Bytes × Nat) := items.filterMap SeekItem.point

/-- What a position becomes when `Info` and `Tags` move, where an entry for them is there. -/
def Moved (infoPosition tagsPosition : Nat) (isInfo isTags : Bool) (old : Bytes → Nat → Prop)
    (target : Bytes) (position : Nat) : Prop :=
  if target = infoId then isInfo = true ∧ position = infoPosition
  else if target = tagsId then isTags = true ∧ position = tagsPosition
  else old target position

/-- A new entry gives its position. -/
theorem buildSeekEntry_spec {target r : Bytes} {position : Nat} (hposition : position < 2 ^ 64)
    (h : buildSeekEntry target position = .ok r) :
    ∃ s : SeekItem, r = s.element.raw ∧ s.point = some (target, position) := by
  simp only [buildSeekEntry, bind_ok] at h
  obtain ⟨t, ht, p, hp, h⟩ := h
  obtain ⟨te, htid, htpayload, rfl⟩ := build_element (by decide) ht
  obtain ⟨pe, hpid, hppayload, rfl⟩ := build_element (by decide) hp
  obtain ⟨e, hid, hpayload, rfl⟩ := build_element (by decide) h
  refine ⟨.seek e [te, pe] hid ?_, rfl, ?_⟩
  · rw [hpayload, rawAll_cons, rawAll_cons, rawAll_nil, List.append_nil]
  · have hne : seekTargetId ≠ seekPositionId := by decide
    simp only [SeekItem.point, lastField, List.foldl_cons, List.foldl_nil, htid, hpid, htpayload,
      hppayload, if_true, if_neg hne, if_neg hne.symm]
    rw [← beNat_encodeEbmlUint hposition]
    simp [beNat_encodeEbmlUint hposition]

/-- An entry for another target stays. -/
theorem moved_old {s : SeekItem} (hinfo : s.target ≠ some infoId) (htags : s.target ≠ some tagsId)
    (target : Bytes) (position : Nat) : s.point = some (target, position) ↔
      Moved infoPosition tagsPosition false false
        (fun target position => s.point = some (target, position)) target position := by
  unfold Moved
  split_ifs with hi ht
  · refine ⟨fun h => absurd ?_ hinfo, fun h => h.1.elim⟩
    rw [SeekItem.target_of_point h, hi]
  · refine ⟨fun h => absurd ?_ htags, fun h => h.1.elim⟩
    rw [SeekItem.target_of_point h, ht]
  · exact Iff.rfl

theorem infoId_ne_tagsId : infoId ≠ tagsId := by
  decide

/-- A new entry for `Info` gives its position instead of the old one. -/
theorem moved_info {s s' : SeekItem} (hold : s.target = some infoId)
    (hnew : s'.point = some (infoId, infoPosition)) (target : Bytes) (position : Nat) :
    s'.point = some (target, position) ↔ Moved infoPosition tagsPosition true false
      (fun target position => s.point = some (target, position)) target position := by
  rw [hnew, Option.some_inj, Prod.mk.injEq]
  unfold Moved
  split_ifs with hi ht
  · exact ⟨fun h => ⟨rfl, h.2.symm⟩, fun h => ⟨hi.symm, h.2.symm⟩⟩
  · exact ⟨fun h => absurd h.1.symm hi, fun h => h.1.elim⟩
  · refine ⟨fun h => absurd h.1.symm hi, fun h => absurd ?_ hi⟩
    exact Option.some.inj ((SeekItem.target_of_point h).symm.trans hold)

theorem moved_tags {s s' : SeekItem} (hold : s.target = some tagsId)
    (hnew : s'.point = some (tagsId, tagsPosition)) (target : Bytes) (position : Nat) :
    s'.point = some (target, position) ↔ Moved infoPosition tagsPosition false true
      (fun target position => s.point = some (target, position)) target position := by
  rw [hnew, Option.some_inj, Prod.mk.injEq]
  unfold Moved
  split_ifs with hi ht
  · refine ⟨fun h => absurd (hi.symm.trans h.1.symm) infoId_ne_tagsId, fun h => ?_⟩
    exact h.1.elim
  · exact ⟨fun h => ⟨rfl, h.2.symm⟩, fun h => ⟨ht.symm, h.2.symm⟩⟩
  · refine ⟨fun h => absurd h.1.symm ht, fun h => absurd ?_ ht⟩
    exact Option.some.inj ((SeekItem.target_of_point h).symm.trans hold)

/-- An entry stays or gives the new position of `Info` or `Tags`. -/
theorem rewriteSeek_spec {s : SeekItem} {r : Bytes} {isInfo isTags : Bool}
    (hinfo : infoPosition < 2 ^ 64) (htags : tagsPosition < 2 ^ 64)
    (h : header.drop cursor = s.element.raw ++ rest)
    (hok : rewriteSeek header infoPosition tagsPosition cursor ⟨s.element.id,
      cursor + s.element.header.raw.length, cursor + s.element.raw.length⟩ =
        .ok (r, isInfo, isTags)) :
    ∃ s' : SeekItem, r = s'.element.raw ∧ ∀ target position,
      s'.point = some (target, position) ↔ Moved infoPosition tagsPosition isInfo isTags
        (fun target position => s.point = some (target, position)) target position := by
  have hold : slice header cursor (cursor + s.element.raw.length) = s.element.raw := slice_front h
  cases s with
  | other e hid =>
    simp only [SeekItem.element] at h hok hold
    simp only [rewriteSeek, if_pos hid, hold] at hok
    cases hok
    exact ⟨.other e hid, rfl, moved_old nofun nofun⟩
  | seek e fields hid hpayload =>
    simp only [SeekItem.element] at h hok hold
    have hthere : header.drop (cursor + e.header.raw.length) = rawAll fields ++ rest := by
      apply drop_behind
      rw [h, Element.raw, hpayload, List.append_assoc]
    have hstop : cursor + e.raw.length =
        cursor + e.header.raw.length + (rawAll fields).length := by
      rw [e.raw_length, hpayload]
      omega
    simp only [rewriteSeek, hid, ne_eq, not_true_eq_false, if_false, hold] at hok
    rw [hstop, seekTarget_spec hthere] at hok
    obtain ⟨target, htarget, hok⟩ := bind_ok.mp hok
    obtain rfl : lastField seekTargetId fields = target := Except.ok.inj htarget
    split_ifs at hok with hi ht
    · obtain ⟨entry, hentry, hok⟩ := bind_ok.mp hok
      cases hok
      obtain ⟨s', rfl, hpoint⟩ := buildSeekEntry_spec hinfo hentry
      exact ⟨s', rfl, moved_info (s := .seek e fields hid hpayload) hi hpoint⟩
    · obtain ⟨entry, hentry, hok⟩ := bind_ok.mp hok
      cases hok
      obtain ⟨s', rfl, hpoint⟩ := buildSeekEntry_spec htags hentry
      exact ⟨s', rfl, moved_tags (s := .seek e fields hid hpayload) ht hpoint⟩
    · cases hok
      exact ⟨.seek e fields hid hpayload, rfl, moved_old hi ht⟩

theorem mem_points_cons {s : SeekItem} {items : List SeekItem} {target : Bytes} {position : Nat} :
    (target, position) ∈ points (s :: items) ↔
      s.point = some (target, position) ∨ (target, position) ∈ points items := by
  simp [points]

theorem moved_or {isInfo isTags isInfo' isTags' : Bool} {old old' : Bytes → Nat → Prop}
    {target : Bytes} {position : Nat} :
    Moved infoPosition tagsPosition (isInfo || isInfo') (isTags || isTags')
        (fun t p => old t p ∨ old' t p) target position ↔
      Moved infoPosition tagsPosition isInfo isTags old target position ∨
        Moved infoPosition tagsPosition isInfo' isTags' old' target position := by
  unfold Moved
  split_ifs
  · rw [Bool.or_eq_true, or_and_right]
  · rw [Bool.or_eq_true, or_and_right]
  · exact Iff.rfl

/-- Every entry stays or gives the new position of `Info` or `Tags`. -/
theorem rewriteSeeks_spec {items : List SeekItem} {r : Bytes} {foundInfo foundTags : Bool}
    (hinfo : infoPosition < 2 ^ 64) (htags : tagsPosition < 2 ^ 64)
    (h : header.drop cursor = rawAll (items.map SeekItem.element) ++ rest)
    (hok : rewriteSeeks header infoPosition tagsPosition cursor
      (cursor + (rawAll (items.map SeekItem.element)).length) = .ok (r, foundInfo, foundTags)) :
    ∃ items' : List SeekItem, r = rawAll (items'.map SeekItem.element) ∧ ∀ target position,
      (target, position) ∈ points items' ↔ Moved infoPosition tagsPosition foundInfo foundTags
        (fun target position => (target, position) ∈ points items) target position := by
  induction items generalizing cursor r foundInfo foundTags with
  | nil =>
    rw [rewriteSeeks, dif_neg (by simp)] at hok
    cases hok
    refine ⟨[], rfl, fun target position => ?_⟩
    simp [points, Moved]
  | cons s items ih =>
    rw [List.map_cons, rawAll_cons, List.append_assoc] at h
    rw [List.map_cons, rewriteSeeks, dif_pos (lt_end_cons cursor _ _)] at hok
    split at hok
    · cases hok
    · rename_i hparse
      rw [parse_whole h] at hparse
      cases hparse
    · rename_i seek hparse
      rw [parse_whole h] at hparse
      cases hparse
      simp only [end_cons, bind_ok, Prod.exists] at hok
      obtain ⟨entry, isInfo, isTags, hentry, entries, foundInfo', foundTags', hentries, hr⟩ := hok
      cases hr
      obtain ⟨s', rfl, hpoint⟩ := rewriteSeek_spec hinfo htags h hentry
      obtain ⟨items', rfl, hpoints⟩ := ih (drop_behind h) hentries
      refine ⟨s' :: items', rfl, fun target position => ?_⟩
      rw [mem_points_cons, hpoint, hpoints, ← moved_or]
      simp only [mem_points_cons]

end RecordingNote

end MDesk
