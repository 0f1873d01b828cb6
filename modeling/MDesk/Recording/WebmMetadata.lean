import MDesk.Core.Utf8
import MDesk.Recording.Ebml

/-!
# Title and comment in a recording

A recording gets an `Info` with the title and the `Tags` with title and comment at its end.
The `SeekHead` in front of the segment, and the void behind it, are written anew in the room
they had, and a segment whose size is known gets its new size in the old width.
-/

namespace MDesk

open Core

namespace RecordingNote

def segmentId : Bytes := [0x18, 0x53, 0x80, 0x67]
def seekHeadId : Bytes := [0x11, 0x4D, 0x9B, 0x74]
def seekId : Bytes := [0x4D, 0xBB]
def seekTargetId : Bytes := [0x53, 0xAB]
def seekPositionId : Bytes := [0x53, 0xAC]
def infoId : Bytes := [0x15, 0x49, 0xA9, 0x66]
def tagsId : Bytes := [0x12, 0x54, 0xC3, 0x67]
def titleId : Bytes := [0x7B, 0xA9]
def targetsId : Bytes := [0x63, 0xC0]

/-- The first position of a pattern, `windows(..).position(..)`. -/
def findBytes (pattern : Bytes) : Bytes → Option Nat
  | [] => none
  | b :: bs => if pattern <+: b :: bs then some 0 else (findBytes pattern bs).map (· + 1)

def slice (bytes : Bytes) (start stop : Nat) : Bytes := (bytes.drop start).take (stop - start)

def buildSimpleTag (name value : String) : Except String Bytes := do
  let name ← buildEbmlElement [0x45, 0xA3] (utf8Bytes name.toList)
  let value ← buildEbmlElement [0x44, 0x87] (utf8Bytes value.toList)
  buildEbmlElement [0x67, 0xC8] (name ++ value)

def buildWebmTags (title comment : String) : Except String Bytes := do
  let targets ← buildEbmlElement targetsId []
  let titleTag ← buildSimpleTag "TITLE" title
  let commentTag ← buildSimpleTag "COMMENT" comment
  let tag ← buildEbmlElement [0x73, 0x73] (targets ++ titleTag ++ commentTag)
  buildEbmlElement tagsId tag

def buildSeekEntry (targetId : Bytes) (relativePosition : Nat) : Except String Bytes := do
  let target ← buildEbmlElement seekTargetId targetId
  let position ← buildEbmlElement seekPositionId (encodeEbmlUint relativePosition)
  buildEbmlElement seekId (target ++ position)

/-- An element ends behind its start. -/
theorem parse_progress {bytes : Bytes} {start : Nat} {element : EbmlElement}
    (h : parseEbmlElement bytes start = .ok (some element)) : start < element.payloadEnd := by
  unfold parseEbmlElement at h
  split at h
  · cases h
  · simp only [bind, Except.bind, pure, Except.pure] at h
    split_ifs at h
    split at h
    · cases h
    · split_ifs at h
      all_goals cases h
      simp only
      omega

/-- The loop of `build_webm_info_with_title` over the children of the segment. -/
def findInfo (header : Bytes) (cursor : Nat) : Except String (Option EbmlElement) :=
  if _h : cursor < header.length then
    match _hparse : parseEbmlElement header cursor with
    | .error err => .error err
    | .ok none => .ok none
    | .ok (some element) =>
      if element.id = infoId then .ok (some element) else findInfo header element.payloadEnd
  else .ok none
  termination_by header.length - cursor
  decreasing_by
    have := parse_progress _hparse
    omega

/-- The loop of `build_webm_info_with_title` over the children of the old `Info`. -/
def infoPayload (header : Bytes) (cursor stop : Nat) : Except String Bytes :=
  if _h : cursor < stop then
    match _hparse : parseEbmlElement header cursor with
    | .error err => .error err
    | .ok none => .error "WebM Info 항목이 올바르지 않습니다."
    | .ok (some child) => do
      let payload ← infoPayload header child.payloadEnd stop
      return (if child.id = titleId then [] else slice header cursor child.payloadEnd) ++ payload
  else .ok []
  termination_by stop - cursor
  decreasing_by
    have := parse_progress _hparse
    omega

def buildWebmInfoWithTitle (header : Bytes) (segmentPayloadStart : Nat) (title : String) :
    Except String Bytes := do
  let info ← okOr (← findInfo header segmentPayloadStart) "WebM Info 정보를 찾을 수 없습니다."
  let payload ← infoPayload header info.payloadStart info.payloadEnd
  let title ← buildEbmlElement titleId (utf8Bytes title.toList)
  buildEbmlElement infoId (payload ++ title)

/-- The target of a `Seek`, the last one where there are several. -/
def seekTarget (header : Bytes) (cursor stop : Nat) (targetId : Option Bytes) :
    Except String (Option Bytes) :=
  if _h : cursor < stop then
    match _hparse : parseEbmlElement header cursor with
    | .error err => .error err
    | .ok none => .ok targetId
    | .ok (some child) => seekTarget header child.payloadEnd stop
      (if child.id = seekTargetId then some (slice header child.payloadStart child.payloadEnd)
      else targetId)
  else .ok targetId
  termination_by stop - cursor
  decreasing_by
    have := parse_progress _hparse
    omega

/-- What an entry of the `SeekHead` becomes, and whether it is that of `Info` or `Tags`. -/
def rewriteSeek (header : Bytes) (infoPosition tagsPosition start : Nat) (seek : EbmlElement) :
    Except String (Bytes × Bool × Bool) := do
  let old := slice header start seek.payloadEnd
  if seek.id ≠ seekId then return (old, false, false)
  let targetId ← seekTarget header seek.payloadStart seek.payloadEnd none
  if targetId = some infoId then return (← buildSeekEntry infoId infoPosition, true, false)
  else if targetId = some tagsId then return (← buildSeekEntry tagsId tagsPosition, false, true)
  else return (old, false, false)

/-- The loop of `rewrite_metadata_seek_positions`. -/
def rewriteSeeks (header : Bytes) (infoPosition tagsPosition cursor stop : Nat) :
    Except String (Bytes × Bool × Bool) :=
  if _h : cursor < stop then
    match _hparse : parseEbmlElement header cursor with
    | .error err => .error err
    | .ok none => .ok ([], false, false)
    | .ok (some seek) => do
      let (entry, isInfo, isTags) ← rewriteSeek header infoPosition tagsPosition cursor seek
      let (entries, foundInfo, foundTags) ←
        rewriteSeeks header infoPosition tagsPosition seek.payloadEnd stop
      return (entry ++ entries, isInfo || foundInfo, isTags || foundTags)
  else .ok ([], false, false)
  termination_by stop - cursor
  decreasing_by
    have := parse_progress _hparse
    omega

/-- What `rewrite_metadata_seek_positions` writes into the file, and where. -/
structure SeekPatch where
  payloadStart : Nat
  payload : Bytes
  sizeStart : Nat
  size : Bytes
  deriving DecidableEq, Repr

/-- The entry of a target that none was found for. -/
def addSeekEntry (found : Bool) (targetId : Bytes) (relativePosition : Nat) :
    Except String Bytes :=
  if found then .ok [] else buildSeekEntry targetId relativePosition

def rewriteMetadataSeekPositions (header : Bytes) (segmentPayloadStart infoFilePosition
    tagsFilePosition : Nat) : Except String SeekPatch := do
  ensure (segmentPayloadStart < header.length) "WebM SeekHead를 찾을 수 없습니다."
  let relativeSeekHead ← okOr (findBytes seekHeadId (header.drop segmentPayloadStart))
    "WebM SeekHead를 찾을 수 없습니다."
  let seekHeadStart := segmentPayloadStart + relativeSeekHead
  let seekHead ← okOr (← parseEbmlElement header seekHeadStart)
    "WebM SeekHead가 올바르지 않습니다."
  let void ← okOr (← parseEbmlElement header seekHead.payloadEnd)
    "WebM 메타정보 색인을 추가할 여유 공간이 없습니다."
  ensure (seekHead.id = seekHeadId ∧ void.id = [0xEC])
    "WebM SeekHead 뒤의 예약 공간을 찾을 수 없습니다."
  ensure (segmentPayloadStart ≤ infoFilePosition) "WebM Info 위치가 올바르지 않습니다."
  ensure (segmentPayloadStart ≤ tagsFilePosition) "WebM Tags 위치가 올바르지 않습니다."
  let infoPosition := infoFilePosition - segmentPayloadStart
  let tagsPosition := tagsFilePosition - segmentPayloadStart
  let (entries, foundInfo, foundTags) ←
    rewriteSeeks header infoPosition tagsPosition seekHead.payloadStart seekHead.payloadEnd
  let info ← addSeekEntry foundInfo infoId infoPosition
  let tags ← addSeekEntry foundTags tagsId tagsPosition
  let newPayload := entries ++ info ++ tags
  let available := (seekHead.payloadEnd - seekHead.payloadStart) +
    (void.payloadEnd - seekHead.payloadEnd)
  ensure (newPayload.length ≤ available) "WebM 메타정보 색인을 추가할 예약 공간이 부족합니다."
  let remainder ← buildEbmlVoid (available - newPayload.length)
  let sizeStart := seekHeadStart + seekHeadId.length
  let (_, sizeWidth, sizeIsUnknown) ← decodeEbmlSize (header.drop sizeStart)
  ensure (sizeIsUnknown = false) "WebM SeekHead 크기가 올바르지 않습니다."
  let encodedSize ← encodeEbmlSize newPayload.length (some sizeWidth)
  return ⟨seekHead.payloadStart, newPayload ++ remainder, sizeStart, encodedSize⟩

/-- What is known of the file before anything is written. -/
structure Prepared where
  header : Bytes
  sizePos : Nat
  segmentSize : Nat
  sizeWidth : Nat
  sizeIsUnknown : Bool
  info : Bytes
  tags : Bytes
  deriving DecidableEq, Repr

def Prepared.payloadStart (p : Prepared) : Nat := p.sizePos + p.sizeWidth

/-- The first part of `append_webm_metadata`. -/
def prepare (file : Bytes) (title comment : String) : Except String Prepared := do
  let tags ← buildWebmTags title comment
  ensure (12 ≤ file.length) "WebM 파일이 올바르지 않습니다."
  let header := file.take (1024 * 1024)
  let segmentIdPos ← okOr (findBytes segmentId header) "WebM Segment 정보를 찾을 수 없습니다."
  let sizePos := segmentIdPos + segmentId.length
  let (segmentSize, sizeWidth, sizeIsUnknown) ← decodeEbmlSize (header.drop sizePos)
  ensure (sizePos + sizeWidth ≤ file.length) "WebM Segment 크기가 올바르지 않습니다."
  let info ← buildWebmInfoWithTitle header (sizePos + sizeWidth) title
  return { header, sizePos, segmentSize, sizeWidth, sizeIsUnknown, info, tags }

/-- Write bytes into a file. -/
def writeAt (file : Bytes) (pos : Nat) (bytes : Bytes) : Bytes :=
  file.take pos ++ bytes ++ file.drop (pos + bytes.length)

/-- `append_webm_metadata` and the file that it leaves. -/
def appendWebmMetadata (file : Bytes) (title comment : String) : Except String Unit × Bytes :=
  match prepare file title comment with
  | .error err => (.error err, file)
  | .ok p =>
    let metadata := p.info ++ p.tags
    let alreadyAppended := decide (metadata <:+ file)
    let infoPosition := if alreadyAppended then file.length - metadata.length else file.length
    let file := if alreadyAppended then file else file ++ metadata
    let finalFileLen := file.length
    match rewriteMetadataSeekPositions p.header p.payloadStart infoPosition
      (infoPosition + p.info.length) with
    | .error err => (.error err, file)
    | .ok patch =>
      let file := writeAt (writeAt file patch.payloadStart patch.payload) patch.sizeStart patch.size
      let actualSegmentSize := finalFileLen - p.payloadStart
      if p.sizeIsUnknown ∨ p.segmentSize = actualSegmentSize then (.ok (), file)
      else
        match encodeEbmlSize actualSegmentSize (some p.sizeWidth) with
        | .error err => (.error err, file)
        | .ok encodedSize => (.ok (), writeAt file p.sizePos encodedSize)

end RecordingNote

end MDesk
