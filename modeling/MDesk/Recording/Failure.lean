import MDesk.Recording.WebmMetadata

/-!
# What a failed embedding leaves

Everything that is read of a recording is checked before the metadata is appended, and the
whole new `SeekHead` before any of it is written, but the metadata is appended before the
`SeekHead` is looked at, and the `SeekHead` is written before the width of the segment size
is. A failure behind one of these writes leaves what was written.
-/

namespace MDesk

open Core

namespace RecordingNote

variable {file bytes front behind header : Bytes} {start pos : Nat} {title comment : String}

/-- Bytes that are there already change nothing. -/
theorem writeAt_eq_self_iff :
    writeAt file pos bytes = file ↔ bytes <+: file.drop pos := by
  rw [writeAt, ← List.drop_drop, List.append_assoc, List.prefix_iff_eq_append]
  constructor
  · intro heq
    refine List.append_cancel_left (heq.trans ?_)
    rw [List.take_append_drop]
  · intro heq
    rw [heq, List.take_append_drop]

theorem length_le_writeAt (h : pos ≤ file.length) :
    file.length ≤ (writeAt file pos bytes).length := by
  rw [writeAt, List.length_append, List.length_append, List.length_take_of_le h, List.length_drop]
  omega

/-- Bytes written in front of others make one write. -/
theorem writeAt_writeAt (h : pos + front.length ≤ file.length) :
    writeAt (writeAt file (pos + front.length) behind) pos front =
      writeAt file pos (front ++ behind) := by
  have htake : (file.take (pos + front.length)).length = pos + front.length :=
    List.length_take_of_le h
  have hfront : (writeAt file (pos + front.length) behind).take pos = file.take pos := by
    rw [writeAt, List.append_assoc, List.take_append_of_le_length (by omega), List.take_take,
      Nat.min_eq_left (by omega)]
  have hbehind : (writeAt file (pos + front.length) behind).drop (pos + front.length) =
      behind ++ file.drop (pos + front.length + behind.length) := by
    rw [writeAt, List.append_assoc, List.drop_left' htake]
  rw [writeAt, hfront, hbehind, writeAt, List.length_append, Nat.add_assoc]
  simp only [List.append_assoc]

/-- The parts of an element that is found. -/
theorem parse_parts {element : EbmlElement}
    (h : parseEbmlElement header start = .ok (some element)) :
    ∃ size width,
      decodeEbmlSize (header.drop (start + element.id.length)) = .ok (size, width, false) ∧
      element.payloadStart = start + element.id.length + width ∧
      element.payloadEnd = element.payloadStart + size ∧ element.payloadEnd ≤ header.length := by
  unfold parseEbmlElement at h
  split at h
  · cases h
  · rename_i first hfirst
    simp only [bind, Except.bind, pure, Except.pure] at h
    split_ifs at h with hzero hshort
    split at h
    · cases h
    · rename_i r hdecode
      obtain ⟨size, width, unknown⟩ := r
      split_ifs at h with hunknown hend
      · cases h
      · cases h
      · obtain rfl : unknown = false := by simpa using hunknown
        have hid : ((header.drop start).take (leadingZeros first + 1)).length =
            leadingZeros first + 1 := by
          rw [List.length_take_of_le]
          rw [List.length_drop]
          omega
        obtain rfl := Option.some.inj (Except.ok.inj h)
        refine ⟨size, width, ?_, ?_, rfl, Nat.not_lt.mp hend⟩
        · rwa [hid]
        · rw [hid]

/-- The new size of the `SeekHead` is written right in front of its new payload, inside the
buffer. -/
theorem rewrite_place {segmentStart infoPosition tagsPosition : Nat} {patch : SeekPatch}
    (h : rewriteMetadataSeekPositions header segmentStart infoPosition tagsPosition = .ok patch) :
    patch.payloadStart = patch.sizeStart + patch.size.length ∧
      patch.payloadStart ≤ header.length := by
  simp only [rewriteMetadataSeekPositions, bind_ok, okOr_ok, ensure_ok, Prod.exists] at h
  obtain ⟨-, -, relative, -, _, hparse, seekHead, rfl, _, -, void, -, -, ⟨hid, -⟩, -, -, -, -,
    entries, _, _, -, _, -, _, -, -, -, remainder, -, size, width, unknown, hsize, -, hunknown,
    encoded, hencoded, hpatch⟩ := h
  obtain rfl : unknown = false := hunknown
  obtain ⟨size', width', hdecode, hpayload, hend, hle⟩ := parse_parts hparse
  rw [hid] at hdecode hpayload
  cases hdecode.symm.trans hsize
  obtain ⟨hwidth, -, rfl⟩ := encode_some hencoded
  cases hpatch
  simp only [vint_length]
  exact ⟨hpayload, by omega⟩

def Prepared.metadata (p : Prepared) : Bytes := p.info ++ p.tags

/-- Where the `Info` stands in a file that ends with the metadata. -/
def Prepared.infoPosition (p : Prepared) (file : Bytes) : Nat := file.length - p.metadata.length

/-- What is to be written to the `SeekHead` of a file that ends with the metadata. -/
def Prepared.reseek (p : Prepared) (file : Bytes) : Except String SeekPatch :=
  rewriteMetadataSeekPositions p.header p.payloadStart (p.infoPosition file)
    (p.infoPosition file + p.info.length)

/-- Nothing is left to write in front of the last check: the metadata is at the end of the
file, and its `SeekHead` cannot be rewritten or says what it would be rewritten to. -/
def Prepared.Written (p : Prepared) (file : Bytes) : Prop :=
  p.metadata <:+ file ∧
    ∀ patch, p.reseek file = .ok patch → patch.size ++ patch.payload <+: file.drop patch.sizeStart

theorem buildEbmlElement_ne_nil {id payload r : Bytes} (hid : id ≠ [])
    (h : buildEbmlElement id payload = .ok r) : r ≠ [] := by
  simp only [buildEbmlElement, bind_ok] at h
  obtain ⟨size, -, hr⟩ := h
  cases hr
  simp [hid]

theorem metadata_ne_nil {p : Prepared} (h : prepare file title comment = .ok p) :
    p.metadata ≠ [] := by
  simp only [prepare, bind_ok, okOr_ok, ensure_ok, Prod.exists] at h
  obtain ⟨tags, htags, -, -, _, -, _, _, _, -, -, -, info, hinfo, hp⟩ := h
  cases hp
  simp only [buildWebmTags, bind_ok] at htags
  obtain ⟨_, -, _, -, _, -, _, -, htags⟩ := htags
  exact List.append_ne_nil_of_right_ne_nil _ (buildEbmlElement_ne_nil (by decide) htags)

theorem header_length_le {p : Prepared} (h : prepare file title comment = .ok p) :
    p.header.length ≤ file.length := by
  simp only [prepare, bind_ok, okOr_ok, ensure_ok, Prod.exists] at h
  obtain ⟨_, -, -, -, _, -, _, _, _, -, -, -, _, -, hp⟩ := h
  cases hp
  exact List.length_take_le' _ _

/-- A failure behind the first checks, where the metadata is at the end already and where it
is appended. -/
theorem failed_cases {p : Prepared} {err : String} {after : Bytes}
    (hprep : prepare file title comment = .ok p)
    (h : appendWebmMetadata file title comment = (.error err, after)) :
    p.metadata <:+ file ∧ (after = file ∧ (∃ err, p.reseek file = .error err) ∨
      ∃ patch, p.reseek file = .ok patch ∧ after =
        writeAt (writeAt file patch.payloadStart patch.payload) patch.sizeStart patch.size) ∨
    ¬ p.metadata <:+ file ∧ (file ++ p.metadata).length ≤ after.length := by
  unfold appendWebmMetadata at h
  simp only [hprep] at h
  by_cases hthere : p.metadata <:+ file
  · refine .inl ⟨hthere, ?_⟩
    have hdec : decide (p.info ++ p.tags <:+ file) = true := decide_eq_true hthere
    simp only [hdec, if_true] at h
    split at h
    · rename_i err' hpatch
      exact .inl ⟨(congrArg Prod.snd h).symm, err', hpatch⟩
    · rename_i patch hpatch
      refine .inr ⟨patch, hpatch, ?_⟩
      split_ifs at h
      · cases h
      · split at h
        · exact (congrArg Prod.snd h).symm
        · cases h
  · refine .inr ⟨hthere, ?_⟩
    have hdec : decide (p.metadata <:+ file) = false := decide_eq_false hthere
    have hmeta : p.info ++ p.tags = p.metadata := rfl
    simp only [hmeta, hdec, Bool.false_eq_true, if_false] at h
    split at h
    · obtain rfl : file ++ p.metadata = after := congrArg Prod.snd h
      exact Nat.le_refl _
    · rename_i patch hpatch
      obtain ⟨hstart, hle⟩ := rewrite_place hpatch
      have hheader := header_length_le hprep
      have hmore : file.length ≤ (file ++ p.metadata).length := by
        rw [List.length_append]
        exact Nat.le_add_right _ _
      split_ifs at h
      · cases h
      · split at h
        · obtain rfl : writeAt (writeAt (file ++ p.metadata) patch.payloadStart patch.payload)
              patch.sizeStart patch.size = after := congrArg Prod.snd h
          have hfirst : (file ++ p.metadata).length ≤
              (writeAt (file ++ p.metadata) patch.payloadStart patch.payload).length :=
            length_le_writeAt (by omega)
          exact Nat.le_trans hfirst (length_le_writeAt (by omega))
        · cases h

/-- A failed embedding leaves the recording as it was exactly when it fails in front of the
append, or nothing was left to write. -/
theorem failed_unchanged_iff (file : Bytes) (title comment err : String) (after : Bytes)
    (h : appendWebmMetadata file title comment = (.error err, after)) :
    after = file ↔ ∀ p, prepare file title comment = .ok p → p.Written file := by
  cases hprep : prepare file title comment with
  | error =>
    unfold appendWebmMetadata at h
    rw [hprep] at h
    obtain rfl : file = after := congrArg Prod.snd h
    exact ⟨fun _ _ => nofun, fun _ => rfl⟩
  | ok p =>
    have hforall : (∀ q, Except.ok (ε := String) p = .ok q → q.Written file) ↔ p.Written file :=
      ⟨fun hall => hall p rfl, fun hw _ hq => Except.ok.inj hq ▸ hw⟩
    rw [hforall]
    rcases failed_cases hprep h with ⟨hthere, ⟨rfl, err', hreseek⟩ | ⟨patch, hreseek, rfl⟩⟩ |
      ⟨hthere, hlen⟩
    · refine iff_of_true rfl ⟨hthere, fun patch hpatch => ?_⟩
      rw [hreseek] at hpatch
      cases hpatch
    · obtain ⟨hstart, hle⟩ := rewrite_place hreseek
      have hheader := header_length_le hprep
      rw [hstart, writeAt_writeAt (by omega), writeAt_eq_self_iff]
      constructor
      · intro hsame
        refine ⟨hthere, fun patch' hpatch' => ?_⟩
        obtain rfl := Except.ok.inj (hreseek.symm.trans hpatch')
        exact hsame
      · exact fun hw => hw.2 patch hreseek
    · refine iff_of_false ?_ fun hw => hthere hw.1
      rintro rfl
      have hpos := List.length_pos_of_ne_nil (metadata_ne_nil hprep)
      rw [List.length_append] at hlen
      omega

/-- A segment with an `Info` and nothing else. -/
def sampleBare : Bytes := segmentId ++ 0xFF :: (infoId ++ [0x82, 0xEC, 0x80])

theorem bare_fails : appendWebmMetadata sampleBare "T" "C" =
    (.error "WebM SeekHead를 찾을 수 없습니다.", (appendWebmMetadata sampleBare "T" "C").2) := by
  decide +kernel

/-- Its first failure appends the metadata. -/
theorem bare_not_written :
    ¬ ∀ p, prepare sampleBare "T" "C" = .ok p → p.Written sampleBare := by
  intro hwritten
  exact absurd ((failed_unchanged_iff _ _ _ _ _ bare_fails).mpr hwritten) (by decide +kernel)

/-- A recording without a `SeekHead` has got the metadata when that is found out. -/
theorem bare_changed :
    ¬ ∀ (file : Bytes) (title comment err : String) (after : Bytes),
      appendWebmMetadata file title comment = (.error err, after) → after = file := by
  intro hall
  exact absurd (hall _ _ _ _ _ bare_fails) (by decide +kernel)

end RecordingNote

end MDesk
