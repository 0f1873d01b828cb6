import Mathlib.Algebra.Group.Nat.Defs
import MDesk.Core.Table
import MDesk.Core.Tally

/-!
# The codec that is negotiated

The host encodes for all controllers at once. A codec is usable where the host can encode it and
every controller can decode it. The controllers vote among the usable codecs, and without a vote the
host ranks them. VP9 takes part whether the controllers can decode it or not.
-/

namespace MDesk.Negotiation

open Core

inductive CodecFormat where
  | vp8
  | vp9
  | av1
  | h264
  | h265
  | unknown
  deriving DecidableEq, Repr

/-- `supported_decoding::PreferCodec`. -/
inductive PreferCodec where
  | auto
  | vp9
  | h264
  | h265
  | vp8
  | av1
  deriving DecidableEq, Repr

namespace PreferCodec

/-- The number of a codec on the wire. -/
def value : PreferCodec → Int
  | auto => 0
  | vp9 => 1
  | h264 => 2
  | h265 => 3
  | vp8 => 4
  | av1 => 5

/-- `enum_value_or(Auto)`. -/
def ofValue (n : Int) : PreferCodec :=
  if n = 1 then vp9
  else if n = 2 then h264
  else if n = 3 then h265
  else if n = 4 then vp8
  else if n = 5 then av1
  else auto

end PreferCodec

structure CodecAbility where
  vp8 : Bool := false
  vp9 : Bool := false
  av1 : Bool := false
  h264 : Bool := false
  h265 : Bool := false
  deriving DecidableEq

/-- What a controller can decode, and what it would like to. The enumerations are numbers, which may
be none of the values. -/
structure SupportedDecoding where
  abilityVp9 : Int := 0
  abilityH264 : Int := 0
  abilityH265 : Int := 0
  prefer : Int := 0
  abilityVp8 : Int := 0
  abilityAv1 : Int := 0
  i444 : Option CodecAbility := none
  preferChroma : Int := 0
  deriving DecidableEq

structure SupportedEncoding where
  h264 : Bool := false
  h265 : Bool := false
  vp8 : Bool := false
  av1 : Bool := false
  i444 : Option CodecAbility := none
  deriving DecidableEq

/-- The ability of a controller for a codec. -/
def SupportedDecoding.ability (s : SupportedDecoding) : CodecFormat → Int
  | .vp8 => s.abilityVp8
  | .vp9 => s.abilityVp9
  | .av1 => s.abilityAv1
  | .h264 => s.abilityH264
  | .h265 => s.abilityH265
  | .unknown => 0

/-- What the host finds on its machine and in its options: whether AV1 is disabled, whether textures
and hardware may encode, the encoders there are, whether the test of AV1 has not failed, and the
memory. -/
structure Machine where
  disableAv1 : Bool := false
  enableVramOption : Bool := false
  vramH264 : Bool := false
  vramH265 : Bool := false
  enableHwcodecOption : Bool := false
  hwH264 : Option String := none
  hwH265 : Option String := none
  av1Test : Bool := true
  totalMemory : Nat

/-! ## The controller -/

/-- What a controller finds on its machine and in its options. -/
structure Player where
  prefer : PreferCodec := .auto
  preferChroma : Int := 0
  disableAv1 : Bool := false
  hwH264 : Bool := false
  hwH265 : Bool := false
  vram : Bool := false
  vramH264 : Bool := false
  vramH265 : Bool := false
  mediacodec : Option (Bool × Bool) := none

/-- A codec whose decoder has failed. -/
def SupportedDecoding.mark (s : SupportedDecoding) : CodecFormat → SupportedDecoding
  | .vp8 => { s with abilityVp8 := 0 }
  | .vp9 => { s with abilityVp9 := 0 }
  | .av1 => { s with abilityAv1 := 0 }
  | .h264 => { s with abilityH264 := 0 }
  | .h265 => { s with abilityH265 := 0 }
  | .unknown => s

/-- `Decoder::supported_decodings`. -/
def supportedDecodings (p : Player) (markUnsupported : List CodecFormat) : SupportedDecoding :=
  let decoding : SupportedDecoding :=
    { abilityVp8 := 1
      abilityVp9 := 1
      abilityAv1 := if p.disableAv1 then 0 else 1
      i444 := some { vp9 := true, av1 := true }
      prefer := p.prefer.value
      preferChroma := p.preferChroma
      abilityH264 := if p.hwH264 || p.vram && p.vramH264 then 1 else 0
      abilityH265 := if p.hwH265 || p.vram && p.vramH265 then 1 else 0 }
  let decoding := match p.mediacodec with
    | some (h264, h265) =>
      { decoding with
        abilityH264 := if h264 then 1 else 0
        abilityH265 := if h265 then 1 else 0 }
    | none => decoding
  markUnsupported.foldl SupportedDecoding.mark decoding

/-! ## The host -/

structure Encoder where
  peerDecodings : Table Int SupportedDecoding := ∅
  encodeCodecFormat : CodecFormat := .vp9
  usableEncoding : Option SupportedEncoding := none

inductive EncodingUpdate where
  | update (id : Int) (decoding : SupportedDecoding)
  | remove (id : Int)
  | newOnlyVP9 (id : Int)
  | check

/-- `Encoder::supported_encoding`. -/
def supportedEncoding (m : Machine) : SupportedEncoding where
  vp8 := true
  av1 := !m.disableAv1
  i444 := some { vp9 := true, av1 := true }
  h264 := m.enableHwcodecOption && m.hwH264.isSome || m.enableVramOption && m.vramH264
  h265 := m.enableHwcodecOption && m.hwH265.isSome || m.enableVramOption && m.vramH265

/-- What the host can encode. VP9 needs no mention. -/
def SupportedEncoding.canEncode (e : SupportedEncoding) : CodecFormat → Bool
  | .vp8 => e.vp8
  | .vp9 => true
  | .av1 => e.av1
  | .h264 => e.h264
  | .h265 => e.h265
  | .unknown => false

namespace Encoder

/-- What becomes of the table of the controllers. -/
def decodingsWith (e : Encoder) : EncodingUpdate → Table Int SupportedDecoding
  | .update id decoding => e.peerDecodings.insert id decoding
  | .remove id => e.peerDecodings.remove id
  | .newOnlyVP9 id => e.peerDecodings.insert id { abilityVp9 := 1 }
  | .check => e.peerDecodings

/-- The controllers in a table. -/
def peers (t : Table Int SupportedDecoding) : List SupportedDecoding := t.entries.map Sigma.snd

/-- There is a controller, and all of them can decode a codec. -/
def allSupport (ps : List SupportedDecoding) (c : CodecFormat) : Bool :=
  0 < ps.length && ps.all fun s => 0 < s.ability c

/-- There is an encoder for a codec that all controllers can decode, `h264vram_encoding` or
`h264hw_encoding` for H264. -/
def encoding (m : Machine) (ps : List SupportedDecoding) (c : CodecFormat) (vram : Bool)
    (hw : Option String) : Bool :=
  (m.enableVramOption && allSupport ps c && vram) ||
    (if m.enableHwcodecOption && allSupport ps c then hw else none).isSome

def h264Encoding (m : Machine) (ps : List SupportedDecoding) : Bool :=
  encoding m ps .h264 m.vramH264 m.hwH264

def h265Encoding (m : Machine) (ps : List SupportedDecoding) : Bool :=
  encoding m ps .h265 m.vramH265 m.hwH265

/-- The codecs that the host finds usable. -/
def usable (m : Machine) (ps : List SupportedDecoding) : SupportedEncoding where
  vp8 := allSupport ps .vp8
  av1 := allSupport ps .av1 && !m.disableAv1
  h264 := allSupport ps .h264 && h264Encoding m ps
  h265 := allSupport ps .h265 && h265Encoding m ps

/-- The preferences that count. -/
def preferences (u : SupportedEncoding) (ps : List SupportedDecoding) : List Int :=
  (ps.filter fun s =>
    s.prefer = PreferCodec.vp9.value || s.prefer = PreferCodec.vp8.value && u.vp8 ||
      s.prefer = PreferCodec.av1.value && u.av1 || s.prefer = PreferCodec.h264.value && u.h264 ||
      s.prefer = PreferCodec.h265.value && u.h265).map SupportedDecoding.prefer

/-- The ranking of the host. -/
def autoCodec (m : Machine) (u : SupportedEncoding) : CodecFormat :=
  let autoCodec := if u.av1 && m.av1Test then .av1 else .vp9
  let autoCodec := if u.h264 then .h264 else autoCodec
  let autoCodec := if u.h265 then .h265 else autoCodec
  if autoCodec = .vp9 ∨ autoCodec = .av1 then
    if u.vp8 && m.totalMemory ≤ 4 * 1024 * 1024 * 1024 then .vp8 else autoCodec
  else autoCodec

/-- The codec of a preference. -/
def formatOf (m : Machine) (ps : List SupportedDecoding) (autoCodec : CodecFormat) :
    PreferCodec → CodecFormat
  | .vp8 => .vp8
  | .vp9 => .vp9
  | .av1 => .av1
  | .h264 => if h264Encoding m ps then .h264 else autoCodec
  | .h265 => if h265Encoding m ps then .h265 else autoCodec
  | .auto => autoCodec

/-- The codec for the controllers of a table. -/
def formatFor (m : Machine) (ps : List SupportedDecoding) : CodecFormat :=
  let mostFrequent := (mostFrequent (preferences (usable m ps) ps)).getD PreferCodec.auto.value
  formatOf m ps (autoCodec m (usable m ps)) (PreferCodec.ofValue mostFrequent)

/-- `Encoder::update`. -/
def update (m : Machine) (e : Encoder) (up : EncodingUpdate) : Encoder where
  peerDecodings := e.decodingsWith up
  usableEncoding := some (usable m (peers (e.decodingsWith up)))
  encodeCodecFormat := formatFor m (peers (e.decodingsWith up))

/-! ## What all controllers can decode -/

variable {m : Machine} {ps : List SupportedDecoding} {c : CodecFormat} {u : SupportedEncoding}

/-- Every controller can decode a codec. -/
def AllDecode (ps : List SupportedDecoding) (c : CodecFormat) : Prop := ∀ s ∈ ps, 0 < s.ability c

instance (ps : List SupportedDecoding) (c : CodecFormat) : Decidable (AllDecode ps c) :=
  inferInstanceAs (Decidable (∀ s ∈ ps, 0 < s.ability c))

/-- There are controllers, the host can encode a codec, and they can decode it. -/
def Usable (m : Machine) (ps : List SupportedDecoding) (c : CodecFormat) : Prop :=
  ps ≠ [] ∧ (supportedEncoding m).canEncode c = true ∧ AllDecode ps c

instance (m : Machine) (ps : List SupportedDecoding) (c : CodecFormat) :
    Decidable (Usable m ps c) :=
  inferInstanceAs (Decidable (_ ∧ _))

/-- The codecs that are named among the usable ones. -/
def names (u : SupportedEncoding) : CodecFormat → Bool
  | .vp8 => u.vp8
  | .av1 => u.av1
  | .h264 => u.h264
  | .h265 => u.h265
  | .vp9 => false
  | .unknown => false

theorem allSupport_iff : allSupport ps c = true ↔ ps ≠ [] ∧ AllDecode ps c := by
  rw [allSupport, Bool.and_eq_true, decide_eq_true_eq, List.length_pos_iff, List.all_eq_true]
  simp only [decide_eq_true_eq]
  rfl

theorem encoding_iff {vram : Bool} {hw : Option String} : encoding m ps c vram hw = true ↔
    allSupport ps c = true ∧
      (m.enableHwcodecOption && hw.isSome || m.enableVramOption && vram) = true := by
  unfold encoding
  cases allSupport ps c <;> cases m.enableHwcodecOption <;> cases m.enableVramOption <;>
    cases vram <;> simp

/-- The usable codecs but VP9 are named. -/
theorem names_iff : names (usable m ps) c = true ↔ c ≠ .vp9 ∧ Usable m ps c := by
  cases c with
  | vp8 =>
    show allSupport ps .vp8 = true ↔ _
    rw [allSupport_iff]
    simp [Usable, SupportedEncoding.canEncode, supportedEncoding]
  | vp9 => simp [names]
  | av1 =>
    show (allSupport ps .av1 && !m.disableAv1) = true ↔ _
    rw [Bool.and_eq_true, allSupport_iff]
    simp [Usable, SupportedEncoding.canEncode, supportedEncoding]
    tauto
  | h264 =>
    show (allSupport ps .h264 && h264Encoding m ps) = true ↔ _
    rw [Bool.and_eq_true, h264Encoding, encoding_iff, allSupport_iff]
    simp only [Usable, SupportedEncoding.canEncode, supportedEncoding]
    tauto
  | h265 =>
    show (allSupport ps .h265 && h265Encoding m ps) = true ↔ _
    rw [Bool.and_eq_true, h265Encoding, encoding_iff, allSupport_iff]
    simp only [Usable, SupportedEncoding.canEncode, supportedEncoding]
    tauto
  | unknown => simp [names, Usable, SupportedEncoding.canEncode]

/-! ## The codec that is chosen -/

/-- A preference counts where it is for VP9 or for a usable codec. -/
def Counts (m : Machine) (ps : List SupportedDecoding) (prefer : Int) : Prop :=
  prefer = 1 ∨ prefer = 4 ∧ Usable m ps .vp8 ∨ prefer = 5 ∧ Usable m ps .av1 ∨
    prefer = 2 ∧ Usable m ps .h264 ∨ prefer = 3 ∧ Usable m ps .h265

instance (m : Machine) (ps : List SupportedDecoding) (prefer : Int) :
    Decidable (Counts m ps prefer) :=
  inferInstanceAs (Decidable (_ ∨ _))

/-- The preferences that count, in the order of the table. -/
def votes (m : Machine) (ps : List SupportedDecoding) : List Int :=
  (ps.map SupportedDecoding.prefer).filter (Counts m ps)

/-- VP9 is chosen: most of the preferences that count are for it, or none counts and neither H264,
H265 nor a tested AV1 is usable, nor VP8 on a machine of at most 4 GB. -/
def PicksVp9 (m : Machine) (ps : List SupportedDecoding) : Prop :=
  Elects (votes m ps) 1 ∨ votes m ps = [] ∧ ¬ Usable m ps .h264 ∧ ¬ Usable m ps .h265 ∧
    ¬ (Usable m ps .av1 ∧ m.av1Test = true) ∧
      ¬ (Usable m ps .vp8 ∧ m.totalMemory ≤ 4 * 1024 * 1024 * 1024)

theorem usable_vp8 : (usable m ps).vp8 = true ↔ Usable m ps .vp8 :=
  (names_iff (c := .vp8)).trans (and_iff_right (by decide))

theorem usable_av1 : (usable m ps).av1 = true ↔ Usable m ps .av1 :=
  (names_iff (c := .av1)).trans (and_iff_right (by decide))

theorem usable_h264 : (usable m ps).h264 = true ↔ Usable m ps .h264 :=
  (names_iff (c := .h264)).trans (and_iff_right (by decide))

theorem usable_h265 : (usable m ps).h265 = true ↔ Usable m ps .h265 :=
  (names_iff (c := .h265)).trans (and_iff_right (by decide))

theorem preferences_eq : preferences (usable m ps) ps = votes m ps := by
  rw [preferences, votes, List.filter_map]
  congr 1
  refine List.filter_congr fun s _ => ?_
  rw [Function.comp_apply, eq_comm, ← Bool.coe_iff_coe, decide_eq_true_iff]
  simp only [Bool.or_eq_true, Bool.and_eq_true, decide_eq_true_iff, Counts, usable_vp8, usable_av1,
    usable_h264, usable_h265]
  simp only [PreferCodec.value]
  tauto

theorem autoCodec_eq (m : Machine) (u : SupportedEncoding) : autoCodec m u =
    if u.h265 then .h265
    else if u.h264 then .h264
    else if u.vp8 && m.totalMemory ≤ 4 * 1024 * 1024 * 1024 then .vp8
    else if u.av1 && m.av1Test then .av1
    else .vp9 := by
  unfold autoCodec
  cases u.h265 <;> cases u.h264 <;> cases u.av1 && m.av1Test <;> simp

/-- The ranking of the host is VP9 only where no other codec is usable. -/
theorem autoCodec_eq_vp9_iff : autoCodec m (usable m ps) = .vp9 ↔ ¬ Usable m ps .h264 ∧
    ¬ Usable m ps .h265 ∧ ¬ (Usable m ps .av1 ∧ m.av1Test = true) ∧
      ¬ (Usable m ps .vp8 ∧ m.totalMemory ≤ 4 * 1024 * 1024 * 1024) := by
  rw [autoCodec_eq, ← usable_h264, ← usable_h265, ← usable_av1, ← usable_vp8]
  split_ifs with hh265 hh264 hvp8 hav1 <;> simp_all

theorem autoCodec_usable (h : autoCodec m (usable m ps) ≠ .vp9) :
    Usable m ps (autoCodec m (usable m ps)) := by
  rw [autoCodec_eq] at h ⊢
  split_ifs at h ⊢ with hh265 hh264 hvp8 hav1
  · exact usable_h265.mp hh265
  · exact usable_h264.mp hh264
  · rw [Bool.and_eq_true] at hvp8
    exact usable_vp8.mp hvp8.1
  · rw [Bool.and_eq_true] at hav1
    exact usable_av1.mp hav1.1
  · exact absurd rfl h

theorem formatFor_of_elects {n : Int} (h : Elects (votes m ps) n) :
    (formatFor m ps = .vp9 ↔ n = 1) ∧ (formatFor m ps ≠ .vp9 → Usable m ps (formatFor m ps)) := by
  have hmem : n ∈ votes m ps := by
    obtain ⟨pre, post, hvotes, -⟩ := h
    exact hvotes ▸ List.mem_append_right _ List.mem_cons_self
  have hcounts : Counts m ps n := of_decide_eq_true (List.mem_filter.mp hmem).2
  have hformat : formatFor m ps =
      formatOf m ps (autoCodec m (usable m ps)) (PreferCodec.ofValue n) := by
    rw [formatFor, preferences_eq, mostFrequent_eq_some_iff.mpr h]
    rfl
  rw [hformat]
  obtain rfl | ⟨rfl, husable⟩ | ⟨rfl, husable⟩ | ⟨rfl, husable⟩ | ⟨rfl, husable⟩ := hcounts
  · exact ⟨iff_of_true rfl rfl, fun hne => absurd rfl hne⟩
  · exact ⟨iff_of_false nofun (by decide), fun _ => husable⟩
  · exact ⟨iff_of_false nofun (by decide), fun _ => husable⟩
  · have hencoding : h264Encoding m ps = true := by
      have hnamed := usable_h264.mpr husable
      exact (Bool.and_eq_true _ _ ▸ hnamed : _ ∧ _).2
    have hh264 : formatOf m ps (autoCodec m (usable m ps)) (PreferCodec.ofValue 2) = .h264 :=
      if_pos hencoding
    rw [hh264]
    exact ⟨iff_of_false nofun (by decide), fun _ => husable⟩
  · have hencoding : h265Encoding m ps = true := by
      have hnamed := usable_h265.mpr husable
      exact (Bool.and_eq_true _ _ ▸ hnamed : _ ∧ _).2
    have hh265 : formatOf m ps (autoCodec m (usable m ps)) (PreferCodec.ofValue 3) = .h265 :=
      if_pos hencoding
    rw [hh265]
    exact ⟨iff_of_false nofun (by decide), fun _ => husable⟩

theorem formatFor_of_nil (h : votes m ps = []) : formatFor m ps = autoCodec m (usable m ps) := by
  rw [formatFor, preferences_eq, mostFrequent_eq_none_iff.mpr h]
  rfl

/-- VP9 is chosen without a look at what the controllers can decode, and any other codec is
usable. -/
theorem formatFor_spec (m : Machine) (ps : List SupportedDecoding) :
    (formatFor m ps = .vp9 ↔ PicksVp9 m ps) ∧
      (formatFor m ps ≠ .vp9 → Usable m ps (formatFor m ps)) := by
  by_cases hnil : votes m ps = []
  · have hnone : ¬ Elects (votes m ps) 1 := by
      rintro ⟨pre, post, hvotes, -⟩
      rw [hnil] at hvotes
      exact absurd hvotes.symm (by simp)
    rw [formatFor_of_nil hnil, PicksVp9, or_iff_right hnone, and_iff_right hnil]
    exact ⟨autoCodec_eq_vp9_iff, autoCodec_usable⟩
  · obtain ⟨n, -, helects⟩ := mostFrequent_spec hnil
    obtain ⟨hvp9, hother⟩ := formatFor_of_elects helects
    refine ⟨hvp9.trans ?_, hother⟩
    rw [PicksVp9, or_iff_left (fun h => hnil h.1)]
    refine ⟨fun h => h ▸ helects, fun h => elects_unique helects h⟩

/-- The codec that is negotiated can be encoded and decoded, and no codec is published that a
controller cannot decode. -/
structure Negotiated (m : Machine) (e : Encoder) : Prop where
  encoded : (supportedEncoding m).canEncode e.encodeCodecFormat = true
  decoded : AllDecode (peers e.peerDecodings) e.encodeCodecFormat
  published : ∀ u, e.usableEncoding = some u → ∀ c, names u c = true →
    AllDecode (peers e.peerDecodings) c

theorem update_negotiated_iff (e : Encoder) (up : EncodingUpdate) :
    Negotiated m (e.update m up) ↔ AllDecode (peers (e.update m up).peerDecodings) .vp9 ∨
      ¬ PicksVp9 m (peers (e.update m up).peerDecodings) := by
  obtain ⟨hvp9, hother⟩ := formatFor_spec m (peers (e.decodingsWith up))
  have hpublished : ∀ u, (e.update m up).usableEncoding = some u → ∀ c, names u c = true →
      AllDecode (peers (e.update m up).peerDecodings) c := by
    rintro u hu c hc
    obtain rfl := Option.some.inj hu
    exact (names_iff.mp hc).2.2.2
  show _ ↔ AllDecode (peers (e.decodingsWith up)) .vp9 ∨ ¬ PicksVp9 m (peers (e.decodingsWith up))
  rw [← hvp9]
  constructor
  · intro h
    by_cases heq : formatFor m (peers (e.decodingsWith up)) = .vp9
    · exact .inl (heq ▸ h.decoded)
    · exact .inr heq
  · intro h
    by_cases heq : formatFor m (peers (e.decodingsWith up)) = .vp9
    · have hdecode := h.resolve_right (fun hne => hne heq)
      refine ⟨?_, ?_, hpublished⟩
      · show (supportedEncoding m).canEncode (formatFor m (peers (e.decodingsWith up))) = true
        rw [heq]
        rfl
      · show AllDecode (peers (e.decodingsWith up)) (formatFor m (peers (e.decodingsWith up)))
        rw [heq]
        exact hdecode
    · exact ⟨(hother heq).2.1, (hother heq).2.2, hpublished⟩

/-- Where some codec can be encoded and decoded by all, one that is gets negotiated exactly where
all controllers can decode VP9 or VP9 is not chosen. -/
theorem negotiated_iff (m : Machine) (e : Encoder) (up : EncodingUpdate) :
    ((∃ c, (supportedEncoding m).canEncode c = true ∧
        AllDecode (peers (e.update m up).peerDecodings) c) → Negotiated m (e.update m up)) ↔
      ((∃ c, (supportedEncoding m).canEncode c = true ∧
          AllDecode (peers (e.update m up).peerDecodings) c) →
        AllDecode (peers (e.update m up).peerDecodings) .vp9 ∨
          ¬ PicksVp9 m (peers (e.update m up).peerDecodings)) :=
  imp_congr_right fun _ => update_negotiated_iff e up

/-- A controller whose decoder of VP9 has failed, with no hardware to decode H264 and H265 and a
processor of 32 bits. -/
def withdrawn : SupportedDecoding := supportedDecodings { disableAv1 := true } [.vp9]

/-- A host with 8 GB to which the controller is connected. -/
def alone : Encoder := ({} : Encoder).update { totalMemory := 8 * 1024 ^ 3 } (.update 1 withdrawn)

/-- The controller decodes VP8, which the host can encode, and the host chooses VP9. -/
theorem alone_not_negotiated :
    (∃ c, (supportedEncoding { totalMemory := 8 * 1024 ^ 3 }).canEncode c = true ∧
      AllDecode (peers alone.peerDecodings) c) ∧
      ¬ Negotiated { totalMemory := 8 * 1024 ^ 3 } alone := by
  refine ⟨⟨.vp8, by decide, by decide⟩, fun h => ?_⟩
  have hdecoded : AllDecode (peers alone.peerDecodings) alone.encodeCodecFormat := h.decoded
  exact absurd hdecoded (by decide)

end Encoder

/-! ## Withdrawn codecs -/

theorem ability_mark (s : SupportedDecoding) (c d : CodecFormat) :
    (s.mark c).ability d = if c = d then 0 else s.ability d := by
  cases c <;> cases d <;> rfl

/-- A codec that a controller has marked is withdrawn, and the others stay. -/
theorem ability_supportedDecodings (p : Player) (marked : List CodecFormat) (d : CodecFormat) :
    (supportedDecodings p marked).ability d =
      if d ∈ marked then 0 else (supportedDecodings p []).ability d := by
  have hfold (s : SupportedDecoding) : (marked.foldl SupportedDecoding.mark s).ability d =
      if d ∈ marked then 0 else s.ability d := by
    induction marked generalizing s with
    | nil => simp
    | cons c marked ih =>
      rw [List.foldl_cons, ih, ability_mark]
      by_cases hcd : c = d
      · simp [hcd]
      · simp [hcd, Ne.symm hcd]
  exact hfold _

end MDesk.Negotiation
