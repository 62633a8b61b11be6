/-
  Cropping in the video sinks of gstreamer-imx, as patched.

  The crops on the left and at the top are signed, those on the right and at the
  bottom are not; the frame size is signed.  Each coordinate is limited on one
  side only.

  * `sourceRegion`: the region of the frame that is shown;
  * `showFrameCrop`: a frame without crop metadata, in
    `gst_imx_blitter_video_sink_show_frame`;
  * `sourceRegion_valid_iff`: the region is one of the frame exactly if the crops
    of either direction leave something of it.
-/
import Mathlib.Algebra.Group.Nat.Defs
import Mathlib.Data.Int.Notation
import Mathlib.Data.Nat.Notation
import Mathlib.Order.Lattice

namespace MetaHipos.Gstreamer

/-- `GstImxRegion` -/
structure Region where
  x1 : Int32
  y1 : Int32
  x2 : Int32
  y2 : Int32
deriving DecidableEq, Repr

/-- `MAX` and `MIN` of GLib. -/
def MAX (a b : Int32) : Int32 := if a > b then a else b

/-- `MIN` of GLib, for `gint`. -/
def MIN (a b : Int32) : Int32 := if a < b then a else b

/-- The fields of `GstImxBlitterVideoSink` that cropping uses; `width` and
    `height` are those of `input_video_info`.  The properties `right-crop` and
    `bottom-crop` are limited to `G_MAXINT`. -/
structure VideoSink where
  leftCrop : Int32
  topCrop : Int32
  rightCrop : UInt32
  bottomCrop : UInt32
  rightCrop_lt : rightCrop.toNat < 2 ^ 31
  bottomCrop_lt : bottomCrop.toNat < 2 ^ 31
  width : Int32
  height : Int32
  lastFrameWithCropdata : Bool
  lastSourceRegion : Region
  canvasNeedsUpdate : Bool

namespace VideoSink

/-- The region the crops leave, in unsigned arithmetic where one side of a
    difference is unsigned. -/
def croppedRegion (s : VideoSink) : Region where
  x1 := s.leftCrop
  y1 := s.topCrop
  x2 := (s.width.toUInt32 - s.rightCrop).toInt32
  y2 := (s.height.toUInt32 - s.bottomCrop).toInt32

/-- `source_region`: the region that "does not exceed valid bounds". -/
def sourceRegion (s : VideoSink) : Region where
  x1 := MAX 0 s.croppedRegion.x1
  y1 := MAX 0 s.croppedRegion.y1
  x2 := MIN s.width s.croppedRegion.x2
  y2 := MIN s.height s.croppedRegion.y2

/-- The branch of `gst_imx_blitter_video_sink_show_frame` for a frame without
    crop metadata, if a crop is set: the sink, and the region the canvas is
    updated to. -/
def showFrameCrop (s : VideoSink) : VideoSink × Option Region :=
  let s' := if !s.lastFrameWithCropdata || s.sourceRegion ≠ s.lastSourceRegion then
      { s with lastSourceRegion := s.sourceRegion, canvasNeedsUpdate := true }
    else s
  let s' := { s' with lastFrameWithCropdata := true }
  (s', if s'.canvasNeedsUpdate then some s'.lastSourceRegion else none)

/-- What is shown is the region the crops leave. -/
theorem showFrameCrop_eq (s : VideoSink) :
    s.showFrameCrop.1.lastSourceRegion = s.sourceRegion ∧
      ∀ r, s.showFrameCrop.2 = some r → r = s.sourceRegion := by
  unfold showFrameCrop
  split
  · exact ⟨rfl, fun r hr => (Option.some.inj hr).symm⟩
  · rename_i hsame
    have hlast : s.lastSourceRegion = s.sourceRegion := by
      by_contra hne
      exact hsame (by simp [Ne.symm hne])
    refine ⟨hlast, fun r hr => ?_⟩
    rw [← hlast]
    dsimp only at hr
    split at hr
    · exact (Option.some.inj hr).symm
    · cases hr

/-! ## One direction -/

section
variable {size low : Int32} {crop : UInt32}

theorem toInt_MAX (a b : Int32) : (MAX a b).toInt = max a.toInt b.toInt := by
  unfold MAX
  split
  · rename_i h
    have hlt := Int32.lt_iff_toInt_lt.1 h
    omega
  · rename_i h
    have hle := mt Int32.lt_iff_toInt_lt.2 h
    omega

theorem toInt_MIN (a b : Int32) : (MIN a b).toInt = min a.toInt b.toInt := by
  unfold MIN
  split
  · rename_i h
    have hlt := Int32.lt_iff_toInt_lt.1 h
    omega
  · rename_i h
    have hle := mt Int32.lt_iff_toInt_lt.2 h
    omega

/-- The difference does not wrap: both sides are less than `2 ^ 31`. -/
theorem toInt_size_sub (hs : 0 ≤ size.toInt) (hc : crop.toNat < 2 ^ 31) :
    (size.toUInt32 - crop).toInt32.toInt = size.toInt - crop.toNat := by
  have hsub : (size.toUInt32 - crop).toInt32.toInt = (size.toBitVec - crop.toBitVec).toInt := rfl
  have hsize : size.toBitVec.toInt = size.toInt := rfl
  have hcrop : crop.toBitVec.toInt = crop.toNat :=
    BitVec.toInt_eq_toNat_of_lt (Nat.mul_lt_mul_of_pos_left hc (by decide))
  have hlt := size.toInt_lt
  rw [hsub, BitVec.toInt_sub, hsize, hcrop, Int.bmod_def]
  omega

/-- The limits of one direction, `[MAX 0 low, MIN size (size - crop)]`, are in
    order exactly if the crops leave something of it. -/
theorem limits_valid_iff (hs : 1 ≤ size) (hc : crop.toNat < 2 ^ 31) :
    (0 ≤ MAX 0 low ∧ MAX 0 low ≤ MIN size (size.toUInt32 - crop).toInt32 ∧
        MIN size (size.toUInt32 - crop).toInt32 ≤ size) ↔
      max 0 low.toInt + crop.toNat ≤ size.toInt := by
  have hpos : 1 ≤ size.toInt := Int32.le_iff_toInt_le.1 hs
  have hzero : (0 : Int32).toInt = 0 := rfl
  simp only [Int32.le_iff_toInt_le, toInt_MAX, toInt_MIN, hzero,
    toInt_size_sub (Int.le_trans (by decide) hpos) hc]
  omega

/-- Limits that are not moved are where the crops say. -/
theorem limits_exact (hs : 1 ≤ size) (hc : crop.toNat < 2 ^ 31) (hlow : 0 ≤ low) :
    (MAX 0 low).toInt = low.toInt ∧
      (MIN size (size.toUInt32 - crop).toInt32).toInt = size.toInt - crop.toNat := by
  have hpos : 1 ≤ size.toInt := Int32.le_iff_toInt_le.1 hs
  have hlow' : 0 ≤ low.toInt := Int32.le_iff_toInt_le.1 hlow
  have hzero : (0 : Int32).toInt = 0 := rfl
  simp only [toInt_MAX, toInt_MIN, hzero, toInt_size_sub (Int.le_trans (by decide) hpos) hc]
  omega

end

/-! ## The region -/

/-- The region is one of the frame. -/
def ValidRegion (s : VideoSink) : Prop :=
  (0 ≤ s.sourceRegion.x1 ∧ s.sourceRegion.x1 ≤ s.sourceRegion.x2 ∧
      s.sourceRegion.x2 ≤ s.width) ∧
    (0 ≤ s.sourceRegion.y1 ∧ s.sourceRegion.y1 ≤ s.sourceRegion.y2 ∧
      s.sourceRegion.y2 ≤ s.height)

/-- Crops that are not negative and fit into the frame are taken as they are. -/
def ExactRegion (s : VideoSink) : Prop :=
  0 ≤ s.leftCrop → 0 ≤ s.topCrop → s.leftCrop.toInt + s.rightCrop.toNat ≤ s.width.toInt →
    s.topCrop.toInt + s.bottomCrop.toNat ≤ s.height.toInt →
    (s.sourceRegion.x1.toInt = s.leftCrop.toInt ∧
        s.sourceRegion.x2.toInt = s.width.toInt - s.rightCrop.toNat) ∧
      s.sourceRegion.y1.toInt = s.topCrop.toInt ∧
        s.sourceRegion.y2.toInt = s.height.toInt - s.bottomCrop.toNat

variable {s : VideoSink}

theorem exactRegion (hw : 1 ≤ s.width) (hh : 1 ≤ s.height) : s.ExactRegion := by
  intro hl ht _ _
  exact ⟨limits_exact hw s.rightCrop_lt hl, limits_exact hh s.bottomCrop_lt ht⟩

/-- **The region is one of the frame exactly if the crops of either direction, a
    negative one being none, leave something of it.** -/
theorem sourceRegion_valid_iff (hw : 1 ≤ s.width) (hh : 1 ≤ s.height) :
    s.ValidRegion ∧ s.ExactRegion ↔
      max 0 s.leftCrop.toInt + s.rightCrop.toNat ≤ s.width.toInt ∧
        max 0 s.topCrop.toInt + s.bottomCrop.toNat ≤ s.height.toInt := by
  rw [and_iff_left (exactRegion hw hh)]
  exact and_congr (limits_valid_iff hw s.rightCrop_lt) (limits_valid_iff hh s.bottomCrop_lt)

/-- A sink that shows frames of the given size with the given crops. -/
def ofCrops (width height left top : Int32) (right bottom : UInt32)
    (hr : right.toNat < 2 ^ 31) (hb : bottom.toNat < 2 ^ 31) : VideoSink :=
  ⟨left, top, right, bottom, hr, hb, width, height, false, ⟨0, 0, 0, 0⟩, true⟩

/-- A quarter of the frame. -/
theorem sourceRegion_quarter :
    (ofCrops 640 480 160 120 160 120 (by decide) (by decide)).ValidRegion :=
  ((sourceRegion_valid_iff (by decide) (by decide)).2 (by decide)).1

/-- Crops that meet behind each other. -/
theorem sourceRegion_not_valid : ¬ ∀ s : VideoSink, 1 ≤ s.width → 1 ≤ s.height →
    ¬ (s.leftCrop = 0 ∧ s.topCrop = 0 ∧ s.rightCrop = 0 ∧ s.bottomCrop = 0) →
    s.ValidRegion ∧ s.ExactRegion := by
  intro h
  have hs := h (ofCrops 640 480 400 0 400 0 (by decide) (by decide)) (by decide) (by decide)
    (by decide)
  exact absurd hs.1.1.2.1 (by decide)

end VideoSink

end MetaHipos.Gstreamer
