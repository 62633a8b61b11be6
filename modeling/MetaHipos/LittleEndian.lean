/-
  Little-endian words as bytes.

  `byteOf w k` is byte `k` of a word, the least significant one first; `le16`
  and `le32` put words together again.  The conversions are inverse to each
  other.
-/
import Mathlib.Tactic.Common

namespace LittleEndian

/-- An unsigned char. -/
abbrev Byte := BitVec 8

/-- Byte `k` of the word `w`. -/
def byteOf {n : ℕ} (w : BitVec n) (k : ℕ) : Byte := w.extractLsb' (8 * k) 8

/-- The 16-bit word with the bytes `b₀` (least significant) and `b₁`. -/
def le16 (b₀ b₁ : Byte) : BitVec 16 := b₁ ++ b₀

/-- The 32-bit word with the bytes `b₀` (least significant) to `b₃`. -/
def le32 (b₀ b₁ b₂ b₃ : Byte) : BitVec 32 := b₃ ++ (b₂ ++ (b₁ ++ b₀))

@[simp] theorem le16_byteOf (w : BitVec 16) : le16 (byteOf w 0) (byteOf w 1) = w := by
  refine BitVec.eq_of_getLsbD_eq fun i hi => ?_
  simp only [le16, byteOf, BitVec.getLsbD_append, BitVec.getLsbD_extractLsb']
  grind

@[simp] theorem le32_byteOf (w : BitVec 32) :
    le32 (byteOf w 0) (byteOf w 1) (byteOf w 2) (byteOf w 3) = w := by
  refine BitVec.eq_of_getLsbD_eq fun i hi => ?_
  simp only [le32, byteOf, BitVec.getLsbD_append, BitVec.getLsbD_extractLsb']
  grind

theorem byteOf_le16 (b₀ b₁ : Byte) :
    byteOf (le16 b₀ b₁) 0 = b₀ ∧ byteOf (le16 b₀ b₁) 1 = b₁ := by
  constructor <;> refine BitVec.eq_of_getLsbD_eq fun i hi => ?_ <;>
    simp only [le16, byteOf, BitVec.getLsbD_append, BitVec.getLsbD_extractLsb'] <;> grind

theorem byteOf_le32 (b₀ b₁ b₂ b₃ : Byte) :
    byteOf (le32 b₀ b₁ b₂ b₃) 0 = b₀ ∧ byteOf (le32 b₀ b₁ b₂ b₃) 1 = b₁ ∧
      byteOf (le32 b₀ b₁ b₂ b₃) 2 = b₂ ∧ byteOf (le32 b₀ b₁ b₂ b₃) 3 = b₃ := by
  refine ⟨?_, ?_, ?_, ?_⟩ <;> refine BitVec.eq_of_getLsbD_eq fun i hi => ?_ <;>
    simp only [le32, byteOf, BitVec.getLsbD_append, BitVec.getLsbD_extractLsb'] <;> grind

/-- Bytewise, as bitwise. -/
theorem byteOf_and {n : ℕ} (v w : BitVec n) (k : ℕ) :
    byteOf (v &&& w) k = byteOf v k &&& byteOf w k := by
  refine BitVec.eq_of_getLsbD_eq fun i hi => ?_
  simp [byteOf, hi]

end LittleEndian
