/-
  The boot configuration block of `lowlevel.h` and its bytes.

  `struct btinfo` packs 13 reserved bits and three flags into 16 bits, the
  first member in the least significant bits (GCC, little-endian); `struct
  btblock` packs the magic, two 32-bit words and two `btinfo`s into 16 bytes.

  * `ofBytes_byte`, `byte_ofBytes`: the layout loses nothing;
  * `byte_setHealthy_and`: blocks that differ in `n_healthy` bits only are
    ANDed bytewise by ANDing these bits, which is what programming a NAND page
    over its old content does.
-/
import Mathlib.Tactic.IntervalCases
import MetaHipos.LittleEndian

namespace MetaHipos

open LittleEndian

/-- `enum bt_ll_parttype` -/
inductive BtLlParttype where
  | kernel
  | rootfs
deriving DecidableEq, Repr

/-- The image that is not `which`. -/
def BtLlParttype.other : BtLlParttype → BtLlParttype
  | .kernel => .rootfs
  | .rootfs => .kernel

/-- `struct btinfo` -/
@[ext] structure Btinfo where
  reserved : BitVec 13
  partition : BitVec 1
  nBooted : BitVec 1
  nHealthy : BitVec 1
deriving DecidableEq, Repr

/-- `char magic[4]` -/
@[ext] structure Magic where
  c0 : Byte
  c1 : Byte
  c2 : Byte
  c3 : Byte
deriving DecidableEq, Repr

/-- `"Boot"` -/
def Magic.boot : Magic := ⟨0x42, 0x6f, 0x6f, 0x74⟩

/-- `"BAD!"` -/
def Magic.bad : Magic := ⟨0x42, 0x41, 0x44, 0x21⟩

/-- `struct btblock` -/
@[ext] structure Btblock where
  magic : Magic
  epoch : BitVec 32
  timestamp : BitVec 32
  kernel : Btinfo
  rootfs : Btinfo
deriving DecidableEq, Repr

namespace Btinfo

/-- The 16 bits of a `btinfo`. -/
def word (bi : Btinfo) : BitVec 16 :=
  bi.nHealthy ++ (bi.nBooted ++ (bi.partition ++ bi.reserved))

/-- The bit fields in a word. -/
def ofWord (w : BitVec 16) : Btinfo :=
  ⟨w.extractLsb' 0 13, w.extractLsb' 13 1, w.extractLsb' 14 1, w.extractLsb' 15 1⟩

@[simp] theorem word_ofWord (w : BitVec 16) : (ofWord w).word = w := by
  refine BitVec.eq_of_getLsbD_eq fun i hi => ?_
  simp only [ofWord, word, BitVec.getLsbD_append, BitVec.getLsbD_extractLsb']
  grind

@[simp] theorem ofWord_word (bi : Btinfo) : ofWord bi.word = bi := by
  ext i hi <;> rw [← BitVec.getLsbD_eq_getElem, ← BitVec.getLsbD_eq_getElem] <;>
    simp only [ofWord, word, BitVec.getLsbD_append, BitVec.getLsbD_extractLsb'] <;> grind

/-- The bitwise AND, field by field. -/
def and (bi bi' : Btinfo) : Btinfo :=
  ⟨bi.reserved &&& bi'.reserved, bi.partition &&& bi'.partition, bi.nBooted &&& bi'.nBooted,
    bi.nHealthy &&& bi'.nHealthy⟩

theorem word_and_word (bi bi' : Btinfo) : (bi.and bi').word = bi.word &&& bi'.word := by
  refine BitVec.eq_of_getLsbD_eq fun i hi => ?_
  simp only [and, word, BitVec.getLsbD_append, BitVec.getLsbD_and]
  split_ifs <;> rfl

/-- Only the `n_healthy` bit changes where all other fields agree. -/
theorem and_nHealthy (bi : Btinfo) (h h' : BitVec 1) :
    { bi with nHealthy := h }.and { bi with nHealthy := h' } =
      { bi with nHealthy := h &&& h' } := by
  simp [and]

end Btinfo

namespace Btblock

/-- A zeroed block. -/
def zero : Btblock := ⟨⟨0, 0, 0, 0⟩, 0, 0, ⟨0, 0, 0, 0⟩, ⟨0, 0, 0, 0⟩⟩

/-- `&b->kernel` or `&b->rootfs` -/
def info (b : Btblock) : BtLlParttype → Btinfo
  | .kernel => b.kernel
  | .rootfs => b.rootfs

/-- The header with the information on one image replaced. -/
def setInfo (b : Btblock) (which : BtLlParttype) (bi : Btinfo) : Btblock :=
  match which with
  | .kernel => { b with kernel := bi }
  | .rootfs => { b with rootfs := bi }

section
variable (b : Btblock) (which : BtLlParttype) (bi : Btinfo)

@[simp] theorem setInfo_magic : (b.setInfo which bi).magic = b.magic := by cases which <;> rfl
@[simp] theorem setInfo_epoch : (b.setInfo which bi).epoch = b.epoch := by cases which <;> rfl
@[simp] theorem setInfo_info : (b.setInfo which bi).info which = bi := by cases which <;> rfl

end

/-- The block with the `n_healthy` flag of one image cleared: it is healthy. -/
def markHealthy (b : Btblock) (which : BtLlParttype) : Btblock :=
  b.setInfo which { b.info which with nHealthy := 0 }

/-- The block with the given `n_healthy` bits. -/
def setHealthy (b : Btblock) (k r : BitVec 1) : Btblock :=
  { b with kernel := { b.kernel with nHealthy := k }, rootfs := { b.rootfs with nHealthy := r } }

/-! ## Bytes -/

/-- `sizeof(struct btblock)` -/
def size : ℕ := 16

/-- The bytes of a block in memory and on flash. -/
def bytes (b : Btblock) : List Byte :=
  [b.magic.c0, b.magic.c1, b.magic.c2, b.magic.c3,
    byteOf b.epoch 0, byteOf b.epoch 1, byteOf b.epoch 2, byteOf b.epoch 3,
    byteOf b.timestamp 0, byteOf b.timestamp 1, byteOf b.timestamp 2, byteOf b.timestamp 3,
    byteOf b.kernel.word 0, byteOf b.kernel.word 1, byteOf b.rootfs.word 0, byteOf b.rootfs.word 1]

@[simp] theorem length_bytes (b : Btblock) : b.bytes.length = size := rfl

/-- Byte `k` of a block. -/
def byte (b : Btblock) (k : ℕ) : Byte := b.bytes.getD k 0

theorem byte_of_ge (b : Btblock) {k : ℕ} (hk : size ≤ k) : b.byte k = 0 := by
  rw [byte, List.getD_eq_getElem?_getD, List.getElem?_eq_none (by simpa using hk)]; rfl

/-- The block with the bytes `f 0`, …, `f 15`. -/
def ofBytes (f : ℕ → Byte) : Btblock where
  magic := ⟨f 0, f 1, f 2, f 3⟩
  epoch := le32 (f 4) (f 5) (f 6) (f 7)
  timestamp := le32 (f 8) (f 9) (f 10) (f 11)
  kernel := .ofWord (le16 (f 12) (f 13))
  rootfs := .ofWord (le16 (f 14) (f 15))

theorem ofBytes_congr {f g : ℕ → Byte} (h : ∀ k < size, f k = g k) : ofBytes f = ofBytes g := by
  simp only [size] at h
  simp only [ofBytes, h 0, h 1, h 2, h 3, h 4, h 5, h 6, h 7, h 8, h 9, h 10, h 11, h 12, h 13,
    h 14, h 15, Nat.reduceLT]

/-- A block is read back from its bytes. -/
@[simp] theorem ofBytes_byte (b : Btblock) : ofBytes b.byte = b := by
  simp [ofBytes, byte, bytes]

/-- The bytes of a block that was read are the bytes it was read from. -/
theorem byte_ofBytes (f : ℕ → Byte) {k : ℕ} (hk : k < size) : (ofBytes f).byte k = f k := by
  have h16 := byteOf_le16
  have h32 := byteOf_le32
  simp only [size] at hk
  interval_cases k <;> simp [byte, bytes, ofBytes, h16, h32]

/-- Blocks are told apart by their 16 bytes. -/
theorem eq_of_byte {b b' : Btblock} (h : ∀ k < size, b.byte k = b'.byte k) : b = b' := by
  rw [← ofBytes_byte b, ← ofBytes_byte b']
  exact ofBytes_congr h

/-- The bitwise AND, field by field. -/
def and (b b' : Btblock) : Btblock where
  magic := ⟨b.magic.c0 &&& b'.magic.c0, b.magic.c1 &&& b'.magic.c1, b.magic.c2 &&& b'.magic.c2,
    b.magic.c3 &&& b'.magic.c3⟩
  epoch := b.epoch &&& b'.epoch
  timestamp := b.timestamp &&& b'.timestamp
  kernel := b.kernel.and b'.kernel
  rootfs := b.rootfs.and b'.rootfs

/-- **Writing a header over another one** ANDs all fields. -/
theorem byte_and (b b' : Btblock) {k : ℕ} (hk : k < size) :
    (b.and b').byte k = b.byte k &&& b'.byte k := by
  simp only [size] at hk
  interval_cases k <;> simp [byte, bytes, and, Btinfo.word_and_word, byteOf_and]

theorem setHealthy_and (b : Btblock) (k r k' r' : BitVec 1) :
    (b.setHealthy k r).and (b.setHealthy k' r') = b.setHealthy (k &&& k') (r &&& r') := by
  simp [and, setHealthy, Btinfo.and_nHealthy]

/-- **Rewriting a header only ANDs `n_healthy` bits.** -/
theorem byte_setHealthy_and (b : Btblock) (k r k' r' : BitVec 1) (j : ℕ) :
    (b.setHealthy k r).byte j &&& (b.setHealthy k' r').byte j =
      (b.setHealthy (k &&& k') (r &&& r')).byte j := by
  by_cases hj : j < size
  · rw [← byte_and _ _ hj, setHealthy_and]
  · -- there are no bytes behind the header
    have h := fun b : Btblock => byte_of_ge b (Nat.not_lt.1 hj)
    simp [h]

end Btblock

end MetaHipos
