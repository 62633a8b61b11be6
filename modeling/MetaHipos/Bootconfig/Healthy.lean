/-
  Marking an image as healthy.

  `bc_ll_set_kernel_healthy` and `bc_ll_set_rootfs_healthy` clear a bit of the
  block in memory and program the block over its old content, without erasing
  it.

  * `program_withHealthy`: this clears the `n_healthy` bits that are clear in
    memory, and no other bit of the header;
  * `wp_setHealthyOf_marked`: one call, in terms of these bits.
-/
import MetaHipos.Process.Session
import MetaHipos.Bootconfig.Update

namespace MetaHipos

open LittleEndian Process

/-! ## The `n_healthy` bits of a block -/

/-- The `n_healthy` bits of the two images. -/
abbrev Bits := BtLlParttype → BitVec 1

theorem bit_cases (x : BitVec 1) : x = 0 ∨ x = 1 := by
  have h : ∀ x : BitVec 1, x = 0 ∨ x = 1 := by decide
  exact h x

namespace Btblock

/-- The bits `n_healthy` of a header. -/
def bits (b : Btblock) : Bits := fun x => (b.info x).nHealthy

/-- The header with these bits. -/
def withHealthy (b : Btblock) (f : Bits) : Btblock := b.setHealthy (f .kernel) (f .rootfs)

variable (b : Btblock) (f g : Bits) (which : BtLlParttype)

@[simp] theorem withHealthy_bits : b.withHealthy b.bits = b := rfl

@[simp] theorem bits_withHealthy : (b.withHealthy f).bits = f := by
  funext x; cases x <;> rfl

theorem markHealthy_withHealthy :
    (b.withHealthy f).markHealthy which = b.withHealthy (Function.update f which 0) := by
  cases which <;> rfl

theorem version_withHealthy : (b.withHealthy f).version = b.version :=
  version_congr rfl rfl

/-- Clearing a bit again. -/
theorem and_update_zero (m : Bits) : (fun x => m x &&& Function.update m which 0 x) =
    Function.update m which 0 := by
  funext x
  by_cases hx : x = which
  · subst hx; simp
  · simp [hx]

theorem byte_withHealthy_and (k : ℕ) :
    (b.withHealthy f).byte k &&& (b.withHealthy g).byte k =
      (b.withHealthy fun x => f x &&& g x).byte k := byte_setHealthy_and ..

end Btblock

/-! ## Programming a page again -/

theorem program_pageOf (pg : Page) (n : ℕ) (b : Btblock) (k : ℕ) :
    pg.program (pageOf n b) k = if k < Btblock.size then pg k &&& b.byte k else pg k := by
  have hlen := Btblock.length_bytes b
  rw [Page.program, pageOf, Btblock.byte]
  simp only [List.getD_eq_getElem?_getD]
  split_ifs with hk
  · rw [List.getElem?_append_left (by omega), List.getElem?_eq_getElem (by omega)]
    rfl
  · rw [List.getElem?_append_right (by omega), List.getElem?_replicate]
    split_ifs <;> exact BitVec.and_allOnes

/-- **Programming a block over its old content ANDs the `n_healthy` bits.** -/
theorem program_withHealthy {pg : Page} {b : Btblock} {f g : Bits} (n : ℕ)
    (h : pg.hdr = b.withHealthy f) :
    (pg.program (pageOf n (b.withHealthy g))).hdr = b.withHealthy fun x => f x &&& g x := by
  refine Btblock.eq_of_byte fun k hk => ?_
  have hpg : pg k = (b.withHealthy f).byte k := by rw [← h]; exact (Btblock.byte_ofBytes pg hk).symm
  rw [Page.hdr, Btblock.byte_ofBytes _ hk, program_pageOf, if_pos hk, hpg,
    Btblock.byte_withHealthy_and]

/-! ## One call -/

/-- The block `i` in memory and on flash: `base`, but for the bits. -/
structure Marked (base : Btblock) (i : ℕ) (m f : Bits) (s : Bootconfig × World) : Prop where
  initialised : s.1.initialised = true
  lt : i < s.1.info.ebCnt
  mem : s.1.blocks i = base.withHealthy m
  flash : (s.2.flash i).hdr = base.withHealthy f

section
variable {base : Btblock} {i : ℕ} {m f : Bits} {bc : Bootconfig} {w : World}
  {which : BtLlParttype} {J : Judge Op Resp Stop World}

/-- What a call does, on the bits. -/
theorem wp_setHealthyOf_marked {Q : ℤ × Bootconfig → World → Prop}
    (h : Marked base i m f (bc, w)) (hinv : ∀ w, J.inv w)
    (hio : bc.info.minIoSize < Btblock.size → ∀ w, J.stop .fault w)
    (hdone : m which = 0 → Q (0, bc) w)
    (hmalloc : m which = 1 → J.ok (.malloc bc.info.minIoSize) false → ∀ w', w'.flash = w.flash →
      Q (-1, bc.setBlock i (base.withHealthy (Function.update m which 0))) w')
    (hwrite : m which = 1 → J.ok (.malloc bc.info.minIoSize) true → ∀ (o : Outcome) (w' : World),
      let page := pageOf bc.info.minIoSize (base.withHealthy (Function.update m which 0))
      J.ok (.mtdWrite i page) o → w'.flash = flashAfter w.flash (.mtdWrite i page) o →
      writes w'.log = (i, page) :: writes w.log → erases w'.log = erases w.log →
      Q (if o.ret < 0 then 1 else 0,
        bc.setBlock i (base.withHealthy (Function.update m which 0))) w') :
    wp mtd J (setHealthyOf which bc i) Q w := by
  have hmem : bc.blocks i = base.withHealthy m := h.mem
  have hbit : ((bc.blocks i).info which).nHealthy = m which := by
    rw [hmem]; exact congrFun (Btblock.bits_withHealthy base m) which
  rw [wp_setHealthyOf h.initialised h.lt (b := base.withHealthy (Function.update m which 0))
    (by rw [hmem, Btblock.markHealthy_withHealthy]), hbit]
  refine ⟨fun hm r hr => ⟨hinv _, fun h0 => ?_, fun h1 => ⟨fun hlt => hio hlt _, fun _ o ho =>
    ⟨hinv _, ?_⟩⟩⟩, fun hm => hdone ((bit_cases _).resolve_right hm)⟩
  · subst h0; exact hmalloc hm hr _ rfl
  · subst h1; exact hwrite hm hr o _ ho rfl rfl rfl

end

end MetaHipos
