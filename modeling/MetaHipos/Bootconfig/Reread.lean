/-
  Reading all blocks again.

  `bc_ll_reread` should forget what was in memory: it clears the array before
  it reads the blocks.  It clears `eb_cnt` times the size of a pointer, though,
  and a block that cannot be read keeps what is left of it.

  Each block is checked and read once, so the outcomes of a run are given by
  one response for each call.
-/
import MetaHipos.Bootconfig.Update

namespace MetaHipos

open LittleEndian Process

namespace Btblock

theorem zero_byte (k : ℕ) : zero.byte k = 0 := by
  by_cases hk : k < size
  · simp only [size] at hk
    interval_cases k <;> rfl
  · exact byte_of_ge zero (Nat.not_lt.1 hk)

theorem clear_byte (b : Btblock) {n k : ℕ} (hk : k < size) :
    (b.clear n).byte k = if k < n then 0 else b.byte k := byte_ofBytes _ hk

/-- A block is forgotten if its bytes from `n` on are zero. -/
theorem clear_eq_zero (b : Btblock) (n : ℕ) :
    b.clear n = zero ↔ ∀ k < size, n ≤ k → b.byte k = 0 := by
  constructor
  · intro h k hk hn
    have := clear_byte b (n := n) hk
    rw [h, zero_byte, if_neg (by omega)] at this
    exact this.symm
  · refine fun h => eq_of_byte fun k hk => ?_
    rw [clear_byte b hk, zero_byte]
    split_ifs with hn
    exacts [rfl, h k hk (by omega)]

theorem withMagic_byte (b : Btblock) (m : Magic) {k : ℕ} (hk : 4 ≤ k) :
    { b with magic := m }.byte k = b.byte k := by
  obtain ⟨k, rfl⟩ := Nat.exists_eq_add_of_le' hk
  rfl

/-- Below a magic, only the other bytes matter. -/
theorem withMagic_eq_iff (b b' : Btblock) (m : Magic) :
    { b with magic := m } = { b' with magic := m } ↔
      ∀ k < size, 4 ≤ k → b.byte k = b'.byte k := by
  constructor
  · intro h k _ hk
    rw [← withMagic_byte b m hk, h, withMagic_byte b' m hk]
  · refine fun h => eq_of_byte fun k hk => ?_
    rcases Nat.lt_or_ge k 4 with h4 | h4
    · interval_cases k <;> rfl
    · rw [withMagic_byte b m h4, withMagic_byte b' m h4, h k hk h4]

end Btblock

/-- The outcome of `mtd_is_bad` for block `i`. -/
def isBadOf (r : Response Resp) (i : ℕ) : ℤ := r (.mtdIsBad i)

/-- The outcome of `mtd_read` for block `i`. -/
def readOf (r : Response Resp) (i : ℕ) : ℤ := r (.mtdRead i)

/-- What the block `b` in memory becomes when it is read from the page `pg`,
    where `mtd_is_bad` returns `x` and `mtd_read` returns `e`. -/
def readInto (x e : ℤ) (pg : Page) (b : Btblock) : Btblock :=
  if x < 0 then b
  else if 0 < x then { b with magic := .bad }
  else if Delivers e then pg.hdr
  else b

/-- The byte `k` of a block is not overwritten by reading it. -/
def Unread (x e : ℤ) (k : ℕ) : Prop := x < 0 ∨ (0 < x ∧ 4 ≤ k) ∨ (x = 0 ∧ ¬ Delivers e)

/-- Reading into a block whose first `m` bytes are cleared is like reading
    into a zeroed block if the other bytes are overwritten or zero. -/
theorem readInto_eq_iff (x e : ℤ) (pg : Page) (b : Btblock) (m : ℕ) :
    readInto x e pg (b.clear m) = readInto x e pg .zero ↔
      ∀ k < Btblock.size, m ≤ k → Unread x e k → b.byte k = 0 := by
  have hclear := Btblock.clear_eq_zero b m
  rcases lt_trichotomy x 0 with h | rfl | h
  · have hu : ∀ k, Unread x e k := fun k => Or.inl h
    simp only [readInto, if_pos h, hclear, hu, true_imp_iff]
  · by_cases hd : Delivers e
    · have hu : ∀ k, ¬ Unread 0 e k := fun k hk => by simp [Unread, hd] at hk
      simp [readInto, hd, hu]
    · have hu : ∀ k, Unread 0 e k := fun k => Or.inr (Or.inr ⟨rfl, hd⟩)
      simp only [readInto, lt_irrefl, if_false, hd, hclear, hu, true_imp_iff]
  · rw [readInto, readInto, if_neg h.not_gt, if_pos h, if_neg h.not_gt, if_pos h,
      Btblock.withMagic_eq_iff]
    refine forall₂_congr fun k hk => ?_
    have hu : Unread x e k ↔ 4 ≤ k := by unfold Unread; omega
    rw [hu, Btblock.clear_byte b hk, Btblock.zero_byte]
    split_ifs with hm
    · exact ⟨fun _ h' => absurd h' (by omega), fun _ _ => rfl⟩
    · exact ⟨fun h' _ h4 => h' h4, fun h' h4 => h' (by omega) h4⟩

variable {bc : Bootconfig} {w : World} {r : Response Resp} {tgt : Target}

/-- `_read_bootconfig` reads every block once. -/
theorem exec_readBootconfig (bc : Bootconfig) (w : World) (r : Response Resp) :
    ∃ code bc' w' ω', exec mtd (readBootconfig bc) w (fun _ => r) = (.done (code, bc'), w', ω') ∧
      ∀ i < bc.info.ebCnt,
        bc'.blocks i = readInto (isBadOf r i) (readOf r i) (w.flash i) (bc.blocks i) := by
  let J : Judge Op Resp Stop World := ⟨fun o x => x = r o, fun _ => True, fun _ _ => False⟩
  have h : wp mtd J (readBootconfig bc) (fun rb _ => ∀ i < bc.info.ebCnt,
      rb.2.blocks i = readInto (isBadOf r i) (readOf r i) (w.flash i) (bc.blocks i)) w := by
    refine wp_reading
      (fun i _ b => b = readInto (isBadOf r i) (readOf r i) (w.flash i) (bc.blocks i)) rfl
      (fun _ _ _ _ _ _ => trivial) trivial ?_ ?_ ?_ ?_
    · intro i _ x (hx : x = isBadOf r i) hneg
      rw [readInto, ← hx, if_pos hneg]
    · intro i _ x (hx : x = isBadOf r i) hpos
      rw [readInto, ← hx, if_neg (by omega), if_pos hpos]
    · intro i _ (h0 : 0 = isBadOf r i) e (he : e = readOf r i)
      simp only [readInto, ← h0, ← he, lt_irrefl, if_false]
    · intro code bc' w' _ h i hi
      exact (h.blocks i hi).choose_spec
  have hend := wp_exec h (ω := fun _ => r) fun _ _ => rfl
  generalize exec mtd (readBootconfig bc) w (fun _ => r) = x at hend ⊢
  obtain ⟨⟨code, bc'⟩ | e, w', ω'⟩ := x
  · exact ⟨code, bc', w', ω', rfl, hend⟩
  · exact hend.elim

/-! ## What is forgotten -/

/-- `bc_ll_reread` leaves the array that reading into zeroed memory leaves,
    and thus the same current config. -/
def RereadForgets (tgt : Target) (bc : Bootconfig) (w : World) (r : Response Resp) : Prop :=
  ∃ code bc₁ w₁ ω₁ code₀ bc₀ w₀ ω₀,
    exec mtd (bcLlReread tgt bc) w (fun _ => r) = (.done (code, bc₁), w₁, ω₁) ∧
    exec mtd (readBootconfig { bc with blocks := fun _ => .zero }) w (fun _ => r) =
      (.done (code₀, bc₀), w₀, ω₀) ∧
    (∀ i < bc.info.ebCnt, bc₁.blocks i = bc₀.blocks i) ∧
    currentIdx bc₁.blocks bc.info.ebCnt = currentIdx bc₀.blocks bc.info.ebCnt

/-- The array after `bc_ll_reread`. -/
theorem exec_bcLlReread (hinit : bc.initialised = true) (tgt : Target) (w : World)
    (r : Response Resp) :
    ∃ code bc' w' ω', exec mtd (bcLlReread tgt bc) w (fun _ => r) = (.done (code, bc'), w', ω') ∧
      ∀ i < bc.info.ebCnt, bc'.blocks i = readInto (isBadOf r i) (readOf r i) (w.flash i)
        ((bc.blocks i).clear (bc.info.ebCnt * tgt.ptrSize - Btblock.size * i)) := by
  rw [bcLlReread, if_neg (by simp [hinit])]
  exact exec_readBootconfig (bc.memset (bc.info.ebCnt * tgt.ptrSize)) w r

/-- **`bc_ll_reread` forgets exactly if** all bytes that it does not clear and
    that are not overwritten by reading were zero before. -/
theorem rereadForgets_iff (hinit : bc.initialised = true) : RereadForgets tgt bc w r ↔
    ∀ i < bc.info.ebCnt, ∀ k < Btblock.size, bc.info.ebCnt * tgt.ptrSize ≤ Btblock.size * i + k →
      Unread (isBadOf r i) (readOf r i) k → (bc.blocks i).byte k = 0 := by
  obtain ⟨code, bc₁, w₁, ω₁, h₁, hb₁⟩ := exec_bcLlReread hinit tgt w r
  obtain ⟨code₀, bc₀, w₀, ω₀, h₀, hb₀⟩ :=
    exec_readBootconfig { bc with blocks := fun _ => .zero } w r
  have hkey : (∀ i < bc.info.ebCnt, bc₁.blocks i = bc₀.blocks i) ↔
      ∀ i < bc.info.ebCnt, ∀ k < Btblock.size, bc.info.ebCnt * tgt.ptrSize ≤ Btblock.size * i + k →
        Unread (isBadOf r i) (readOf r i) k → (bc.blocks i).byte k = 0 := by
    refine forall₂_congr fun i hi => ?_
    rw [hb₁ i hi, hb₀ i hi, readInto_eq_iff]
    simp only [Nat.sub_le_iff_le_add']
  rw [← hkey]
  constructor
  · rintro ⟨code', bc₁', w₁', ω₁', code₀', bc₀', w₀', ω₀', h₁', h₀', heq, -⟩
    rw [h₁] at h₁'
    rw [h₀] at h₀'
    cases h₁'; cases h₀'
    exact heq
  · exact fun heq => ⟨code, bc₁, w₁, ω₁, code₀, bc₀, w₀, ω₀, h₁, h₀, heq, currentIdx_congr heq⟩

/-- A reread where every block is delivered. -/
theorem rereadForgets_nominal : RereadForgets ⟨4, Or.inl rfl⟩ twoMem ⟨twoBlocks, []⟩
    (nominal (fun _ => false) twoInfo) :=
  (rereadForgets_iff rfl).2 fun i _ k _ _ h => by
    simp [Unread, isBadOf, readOf, nominal, Delivers] at h

/-- A block that cannot be checked any more goes on to present its config. -/
theorem rereadForgets_stale :
    let bc := Bootconfig.ofFlash (fun _ => false) twoInfo
      (flashOf [.zero, { Btblock.zero with magic := .boot, epoch := 5 }])
    let r : Response Resp := fun
      | .mtdIsBad 1 => (-1 : ℤ)
      | o => nominal (fun _ => false) twoInfo o
    ¬ RereadForgets ⟨4, Or.inl rfl⟩ bc ⟨fun _ => .erased, []⟩ r := by
  intro bc r ⟨code, bc₁, w₁, ω₁, code₀, bc₀, w₀, ω₀, h₁, h₀, heq, _⟩
  obtain ⟨_, _, _, _, h₁', hb₁⟩ :=
    exec_bcLlReread (show bc.initialised = true from rfl) ⟨4, Or.inl rfl⟩ ⟨fun _ => .erased, []⟩ r
  obtain ⟨_, _, _, _, h₀', hb₀⟩ :=
    exec_readBootconfig { bc with blocks := fun _ => .zero } ⟨fun _ => .erased, []⟩ r
  rw [h₁'] at h₁; rw [h₀'] at h₀
  cases h₁; cases h₀
  have := heq 1 (by decide)
  rw [hb₁ 1 (by decide), hb₀ 1 (by decide)] at this
  exact absurd this (by decide)

end MetaHipos
