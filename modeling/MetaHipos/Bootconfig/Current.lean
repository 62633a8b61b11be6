/-
  The current block: the newest valid config.

  * `currentIdx_eq_some`, `currentIdx_eq_none`: `bc_ll_get_current` finds the
    newest record of the blocks in memory, where the version of a block is its
    epoch (`0` and blocks without the magic do not count);
  * `getCurrent_selects`: the whole of what it returns.
-/
import MetaHipos.Newest
import MetaHipos.Bootconfig.Rules

namespace MetaHipos

open LittleEndian Process Newest

/-- The version of a block: the epoch of a valid config. -/
def Btblock.version (b : Btblock) : Option ℕ :=
  if b.magic = .boot ∧ b.epoch ≠ 0 then some b.epoch.toNat else none

namespace Btblock

theorem version_eq_some {b : Btblock} {v : ℕ} :
    b.version = some v ↔ b.magic = .boot ∧ b.epoch ≠ 0 ∧ b.epoch.toNat = v := by
  unfold version; split_ifs with h
  · exact ⟨fun hv => ⟨h.1, h.2, Option.some.inj hv⟩, fun hv => congrArg some hv.2.2⟩
  · exact ⟨fun hv => (nomatch hv), fun hv => absurd ⟨hv.1, hv.2.1⟩ h⟩

theorem version_eq_none {b : Btblock} : b.version = none ↔ (b.magic = .boot → b.epoch = 0) := by
  unfold version; split_ifs with h
  · exact ⟨fun hv => (nomatch hv), fun hv => absurd (hv h.1) h.2⟩
  · exact ⟨fun _ hm => by by_contra he; exact h ⟨hm, he⟩, fun _ => rfl⟩

theorem version_of_bad {b : Btblock} (h : b.magic = .bad) : b.version = none :=
  version_eq_none.2 fun h' => by rw [h] at h'; exact absurd h' (by decide)

theorem version_of_not_boot {b : Btblock} (h : b.magic ≠ .boot) : b.version = none :=
  version_eq_none.2 fun h' => absurd h' h

theorem version_congr {b b' : Btblock} (hm : b.magic = b'.magic) (he : b.epoch = b'.epoch) :
    b.version = b'.version := by
  rw [version, version, hm, he]

theorem version_zero : zero.version = none := by decide

end Btblock

theorem toNat_pos {e : BitVec 32} : 0 < e.toNat ↔ e ≠ 0 := by
  rw [Nat.pos_iff_ne_zero, ne_eq, ne_eq, ← BitVec.toNat_inj]; rfl

/-- The versions of the blocks in memory. -/
def versions (blocks : ℕ → Btblock) (j : ℕ) : Option ℕ := (blocks j).version

/-! ## `bc_ll_get_current` -/

/-- The loop keeps the newest block so far, or `0` if there is none. -/
theorem currentLoop_spec (blocks : ℕ → Btblock) : ∀ n,
    ((currentLoop blocks n).2 = 0 ∧ ∀ j < n, versions blocks j = none) ∨
    ((currentLoop blocks n).2 ≠ 0 ∧
      IsNewest (versions blocks) n (currentLoop blocks n).1 (currentLoop blocks n).2.toNat)
  | 0 => Or.inl ⟨rfl, fun j hj => absurd hj (Nat.not_lt_zero j)⟩
  | n + 1 => by
    have ih := currentLoop_spec blocks n
    rw [currentLoop]
    set idx := (currentLoop blocks n).1
    set m := (currentLoop blocks n).2
    by_cases hb : (blocks n).magic = .boot
    · simp only [hb, ne_eq, not_true_eq_false, if_false]
      by_cases hlt : m < (blocks n).epoch
      · -- a new maximum
        rw [if_pos hlt]
        have hlt' : m.toNat < (blocks n).epoch.toNat := BitVec.lt_def.1 hlt
        have he : (blocks n).epoch ≠ 0 := toNat_pos.1 (Nat.zero_lt_of_lt hlt')
        refine Or.inr ⟨he, .take (Btblock.version_eq_some.2 ⟨hb, he, rfl⟩) ?_⟩
        intro j hj u hu
        rcases ih with ⟨-, hnone⟩ | ⟨-, hnew⟩
        · rw [hnone j hj] at hu; cases hu
        · exact (hnew.le j hj u hu).trans_lt hlt'
      · rw [if_neg hlt]
        have hle : (blocks n).epoch.toNat ≤ m.toNat := Nat.not_lt.1 fun h => hlt (BitVec.lt_def.2 h)
        by_cases he : (blocks n).epoch = 0
        · have hn : versions blocks n = none := Btblock.version_eq_none.2 fun _ => he
          rcases ih with ⟨hm, hnone⟩ | ⟨hm, hnew⟩
          · refine Or.inl ⟨hm, fun j hj => ?_⟩
            rcases Nat.lt_succ_iff_lt_or_eq.1 hj with hj | rfl
            exacts [hnone j hj, hn]
          · exact Or.inr ⟨hm, hnew.skip hn⟩
        · rcases ih with ⟨hm, -⟩ | ⟨hm, hnew⟩
          · rw [hm] at hle
            exact absurd (toNat_pos.2 he) (by simpa using hle)
          · exact Or.inr ⟨hm, hnew.keep (Btblock.version_eq_some.2 ⟨hb, he, rfl⟩) hle⟩
    · simp only [hb, ne_eq, not_false_iff, if_true]
      have hn : versions blocks n = none := Btblock.version_of_not_boot hb
      rcases ih with ⟨hm, hnone⟩ | ⟨hm, hnew⟩
      · refine Or.inl ⟨hm, fun j hj => ?_⟩
        rcases Nat.lt_succ_iff_lt_or_eq.1 hj with hj | rfl
        exacts [hnone j hj, hn]
      · exact Or.inr ⟨hm, hnew.skip hn⟩

variable {blocks blocks' : ℕ → Btblock} {n i : ℕ}

/-- **`bc_ll_get_current` returns `NULL` exactly if there is no valid config.** -/
theorem currentIdx_eq_none : currentIdx blocks n = none ↔ ∀ j < n, versions blocks j = none := by
  rw [currentIdx]
  rcases currentLoop_spec blocks n with ⟨hm, hnone⟩ | ⟨hm, hnew⟩
  · simpa [hm] using hnone
  · refine ⟨fun h => ?_, fun h => ?_⟩
    · exact absurd (by simpa using h) hm
    · have := h _ hnew.lt
      rw [hnew.key_eq] at this; cases this

/-- **`bc_ll_get_current` returns the newest config.** -/
theorem currentIdx_eq_some :
    currentIdx blocks n = some i ↔ IsNewest (versions blocks) n i (blocks i).epoch.toNat := by
  rw [currentIdx]
  rcases currentLoop_spec blocks n with ⟨hm, hnone⟩ | ⟨hm, hnew⟩
  · have : ¬ IsNewest (versions blocks) n i (blocks i).epoch.toNat := fun h => by
      have := h.key_eq
      rw [hnone _ h.lt] at this; cases this
    simpa [hm] using this
  · simp only [hm, ne_eq, not_false_iff, if_true, Option.some.injEq]
    constructor
    · rintro rfl
      have := (Btblock.version_eq_some.1 hnew.key_eq).2.2
      rwa [this]
    · exact fun h => (hnew.unique h).1

/-- The version of the current block is its epoch. -/
theorem IsNewest.epoch {v : ℕ} (h : IsNewest (versions blocks) n i v) :
    (blocks i).magic = .boot ∧ (blocks i).epoch ≠ 0 ∧ (blocks i).epoch.toNat = v :=
  Btblock.version_eq_some.1 h.key_eq

theorem currentIdx_of_isNewest {v : ℕ} (h : IsNewest (versions blocks) n i v) :
    currentIdx blocks n = some i := by
  rw [currentIdx_eq_some, (IsNewest.epoch h).2.2]; exact h

/-- Only the versions matter. -/
theorem currentIdx_of_versions (h : ∀ j < n, versions blocks' j = versions blocks j) :
    currentIdx blocks' n = currentIdx blocks n := by
  cases hc : currentIdx blocks n with
  | none => exact currentIdx_eq_none.2 fun j hj => (h j hj).trans (currentIdx_eq_none.1 hc j hj)
  | some i => exact currentIdx_of_isNewest ((currentIdx_eq_some.1 hc).congr h)

theorem currentIdx_congr (h : ∀ j < n, blocks j = blocks' j) :
    currentIdx blocks n = currentIdx blocks' n :=
  currentIdx_of_versions fun j hj => congrArg Btblock.version (h j hj)

/-- Only the magics and the epochs of the blocks with the magic matter. -/
theorem currentIdx_of_boot (hm : ∀ j < n, ((blocks' j).magic = .boot ↔ (blocks j).magic = .boot))
    (he : ∀ j < n, (blocks j).magic = .boot → (blocks' j).epoch = (blocks j).epoch) :
    currentIdx blocks' n = currentIdx blocks n := by
  refine currentIdx_of_versions fun j hj => ?_
  by_cases hb : (blocks j).magic = .boot
  · exact Btblock.version_congr (((hm j hj).2 hb).trans hb.symm) (he j hj hb)
  · rw [versions, versions, Btblock.version_of_not_boot hb,
      Btblock.version_of_not_boot fun h => hb ((hm j hj).1 h)]

/-- The epoch of the current block does not depend on the order of the blocks. -/
theorem currentIdx_perm (σ : Equiv.Perm ℕ) (hσ : ∀ j, σ j < n ↔ j < n) :
    (currentIdx (blocks ∘ σ) n).map (fun i => (blocks (σ i)).epoch) =
      (currentIdx blocks n).map fun i => (blocks i).epoch := by
  have hg : ∀ j < n, σ.symm j < n ∧ σ (σ.symm j) = j := by
    intro j hj
    refine ⟨(hσ _).1 ?_, σ.apply_symm_apply j⟩
    rw [σ.apply_symm_apply]; exact hj
  cases hc : currentIdx blocks n with
  | none =>
    have hnone : currentIdx (blocks ∘ σ) n = none :=
      currentIdx_eq_none.2 fun j hj => currentIdx_eq_none.1 hc (σ j) ((hσ j).2 hj)
    rw [hnone]
    rfl
  | some i =>
    have hi := currentIdx_eq_some.1 hc
    cases hc' : currentIdx (blocks ∘ σ) n with
    | none =>
      obtain ⟨hlt, hinv⟩ := hg i hi.lt
      have hnone := currentIdx_eq_none.1 hc' _ hlt
      rw [versions, Function.comp_apply, hinv] at hnone
      have := hi.key_eq
      rw [versions, hnone] at this; cases this
    | some j =>
      have hj := currentIdx_eq_some.1 hc'
      have := hi.reorder (fun j hj => (hσ j).2 hj) hg hj
      exact congrArg some (BitVec.eq_of_toNat_eq this)

theorem currentIdx_lt (h : currentIdx blocks n = some i) : i < n := (currentIdx_eq_some.1 h).lt

/-- What is in `*block_index` after `bc_ll_get_current` returned `r`. -/
def indexAfter (r blockIndex : Option ℕ) : Option ℕ :=
  match r with
  | some i => blockIndex.map fun _ => i
  | none => blockIndex

theorem exec_bcLlGetCurrentAt (bc : Bootconfig) (hinit : bc.initialised = true)
    (blockIndex : Option ℕ) (w : World) (ω : Oracle Resp) :
    let r := currentIdx bc.blocks bc.info.ebCnt
    exec mtd (bcLlGetCurrentAt bc blockIndex) w ω = (.done (r, indexAfter r blockIndex), w, ω) := by
  intro r
  rw [bcLlGetCurrentAt, if_neg (by simp [hinit])]
  simp only [r, currentIdx]
  split_ifs <;> rfl

/-- **`bc_ll_get_current` selects the newest valid block**, by nothing but the
    epochs of the blocks with the magic. -/
theorem getCurrent_selects {bc : Bootconfig} (hinit : bc.initialised = true)
    (blockIndex : Option ℕ) (w : World) (ω : Oracle Resp) :
    ∃ r, exec mtd (bcLlGetCurrentAt bc blockIndex) w ω =
        (.done (r, indexAfter r blockIndex), w, ω) ∧
      (r = none ↔
        ∀ i < bc.info.ebCnt, ¬ ((bc.blocks i).magic = .boot ∧ (bc.blocks i).epoch ≠ 0)) ∧
      (∀ i, r = some i → i < bc.info.ebCnt ∧ (bc.blocks i).magic = .boot ∧
        ∀ j < bc.info.ebCnt, (bc.blocks j).magic = .boot →
          (bc.blocks j).epoch ≤ (bc.blocks i).epoch ∧
          (j < i → (bc.blocks j).epoch < (bc.blocks i).epoch)) ∧
      (∀ blocks' : ℕ → Btblock,
        (∀ j < bc.info.ebCnt, ((blocks' j).magic = .boot ↔ (bc.blocks j).magic = .boot)) →
        (∀ j < bc.info.ebCnt, (bc.blocks j).magic = .boot →
          (blocks' j).epoch = (bc.blocks j).epoch) →
        exec mtd (bcLlGetCurrentAt { bc with blocks := blocks' } blockIndex) w ω =
          (.done (r, indexAfter r blockIndex), w, ω)) ∧
      ∀ σ : Equiv.Perm ℕ, (∀ j, σ j < bc.info.ebCnt ↔ j < bc.info.ebCnt) →
        ∃ r', exec mtd (bcLlGetCurrentAt { bc with blocks := bc.blocks ∘ σ } blockIndex) w ω =
            (.done (r', indexAfter r' blockIndex), w, ω) ∧
          r'.map (fun i => (bc.blocks (σ i)).epoch) = r.map fun i => (bc.blocks i).epoch := by
  refine ⟨_, exec_bcLlGetCurrentAt bc hinit blockIndex w ω, ?_, ?_, ?_, ?_⟩
  · rw [currentIdx_eq_none]
    refine forall₂_congr fun i _ => ?_
    rw [versions, Btblock.version_eq_none, not_and, ne_eq, not_not]
  · intro i hi
    have hnew := currentIdx_eq_some.1 hi
    refine ⟨hnew.lt, (IsNewest.epoch hnew).1, fun j hj hb => ?_⟩
    by_cases h0 : (bc.blocks j).epoch = 0
    · rw [h0]
      exact ⟨BitVec.le_def.2 (Nat.zero_le _),
        fun _ => BitVec.lt_def.2 (toNat_pos.2 (IsNewest.epoch hnew).2.1)⟩
    · have hv : versions bc.blocks j = some (bc.blocks j).epoch.toNat :=
        Btblock.version_eq_some.2 ⟨hb, h0, rfl⟩
      exact ⟨BitVec.le_def.2 (hnew.le j hj _ hv),
        fun hlt => BitVec.lt_def.2 (hnew.first j hlt _ hv)⟩
  · intro blocks' hm he
    have hr := currentIdx_of_boot hm he
    have := exec_bcLlGetCurrentAt { bc with blocks := blocks' } hinit blockIndex w ω
    simp only [hr] at this
    exact this
  · intro σ hσ
    exact ⟨_, exec_bcLlGetCurrentAt { bc with blocks := bc.blocks ∘ σ } hinit blockIndex w ω,
      currentIdx_perm σ hσ⟩

/-- Two blocks share the highest epoch, and a bad one has a higher one: the first
    of the two is selected, whatever is in the bad one. -/
theorem getCurrent_selects_equal :
    let config (e : BitVec 32) : Btblock := { Btblock.zero with magic := .boot, epoch := e }
    let blocks (b : Btblock) : ℕ → Btblock := fun i => ([config 3, config 5, config 5, b].getD i b)
    let bc : Bootconfig :=
      ⟨true, blocks { Btblock.zero with magic := .bad, epoch := 0xFFFFFFFF }, ⟨4, 16⟩⟩
    ∃ w ω, exec mtd (bcLlGetCurrentAt bc (some 7)) w ω = (.done (some 1, some 1), w, ω) ∧
      exec mtd (bcLlGetCurrentAt { bc with blocks := blocks Btblock.zero } (some 7)) w ω =
        (.done (some 1, some 1), w, ω) ∧
      (bc.blocks 2).epoch ≤ (bc.blocks 1).epoch ∧ (bc.blocks 0).epoch < (bc.blocks 1).epoch := by
  intro config blocks bc
  let w : World := ⟨fun _ => .erased, []⟩
  -- nothing is asked for
  obtain ⟨ω⟩ : Nonempty (Oracle Resp) := by
    refine ⟨fun _ o => ?_⟩
    cases o
    exacts [(0 : ℤ), true, ((0 : ℤ), ⟨1, 16⟩), true, (0 : BitVec 32), (0 : ℤ), (0 : ℤ),
      ⟨0, .kept⟩, ⟨0, .kept⟩]
  obtain ⟨r, hrun, -, hsome, hother, -⟩ := @getCurrent_selects bc rfl (some 7) w ω
  have hr : r = some 1 := by
    have h := exec_bcLlGetCurrentAt bc rfl (some 7) w ω
    rw [h] at hrun
    cases hrun
    decide
  subst hr
  obtain ⟨-, -, hmax⟩ := hsome 1 rfl
  exact ⟨w, ω, hrun, hother (blocks Btblock.zero) (by decide) (by decide),
    (hmax 2 (by decide) rfl).1, (hmax 0 (by decide) rfl).2 (by decide)⟩

theorem startIdx_lt {bc : Bootconfig} (hn : 0 < bc.info.ebCnt) : bc.startIdx < bc.info.ebCnt := by
  unfold Bootconfig.startIdx
  cases h : currentIdx bc.blocks bc.info.ebCnt with
  | some i => exact currentIdx_lt h
  | none => simpa using hn

/-- With a current config, it is the block to start from. -/
theorem start_of_current {bc : Bootconfig} (h : currentIdx bc.blocks bc.info.ebCnt = some i) :
    bc.startIdx = i ∧ bc.startMem = bc := by
  simp [Bootconfig.startIdx, Bootconfig.startMem, h]

end MetaHipos
