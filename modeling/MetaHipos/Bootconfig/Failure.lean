/-
  What is left in memory when no block could be written.

  `bc_ll_set_partition` edits a block in memory before it is written, and does
  not read the blocks again when it fails.  A block that was tried stays in
  memory as the new config unless `mtd_is_bad` said last that it is bad, so
  that it is marked.
-/
import MetaHipos.Bootconfig.Update

namespace MetaHipos

open LittleEndian Process Newest

/-- `bc_ll_get_current` returns the same index and the same block content. -/
def SameCurrent (bc bc' : Bootconfig) : Prop :=
  currentIdx bc'.blocks bc'.info.ebCnt = currentIdx bc.blocks bc.info.ebCnt ∧
    ∀ c, currentIdx bc.blocks bc.info.ebCnt = some c → bc'.blocks c = bc.blocks c

/-- The last that was heard of the block `i` is that it is bad. -/
def KnownBad (log : List Event) (i : ℕ) : Prop := ∃ r, lastBad i log = some r ∧ 0 < r

/-- The block `i` after a failed update: left alone since it was known as bad,
    or tried, and marked if it turned out as bad. -/
def Leftover (bc : Bootconfig) (which : BtLlParttype) (p i : ℕ) (log : List Event)
    (b : Btblock) : Prop :=
  (bc.blocks i).magic = .bad ∧ b = bc.blocks i ∨
  (bc.blocks i).magic ≠ .bad ∧ KnownBad log i ∧ b.magic = .bad ∨
  (bc.blocks i).magic ≠ .bad ∧ ¬ KnownBad log i ∧
    ∃ now, b = updated (bc.startMem.blocks bc.startIdx) which p now

section
variable {bc bc' : Bootconfig} {which : BtLlParttype} {p i j : ℕ} {w w' : World}

theorem KnownBad.congr (h : OnlyAbout i w w') (hj : j ≠ i) :
    KnownBad w'.log j ↔ KnownBad w.log j := by
  rw [KnownBad, KnownBad, h.lastBad hj]

theorem Leftover.congr {b : Btblock} (h : OnlyAbout i w w') (hj : j ≠ i) :
    Leftover bc which p j w'.log b ↔ Leftover bc which p j w.log b := by
  rw [Leftover, Leftover, KnownBad.congr h hj]

/-- The memory after a failed update. -/
structure FailedMem (bc : Bootconfig) (which : BtLlParttype) (p : ℕ) (bc' : Bootconfig)
    (log : List Event) : Prop where
  info : bc'.info = bc.info
  start : bc'.blocks bc.startIdx = bc.startMem.blocks bc.startIdx
  leftover : ∀ i < bc.info.ebCnt, i ≠ bc.startIdx → Leftover bc which p i log (bc'.blocks i)

/-- Any responses; only what is returned matters. -/
def anyJudge : Judge Op Resp Stop World := ⟨fun _ _ => True, fun _ => True, fun _ _ => True⟩

/-- **A failed update leaves every block but the first one in one of three
    ways.** -/
theorem wp_setPartition_failed {tgt : Target} (flash : ℕ → Page) (hinit : bc.initialised = true)
    (hN : 1 ≤ bc.info.ebCnt) (hp : p ≤ 1) :
    wp mtd anyJudge (bcLlSetPartition tgt bc which p)
      (fun rb w => rb.1 = -1 → FailedMem bc which p rb.2 w.log) ⟨flash, []⟩ := by
  have hstart := startIdx_lt hN
  set c := bc.startIdx with hc
  refine wp_bcLlSetPartition (fun l bc' w => Untried bc l bc' ∧
    ∀ i < bc.info.ebCnt, i ≠ c → i ∉ l → Leftover bc which p i w.log (bc'.blocks i))
    hinit hp rfl hstart (fun l bc' w h => by rw [h.1.info]) ?_
    (fun bc' w h _ => ⟨h.1.info, h.1.start, fun i hi hic => h.2 i hi hic (by simp)⟩)
    ⟨.ring hinit hstart, fun i hi hic hl => absurd ((Ring.mem_ring hstart).2 ⟨hi, hic⟩) hl⟩
  rintro i is bc' w hi hic ⟨hmemory, hleft⟩
  have hinfo := hmemory.info
  refine wp_updateBootblock_tried (by rw [hinfo]; exact hi) (by rw [hinfo]; exact hstart)
    (fun _ _ => trivial) (fun _ _ _ => trivial) (fun hm => ?_) ?_
  · -- skipped
    refine ⟨hmemory.skip, fun j hj hjc hjl => ?_⟩
    by_cases hji : j = i
    · subst hji
      rw [hmemory.head] at hm ⊢
      exact Or.inl ⟨hm, rfl⟩
    · exact hleft j hj hjc (by simp [hji, hjl])
  · intro hm now err r w' _ ha hr _
    split_ifs with herr
    · exact wp_true (fun _ => trivial) (fun _ _ => trivial) fun _ _ h => absurd h (by decide)
    rw [hmemory.head] at hm
    have hother : ∀ b, ∀ j ≠ i, ((bc'.setBlock i b).noteBad i r).blocks j = bc'.blocks j :=
      fun b j hj => setBlock_noteBad_ne _ b r hj
    refine ⟨hmemory.tried hic (by simp) (by simp) (hother _), fun j hj hjc hjl => ?_⟩
    by_cases hji : j = i
    · subst hji
      unfold Bootconfig.noteBad
      split_ifs with hpos
      · refine Or.inr (Or.inl ⟨hm, ⟨r, hr, hpos⟩, ?_⟩)
        simp
      · refine Or.inr (Or.inr ⟨hm, ?_, now, ?_⟩)
        · rintro ⟨r', hr', hpos'⟩
          rw [hr] at hr'; cases hr'; exact hpos hpos'
        · rw [Bootconfig.setBlock_blocks, Function.update_self, ← hc, hmemory.start]
    · rw [hother _ _ hji, Leftover.congr ha.about hji]
      exact hleft j hj hjc (by simp [hji, hjl])

/-! ## Is it visible? -/

/-- Where no block but the first one holds a config, nothing has changed. -/
theorem FailedMem.same (h : FailedMem bc which p bc' w.log)
    (hnone : ∀ i < bc.info.ebCnt, i ≠ bc.startIdx → (bc'.blocks i).version = none) :
    SameCurrent bc bc' := by
  rw [SameCurrent, h.info]
  cases hcur : currentIdx bc.blocks bc.info.ebCnt with
  | some c =>
    obtain ⟨hidx, hmem⟩ := start_of_current hcur
    have hc : bc'.blocks c = bc.blocks c := by rw [← hidx, h.start, hmem]
    have hnew := currentIdx_eq_some.1 hcur
    have hnew' : IsNewest (versions bc'.blocks) bc.info.ebCnt c (bc.blocks c).epoch.toNat :=
      .write_first hnew.lt (by rw [versions, hc]; exact hnew.key_eq)
        fun k hk hkc => hnone k hk (by rwa [hidx])
    exact ⟨currentIdx_of_isNewest hnew', fun c' hc' => by cases hc'; exact hc⟩
  | none =>
    refine ⟨currentIdx_eq_none.2 fun j hj => ?_, fun c hc => by cases hc⟩
    by_cases hjs : j = bc.startIdx
    · -- the dummy block has no magic
      refine Btblock.version_of_not_boot ?_
      subst hjs
      rw [h.start]
      simp only [Bootconfig.startMem, hcur, Bootconfig.startIdx, Bootconfig.setBlock_blocks,
        Option.getD_none, Function.update_self]
      decide
    · exact hnone j hj hjs

/-- Where a block holds the next config, `bc_ll_get_current` changes. -/
theorem FailedMem.not_same (h : FailedMem bc which p bc' w.log) (hi : i < bc.info.ebCnt)
    (hv : (bc'.blocks i).version = some ((bc.startMem.blocks bc.startIdx).epoch.toNat + 1)) :
    ¬ SameCurrent bc bc' := by
  rw [SameCurrent, h.info]
  rintro ⟨hcur', hsame⟩
  cases hcur : currentIdx bc.blocks bc.info.ebCnt with
  | some c =>
    obtain ⟨hidx, hmem⟩ := start_of_current hcur
    rw [hcur] at hcur'
    have hle := (currentIdx_eq_some.1 hcur').le i hi _ hv
    rw [hsame c hcur, hmem, hidx] at hle
    omega
  | none =>
    rw [hcur] at hcur'
    have := currentIdx_eq_none.1 hcur' i hi
    rw [versions, hv] at this; cases this

end

/-- **A failed update leaves the visible configuration as it was exactly if**
    it made no config, since the epochs are used up, or all blocks it tried are
    known as bad in the end. -/
theorem setPartition_failed_iff {tgt : Target} {bc bc' : Bootconfig} {which : BtLlParttype}
    {p : ℕ} {flash : ℕ → Page} {ω ω' : Oracle Resp} {w : World} (hinit : bc.initialised = true)
    (hN : 1 ≤ bc.info.ebCnt) (hp : p ≤ 1)
    (hrun : exec mtd (bcLlSetPartition tgt bc which p) ⟨flash, []⟩ ω = (.done (-1, bc'), w, ω')) :
    SameCurrent bc bc' ↔
      (∃ c, currentIdx bc.blocks bc.info.ebCnt = some c ∧
        (bc.blocks c).epoch.toNat = 2 ^ 32 - 1) ∨
      ∀ i < bc.info.ebCnt, i ≠ bc.startIdx → (bc.blocks i).magic ≠ .bad → KnownBad w.log i := by
  have hmem : FailedMem bc which p bc' w.log :=
    wp_done (wp_setPartition_failed flash hinit hN hp) (fun _ _ => trivial) hrun rfl
  set old := bc.startMem.blocks bc.startIdx with hold
  have hnext := fun now => updated_isNext old which hp now
  by_cases hwrap : ∃ c, currentIdx bc.blocks bc.info.ebCnt = some c ∧
      (bc.blocks c).epoch.toNat = 2 ^ 32 - 1
  · refine iff_of_true (hmem.same fun i hi his => ?_) (Or.inl hwrap)
    obtain ⟨c, hcur, he⟩ := hwrap
    obtain ⟨hidx, hstart⟩ := start_of_current hcur
    rcases hmem.leftover i hi his with ⟨hb, hbi⟩ | ⟨-, -, hb⟩ | ⟨-, -, now, hbi⟩
    · exact Btblock.version_of_bad (hbi ▸ hb)
    · exact Btblock.version_of_bad hb
    · rw [hbi]; exact (hnext now).version_wrap (by rw [hold, hstart, hidx, he])
  · have he : old.epoch.toNat < 2 ^ 32 - 1 := by
      cases hcur : currentIdx bc.blocks bc.info.ebCnt with
      | some c =>
        obtain ⟨hidx, hstart⟩ := start_of_current hcur
        have := (bc.blocks c).epoch.isLt
        have hne : (bc.blocks c).epoch.toNat ≠ 2 ^ 32 - 1 := fun h => hwrap ⟨c, hcur, h⟩
        rw [hold, hstart, hidx]; omega
      | none =>
        have : old = dummyBlock := by
          simp only [hold, Bootconfig.startMem, hcur, Bootconfig.startIdx,
            Bootconfig.setBlock_blocks, Option.getD_none, Function.update_self]
        rw [this]; decide
    rw [or_iff_right hwrap]
    constructor
    · intro hsame i hi his hm
      by_contra hk
      rcases hmem.leftover i hi his with h | h | ⟨-, -, now, hbi⟩
      · exact hm h.1
      · exact hk h.2.1
      · exact hmem.not_same hi (by rw [hbi]; exact (hnext now).version he) hsame
    · refine fun h => hmem.same fun i hi his => ?_
      rcases hmem.leftover i hi his with ⟨hb, hbi⟩ | ⟨-, -, hb⟩ | ⟨hm, hk, -⟩
      · exact Btblock.version_of_bad (hbi ▸ hb)
      · exact Btblock.version_of_bad hb
      · exact absurd (h i hi his hm) hk

/-- A block that turns out as bad is marked: nothing changes. -/
theorem setPartition_failed_bad : ∃ bc' w ω',
    exec mtd (bcLlSetPartition ⟨4, Or.inl rfl⟩ twoMem .kernel 1) ⟨twoBlocks, []⟩ (checkAnswers 1) =
      (.done (-1, bc'), w, ω') ∧ SameCurrent twoMem bc' := by
  obtain ⟨bc', w, ω', hrun, hbad⟩ : ∃ bc' w ω', exec mtd
      (bcLlSetPartition ⟨4, Or.inl rfl⟩ twoMem .kernel 1) ⟨twoBlocks, []⟩ (checkAnswers 1) =
        (.done (-1, bc'), w, ω') ∧ KnownBad w.log 1 := by
    refine ⟨_, _, _, rfl, ?_⟩
    exact ⟨1, rfl, by decide⟩
  refine ⟨bc', w, ω', hrun,
    (setPartition_failed_iff rfl (by decide) (by decide) hrun).2 (Or.inr fun i hi his _ => ?_)⟩
  have h0 : twoMem.startIdx = 0 := by decide
  obtain rfl : i = 1 := by
    have : i < 2 := hi
    omega
  exact hbad

/-- A block that cannot be checked becomes the current one in memory. -/
theorem setPartition_failed_phantom : ∃ bc' w ω',
    exec mtd (bcLlSetPartition ⟨4, Or.inl rfl⟩ twoMem .kernel 1) ⟨twoBlocks, []⟩
      (checkAnswers (-1)) = (.done (-1, bc'), w, ω') ∧ ¬ SameCurrent twoMem bc' := by
  refine ⟨_, _, _, rfl, fun h => ?_⟩
  exact absurd h.1 (by decide)

end MetaHipos
