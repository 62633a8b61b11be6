/-
  Power cuts while a partition is set.

  `bc_ll_set_partition` leaves the current block alone and writes the new
  config to other blocks.  `CutSafe` is what holds of the flash at every point
  in between: every other block is as before, without a valid magic, or holds
  the next config.  A process started later then finds the old config or the
  next one, by `newest_or_next`.

  A power cut within an erase or a write is a failure of that call and a cut
  right after it.
-/
import MetaHipos.Bootconfig.Update

namespace MetaHipos

open LittleEndian Process Newest

/-! ## The flash while a partition is set -/

/-- The world of an update that started with the flash `F`, where `c` is the
    current block. -/
structure CutSafe (F : ℕ → Page) (c : ℕ) (which : BtLlParttype) (p : ℕ) (w : World) : Prop where
  untouched : ∀ e ∈ w.log, e.1.target ≠ some c
  current : w.flash c = F c
  others : ∀ j ≠ c, w.flash j = F j ∨ (w.flash j).hdr.magic ≠ .boot ∨
    IsNext (F c).hdr which p (w.flash j).hdr

section
variable {F : ℕ → Page} {c i p : ℕ} {which : BtLlParttype} {w w' : World}

theorem CutSafe.start : CutSafe F c which p ⟨F, []⟩ := ⟨by simp, rfl, fun _ _ => Or.inl rfl⟩

theorem CutSafe.calm (h : CutSafe F c which p w) {o : Op} {r : Resp o} (ho : o.target = none) :
    CutSafe F c which p (w.after o r) := by
  have hf := after_flash_calm w r ho
  refine ⟨fun e he => ?_, by rw [hf]; exact h.current, by rw [hf]; exact h.others⟩
  rcases List.mem_cons.1 he with rfl | he
  exacts [by simp [ho], h.untouched e he]

/-- An attempt on another block is safe. -/
theorem CutSafe.attempt (h : CutSafe F c which p w) {b : Btblock} (ha : Attempt i b w w')
    (hic : i ≠ c) (hb : IsNext (F c).hdr which p b) : CutSafe F c which p w' where
  untouched e he ht := by
    rcases ha.about.target he ht with h' | rfl
    exacts [h.untouched e h' ht, hic rfl]
  current := (ha.others c hic.symm).trans h.current
  others j hj := by
    by_cases hji : j = i
    · subst hji
      rcases ha.block with ⟨h' | h', -⟩ | ⟨h', -⟩
      · rw [h']; exact h.others j hj
      · exact Or.inr (Or.inl h')
      · exact Or.inr (Or.inr (h'.symm ▸ hb))
    · rw [ha.others j hji]; exact h.others j hj

/-- Any responses; the update is safe at every point. -/
def cutJudge (F : ℕ → Page) (c : ℕ) (which : BtLlParttype) (p : ℕ) :
    Judge Op Resp Stop World where
  ok _ _ := True
  inv := CutSafe F c which p
  stop _ _ := False

/-- **`bc_ll_set_partition` is safe at every point.** -/
theorem wp_setPartition_cutSafe {tgt : Target} {bc : Bootconfig} (hinit : bc.initialised = true)
    (hio : Btblock.size ≤ bc.info.minIoSize) (hcur : currentIdx bc.blocks bc.info.ebCnt = some c)
    (hF : bc.blocks c = (F c).hdr) (hp : p ≤ 1) :
    wp mtd (cutJudge F c which p) (bcLlSetPartition tgt bc which p)
      (fun _ w => CutSafe F c which p w) ⟨F, []⟩ := by
  obtain ⟨hidx, hmem⟩ := start_of_current hcur
  have hcn := currentIdx_lt hcur
  have hcalm : Calm (cutJudge F c which p) := fun w o r ho _ h => CutSafe.calm h ho
  refine wp_bcLlSetPartition (fun _ bc' w => bc'.info = bc.info ∧ bc'.initialised = true ∧
    bc'.blocks c = (F c).hdr ∧ CutSafe F c which p w) hinit hp rfl (hidx ▸ hcn)
    (fun _ _ _ h => by rw [h.1]) ?_ (fun _ _ h => h.2.2.2) ⟨by rw [hmem], by rw [hmem, hinit],
      by rw [hmem, hF], .start⟩
  rw [hidx]
  rintro i is bc' w hi hic ⟨hinfo, hini, hblk, hsafe⟩
  rw [← hinfo] at hi hcn
  have hnext := fun now => hblk ▸ updated_isNext (bc'.blocks c) which hp now
  refine wp_updateBootblock_tried hi hcn (fun h => absurd h (by rw [hinfo]; omega))
    (fun now w' ha => hsafe.attempt ha hic ?_) (fun _ => ⟨hinfo, hini, hblk, hsafe⟩) ?_
  · rw [← hblk]; exact updated_isNext _ _ hp _
  · intro _ now err r w' hw' ha _ _
    split_ifs with herr
    · rw [wp_bcLlReread (by simpa using hini)]
      exact wp_reading (fun _ _ _ => True) rfl hcalm hw' (fun _ _ _ _ _ => trivial)
        (fun _ _ _ _ _ => trivial) (fun _ _ _ _ _ => trivial) fun _ _ _ h _ => h
    · refine ⟨by simpa using hinfo, by simpa using hini, ?_, hw'⟩
      rw [setBlock_noteBad_ne _ _ _ hic.symm, hblk]

end

/-! ## After the power cut -/

/-- **Power-cut safety.**  Wherever `bc_ll_set_partition` is cut, the current
    block `c` was neither erased nor written, and a process started later, on a
    device where no bad block recovered and `c` did not go bad, finds the old
    config in `c` or the next config. -/
theorem setPartition_powerCut {tgt : Target} {bc : Bootconfig} {flash : ℕ → Page}
    {bad bad' : ℕ → Bool} {c p : ℕ} {which : BtLlParttype} {dev : String} {ω ω' : Oracle Resp}
    (hinit : bc.initialised = true) (hio : Btblock.size ≤ bc.info.minIoSize)
    (hsync : Synced bad bc flash)
    (hcur : currentIdx bc.blocks bc.info.ebCnt = some c)
    (he : (bc.blocks c).epoch.toNat < 2 ^ 32 - 1) (hp : p ≤ 1)
    (hbad : ∀ i, bad i = true → bad' i = true) (hc : bad' c = false)
    (hω' : ∀ m o, Fine bad' bc.info o (ω' m o)) (n : ℕ) :
    let w := cut mtd n (bcLlSetPartition tgt bc which p) ⟨flash, []⟩ ω
    (∀ e ∈ w.log, e.1.target ≠ some c) ∧ w.flash c = flash c ∧
    ∃ i bc' w' ω'', exec mtd (freshCurrent dev) w ω' = (.done (some i, bc'), w', ω'') ∧
      (i = c ∧ bc'.blocks i = bc.blocks c ∨
        IsNext (bc.blocks c) which p (bc'.blocks i) ∧
          (bc'.blocks i).epoch.toNat = (bc.blocks c).epoch.toNat + 1) := by
  intro w
  have hnew := currentIdx_eq_some.1 hcur
  have hcn := hnew.lt
  have hgood : ∀ {i}, bad' i = false → bad i = false := fun {i} h => by
    by_contra hb
    rw [hbad i (by simpa using hb)] at h; cases h
  have hsyncd : ∀ i < bc.info.ebCnt, bad' i = false → bc.blocks i = (flash i).hdr := by
    intro i hi hb
    simpa [hgood hb] using hsync i hi
  have hF := hsyncd c hcn hc
  have hsafe : CutSafe flash c which p w :=
    wp_cut (wp_setPartition_cutSafe hinit hio hcur hF hp) .start (fun _ _ => trivial) n
  obtain ⟨bc', w', ω'', hrun, hinfo, hS, -⟩ := freshCurrent_fine dev w hω' ⟨c, hcn, hc⟩
  rw [hinfo] at hrun
  refine ⟨hsafe.untouched, hsafe.current, ?_⟩
  -- what the new process reads
  have hread : ∀ j < bc.info.ebCnt, bad' j = false → bc'.blocks j = (w.flash j).hdr :=
    fun j hj hb => by simpa [hb] using hS j (hinfo ▸ hj)
  have hcc : bc'.blocks c = bc.blocks c := by rw [hread c hcn hc, hsafe.current, hF]
  have hother : ∀ j < bc.info.ebCnt, j ≠ c → bc'.blocks j = bc.blocks j ∨
      (bc'.blocks j).version = none ∨ IsNext (bc.blocks c) which p (bc'.blocks j) := by
    intro j hj hjc
    by_cases hb : bad' j = true
    · refine Or.inr (Or.inl (Btblock.version_of_bad ?_))
      simpa [hb] using hS j (hinfo ▸ hj)
    · have hb : bad' j = false := by simpa using hb
      rw [hread j hj hb, hF, hsyncd j hj hb]
      rcases hsafe.others j hjc with h | h | h
      · exact Or.inl (by rw [h])
      · exact Or.inr (Or.inl (Btblock.version_of_not_boot h))
      · exact Or.inr (Or.inr h)
  obtain ⟨i, v, hi⟩ := exists_isNewest (versions bc'.blocks) bc.info.ebCnt
    ⟨c, hcn, _, by rw [versions, hcc]; exact hnew.key_eq⟩
  rw [currentIdx_of_isNewest hi] at hrun
  refine ⟨i, bc', w', ω'', hrun, ?_⟩
  rcases newest_or_next hnew he hcc hother hi with rfl | ⟨hv, hnext⟩
  · exact Or.inl ⟨rfl, hcc⟩
  · refine Or.inr ⟨hnext, ?_⟩
    rw [← hv]
    exact (IsNewest.epoch hi).2.2

/-- A cut after the erase of block 1 of 2. -/
theorem setPartition_powerCut_erase :
    let ω := fun _ => nominal (fun _ => false) twoInfo
    let w := cut mtd 3 (bcLlSetPartition ⟨4, Or.inl rfl⟩ twoMem .kernel 1) ⟨twoBlocks, []⟩ ω
    (∀ e ∈ w.log, e.1.target ≠ some 0) ∧ w.flash 0 = twoBlocks 0 ∧
    ∃ i bc' w' ω'', exec mtd (freshCurrent "/dev/mtd1") w ω = (.done (some i, bc'), w', ω'') ∧
      (i = 0 ∧ bc'.blocks i = twoMem.blocks 0 ∨
        IsNext (twoMem.blocks 0) .kernel 1 (bc'.blocks i) ∧
          (bc'.blocks i).epoch.toNat = (twoMem.blocks 0).epoch.toNat + 1) :=
  setPartition_powerCut rfl (by decide) (synced_ofFlash _ _ _) (by decide) (by decide) (by decide)
    (fun _ h => h) rfl (fun _ _ => nominal_fine ..) 3

end MetaHipos
