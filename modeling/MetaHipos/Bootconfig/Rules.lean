/-
  One rule for each function of `lowlevel.c`: what it asks of the flash, what
  it changes in memory, and what it returns.  The proofs about the library use
  these rules and do not unfold the functions.
-/
import MetaHipos.Ring
import MetaHipos.Bootconfig.Lowlevel

namespace MetaHipos

open LittleEndian Process

variable {J : Judge Op Resp Stop World} {bc : Bootconfig} {i : ℕ} {w : World} {α : Type}
  {Q : α → World → Prop}

/-! ## Calls -/

theorem wp_time {k : BitVec 32 → Mtd α} : wp mtd J (Proc.ask .time >>= k) Q w ↔
    ∀ r, J.ok .time r → J.inv (w.after .time r) ∧ wp mtd J (k r) Q (w.after .time r) := Iff.rfl

theorem wp_malloc {n : ℕ} {k : Bool → Mtd α} : wp mtd J (Proc.ask (.malloc n) >>= k) Q w ↔
    ∀ r, J.ok (.malloc n) r → J.inv (w.after (.malloc n) r) ∧
      wp mtd J (k r) Q (w.after (.malloc n) r) := Iff.rfl

theorem wp_isBad {k : ℤ → Mtd α} : wp mtd J (Proc.ask (.mtdIsBad i) >>= k) Q w ↔
    ∀ r, J.ok (.mtdIsBad i) r → J.inv (w.after (.mtdIsBad i) r) ∧
      wp mtd J (k r) Q (w.after (.mtdIsBad i) r) := Iff.rfl

theorem wp_read {k : ℤ × Option Btblock → Mtd α} :
    wp mtd J (Proc.ask (Op.mtdRead i) >>= k) Q w ↔
    ∀ r : ℤ, J.ok (.mtdRead i) r → J.inv (w.after (.mtdRead i) r) ∧
      wp mtd J (k (r, if Delivers r then some (w.flash i).hdr else none)) Q
        (w.after (.mtdRead i) r) := Iff.rfl

theorem wp_erase {k : ℤ → Mtd α} : wp mtd J (Proc.ask (.mtdErase i) >>= k) Q w ↔
    ∀ r : Outcome, J.ok (.mtdErase i) r → J.inv (w.after (.mtdErase i) r) ∧
      wp mtd J (k r.ret) Q (w.after (.mtdErase i) r) := Iff.rfl

theorem wp_write {buf : List Byte} {k : ℤ → Mtd α} :
    wp mtd J (Proc.ask (.mtdWrite i buf) >>= k) Q w ↔
    ∀ r : Outcome, J.ok (.mtdWrite i buf) r → J.inv (w.after (.mtdWrite i buf) r) ∧
      wp mtd J (k r.ret) Q (w.after (.mtdWrite i buf) r) := Iff.rfl

theorem wp_access {Q : Unit → World → Prop} (hi : i < bc.info.ebCnt) :
    wp mtd J (access bc i) Q w ↔ Q () w := by
  rw [access, if_pos hi, wp_ret]

/-! ## Reading a block -/

/-- What `_check_block` returns when `mtd_is_bad` answers `r`. -/
def badCode (r : ℤ) : ℤ := if r < 0 then -1 else if 0 < r then 1 else 0

/-- What it does to the memory. -/
def Bootconfig.noteBad (bc : Bootconfig) (i : ℕ) (r : ℤ) : Bootconfig :=
  if 0 < r then bc.setBlock i { bc.blocks i with magic := .bad } else bc

@[simp] theorem noteBad_info (bc : Bootconfig) (i : ℕ) (r : ℤ) :
    (bc.noteBad i r).info = bc.info := by
  unfold Bootconfig.noteBad; split_ifs <;> rfl

@[simp] theorem noteBad_initialised (bc : Bootconfig) (i : ℕ) (r : ℤ) :
    (bc.noteBad i r).initialised = bc.initialised := by
  unfold Bootconfig.noteBad; split_ifs <;> rfl

theorem noteBad_blocks_ne (bc : Bootconfig) {i j : ℕ} (r : ℤ) (h : j ≠ i) :
    (bc.noteBad i r).blocks j = bc.blocks j := by
  unfold Bootconfig.noteBad; split_ifs <;> simp [Function.update_of_ne h]

theorem setBlock_noteBad_ne (bc : Bootconfig) {i j : ℕ} (b : Btblock) (r : ℤ) (h : j ≠ i) :
    ((bc.setBlock i b).noteBad i r).blocks j = bc.blocks j := by
  rw [noteBad_blocks_ne _ r h, Bootconfig.setBlock_blocks, Function.update_of_ne h]

theorem badCode_cases (r : ℤ) : (r < 0 ∧ badCode r = -1) ∨ (r = 0 ∧ badCode r = 0) ∨
    (0 < r ∧ badCode r = 1) := by
  rcases lt_trichotomy r 0 with h | rfl | h
  · exact Or.inl ⟨h, if_pos h⟩
  · exact Or.inr (Or.inl ⟨rfl, rfl⟩)
  · exact Or.inr (Or.inr ⟨h, by rw [badCode, if_neg h.not_gt, if_pos h]⟩)

theorem badCode_eq_zero {r : ℤ} : badCode r = 0 ↔ r = 0 := by
  have := badCode_cases r; omega

theorem badCode_eq_one {r : ℤ} : badCode r = 1 ↔ 0 < r := by
  have := badCode_cases r; omega

theorem wp_checkBlock {Q : ℤ × Bootconfig → World → Prop} (hi : i < bc.info.ebCnt) :
    wp mtd J (checkBlock bc i) Q w ↔ ∀ r : ℤ, J.ok (.mtdIsBad i) r →
      J.inv (w.after (.mtdIsBad i) r) ∧
        Q (badCode r, bc.noteBad i r) (w.after (.mtdIsBad i) r) := by
  rw [checkBlock, wp_isBad]
  refine forall_congr' fun r => imp_congr_right fun _ => and_congr_right fun _ => ?_
  rcases lt_trichotomy r 0 with h | rfl | h
  · simp [badCode, Bootconfig.noteBad, h, h.not_gt]
  · simp [badCode, Bootconfig.noteBad]
  · simp [badCode, Bootconfig.noteBad, h, h.not_gt, wp_access hi]

/-- What `mtd_read` returning `r` does to the memory. -/
def Bootconfig.noteRead (bc : Bootconfig) (i : ℕ) (r : ℤ) (pg : Page) : Bootconfig :=
  if Delivers r then bc.setBlock i pg.hdr else bc

theorem wp_readBootblock {Q : ℤ × Bootconfig → World → Prop} (hi : i < bc.info.ebCnt) :
    wp mtd J (readBootblock bc i) Q w ↔ ∀ r : ℤ, J.ok (.mtdIsBad i) r →
      J.inv (w.after (.mtdIsBad i) r) ∧
      (r ≠ 0 → Q (badCode r, bc.noteBad i r) (w.after (.mtdIsBad i) r)) ∧
      (r = 0 → ∀ e : ℤ, J.ok (.mtdRead i) e →
        J.inv ((w.after (.mtdIsBad i) r).after (.mtdRead i) e) ∧
        Q (if Delivers e then 0 else -1, bc.noteRead i e (w.flash i))
          ((w.after (.mtdIsBad i) r).after (.mtdRead i) e)) := by
  rw [readBootblock, wp_bind, wp_checkBlock hi]
  refine forall_congr' fun r => imp_congr_right fun _ => and_congr_right fun _ => ?_
  by_cases hr : r = 0
  · subst hr
    have h0 : badCode 0 = 0 := rfl
    have hb : bc.noteBad i 0 = bc := rfl
    simp only [h0, hb, ne_eq, not_true_eq_false, if_false, wp_bind, wp_access hi, false_imp_iff,
      true_and, true_imp_iff]
    rw [← wp_bind, wp_read]
    refine forall_congr' fun e => imp_congr_right fun _ => and_congr_right fun _ => ?_
    by_cases hd : Delivers e
    · rcases hd with rfl | rfl <;> simp [Delivers, Bootconfig.noteRead, after_flash, flashAfter]
    · simp only [hd, if_false, Bootconfig.noteRead]
      have h1 : ¬ -e = EUCLEAN := fun h => hd (Or.inr (by omega))
      have h2 : e ≠ 0 := fun h => hd (Or.inl h)
      simp [h1, h2]
  · have : badCode r ≠ 0 := fun h => hr (badCode_eq_zero.1 h)
    simp [hr, this]

/-! ## Writing a block -/

theorem wp_pageBuffer {Q : List Byte → World → Prop} {b : Btblock} (hi : i < bc.info.ebCnt)
    (hb : bc.blocks i = b) :
    wp mtd J (pageBuffer bc i) Q w ↔ (bc.info.minIoSize < Btblock.size → J.stop .fault w) ∧
      (Btblock.size ≤ bc.info.minIoSize → Q (pageOf bc.info.minIoSize b) w) := by
  rw [pageBuffer, wp_bind, wp_access hi, hb]
  rcases Nat.lt_or_ge bc.info.minIoSize Btblock.size with h | h
  · simp [h, h.not_ge]
  · simp [h, h.not_gt]

theorem wp_doWriteBootblock {Q : ℤ → World → Prop} (hi : i < bc.info.ebCnt) :
    wp mtd J (doWriteBootblock bc i) Q w ↔ ∀ e : Outcome, J.ok (.mtdErase i) e →
      J.inv (w.after (.mtdErase i) e) ∧
      (e.ret < 0 → Q 1 (w.after (.mtdErase i) e)) ∧
      (0 ≤ e.ret → ∀ m : Bool, J.ok (.malloc bc.info.minIoSize) m →
        J.inv ((w.after (.mtdErase i) e).after (.malloc bc.info.minIoSize) m) ∧
        (m = false → Q (-1) ((w.after (.mtdErase i) e).after (.malloc bc.info.minIoSize) m)) ∧
        (m = true →
          (bc.info.minIoSize < Btblock.size →
            J.stop .fault ((w.after (.mtdErase i) e).after (.malloc bc.info.minIoSize) m)) ∧
          (Btblock.size ≤ bc.info.minIoSize → ∀ o : Outcome,
            J.ok (.mtdWrite i (pageOf bc.info.minIoSize (bc.blocks i))) o →
            J.inv (((w.after (.mtdErase i) e).after (.malloc bc.info.minIoSize) m).after
              (.mtdWrite i (pageOf bc.info.minIoSize (bc.blocks i))) o) ∧
            Q (if o.ret < 0 then 1 else 0) (((w.after (.mtdErase i) e).after
              (.malloc bc.info.minIoSize) m).after
                (.mtdWrite i (pageOf bc.info.minIoSize (bc.blocks i))) o)))) := by
  rw [doWriteBootblock, wp_erase]
  refine forall_congr' fun e => imp_congr_right fun _ => and_congr_right fun _ => ?_
  rcases lt_or_ge e.ret 0 with h | h
  · simp [h, h.not_ge]
  · simp only [h, h.not_gt, if_false, false_imp_iff, true_and, true_imp_iff]
    rw [wp_malloc]
    refine forall_congr' fun m => imp_congr_right fun _ => and_congr_right fun _ => ?_
    cases m with
    | false => simp
    | true =>
      simp only [Bool.true_eq_false, if_false, false_imp_iff, true_and, true_imp_iff]
      rw [wp_bind, wp_pageBuffer hi rfl, wp_write]
      refine and_congr_right fun _ => imp_congr_right fun _ =>
        forall_congr' fun o => imp_congr_right fun _ => and_congr_right fun _ => ?_
      split_ifs <;> simp

theorem wp_writeErrorcheckBootblock {Q : ℤ × Bootconfig → World → Prop} (hi : i < bc.info.ebCnt) :
    wp mtd J (writeErrorcheckBootblock bc i) Q w ↔ ∀ r : ℤ, J.ok (.mtdIsBad i) r →
      J.inv (w.after (.mtdIsBad i) r) ∧
      (r ≠ 0 → Q (badCode r, bc.noteBad i r) (w.after (.mtdIsBad i) r)) ∧
      (r = 0 → wp mtd J (doWriteBootblock bc i) (fun err w' =>
        (err = 1 → ∀ r' : ℤ, J.ok (.mtdIsBad i) r' → J.inv (w'.after (.mtdIsBad i) r') ∧
          Q (1, bc.noteBad i r') (w'.after (.mtdIsBad i) r')) ∧
        (err ≠ 1 → Q (err, bc) w')) (w.after (.mtdIsBad i) r)) := by
  rw [writeErrorcheckBootblock, wp_bind, wp_checkBlock hi]
  refine forall_congr' fun r => imp_congr_right fun _ => and_congr_right fun _ => ?_
  by_cases hr : r = 0
  · subst hr
    have h0 : badCode 0 = 0 := rfl
    have hb : bc.noteBad i 0 = bc := rfl
    simp only [h0, hb, ne_eq, not_true_eq_false, if_false, false_imp_iff, true_and, true_imp_iff]
    rw [wp_bind]
    refine iff_of_eq (congrArg (fun q => wp mtd J (doWriteBootblock bc i) q _) ?_)
    funext err w'
    by_cases he : err = 1
    · subst he
      simp only [if_true, true_imp_iff, not_true_eq_false, false_imp_iff, and_true]
      rw [wp_bind, wp_checkBlock hi]
      simp
    · simp [he]
  · have : badCode r ≠ 0 := fun h => hr (badCode_eq_zero.1 h)
    simp [hr, this]

theorem wp_updateBootblock {Q : ℤ × Bootconfig → World → Prop} {which : BtLlParttype} {p c : ℕ}
    (hi : i < bc.info.ebCnt) (hc : c < bc.info.ebCnt) :
    wp mtd J (updateBootblock bc which p c i) Q w ↔
      ((bc.blocks i).magic = .bad → Q (-1, bc) w) ∧
      ((bc.blocks i).magic ≠ .bad → ∀ now : BitVec 32, J.ok .time now → J.inv (w.after .time now) ∧
        wp mtd J (writeErrorcheckBootblock
          (bc.setBlock i (updated (bc.blocks c) which p now)) i) Q (w.after .time now)) := by
  rw [updateBootblock, wp_bind, wp_access hi]
  by_cases hb : (bc.blocks i).magic = .bad
  · simp [hb]
  · simp only [hb, if_false, false_imp_iff, true_and, true_imp_iff, ne_eq, not_false_iff]
    rw [wp_bind, wp_access hc, wp_time]

/-! ## Loops over the blocks -/

theorem wp_readBootconfig {Q : ℤ × Bootconfig → World → Prop} {n : ℕ}
    (Inv : ℕ → ℕ → Bootconfig → World → Prop)
    (hstep : ∀ k broken bc w, k < n → Inv k broken bc w →
      wp mtd J (readBootblock bc k) (fun rb w' =>
        Inv (k + 1) (if rb.1 ≠ 0 then broken + 1 else broken) rb.2 w') w)
    (hend : ∀ broken bc w, Inv n broken bc w →
      bc.info.ebCnt = n ∧ Q (if broken = n then -1 else 0, bc) w)
    (hn : bc.info.ebCnt = n) (h : Inv 0 0 bc w) : wp mtd J (readBootconfig bc) Q w := by
  subst hn
  set n := bc.info.ebCnt
  rw [readBootconfig, wp_bind]
  refine wp_forEach (fun l t w' => ∃ k, l = List.range' k (n - k) ∧ k ≤ n ∧ Inv k t.1 t.2 w')
    ?_ ?_ _ _ _ ⟨0, by rw [List.range_eq_range', Nat.sub_zero], Nat.zero_le _, h⟩
  · rintro ⟨broken, bc'⟩ w' ⟨k, hk, hle, hI⟩
    have hkn : n - k = 0 := List.range'_eq_nil_iff.1 hk.symm
    obtain rfl : k = n := by omega
    obtain ⟨hn, hQ⟩ := hend _ _ _ hI
    rw [wp_pure, hn]
    exact hQ
  · rintro block is ⟨broken, bc'⟩ w' ⟨k, hk, hle, hI⟩
    have hlt : k < n := by
      by_contra hk'
      rw [show n - k = 0 by omega] at hk; simp at hk
    rw [show n - k = n - (k + 1) + 1 by omega, List.range'_succ, List.cons.injEq] at hk
    obtain ⟨rfl, rfl⟩ := hk
    rw [wp_bind]
    refine wp_mono (hstep _ _ _ _ hlt hI) ?_
    rintro ⟨err, bc''⟩ w'' hI'
    exact ⟨block + 1, rfl, hlt, hI'⟩

theorem wp_setPartitionLoop {Q : ℕ × Bootconfig → World → Prop} {which : BtLlParttype} {p c n : ℕ}
    (Inv : List ℕ → Bootconfig → World → Prop) (hc : c < n)
    (hinfo : ∀ l bc w, Inv l bc w → bc.info.ebCnt = n)
    (hbody : ∀ i is bc w, i < n → i ≠ c → Inv (i :: is) bc w →
      wp mtd J (updateBootblock bc which p c i) (fun rb w' =>
        if rb.1 = 0 then Q (i, rb.2) w' else Inv is rb.2 w') w)
    (hnil : ∀ bc w, Inv [] bc w → Q (c, bc) w) (h : Inv (Ring.ring n c) bc w) :
    wp mtd J (setPartitionLoop which p c n ((c + 1) % n) bc) Q w := by
  -- `m` positions are left, with at least one iteration more
  have key : ∀ m fuel bc w, m < n → m < fuel → Inv (Ring.before n c m) bc w →
      wp mtd J (setPartitionLoop which p c fuel ((c + n - m) % n) bc) Q w := by
    intro m
    induction m with
    | zero =>
      rintro (_ | fuel) bc w hm hf hI
      · omega
      rw [setPartitionLoop, if_pos ((Ring.reach_iff hc hm).2 rfl), wp_pure,
        (Ring.reach_iff hc hm).2 rfl]
      exact hnil _ _ hI
    | succ m ih =>
      rintro (_ | fuel) bc w hm hf hI
      · omega
      have hne : (c + n - (m + 1)) % n ≠ c := fun h => by
        have := (Ring.reach_iff hc hm).1 h; omega
      rw [setPartitionLoop, if_neg hne, wp_bind]
      refine wp_mono (hbody _ _ _ _ (Nat.mod_lt _ (by omega)) hne hI) ?_
      rintro ⟨err, bc'⟩ w' hb
      by_cases he : err = 0
      · simpa [he] using hb
      · simp only [he, if_false] at hb ⊢
        rw [hinfo _ _ _ hb, Ring.succ_eq hm]
        exact ih _ _ _ (by omega) (by omega) hb
  rw [← Ring.first_eq hc]
  exact key _ _ _ _ (by omega) (by omega) h

/-! ## Public functions -/

theorem wp_bcLlReread {Q : ℤ × Bootconfig → World → Prop} {tgt : Target}
    (hinit : bc.initialised = true) : wp mtd J (bcLlReread tgt bc) Q w ↔
      wp mtd J (readBootconfig (bc.memset (bc.info.ebCnt * tgt.ptrSize))) Q w := by
  rw [bcLlReread, if_neg (by simp [hinit])]

theorem wp_bcLlGetCurrent {Q : Option ℕ → World → Prop} (hinit : bc.initialised = true) :
    wp mtd J (bcLlGetCurrent bc) Q w ↔ Q (currentIdx bc.blocks bc.info.ebCnt) w := by
  rw [bcLlGetCurrent, if_neg (by simp [hinit]), wp_pure]

/-- The block `bc_ll_set_partition` starts from. -/
def Bootconfig.startIdx (bc : Bootconfig) : ℕ :=
  (currentIdx bc.blocks bc.info.ebCnt).getD (bc.info.ebCnt - 1)

/-- The memory it starts with. -/
def Bootconfig.startMem (bc : Bootconfig) : Bootconfig :=
  match currentIdx bc.blocks bc.info.ebCnt with
  | some _ => bc
  | none => bc.setBlock (bc.info.ebCnt - 1) dummyBlock

theorem startMem_info : bc.startMem.info = bc.info := by
  unfold Bootconfig.startMem; split <;> rfl

theorem startMem_initialised : bc.startMem.initialised = bc.initialised := by
  unfold Bootconfig.startMem; split <;> rfl

/-- Only the block to start from is set up. -/
theorem startMem_blocks (hi : i ≠ bc.startIdx) : bc.startMem.blocks i = bc.blocks i := by
  unfold Bootconfig.startIdx at hi
  unfold Bootconfig.startMem
  cases h : currentIdx bc.blocks bc.info.ebCnt with
  | some c => rfl
  | none => rw [h] at hi; exact Function.update_of_ne (by simpa using hi) ..

theorem wp_startBlock {Q : ℕ × Bootconfig → World → Prop} (hinit : bc.initialised = true)
    (hn : 0 < bc.info.ebCnt) :
    wp mtd J (startBlock bc) Q w ↔ Q (bc.startIdx, bc.startMem) w := by
  rw [startBlock, wp_bind, wp_bcLlGetCurrent hinit]
  unfold Bootconfig.startIdx Bootconfig.startMem
  cases currentIdx bc.blocks bc.info.ebCnt with
  | some idx => simp
  | none =>
    simp only [Option.getD_none, hn.ne', if_false]
    rw [wp_bind, wp_access (by omega), wp_pure]

theorem wp_bcLlSetPartition {Q : ℤ × Bootconfig → World → Prop} {tgt : Target}
    {which : BtLlParttype} {p n : ℕ} (Inv : List ℕ → Bootconfig → World → Prop)
    (hinit : bc.initialised = true) (hp : p ≤ 1) (hn : bc.info.ebCnt = n)
    (hc : bc.startIdx < n) (hinfo : ∀ l bc w, Inv l bc w → bc.info.ebCnt = n)
    (hbody : ∀ i is bc' w, i < n → i ≠ bc.startIdx → Inv (i :: is) bc' w →
      wp mtd J (updateBootblock bc' which p bc.startIdx i) (fun rb w' =>
        if rb.1 = 0 then wp mtd J (bcLlReread tgt rb.2) (fun rb' w'' => Q (0, rb'.2) w'') w'
        else Inv is rb.2 w') w)
    (hnil : ∀ bc w, Inv [] bc w → Q (-1, bc) w) (h : Inv (Ring.ring n bc.startIdx) bc.startMem w) :
    wp mtd J (bcLlSetPartition tgt bc which p) Q w := by
  rw [bcLlSetPartition, if_neg (by simp [hinit]), if_neg (by omega), wp_bind,
    wp_startBlock hinit (by omega), wp_bind, startMem_info, hn]
  refine wp_setPartitionLoop Inv hc hinfo ?_ ?_ h
  · intro i is bc' w' hi hne hI
    refine wp_mono (hbody i is bc' w' hi hne hI) ?_
    rintro ⟨err, bc''⟩ w'' hb
    by_cases he : err = 0
    · simpa [he, hne] using hb
    · simpa [he] using hb
  · intro bc' w' hI
    simpa using hnil _ _ hI

/-- The memory `bc'` of a call that started with the memory `bc`, before it tries
    the blocks `l`. -/
structure Untried (bc : Bootconfig) (l : List ℕ) (bc' : Bootconfig) : Prop where
  info : bc'.info = bc.info
  initialised : bc'.initialised = true
  nodup : l.Nodup
  start : bc'.blocks bc.startIdx = bc.startMem.blocks bc.startIdx
  blocks : ∀ j ∈ l, bc'.blocks j = bc.blocks j

section
variable {bc' bc'' : Bootconfig} {is : List ℕ}

theorem Untried.ring (hinit : bc.initialised = true) (hc : bc.startIdx < bc.info.ebCnt) :
    Untried bc (Ring.ring bc.info.ebCnt bc.startIdx) bc.startMem where
  info := startMem_info
  initialised := startMem_initialised.trans hinit
  nodup := Ring.nodup_ring hc
  start := rfl
  blocks _ hj := startMem_blocks ((Ring.mem_ring hc).1 hj).2

theorem Untried.head (h : Untried bc (i :: is) bc') : bc'.blocks i = bc.blocks i :=
  h.blocks i (List.mem_cons_self ..)

/-- A block is left out. -/
theorem Untried.skip (h : Untried bc (i :: is) bc') : Untried bc is bc' :=
  ⟨h.info, h.initialised, (List.nodup_cons.1 h.nodup).2, h.start,
    fun j hj => h.blocks j (List.mem_cons_of_mem _ hj)⟩

/-- A block is tried, which changes it only. -/
theorem Untried.tried (h : Untried bc (i :: is) bc') (hic : i ≠ bc.startIdx)
    (hinfo : bc''.info = bc'.info) (hinit : bc''.initialised = bc'.initialised)
    (hothers : ∀ j ≠ i, bc''.blocks j = bc'.blocks j) : Untried bc is bc'' where
  info := hinfo.trans h.info
  initialised := hinit.trans h.initialised
  nodup := h.skip.nodup
  start := (hothers _ hic.symm).trans h.start
  blocks j hj := by
    have hji : j ≠ i := fun he => (List.nodup_cons.1 h.nodup).1 (he ▸ hj)
    rw [hothers j hji, h.skip.blocks j hj]

end

theorem wp_setHealthyOf {Q : ℤ × Bootconfig → World → Prop} {which : BtLlParttype}
    (hinit : bc.initialised = true) (hi : i < bc.info.ebCnt) {b : Btblock}
    (hb : b = (bc.blocks i).markHealthy which) :
    wp mtd J (setHealthyOf which bc i) Q w ↔
      (((bc.blocks i).info which).nHealthy = 1 → ∀ m : Bool, J.ok (.malloc bc.info.minIoSize) m →
        J.inv (w.after (.malloc bc.info.minIoSize) m) ∧
        (m = false → Q (-1, bc.setBlock i b) (w.after (.malloc bc.info.minIoSize) m)) ∧
        (m = true →
          (bc.info.minIoSize < Btblock.size →
            J.stop .fault (w.after (.malloc bc.info.minIoSize) m)) ∧
          (Btblock.size ≤ bc.info.minIoSize → ∀ o : Outcome,
            J.ok (.mtdWrite i (pageOf bc.info.minIoSize b)) o →
            J.inv ((w.after (.malloc bc.info.minIoSize) m).after
              (.mtdWrite i (pageOf bc.info.minIoSize b)) o) ∧
            Q (if o.ret < 0 then 1 else 0, bc.setBlock i b)
              ((w.after (.malloc bc.info.minIoSize) m).after
                (.mtdWrite i (pageOf bc.info.minIoSize b)) o)))) ∧
      (((bc.blocks i).info which).nHealthy ≠ 1 → Q (0, bc) w) := by
  have hbuf : ∀ (Q : List Byte → World → Prop) w, wp mtd J (pageBuffer (bc.setBlock i b) i) Q w ↔
      (bc.info.minIoSize < Btblock.size → J.stop .fault w) ∧
      (Btblock.size ≤ bc.info.minIoSize → Q (pageOf bc.info.minIoSize b) w) :=
    fun Q w => wp_pageBuffer hi (Function.update_self ..)
  rw [setHealthyOf, if_neg (by simp [hinit]), wp_bind, wp_access hi, ← hb]
  by_cases hh : ((bc.blocks i).info which).nHealthy = 1
  · rw [if_pos hh, wp_malloc]
    simp only [hh, true_imp_iff, ne_eq, not_true_eq_false, false_imp_iff, and_true]
    refine forall_congr' fun m => imp_congr_right fun _ => and_congr_right fun _ => ?_
    cases m with
    | false => simp
    | true =>
      simp only [Bool.true_eq_false, if_false, false_imp_iff, true_and, true_imp_iff]
      rw [wp_bind, hbuf, wp_write]
      refine and_congr_right fun _ => imp_congr_right fun _ =>
        forall_congr' fun o => imp_congr_right fun _ => and_congr_right fun _ => ?_
      split_ifs <;> simp
  · rw [if_neg hh, wp_pure]
    exact ⟨fun h => ⟨fun h' => absurd h' hh, fun _ => h⟩, fun h => h.2 hh⟩

end MetaHipos
