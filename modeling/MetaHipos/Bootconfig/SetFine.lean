/-
  `bc_ll_set_partition` on a device where nothing fails but its bad blocks.

  The blocks marked as bad in memory are skipped without a call.  The first
  other block on the ring is erased and written, and the memory is in sync
  with the flash again.

  * `wp_setPartition_fine`: the call;
  * `FineStep`: its effect on the blocks in memory;
  * `Synced.current_eq`: memories in sync with one flash have the same current
    config.
-/
import MetaHipos.Process.Session
import MetaHipos.Bootconfig.Update

namespace MetaHipos

open LittleEndian Process Newest

/-! ## Memories in sync -/

section
variable {bad : ℕ → Bool} {bc bc' : Bootconfig} {flash : ℕ → Page} {i n : ℕ}

theorem Synced.good (h : Synced bad bc flash) (hi : i < bc.info.ebCnt) (hb : bad i = false) :
    bc.blocks i = (flash i).hdr := by simpa [hb] using h i hi

theorem Synced.marked (h : Synced bad bc flash) (hi : i < bc.info.ebCnt) (hb : bad i = true) :
    (bc.blocks i).magic = .bad := by simpa [hb] using h i hi

/-- A block that is not marked is not bad. -/
theorem Synced.unmarked (h : Synced bad bc flash) (hi : i < bc.info.ebCnt)
    (hm : (bc.blocks i).magic ≠ .bad) : bad i = false := by
  by_contra hb
  exact hm (h.marked hi (by simpa using hb))

/-- Memories in sync with one flash have the same versions … -/
theorem Synced.versions_eq (h : Synced bad bc flash) (h' : Synced bad bc' flash)
    (hinfo : bc'.info = bc.info) (hi : i < bc.info.ebCnt) :
    versions bc'.blocks i = versions bc.blocks i := by
  cases hb : bad i with
  | true => rw [versions, versions, Btblock.version_of_bad (h.marked hi hb),
      Btblock.version_of_bad (h'.marked (hinfo ▸ hi) hb)]
  | false => rw [versions, versions, h.good hi hb, h'.good (hinfo ▸ hi) hb]

/-- … and the same current config. -/
theorem Synced.current_eq (h : Synced bad bc flash) (h' : Synced bad bc' flash)
    (hinfo : bc'.info = bc.info) {c : ℕ} (hc : currentIdx bc.blocks bc.info.ebCnt = some c) :
    currentIdx bc'.blocks bc.info.ebCnt = some c ∧ bc'.blocks c = bc.blocks c := by
  have hnew := currentIdx_eq_some.1 hc
  refine ⟨(currentIdx_of_versions fun j hj => h.versions_eq h' hinfo hj).trans hc, ?_⟩
  have hb : bad c = false := h.unmarked hnew.lt fun hm => by
    have := hnew.key_eq
    rw [versions, Btblock.version_of_bad hm] at this; cases this
  rw [h.good hnew.lt hb, h'.good (hinfo ▸ hnew.lt) hb]

end

/-! ## The call -/

/-- The effect of a successful call that started with the memory `bc` and wrote
    the block `i`. -/
structure FineStep (bad : ℕ → Bool) (bc : Bootconfig) (w : World) (which : BtLlParttype) (p i : ℕ)
    (bc' : Bootconfig) (w' : World) : Prop where
  info : bc'.info = bc.info
  initialised : bc'.initialised = true
  synced : Synced bad bc' w'.flash
  first : ∃ pre post, Ring.ring bc.info.ebCnt bc.startIdx = pre ++ i :: post ∧
    ∀ j ∈ pre, (bc.blocks j).magic = .bad
  unmarked : (bc.blocks i).magic ≠ .bad
  good : bad i = false
  written : ∃ now, let b := updated (bc.startMem.blocks bc.startIdx) which p now
    w'.flash = Function.update w.flash i (Page.erased.program (pageOf bc.info.minIoSize b)) ∧
    writes w'.log = (i, pageOf bc.info.minIoSize b) :: writes w.log
  erases : erases w'.log = i :: erases w.log

section
variable {J : Judge Op Resp Stop World} {bad : ℕ → Bool} {bc : Bootconfig} {w : World}
  {which : BtLlParttype} {p : ℕ} {tgt : Target}

/-- **A call where nothing fails** writes the first block after the current one
    that is not marked; if there is none, it does nothing. -/
theorem wp_setPartition_fine {Q : ℤ × Bootconfig → World → Prop}
    (hok : ∀ o r, J.ok o r → Fine bad bc.info o r) (hinv : ∀ w, J.inv w)
    (hinit : bc.initialised = true) (hN : 0 < bc.info.ebCnt)
    (hio : Btblock.size ≤ bc.info.minIoSize) (hp : p ≤ 1) (hsync : Synced bad bc w.flash)
    (hnone : (∀ i < bc.info.ebCnt, i ≠ bc.startIdx → (bc.blocks i).magic = .bad) →
      Q (-1, bc.startMem) w)
    (hsome : ∀ i bc' w', FineStep bad bc w which p i bc' w' → Q (0, bc') w') :
    wp mtd J (bcLlSetPartition tgt bc which p) Q w := by
  have hstart := startIdx_lt hN
  have hcalm : Calm J := fun w o r _ _ _ => hinv _
  -- blocks that are skipped are skipped without a call
  refine wp_bcLlSetPartition (fun l bc' w' => bc' = bc.startMem ∧ w' = w ∧
    ∃ pre, Ring.ring bc.info.ebCnt bc.startIdx = pre ++ l ∧ ∀ j ∈ pre, (bc.blocks j).magic = .bad)
    hinit hp rfl hstart (fun _ _ _ h => by rw [h.1, startMem_info]) ?_ ?_
    ⟨rfl, rfl, [], rfl, by simp⟩
  · rintro i is bc' w' hi hic ⟨rfl, rfl, pre, hpre, hskip⟩
    have hii : bc.startMem.blocks i = bc.blocks i := startMem_blocks hic
    have hi' : i < bc.startMem.info.ebCnt := by rw [startMem_info]; exact hi
    have hc' : bc.startIdx < bc.startMem.info.ebCnt := by rw [startMem_info]; exact hstart
    by_cases hm : (bc.blocks i).magic = .bad
    · rw [wp_updateBootblock hi' hc', hii]
      refine ⟨fun _ => ⟨rfl, rfl, pre ++ [i], by rw [hpre]; simp, ?_⟩, fun h => absurd hm h⟩
      intro j hj
      rcases List.mem_append.1 hj with hj | hj
      · exact hskip j hj
      · rw [List.mem_singleton.1 hj]; exact hm
    · have hb := hsync.unmarked hi hm
      refine wp_updateBootblock_fine hok hinv hi' hc' (by rw [startMem_info]; exact hio) hb
        (by rw [hii]; exact hm) ?_
      intro now w'' b hflash herases hwrites
      rw [startMem_info] at hflash hwrites
      simp only [if_true]
      refine wp_reread_fine hcalm (hinv _) hok (by simpa [startMem_initialised] using hinit) ?_
      intro code bc'' w''' _ hinfo hini hq hS
      refine hsome i bc'' w''' ⟨by simpa [startMem_info] using hinfo, hini, hS,
        ⟨pre, is, hpre, hskip⟩, hm, hb, ⟨now, hq.flash.trans hflash, hq.writes.trans hwrites⟩,
        hq.erases.trans herases⟩
  · rintro bc' w' ⟨rfl, rfl, pre, hpre, hskip⟩
    refine hnone fun i hi hic => hskip i ?_
    rw [← List.append_nil pre, ← hpre]
    exact (Ring.mem_ring hstart).2 ⟨hi, hic⟩

/-! ## Its effect -/

variable {i : ℕ} {bc' : Bootconfig} {w' : World}

theorem FineStep.lt (h : FineStep bad bc w which p i bc' w') (hN : 0 < bc.info.ebCnt) :
    i < bc.info.ebCnt ∧ i ≠ bc.startIdx := by
  obtain ⟨pre, post, hring, -⟩ := h.first
  refine (Ring.mem_ring (startIdx_lt hN)).1 ?_
  rw [hring]; simp

/-- The block written holds the next config … -/
theorem FineStep.block (h : FineStep bad bc w which p i bc' w') (hN : 0 < bc.info.ebCnt)
    (hp : p ≤ 1) : IsNext (bc.startMem.blocks bc.startIdx) which p (bc'.blocks i) := by
  obtain ⟨now, hflash, -⟩ := h.written
  rw [h.synced.good (h.info ▸ (h.lt hN).1) h.good, hflash, Function.update_self,
    Page.hdr_program_erased (prefix_pageOf ..)]
  exact updated_isNext _ _ hp now

/-- … and the other ones what they held. -/
theorem FineStep.others (h : FineStep bad bc w which p i bc' w') (hsync : Synced bad bc w.flash)
    {j : ℕ} (hj : j < bc.info.ebCnt) (hji : j ≠ i) :
    (bad j = false ∧ bc'.blocks j = bc.blocks j) ∨
      ((bc.blocks j).magic = .bad ∧ (bc'.blocks j).magic = .bad) := by
  obtain ⟨now, hflash, -⟩ := h.written
  have hj' : j < bc'.info.ebCnt := h.info ▸ hj
  cases hb : bad j with
  | true => exact Or.inr ⟨hsync.marked hj hb, h.synced.marked hj' hb⟩
  | false =>
    refine Or.inl ⟨rfl, ?_⟩
    rw [h.synced.good hj' hb, hsync.good hj hb, hflash, Function.update_of_ne hji]

theorem FineStep.versions_others (h : FineStep bad bc w which p i bc' w')
    (hsync : Synced bad bc w.flash) {j : ℕ} (hj : j < bc.info.ebCnt) (hji : j ≠ i) :
    versions bc'.blocks j = versions bc.blocks j := by
  rcases h.others hsync hj hji with ⟨-, hb⟩ | ⟨hb, hb'⟩
  · rw [versions, hb, versions]
  · rw [versions, versions, Btblock.version_of_bad hb, Btblock.version_of_bad hb']

/-- **The block written is the current one**, unless the epochs are used up. -/
theorem FineStep.isNewest (h : FineStep bad bc w which p i bc' w') (hsync : Synced bad bc w.flash)
    (hp : p ≤ 1) {c : ℕ} (hcur : currentIdx bc.blocks bc.info.ebCnt = some c)
    (he : (bc.blocks c).epoch.toNat < 2 ^ 32 - 1) :
    IsNewest (versions bc'.blocks) bc.info.ebCnt i ((bc.blocks c).epoch.toNat + 1) := by
  have hN := Nat.zero_lt_of_lt (currentIdx_lt hcur)
  obtain ⟨hidx, hmem⟩ := start_of_current hcur
  have hnext := h.block hN hp
  rw [hmem, hidx] at hnext
  exact (currentIdx_eq_some.1 hcur).write (h.lt hN).1 (hnext.version he) (Nat.lt_succ_self _)
    fun k hk hki => Or.inl (h.versions_others hsync hk hki)

/-- After the last epoch, the block written is not valid, and the current one
    stays. -/
theorem FineStep.isNewest_wrap (h : FineStep bad bc w which p i bc' w')
    (hsync : Synced bad bc w.flash) (hp : p ≤ 1) {c : ℕ}
    (hcur : currentIdx bc.blocks bc.info.ebCnt = some c)
    (he : (bc.blocks c).epoch.toNat = 2 ^ 32 - 1) :
    IsNewest (versions bc'.blocks) bc.info.ebCnt c (bc.blocks c).epoch.toNat := by
  have hN := Nat.zero_lt_of_lt (currentIdx_lt hcur)
  obtain ⟨hidx, hmem⟩ := start_of_current hcur
  have hnext := h.block hN hp
  rw [hmem, hidx] at hnext
  have hci : c ≠ i := fun h' => (h.lt hN).2 (by rw [hidx, h'])
  refine (currentIdx_eq_some.1 hcur).lose
    (h.versions_others hsync (currentIdx_lt hcur) hci) fun k hk _ => ?_
  by_cases hki : k = i
  · subst hki; exact Or.inr (hnext.version_wrap he)
  · exact Or.inl (h.versions_others hsync hk hki)

end

end MetaHipos
