/-
  The calls of an attempt to update a block.

  `_update_bootblock` checks the block, erases it and writes it; it gives up
  where the first of these calls fails.

  * `AttemptCalls`: the calls that are possible, and whether the block is
    written in the end;
  * `wp_updateBootblock_calls`: these are all.
-/
import MetaHipos.Bootconfig.Update

namespace MetaHipos

open LittleEndian Process Newest

/-! ## Worlds after calls -/

/-- The world after the calls `evs`, the latest first. -/
def World.play (w : World) (evs : List Event) : World := evs.foldr (fun e w => w.after e.1 e.2) w

section
variable (w : World) (e : Event) (evs evs' : List Event)

@[simp] theorem play_nil : w.play [] = w := rfl

@[simp] theorem play_cons : w.play (e :: evs) = (w.play evs).after e.1 e.2 := rfl

theorem play_append : w.play (evs' ++ evs) = (w.play evs).play evs' := List.foldr_append

@[simp] theorem play_log : (w.play evs).log = evs ++ w.log := by
  induction evs with
  | nil => rfl
  | cons e evs ih => rw [play_cons, after_log, ih, List.cons_append]

end

/-- Calls about other blocks leave a block alone. -/
theorem play_flash_of_ne {w : World} {evs : List Event} {j : ℕ}
    (h : ∀ e ∈ evs, e.1.target ≠ some j) : (w.play evs).flash j = w.flash j := by
  induction evs with
  | nil => rfl
  | cons e evs ih =>
    rw [play_cons, after_flash_of_ne _ _ _ (h e (List.mem_cons_self ..))]
    exact ih fun e he => h e (List.mem_cons_of_mem _ he)

/-! ## Attempts -/

/-- The calls of an attempt to write the header `b now` to the block `i`, in a
    page of `n` bytes; the latest first.  The block is written if `ok`. -/
inductive AttemptCalls (i n : ℕ) (b : BitVec 32 → Btblock) : Bool → List Event → Prop
  | notChecked (now : BitVec 32) (r : ℤ) : r ≠ 0 →
      AttemptCalls i n b false [⟨.mtdIsBad i, r⟩, ⟨.time, now⟩]
  | notErased (now : BitVec 32) (e : Outcome) (r : ℤ) : e.ret < 0 →
      AttemptCalls i n b false
        [⟨.mtdIsBad i, r⟩, ⟨.mtdErase i, e⟩, ⟨.mtdIsBad i, (0 : ℤ)⟩, ⟨.time, now⟩]
  | noPage (now : BitVec 32) (e : Outcome) : 0 ≤ e.ret →
      AttemptCalls i n b false
        [⟨.malloc n, false⟩, ⟨.mtdErase i, e⟩, ⟨.mtdIsBad i, (0 : ℤ)⟩, ⟨.time, now⟩]
  | notWritten (now : BitVec 32) (e o : Outcome) (r : ℤ) : 0 ≤ e.ret → o.ret < 0 →
      AttemptCalls i n b false
        [⟨.mtdIsBad i, r⟩, ⟨.mtdWrite i (pageOf n (b now)), o⟩, ⟨.malloc n, true⟩,
          ⟨.mtdErase i, e⟩, ⟨.mtdIsBad i, (0 : ℤ)⟩, ⟨.time, now⟩]
  | written (now : BitVec 32) (e o : Outcome) : 0 ≤ e.ret → 0 ≤ o.ret →
      AttemptCalls i n b true
        [⟨.mtdWrite i (pageOf n (b now)), o⟩, ⟨.malloc n, true⟩, ⟨.mtdErase i, e⟩,
          ⟨.mtdIsBad i, (0 : ℤ)⟩, ⟨.time, now⟩]

section
variable {i n : ℕ} {b : BitVec 32 → Btblock} {ok : Bool} {evs : List Event}

/-- An attempt touches no other block. -/
theorem AttemptCalls.target (h : AttemptCalls i n b ok evs) {j : ℕ} (hj : j ≠ i) :
    ∀ e ∈ evs, e.1.target ≠ some j := by
  have hi : some i ≠ some j := fun h => hj (Option.some.inj h).symm
  cases h <;> simp [Op.target, hi]

/-- A successful attempt leaves the header on flash. -/
theorem AttemptCalls.flash (h : AttemptCalls i n b true evs) (w : World) :
    ∃ now, (w.play evs).flash i = Page.erased.program (pageOf n (b now)) := by
  cases h with
  | written now e o he ho =>
    refine ⟨now, ?_⟩
    simp only [play_cons, play_nil]
    rw [write_flash_of_ok _ i _ ho, Function.update_self]
    have h1 : ∀ (w : World) m, (w.after (.malloc n) m).flash = w.flash := fun _ _ => rfl
    rw [h1, erase_flash_of_ok _ i he, Function.update_self]

end

section
variable {J : Judge Op Resp Stop World} {bc : Bootconfig} {i c p : ℕ} {w : World}
  {which : BtLlParttype}

/-- **The calls of `_update_bootblock`** are those of an attempt, or none if the
    block is marked as bad. -/
theorem wp_updateBootblock_calls {Q : ℤ × Bootconfig → World → Prop} (hinv : ∀ w, J.inv w)
    (hi : i < bc.info.ebCnt) (hc : c < bc.info.ebCnt) (hio : Btblock.size ≤ bc.info.minIoSize)
    (hskip : (bc.blocks i).magic = .bad → Q (-1, bc) w)
    (hcalls : (bc.blocks i).magic ≠ .bad → ∀ ok evs err bc',
      AttemptCalls i bc.info.minIoSize (updated (bc.blocks c) which p) ok evs →
      (∀ e ∈ evs, J.ok e.1 e.2) → (err = 0 ↔ ok = true) → bc'.info = bc.info →
      bc'.initialised = bc.initialised → (∀ j ≠ i, bc'.blocks j = bc.blocks j) →
      Q (err, bc') (w.play evs)) :
    wp mtd J (updateBootblock bc which p c i) Q w := by
  rw [wp_updateBootblock hi hc]
  refine ⟨hskip, fun hm now hnow => ⟨hinv _, ?_⟩⟩
  set b := updated (bc.blocks c) which p now with hb
  have hne : ∀ j ≠ i, (bc.setBlock i b).blocks j = bc.blocks j :=
    fun j hj => Function.update_of_ne hj ..
  have hne' : ∀ r : ℤ, ∀ j ≠ i, ((bc.setBlock i b).noteBad i r).blocks j = bc.blocks j :=
    fun r j hj => setBlock_noteBad_ne _ b r hj
  rw [wp_writeErrorcheckBootblock (by exact hi)]
  intro r hr
  refine ⟨hinv _, fun hr0 => ?_, ?_⟩
  · -- the check fails, or the block is bad
    refine hcalls hm false _ _ _ (.notChecked now r hr0) (by simp [hnow, hr]) ?_ (noteBad_info ..)
      (noteBad_initialised ..) (hne' r)
    simpa [badCode_eq_zero] using hr0
  · rintro rfl
    rw [wp_doWriteBootblock (by exact hi)]
    intro e he
    have hbefore : ∀ x ∈ [(⟨.mtdErase i, e⟩ : Event), ⟨.mtdIsBad i, (0 : ℤ)⟩, ⟨.time, now⟩],
        J.ok x.1 x.2 := by simp [hnow, hr, he]
    refine ⟨hinv _, fun hneg => ⟨fun _ r' hr' => ⟨hinv _, ?_⟩, fun h => absurd rfl h⟩,
      fun hpos m hmem => ⟨hinv _, ?_, ?_⟩⟩
    · exact hcalls hm false _ _ _ (.notErased now e r' hneg) (by simp [hnow, hr, he, hr'])
        (by simp) (noteBad_info ..) (noteBad_initialised ..) (hne' r')
    · rintro rfl
      refine ⟨fun h => absurd h (by decide), fun _ => ?_⟩
      exact hcalls hm false _ _ _ (.noPage now e hpos)
        (List.forall_mem_cons.2 ⟨hmem, hbefore⟩) (by simp) rfl rfl hne
    · rintro rfl
      refine ⟨fun h => absurd h (by simpa using hio), fun _ o ho => ⟨hinv _, ?_, ?_⟩⟩
      · intro herr r' hr'
        have hneg : o.ret < 0 := by
          by_contra h
          rw [if_neg h] at herr; cases herr
        rw [Bootconfig.setBlock_blocks, Function.update_self] at ho ⊢
        exact ⟨hinv _, hcalls hm false _ _ _ (.notWritten now e o r' hpos hneg)
          (List.forall_mem_cons.2 ⟨hr', List.forall_mem_cons.2
            ⟨ho, List.forall_mem_cons.2 ⟨hmem, hbefore⟩⟩⟩)
          (by simp) (noteBad_info ..) (noteBad_initialised ..) (hne' r')⟩
      · intro herr
        have hpos' : 0 ≤ o.ret := by
          by_contra h
          exact herr (if_pos (by omega))
        rw [Bootconfig.setBlock_blocks, Function.update_self] at ho ⊢
        rw [if_neg (by omega)]
        exact hcalls hm true _ _ _ (.written now e o hpos hpos')
          (List.forall_mem_cons.2 ⟨ho, List.forall_mem_cons.2 ⟨hmem, hbefore⟩⟩) (by simp)
          rfl rfl hne

end

end MetaHipos
