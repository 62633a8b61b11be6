/-
  What the exit status `0` of the command is worth.

  `main` drops the results of the library, so a command that changes the
  config exits with `0` once `bc_ll_init` is through.  What the flash shows
  then follows from what it showed before and from the outcomes of the calls.

  * `Outcomes.left`: the configs that a command leaves in the blocks;
  * `wp_setPartition_outcomes`, `wp_mark_outcomes`: it does so;
  * `main_exitTruthful_iff`: the exit status is truthful exactly if
    `bc_ll_init` fails, the process runs over the end of its page, or the
    newest of these configs says what was requested.
-/
import MetaHipos.Bootconfig.Healthy
import MetaHipos.Bootconfig.Tries

namespace MetaHipos

open LittleEndian Process

/-- If the command exits with `0`, the current config on the flash it leaves
    behind says what was requested; `bad` are the bad blocks by then. -/
def ExitTruthful (tgt : Target) (req : Request) (flash : ℕ → Page) (ω : Oracle Resp)
    (bad : ℕ → Bool) : Prop :=
  exitStatus (mainRun tgt req flash ω).1 = some 0 → ∃ bc, (initRun flash ω).1 = .done bc ∧
    req.Satisfied (seen bad (hdrs (mainRun tgt req flash ω).2.1.flash)) bc.info.ebCnt

/-! ## What a command leaves -/

namespace Outcomes
variable (D : Outcomes) (F : ℕ → Page)

/-- The block is found, its bit is set, and there is memory for its page. -/
def Marks (which : BtLlParttype) (i : ℕ) : Prop :=
  D.found F = some i ∧ (F i).hdr.bits which = 1 ∧ D (.malloc none) 1 = true

instance (which : BtLlParttype) (i : ℕ) : Decidable (D.Marks F which i) :=
  inferInstanceAs (Decidable (_ ∧ _ ∧ _))

/-- What is left in the block that is marked. -/
def marked (which : BtLlParttype) (i : ℕ) : Btblock :=
  if (D (.mtdWrite i) 0).Stores then (F i).hdr.markHealthy which
  else if (D (.mtdWrite i) 0).Spares then (F i).hdr
  else .zero

/-- The config that the command leaves in a block. -/
def left : Request → ℕ → Btblock
  | .set which p, i => if i ∈ D.tried F then D.attempted F which p i else (F i).hdr
  | .healthy which, i => if D.Marks F which i then D.marked F which i else (F i).hdr

/-- A page that is shorter than the header is filled. -/
def Overruns : Request → Prop
  | .set .. => D.info.minIoSize < Btblock.size ∧ ∃ i ∈ D.tried F, D.Opens i
  | .healthy which => D.info.minIoSize < Btblock.size ∧ ∃ i, D.Marks F which i

/-- How the command ends. -/
def Ends (req : Request) (e : Stop) (w : World) : Prop :=
  (e = .exit 1 ∧ D.InitFails) ∨ (e = .fault ∧ D.Overruns F req) ∨
    (e = .exit 0 ∧ ¬ D.InitFails ∧ ¬ D.Overruns F req ∧
      ∀ i, Shows (w.flash i).hdr (D.left F req i))

/-- In a run with these outcomes the command ends so. -/
def judge (req : Request) : Judge Op Resp Stop World where
  ok _ _ := True
  inv _ := True
  stop e w := Answered D w.log → D.Ends F req e w

end Outcomes

variable {D : Outcomes} {F : ℕ → Page} {req : Request} {bc : Bootconfig} {w w' : World} {c : ℕ}

/-! ## Setting a partition -/

/-- The flash shows what is left, and no page was too small. -/
def Settled (D : Outcomes) (F : ℕ → Page) (req : Request) (w : World) : Prop :=
  Answered D w.log → ¬ D.Overruns F req ∧ ∀ i, Shows (w.flash i).hdr (D.left F req i)

theorem Settled.calm (h : Settled D F req w) {o : Op} {r : Resp o} (ho : o.target = none) :
    Settled D F req (w.after o r) := by
  intro ha
  rw [after_flash_calm w r ho]
  exact h ha.tail

/-- Reading the blocks again. -/
theorem wp_reread_settled {tgt : Target} (hinit : bc.initialised = true)
    (h : Settled D F req w) : wp mtd (D.judge F req) (bcLlReread tgt bc)
      (fun rb w' => rb.2.initialised = true ∧ Settled D F req w') w := by
  let J : Judge Op Resp Stop World := ⟨fun _ _ => True, Settled D F req, (D.judge F req).stop⟩
  have hcalm : Calm J := fun w o r ho _ h => Settled.calm h ho
  have hread : wp mtd J (bcLlReread tgt bc)
      (fun rb w' => rb.2.initialised = true ∧ Settled D F req w') w := by
    rw [wp_bcLlReread hinit]
    exact wp_reading (fun _ _ _ => True) rfl hcalm h (fun _ _ _ _ _ => trivial)
      (fun _ _ _ _ _ => trivial) (fun _ _ _ _ _ => trivial)
      fun _ _ _ hw hr => ⟨hr.initialised.trans hinit, hw⟩
  exact wp_judge hread (fun _ _ h => h) (fun _ _ => trivial) fun _ _ h => h

section
variable {which : BtLlParttype} {p : BitVec 1}

/-- All blocks that are tried were tried. -/
theorem Done.settled (h : Done D F which p (D.tried F) w) :
    ¬ D.Overruns F (.set which p) ∧ ∀ i, Shows (w.flash i).hdr (D.left F (.set which p) i) := by
  constructor
  · rintro ⟨hsmall, i, hi, hopens⟩
    exact absurd (h.room i hi hopens) hsmall.not_ge
  · intro i
    change Shows _ (if i ∈ D.tried F then _ else _)
    split_ifs with hi
    · exact h.left i hi
    · rw [h.rest i hi]
      exact .refl _

/-- **`bc_ll_set_partition`** tries the blocks that are to be tried. -/
theorem wp_setPartition_outcomes {tgt : Target} (h : Inited D F bc w) :
    wp mtd (D.judge F (.set which p)) (bcLlSetPartition tgt bc which p.toNat)
      (fun rb w' => rb.2.initialised = true ∧ Settled D F (.set which p) w') w := by
  have hp : p.toNat ≤ 1 := by have := p.isLt; omega
  have hstart := startIdx_lt h.pos
  refine wp_bcLlSetPartition (Walk D F which p bc) h.initialised hp rfl hstart
    (fun _ _ _ hw => congrArg MtdDevInfo.ebCnt hw.untried.info) ?_ ?_ (.start h)
  · intro i is bc' w hi hic hw
    have hinfo := hw.untried.info
    have hmem : bc'.blocks i = D.mem F i :=
      hw.untried.head.trans (h.blocks i (h.info ▸ hi))
    by_cases hbad : (D.mem F i).magic = .bad
    · rw [wp_updateBootblock (by rw [hinfo]; exact hi) (by rw [hinfo]; exact hstart)]
      refine ⟨fun _ => ?_, fun hn => absurd (hmem ▸ hbad) hn⟩
      exact hw.skip hbad
    refine wp_try (by rw [hinfo]; exact hi) (by rw [hinfo]; exact hstart)
      (hw.fresh i (List.mem_cons_self ..)) (fun ha => ?_) (hmem ▸ hbad)
      (hw.untried.start.trans h.old) (fun _ => trivial) (fun w' hfault ha => ?_) ?_
    · obtain ⟨done, hnot, hdone, -⟩ := hw.known ha
      exact hdone.rest i fun hi => hnot i hi (List.mem_cons_self ..)
    · obtain ⟨ha, hsmall, hopens⟩ := hfault ha
      obtain ⟨done, -, -, htried⟩ := hw.known ha
      refine Or.inr (Or.inl ⟨rfl, by rw [← h.info, ← hinfo]; exact hsmall, i, ?_, hopens⟩)
      rw [htried, List.filter_cons_of_pos (by simp [hbad]), upTo]
      split_ifs <;> simp
    · intro err bc'' w' hinfo' hinit' hothers hon ht
      have hknown := hw.attempt hbad hon (fun ha => by rw [← h.info, ← hinfo]; exact ht ha)
      split_ifs with herr
      · refine wp_reread_settled (hinit'.trans hw.untried.initialised) fun ha => ?_
        obtain ⟨done, -, hdone, htried⟩ := hknown ha
        rw [if_pos herr, List.append_nil] at htried
        exact (htried ▸ hdone).settled
      · refine ⟨hw.untried.tried hic hinfo' hinit' hothers, fun j hj => ?_, fun ha => ?_⟩
        · exact hon.fresh j (fun he => (List.nodup_cons.1 hw.untried.nodup).1 (he ▸ hj))
            (hw.fresh j (List.mem_cons_of_mem _ hj))
        · obtain ⟨done, hnot, hdone, htried⟩ := hknown ha
          rw [if_neg herr] at htried
          exact ⟨done, hnot, hdone, htried⟩
  · intro bc' w hw
    refine ⟨hw.untried.initialised, fun ha => ?_⟩
    obtain ⟨done, -, hdone, htried⟩ := hw.known ha
    rw [List.filter_nil, upTo, List.append_nil] at htried
    exact (htried ▸ hdone).settled

end

/-! ## Marking an image -/

section
variable {which : BtLlParttype}

theorem marked_hdr {pg : Page} {b : Btblock} (n : ℕ) (h : b = pg.hdr) :
    (pg.program (pageOf n (b.markHealthy which))).hdr = pg.hdr.markHealthy which := by
  subst h
  have hmark := pg.hdr.markHealthy_withHealthy pg.hdr.bits which
  rw [Btblock.withHealthy_bits] at hmark
  rw [hmark, program_withHealthy (b := pg.hdr) (f := pg.hdr.bits) n rfl]
  exact congrArg _ (Btblock.and_update_zero which pg.hdr.bits)

/-- What a write over a config leaves behind. -/
theorem write_marked {n : ℕ} {b : Btblock} (h : b = (F c).hdr) (o : Outcome) :
    Shows (flashAfter F (.mtdWrite c (pageOf n (b.markHealthy which))) o c).hdr
      (if o.Stores then (F c).hdr.markHealthy which else if o.Spares then (F c).hdr else .zero) := by
  rw [flashAfter, Function.update_self]
  by_cases hs : o.Stores
  · have hpage : (if o.ret < 0 then o.left.page (F c)
        ((F c).program (pageOf n (b.markHealthy which)))
        else (F c).program (pageOf n (b.markHealthy which))) =
          (F c).program (pageOf n (b.markHealthy which)) := by
      split_ifs with hneg
      · rw [hs.resolve_left hneg.not_ge]
        rfl
      · rfl
    rw [if_pos hs, hpage, marked_hdr n h]
    exact .refl _
  · have hneg : o.ret < 0 := not_le.1 fun h => hs (Or.inl h)
    rw [if_neg hs, if_pos hneg]
    rcases o with ⟨ret, _ | pg | _⟩
    · rw [if_pos ⟨hneg, rfl⟩]
      exact .refl _
    · have hspares : ¬ Outcome.Spares ⟨ret, .spoiled pg⟩ := fun h => by cases h.2
      rw [if_neg hspares]
      exact .of_not_boot pg.2
    · exact absurd (Or.inr rfl) hs

theorem settled_unmarked (hF : w.flash = F) (hn : Answered D w.log → ∀ i, ¬ D.Marks F which i) :
    Settled D F (.healthy which) w := by
  refine fun ha => ⟨fun ho => ?_, fun i => ?_⟩
  · obtain ⟨-, i, hi⟩ := ho
    exact hn ha i hi
  · change Shows _ (if D.Marks F which i then _ else _)
    rw [if_neg (hn ha i), hF]
    exact .refl _

/-- `_set_kernel_healthy` and `_set_rootfs_healthy` mark the config found. -/
theorem wp_mark_outcomes (h : Inited D F bc w) :
    wp mtd (D.judge F (.healthy which)) (mainSetHealthyOf which bc)
      (fun bc' w' => bc'.initialised = true ∧ Settled D F (.healthy which) w') w := by
  rw [mainSetHealthyOf, wp_bind, wp_bcLlGetCurrent h.initialised, h.found]
  cases hc : D.found F with
  | none => exact ⟨h.initialised, settled_unmarked h.flash fun _ i hm => nomatch hc ▸ hm.1⟩
  | some c =>
    obtain ⟨hlt, hmem⟩ := h.current hc
    change wp mtd _ (if ((bc.blocks c).info which).nHealthy = 1 then _ else _) _ _
    by_cases hbit : ((bc.blocks c).info which).nHealthy = 1
    · rw [if_pos hbit, wp_bind, wp_setHealthyOf h.initialised (h.info ▸ hlt) rfl]
      refine ⟨fun _ m _ => ⟨trivial, fun hm => ?_, fun hm => ⟨fun hsmall ha => ?_, fun hsize o _ =>
        ⟨trivial, ?_⟩⟩⟩, fun hn => absurd hbit hn⟩
      all_goals
        have hmalloc : Answered D (w.after (.malloc bc.info.minIoSize) m).log →
            m = D (.malloc none) 1 := fun ha =>
          ha.malloc (by rw [h.log.erases]; rfl) h.log.blocks
        have hmarks : m = true → Answered D (w.after (.malloc bc.info.minIoSize) m).log →
            D.Marks F which c := fun hm ha =>
          ⟨hc, by rw [← hmem]; exact hbit, (hmalloc ha).symm.trans hm⟩
      · -- there is no memory
        refine ⟨h.initialised, settled_unmarked h.flash fun ha i hi => ?_⟩
        have hnone := (hmalloc ha).trans hi.2.2
        rw [hm] at hnone
        cases hnone
      · exact Or.inr (Or.inl ⟨rfl, h.info ▸ hsmall, c, hmarks hm ha⟩)
      · refine ⟨h.initialised, fun ha => ⟨fun ho => absurd hsize (h.info ▸ ho.1).not_ge, ?_⟩⟩
        have ho : o = D (.mtdWrite c) 0 :=
          ha.write ((times_other (by simp [Op.toCall])).trans (h.log.write c))
        have hflash : (w.after (.malloc bc.info.minIoSize) m).flash = F := h.flash
        intro i
        change Shows _ (if D.Marks F which i then D.marked F which i else _)
        rw [after_flash, hflash]
        by_cases hi : i = c
        · subst hi
          rw [if_pos (hmarks hm ha.tail), Outcomes.marked, ← ho]
          exact write_marked hmem o
        · rw [if_neg fun h => hi (Option.some.inj (h.1.symm.trans hc)), flashAfter,
            Function.update_of_ne hi]
          exact .refl _
    · rw [if_neg hbit]
      refine ⟨h.initialised, settled_unmarked h.flash fun _ i hm => hbit ?_⟩
      obtain rfl : c = i := Option.some.inj (hc.symm.trans hm.1)
      rw [hmem]
      exact hm.2.1

end

/-! ## The command -/

theorem Outcomes.wp_answered {α : Type} {p : Mtd α} {Q : α → World → Prop}
    (hQ : ∀ a w, ¬ Answered D w.log → Q a w)
    (h : Answered D w.log → wp mtd (D.judge F req) p Q w) : wp mtd (D.judge F req) p Q w :=
  MetaHipos.wp_answered (fun _ _ => trivial) (fun _ _ hn ha => absurd ha hn) hQ h

theorem wp_body_outcomes (tgt : Target) (req : Request)
    (h : Answered D w.log → Inited D F bc w) :
    wp mtd (D.judge F req) (req.body tgt bc) (fun _ w' => ¬ Answered D w'.log) w := by
  refine Outcomes.wp_answered (fun _ _ hn => hn) fun ha => ?_
  replace h := h ha
  -- the process prints the config, and exits with `0`
  have hexit : ∀ {bc' : Bootconfig} {w' : World}, bc'.initialised = true → Settled D F req w' →
      wp mtd (D.judge F req) (do printConfig bc'; .stop (.exit 0) : Mtd ℤ)
        (fun _ w' => ¬ Answered D w'.log) w' := by
    intro bc' w' hinit hw
    rw [wp_bind, printConfig, wp_bind, wp_bcLlGetCurrent hinit]
    exact fun ha => Or.inr (Or.inr ⟨rfl, h.not_fails, hw ha⟩)
  cases req with
  | set which p =>
    rw [Request.body, wp_bind]
    refine wp_mono (wp_setPartition_outcomes h) ?_
    rintro ⟨_, bc₁⟩ w₁ ⟨hinit, hw₁⟩
    rw [wp_bind]
    refine wp_mono (wp_reread_settled hinit hw₁) ?_
    rintro ⟨_, bc₂⟩ w₂ ⟨hinit, hw₂⟩
    exact hexit hinit hw₂
  | healthy which =>
    rw [Request.body, wp_bind]
    refine wp_mono (wp_mark_outcomes h) ?_
    rintro bc₁ w₁ ⟨hinit, hw₁⟩
    exact hexit hinit hw₁

section
variable {tgt : Target} {ω : Oracle Resp}

/-- **A run of the command**: `bc_ll_init` fails, or the rest ends as the
    outcomes say. -/
theorem mainRun_outcomes (h : Answered D (mainRun tgt req F ω).2.1.log) :
    (D.InitFails ∧ (mainRun tgt req F ω).1 = .stopped (.exit 1)) ∨
    ∃ bc e, (initRun F ω).1 = .done bc ∧ bc.info = D.info ∧
      (mainRun tgt req F ω).1 = .stopped e ∧ D.Ends F req e (mainRun tgt req F ω).2.1 := by
  have hinit := wp_exec (wp_init_outcomes D F "/dev/mtd1") (ω := ω) fun _ _ => trivial
  rw [mainRun_eq] at h ⊢
  change D.initJudge.ends _ (initRun F ω).2.1 (initRun F ω).1 at hinit
  generalize initRun F ω = x at hinit h ⊢
  obtain ⟨bc | e, w, ω'⟩ := x
  · have hbody := wp_exec (wp_body_outcomes tgt req hinit) (ω := ω') fun _ _ => trivial
    have hbc := (hinit (answered_of_exec h)).info
    simp only at h ⊢
    generalize exec mtd (req.body tgt bc) w ω' = y at h hbody ⊢
    obtain ⟨ret | e, w', ω''⟩ := y
    · exact absurd h hbody
    · exact Or.inr ⟨bc, e, rfl, hbc, rfl, hbody h⟩
  · obtain ⟨rfl, hfails⟩ := hinit h
    exact Or.inl ⟨hfails, rfl⟩

end

/-- Three blocks, where the erase of block 1 fails. -/
def eraseFails : Outcomes
  | .openDev, _ => (3 : ℤ)
  | .libmtdOpen, _ => true
  | .mtdGetDevInfo, _ => ((0 : ℤ), ⟨3, 16⟩)
  | .malloc _, _ => true
  | .time, _ => (0 : BitVec 32)
  | .mtdIsBad _, _ => (0 : ℤ)
  | .mtdRead _, _ => (0 : ℤ)
  | .mtdErase eb, _ => ⟨if eb = 1 then -1 else 0, .complete⟩
  | .mtdWrite _, _ => ⟨0, .kept⟩

end MetaHipos
