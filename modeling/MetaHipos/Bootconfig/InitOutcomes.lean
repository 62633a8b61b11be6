/-
  `bc_ll_init`, by the outcomes of its calls.

  * `Outcomes.mem`: the blocks in memory, and `Outcomes.found`: the config that
    is found;
  * `wp_init_outcomes`: a run with these outcomes exits or returns with them.
-/
import MetaHipos.Bootconfig.Outcomes

namespace MetaHipos

open LittleEndian Process

namespace Outcomes
variable (D : Outcomes) (F : ℕ → Page)

/-- The geometry of the device. -/
def info : MtdDevInfo := (D .mtdGetDevInfo 0).2

/-- `bc_ll_init` reads the block. -/
def Reads (i : ℕ) : Prop := D (.mtdIsBad i) 0 = 0 ∧ Delivers (D (.mtdRead i) 0)

instance (i : ℕ) : Decidable (D.Reads i) := inferInstanceAs (Decidable (_ ∧ _))

/-- `bc_ll_init` exits: one of its first calls fails, or it reads no block. -/
def InitFails : Prop :=
  D .openDev 0 < 0 ∨ D .libmtdOpen 0 = false ∨ (D .mtdGetDevInfo 0).1 < 0 ∨
    D (.malloc none) 0 = false ∨ ∀ i < D.info.ebCnt, ¬ D.Reads i

instance : Decidable D.InitFails :=
  inferInstanceAs (Decidable (_ ∨ _ ∨ _ ∨ _ ∨ ∀ i < D.info.ebCnt, ¬ D.Reads i))

/-- The block in memory after `bc_ll_init`. -/
def mem (i : ℕ) : Btblock :=
  if 0 < D (.mtdIsBad i) 0 then { Btblock.zero with magic := .bad }
  else if D.Reads i then (F i).hdr
  else .zero

/-- The config that `bc_ll_init` finds. -/
def found : Option ℕ := currentIdx (D.mem F) D.info.ebCnt

/-- The block an update starts from: the one found, or the last one. -/
def start : ℕ := (D.found F).getD (D.info.ebCnt - 1)

/-- The config that is updated: the one found, or the dummy. -/
def old : Btblock :=
  match D.found F with
  | some c => (F c).hdr
  | none => dummyBlock

/-- In a run with these outcomes `bc_ll_init` returns, or the process exits. -/
def initJudge : Judge Op Resp Stop World where
  ok _ _ := True
  inv _ := True
  stop e w := Answered D w.log → e = .exit 1 ∧ D.InitFails

end Outcomes

variable {D : Outcomes} {F : ℕ → Page} {bc : Bootconfig} {w w' : World} {log : List Event}
  {info : MtdDevInfo} {i k c : ℕ}

/-! ## Reading the blocks -/

/-- The calls of `bc_ll_init`, where the blocks before `k` were read. -/
structure ReadUpTo (k : ℕ) (log : List Event) : Prop where
  erases : erases log = []
  isBad : ∀ i, times (.mtdIsBad i) log = if i < k then 1 else 0
  read : ∀ i, k ≤ i → times (.mtdRead i) log = 0
  blocks : times (.malloc none) log = 1
  page : ∀ i, times (.malloc (some i)) log = 0
  erase : ∀ i, times (.mtdErase i) log = 0
  write : ∀ i, times (.mtdWrite i) log = 0

/-- The calls before the blocks are read. -/
theorem readUpTo_zero (dev : String) (fd : ℤ) (r : ℤ × MtdDevInfo) (n : ℕ) :
    ReadUpTo 0 [⟨.malloc n, true⟩, ⟨.mtdGetDevInfo dev, r⟩, ⟨.libmtdOpen, true⟩,
      ⟨.openDev dev, fd⟩] := by
  constructor <;> simp [times, made, Op.toCall, erases]

theorem ReadUpTo.check (h : ReadUpTo k log) (r : ℤ) :
    ReadUpTo (k + 1) (⟨.mtdIsBad k, r⟩ :: log) where
  erases := h.erases
  isBad i := by
    rw [times_cons, h.isBad]
    by_cases hi : i = k
    · subst hi
      simp [Op.toCall]
    · have hlt : i < k + 1 ↔ i < k := by omega
      simp [Op.toCall, Ne.symm hi, hlt]
  read i hi := (times_other (by simp [Op.toCall])).trans (h.read i (by omega))
  blocks := (times_other (by simp [Op.toCall])).trans h.blocks
  page i := (times_other (by simp [Op.toCall])).trans (h.page i)
  erase i := (times_other (by simp [Op.toCall])).trans (h.erase i)
  write i := (times_other (by simp [Op.toCall])).trans (h.write i)

theorem ReadUpTo.readBlock (h : ReadUpTo (k + 1) log) (r : ℤ) :
    ReadUpTo (k + 1) (⟨.mtdRead k, r⟩ :: log) where
  erases := h.erases
  isBad i := (times_other (by simp [Op.toCall])).trans (h.isBad i)
  read i hi := by
    have hki : k ≠ i := by omega
    exact (times_other (by simp [Op.toCall, hki])).trans (h.read i hi)
  blocks := (times_other (by simp [Op.toCall])).trans h.blocks
  page i := (times_other (by simp [Op.toCall])).trans (h.page i)
  erase i := (times_other (by simp [Op.toCall])).trans (h.erase i)
  write i := (times_other (by simp [Op.toCall])).trans (h.write i)

/-- The memory where the blocks before `k` were read, `broken` of them in vain. -/
structure Loaded (D : Outcomes) (F : ℕ → Page) (info : MtdDevInfo) (k broken : ℕ)
    (bc : Bootconfig) (w : World) : Prop where
  log : ReadUpTo k w.log
  flash : w.flash = F
  info : bc.info = info
  rest : ∀ i, k ≤ i → bc.blocks i = .zero
  known : Answered D w.log → (∀ i < k, bc.blocks i = D.mem F i) ∧ broken ≤ k ∧
    (broken = k ↔ ∀ i < k, ¬ D.Reads i)

/-- One more block. -/
theorem Loaded.next {broken : ℕ} {bc' : Bootconfig} {err : ℤ} (h : Loaded D F info k broken bc w)
    (hlog : ReadUpTo (k + 1) w'.log) (hflash : w'.flash = w.flash) (hinfo : bc'.info = bc.info)
    (hrest : ∀ j ≠ k, bc'.blocks j = bc.blocks j)
    (hk : Answered D w'.log → Answered D w.log ∧ bc'.blocks k = D.mem F k ∧
      (err ≠ 0 ↔ ¬ D.Reads k)) :
    Loaded D F info (k + 1) (if err ≠ 0 then broken + 1 else broken) bc' w' where
  log := hlog
  flash := hflash.trans h.flash
  info := hinfo.trans h.info
  rest i hi := (hrest i (by omega)).trans (h.rest i (by omega))
  known ha := by
    obtain ⟨ha', hmem, herr⟩ := hk ha
    obtain ⟨hblocks, hle, hall⟩ := h.known ha'
    refine ⟨fun i hi => ?_, ?_, ?_⟩
    · rcases Nat.lt_succ_iff_lt_or_eq.1 hi with hi | rfl
      · exact (hrest i (by omega)).trans (hblocks i hi)
      · exact hmem
    · split_ifs <;> omega
    · have hsucc : (∀ i < k + 1, ¬ D.Reads i) ↔ (∀ i < k, ¬ D.Reads i) ∧ ¬ D.Reads k :=
        Nat.forall_lt_succ_right
      rw [hsucc, ← hall, ← herr]
      split_ifs with he
      · simp [he]
      · simp only [he, and_false, iff_false]
        omega

/-- Reading the blocks of a zeroed memory. -/
theorem wp_readBootconfig_outcomes {Q : ℤ × Bootconfig → World → Prop} (flag : Bool)
    (hlog : ReadUpTo 0 w.log) (hF : w.flash = F)
    (hQ : ∀ broken bc' w', Loaded D F info info.ebCnt broken bc' w' →
      Q (if broken = info.ebCnt then -1 else 0, bc') w') :
    wp mtd D.initJudge (readBootconfig ⟨flag, fun _ => .zero, info⟩) Q w := by
  refine wp_readBootconfig (n := info.ebCnt) (Loaded D F info) ?_ (fun broken bc w h => ?_) rfl
    ⟨hlog, hF, rfl, fun _ _ => rfl, fun _ => ⟨fun i hi => by omega, le_rfl, by simp⟩⟩
  · intro k broken bc w hk h
    rw [wp_readBootblock (by rw [h.info]; exact hk)]
    have hzero := h.rest k le_rfl
    have hfirst : times (.mtdIsBad k) w.log = 0 := (h.log.isBad k).trans (if_neg (by omega))
    refine fun r _ => ⟨trivial, fun hr => ?_, fun hr e _ => ⟨trivial, ?_⟩⟩
    · -- the check fails, or the block is bad
      have hcode : badCode r ≠ 0 := fun h0 => hr (badCode_eq_zero.1 h0)
      refine h.next (h.log.check r) rfl (by simp) (fun j hj => noteBad_blocks_ne _ _ hj)
        fun ha => ⟨ha.tail, ?_, ?_⟩
      · rw [Outcomes.mem, ← ha.isBad hfirst, Bootconfig.noteBad, hzero]
        have hreads : ¬ D.Reads k := fun hreads => hr ((ha.isBad hfirst).trans hreads.1)
        by_cases hpos : 0 < r
        · rw [if_pos hpos, if_pos hpos]
          exact Function.update_self ..
        · rw [if_neg hpos, if_neg hpos, if_neg hreads, hzero]
      · refine iff_of_true hcode fun hreads => hr ?_
        exact (ha.isBad hfirst).trans hreads.1
    · -- the block is read
      subst hr
      refine h.next ((h.log.check 0).readBlock e) rfl ?_ (fun j hj => ?_)
        fun ha => ⟨ha.tail.tail, ?_, ?_⟩
      · unfold Bootconfig.noteRead
        split_ifs <;> rfl
      · unfold Bootconfig.noteRead
        split_ifs
        · exact Function.update_of_ne hj ..
        · rfl
      all_goals
        have h0 : 0 = D (.mtdIsBad k) 0 := ha.tail.isBad hfirst
        have he : e = D (.mtdRead k) 0 :=
          ha.read ((times_other (by simp [Op.toCall])).trans (h.log.read k le_rfl))
        have hreads : D.Reads k ↔ Delivers e := by rw [Outcomes.Reads, ← h0, ← he]; simp
      · rw [Outcomes.mem, ← h0, if_neg (lt_irrefl (0 : ℤ))]
        by_cases hd : Delivers e
        · rw [if_pos (hreads.2 hd), Bootconfig.noteRead, h.flash]
          simp [hd]
        · rw [if_neg fun h => hd (hreads.1 h), Bootconfig.noteRead]
          simp [hd, hzero]
      · rw [hreads]
        by_cases hd : Delivers e <;> simp [hd]
  · exact ⟨congrArg MtdDevInfo.ebCnt h.info, hQ broken bc w h⟩

/-- What is known after `bc_ll_init`. -/
structure Inited (D : Outcomes) (F : ℕ → Page) (bc : Bootconfig) (w : World) : Prop where
  initialised : bc.initialised = true
  info : bc.info = D.info
  reads : ∃ i < D.info.ebCnt, D.Reads i
  not_fails : ¬ D.InitFails
  blocks : ∀ i < D.info.ebCnt, bc.blocks i = D.mem F i
  log : ReadUpTo D.info.ebCnt w.log
  flash : w.flash = F

/-- **`bc_ll_init` exits or returns** as the outcomes say. -/
theorem wp_init_outcomes (D : Outcomes) (F : ℕ → Page) (dev : String) :
    wp mtd D.initJudge (bcLlInit false dev)
      (fun bc w => Answered D w.log → Inited D F bc w) ⟨F, []⟩ := by
  rw [bcLlInit]
  intro (fd : ℤ) _
  refine ⟨trivial, ?_⟩
  change wp mtd _ (if fd < 0 then _ else _) _ _
  rcases lt_or_ge fd 0 with hneg | hopen
  · rw [if_pos hneg]
    refine fun ha => ⟨rfl, Or.inl ?_⟩
    exact lt_of_eq_of_lt ha.head.symm hneg
  rw [if_neg (by omega)]
  intro (lib : Bool) _
  refine ⟨trivial, ?_⟩
  cases lib with
  | false => exact fun ha => ⟨rfl, Or.inr (Or.inl ha.head.symm)⟩
  | true =>
  intro (r : ℤ × MtdDevInfo) _
  refine ⟨trivial, ?_⟩
  change wp mtd _ (if r.1 < 0 then _ else _) _ _
  rcases lt_or_ge r.1 0 with hneg | hinfo
  · rw [if_pos hneg]
    refine fun ha => ⟨rfl, Or.inr (Or.inr (Or.inl ?_))⟩
    have hr : r = D .mtdGetDevInfo 0 := ha.head
    rw [← hr]
    exact hneg
  rw [if_neg (by omega)]
  intro (mem : Bool) _
  refine ⟨trivial, ?_⟩
  cases mem with
  | false =>
    exact fun ha => ⟨rfl, Or.inr (Or.inr (Or.inr (Or.inl ha.head.symm)))⟩
  | true =>
  change wp mtd _ (readBootconfig _ >>= _) _ _
  rw [wp_bind]
  refine wp_answered (fun _ _ => trivial) (fun _ _ hn ha => absurd ha hn) (fun rb w hn => ?_)
    fun ha => ?_
  · change wp mtd _ (if rb.1 < 0 then _ else _) _ _
    split_ifs
    · exact fun h => absurd h hn
    · exact fun h => absurd h hn
  have hmem : D (.malloc none) 0 = true := ha.head.symm
  have hr : r = D .mtdGetDevInfo 0 := ha.tail.head
  have hlib : D .libmtdOpen 0 = true := ha.tail.tail.head.symm
  have hfd : fd = D .openDev 0 := ha.tail.tail.tail.head
  subst hr
  refine wp_readBootconfig_outcomes false (readUpTo_zero ..) rfl fun broken bc w h => ?_
  -- the blocks were read in vain, or not
  change wp mtd _ (if (if broken = D.info.ebCnt then (-1 : ℤ) else 0) < 0 then _ else _) _ _
  by_cases hall : broken = D.info.ebCnt
  · rw [if_pos (by rw [if_pos hall]; decide)]
    refine fun ha => ⟨rfl, Or.inr (Or.inr (Or.inr (Or.inr ?_)))⟩
    exact (h.known ha).2.2.1 hall
  · rw [if_neg (by rw [if_neg hall]; decide)]
    intro ha
    obtain ⟨hblocks, -, hbroken⟩ := h.known ha
    have hreads : ¬ ∀ i < D.info.ebCnt, ¬ D.Reads i := fun hn => hall (hbroken.2 hn)
    refine ⟨rfl, h.info, ?_, ?_, hblocks, h.log, h.flash⟩
    · simpa only [not_forall, not_not, exists_prop] using hreads
    · rintro (h1 | h1 | h1 | h1 | h1)
      · exact absurd h1 (hfd ▸ hopen).not_gt
      · rw [hlib] at h1
        cases h1
      · exact absurd h1 hinfo.not_gt
      · rw [hmem] at h1
        cases h1
      · exact hreads h1

/-! ## What was found -/

theorem Inited.found (h : Inited D F bc w) :
    currentIdx bc.blocks bc.info.ebCnt = D.found F := by
  rw [h.info]
  exact currentIdx_congr h.blocks

theorem Inited.startIdx (h : Inited D F bc w) : bc.startIdx = D.start F := by
  rw [Bootconfig.startIdx, h.found, h.info]
  rfl

/-- A config in memory is one on flash. -/
theorem Outcomes.mem_of_version (h : (D.mem F i).version ≠ none) : D.mem F i = (F i).hdr := by
  unfold Outcomes.mem at h ⊢
  split_ifs at h ⊢
  · exact absurd (Btblock.version_of_bad rfl) h
  · rfl
  · exact absurd Btblock.version_zero h

theorem Inited.current (h : Inited D F bc w) (hc : D.found F = some c) :
    c < D.info.ebCnt ∧ bc.blocks c = (F c).hdr := by
  have hnew := currentIdx_eq_some.1 hc
  refine ⟨hnew.lt, (h.blocks c hnew.lt).trans (Outcomes.mem_of_version fun hnone => ?_)⟩
  have := hnew.key_eq
  rw [versions, hnone] at this
  cases this

theorem Inited.old (h : Inited D F bc w) : bc.startMem.blocks bc.startIdx = D.old F := by
  unfold Outcomes.old
  cases hc : D.found F with
  | some c =>
    obtain ⟨hidx, hmem⟩ := start_of_current (h.found.trans hc)
    rw [hmem, hidx]
    exact (h.current hc).2
  | none =>
    have hnone := h.found.trans hc
    simp only [Bootconfig.startMem, Bootconfig.startIdx, hnone, Option.getD_none,
      Bootconfig.setBlock_blocks, Function.update_self]

theorem Inited.pos (h : Inited D F bc w) : 0 < bc.info.ebCnt := by
  obtain ⟨i, hi, -⟩ := h.reads
  rw [h.info]
  omega

end MetaHipos
