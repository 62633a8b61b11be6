/-
  Two `bootconfig` commands at the same time.

  `bootconfig set-kernel` and `bootconfig set-rootfs` run in parallel, and no
  call fails.  Without a lock the later one only keeps the partition set by the
  other one if it has read the block written by it.

  * `within_readBootconfig`, `within_updateBootblock`: the rules for one process
    among others;
  * `within_main`: the command keeps to the phases of a race;
  * `twoProcesses_outcome`: the config that is current in the end.
-/
import MetaHipos.Bootconfig.Race
import MetaHipos.Bootconfig.Request

namespace MetaHipos

open LittleEndian Process Newest

/-! ## Calls -/

/-- What the processes of a race keep, and what each of them knows: its phase. -/
def racing (R : Race) : Sharing Op Resp Stop BtLlParttype Phase Shared where
  ok := Fine R.bad R.info
  inv s := Racing R (fun w => phase R.t w s.log) s.flash
  view w s := phase R.t w s.log
  stop e φ := e = .exit 0 ∧ φ.Over

section
variable {R : Race} {who : BtLlParttype} {s : Shared} {o : Op} {r : Resp o} {φ φ' : Phase}
  {α : Type}

@[simp] theorem racing_view_next (w : BtLlParttype) :
    (racing R).view who ((sharedMtd w).next o r s) = phase R.t who ((w, ⟨o, r⟩) :: s.log) := rfl

theorem keeps_of (hφ : phase R.t who ((who, ⟨o, r⟩) :: s.log) = φ)
    (h : Racing R (Function.update (fun w => phase R.t w s.log) who φ) (flashAfter s.flash o r)) :
    (racing R).Keeps who s ((sharedMtd who).next o r s) := by
  refine ⟨?_, fun w hw => phase_of_ne hw⟩
  have hphases := phase_eq_update hφ
  change Racing R (fun w => phase R.t w ((who, ⟨o, r⟩) :: s.log)) (flashAfter s.flash o r)
  rw [hphases]
  exact h

/-- Calls that leave the flash alone, but for the first one that reads `t`. -/
theorem within_calm {k : Ans o → Mtd α} {Q : α → Phase → Prop} (ho : o.target = none)
    (hread : o ≠ .mtdRead R.t ∨ φ.Over)
    (h : ∀ s, (racing R).inv s → phase R.t who s.log = φ → ∀ r, Fine R.bad R.info o r →
      within (racing R) (sharedMtd who) who (k ((sharedMtd who).reply o r s)) Q φ) :
    within (racing R) (sharedMtd who) who (.call o k) Q φ := by
  rintro s hs rfl r hr
  have hφ : phase R.t who ((who, ⟨o, r⟩) :: s.log) = phase R.t who s.log := phase_calm ho hread
  have hflash : flashAfter s.flash o r = s.flash := after_flash_calm ⟨s.flash, []⟩ r ho
  refine ⟨keeps_of hφ ?_, ?_⟩
  · rw [hflash, Function.update_eq_self]
    exact hs
  · change within _ _ _ _ Q (phase R.t who ((who, ⟨o, r⟩) :: s.log))
    rw [hφ]
    exact h s hs rfl r hr

/-! ## Reading -/

variable {bc : Bootconfig} {i : ℕ}

theorem within_access {Q : Unit → Phase → Prop} (hi : i < bc.info.ebCnt) :
    within (racing R) (sharedMtd who) who (access bc i) Q φ ↔ Q () φ := by
  rw [access, if_pos hi]
  rfl

/-- Checking a block. -/
theorem within_checkBlock {Q : ℤ × Bootconfig → Phase → Prop} (hi : i < bc.info.ebCnt)
    (hbad : R.bad i = true → Q (1, bc.setBlock i { bc.blocks i with magic := .bad }) φ)
    (hgood : R.bad i = false → Q (0, bc) φ) :
    within (racing R) (sharedMtd who) who (checkBlock bc i) Q φ := by
  refine within_calm (o := .mtdIsBad i) rfl (Or.inl (by simp)) ?_
  intro s _ _ (r : ℤ) (hr : Answers (R.bad i) r)
  change within _ _ _ (if r < 0 then _ else if 0 < r then _ else _) _ _
  unfold Answers at hr
  cases hb : R.bad i with
  | true =>
    rw [hb, if_pos rfl] at hr
    rw [if_neg (by omega), if_pos hr, within_bind, within_access hi]
    exact hbad hb
  | false =>
    rw [hb, if_neg (by simp)] at hr
    rw [if_neg (by omega), if_neg (by omega)]
    exact hgood hb

/-- Reading a block; `mtd_read` delivers it as it is at that time. -/
theorem within_readBootblock {Q : ℤ × Bootconfig → Phase → Prop} (hi : i < bc.info.ebCnt)
    (hbad : R.bad i = true → Q (1, bc.setBlock i { bc.blocks i with magic := .bad }) φ)
    (hread : R.bad i = false → ∀ s, (racing R).inv s → phase R.t who s.log = φ → ∀ e : ℤ,
      Delivers e → (racing R).Keeps who s ((sharedMtd who).next (.mtdRead i) e s) ∧
        Q (0, bc.setBlock i (s.flash i).hdr) (phase R.t who ((who, ⟨.mtdRead i, e⟩) :: s.log))) :
    within (racing R) (sharedMtd who) who (readBootblock bc i) Q φ := by
  rw [readBootblock, within_bind]
  refine within_checkBlock hi (fun hb => ?_) fun hb => ?_
  · exact hbad hb
  · simp only [ne_eq, not_true_eq_false, if_false]
    rw [within_bind, within_access hi]
    rintro s hs hφ (e : ℤ) (he : Delivers e)
    obtain ⟨hkeeps, hQ⟩ := hread hb s hs hφ e he
    refine ⟨hkeeps, ?_⟩
    have hreply : (sharedMtd who).reply (.mtdRead i) e s = (e, some (s.flash i).hdr) :=
      congrArg (Prod.mk e) (if_pos he)
    rw [hreply]
    rcases he with rfl | rfl
    · simpa [Proc.bind, EUCLEAN] using hQ
    · simpa [Proc.bind] using hQ

theorem within_readBootconfig {Q : ℤ × Bootconfig → Phase → Prop}
    (Inv : ℕ → ℕ → Bootconfig → Phase → Prop)
    (hstep : ∀ k broken bc φ, k < R.info.ebCnt → Inv k broken bc φ →
      within (racing R) (sharedMtd who) who (readBootblock bc k) (fun rb φ' =>
        Inv (k + 1) (if rb.1 ≠ 0 then broken + 1 else broken) rb.2 φ') φ)
    (hend : ∀ broken bc φ, Inv R.info.ebCnt broken bc φ →
      bc.info = R.info ∧ Q (if broken = R.info.ebCnt then -1 else 0, bc) φ)
    (hinfo : bc.info = R.info) (h : Inv 0 0 bc φ) :
    within (racing R) (sharedMtd who) who (readBootconfig bc) Q φ := by
  rw [readBootconfig, within_bind, hinfo]
  set n := R.info.ebCnt
  refine within_forEach (fun l t φ => ∃ k, l = List.range' k (n - k) ∧ k ≤ n ∧ Inv k t.1 t.2 φ)
    ?_ ?_ _ _ _ ⟨0, by rw [List.range_eq_range', Nat.sub_zero], Nat.zero_le _, h⟩
  · rintro ⟨broken, bc'⟩ φ' ⟨k, hk, hle, hI⟩
    have hkn : n - k = 0 := List.range'_eq_nil_iff.1 hk.symm
    obtain rfl : k = n := by omega
    obtain ⟨hinfo', hQ⟩ := hend _ _ _ hI
    rw [within_pure, hinfo']
    exact hQ
  · rintro block is ⟨broken, bc'⟩ φ' ⟨k, hk, hle, hI⟩
    have hlt : k < n := by
      by_contra hk'
      rw [show n - k = 0 by omega] at hk; simp at hk
    rw [show n - k = n - (k + 1) + 1 by omega, List.range'_succ, List.cons.injEq] at hk
    obtain ⟨rfl, rfl⟩ := hk
    rw [within_bind]
    refine within_mono (hstep _ _ _ _ hlt hI) ?_
    rintro ⟨err, bc''⟩ φ'' hI'
    exact ⟨block + 1, rfl, hlt, hI'⟩

/-- Reading again after the own block was written. -/
theorem within_reread {Q : ℤ × Bootconfig → Phase → Prop} {tgt : Target} (hφ : φ.Over)
    (hinfo : bc.info = R.info) (hinit : bc.initialised = true)
    (hQ : ∀ code bc', bc'.info = R.info → bc'.initialised = true → Q (code, bc') φ) :
    within (racing R) (sharedMtd who) who (bcLlReread tgt bc) Q φ := by
  rw [bcLlReread, if_neg (by simp [hinit])]
  refine within_readBootconfig (fun _ _ bc' φ' => φ' = φ ∧ bc'.info = R.info ∧
    bc'.initialised = true) ?_ ?_ hinfo ⟨rfl, hinfo, hinit⟩
  · rintro k broken bc' φ' hk ⟨rfl, hinfo', hinit'⟩
    refine within_readBootblock (hinfo'.symm ▸ hk) (fun _ => ⟨rfl, hinfo', hinit'⟩) ?_
    rintro _ s hs rfl e _
    have hphase : phase R.t who ((who, ⟨.mtdRead k, e⟩) :: s.log) = phase R.t who s.log :=
      phase_calm rfl (Or.inr hφ)
    refine ⟨keeps_of hphase ?_, hphase, hinfo', hinit'⟩
    rw [Function.update_eq_self]
    exact hs
  · rintro broken bc' φ' ⟨rfl, hinfo', hinit'⟩
    exact ⟨hinfo', hQ _ _ hinfo' hinit'⟩

/-! ## `bc_ll_init` -/

/-- The memory after the initial flash was read. -/
def Race.mem (R : Race) : Bootconfig := .ofFlash R.bad R.info R.flash

theorem Race.t_mem (R : Race) : R.t < R.info.ebCnt ∧ R.t ≠ R.c ∧ Good R.bad R.flash R.t :=
  R.next.mem (currentIdx_lt R.current)

/-- What a process holds in memory for the block `t`, depending on its phase. -/
def SawT (R : Race) (who : BtLlParttype) (φ : Phase) (b : Btblock) : Prop :=
  (φ = .stale ∧ (b = (R.flash R.t).hdr ∨ b = Page.erased.hdr)) ∨
    (φ = .informed ∧ ∃ now, b = R.update who.other now)

/-- The memory of a process that has read the blocks below `k`. -/
structure ReadSoFar (R : Race) (who : BtLlParttype) (k : ℕ) (bc : Bootconfig) (φ : Phase) :
    Prop where
  info : bc.info = R.info
  others : ∀ i < k, i ≠ R.t → bc.blocks i = R.mem.blocks i
  rest : ∀ i, k ≤ i → bc.blocks i = .zero
  before : k ≤ R.t → φ = .start
  seen : R.t < k → SawT R who φ (bc.blocks R.t)

theorem ReadSoFar.phase {k : ℕ} (h : ReadSoFar R who k bc φ) : φ.Early ∨ φ = .informed := by
  rcases Nat.lt_or_ge R.t k with hk | hk
  · rcases h.seen hk with ⟨hφ, -⟩ | ⟨hφ, -⟩
    · exact Or.inl (Or.inr hφ)
    · exact Or.inr hφ
  · exact Or.inl (Or.inl (h.before hk))

/-- One more block, but not `t`. -/
theorem ReadSoFar.step {k : ℕ} (h : ReadSoFar R who k bc φ) (hk : k ≠ R.t) {b : Btblock}
    (hb : b = R.mem.blocks k) : ReadSoFar R who (k + 1) (bc.setBlock k b) φ where
  info := h.info
  others i hi hit := by
    rcases Nat.lt_succ_iff_lt_or_eq.1 hi with hi | rfl
    · rw [Bootconfig.setBlock_blocks, Function.update_of_ne hi.ne, h.others i hi hit]
    · rw [Bootconfig.setBlock_blocks, Function.update_self, hb]
  rest i hi := by
    rw [Bootconfig.setBlock_blocks, Function.update_of_ne (by omega), h.rest i (by omega)]
  before hk' := h.before (by omega)
  seen hk' := by
    rw [Bootconfig.setBlock_blocks, Function.update_of_ne (Ne.symm hk)]
    exact h.seen (by omega)

/-- The block `t` itself. -/
theorem ReadSoFar.stepT (h : ReadSoFar R who R.t bc φ) {b : Btblock} {φ' : Phase}
    (hb : SawT R who φ' b) : ReadSoFar R who (R.t + 1) (bc.setBlock R.t b) φ' where
  info := h.info
  others i hi hit := by
    rw [Bootconfig.setBlock_blocks, Function.update_of_ne hit]
    exact h.others i (by omega) hit
  rest i hi := by
    rw [Bootconfig.setBlock_blocks, Function.update_of_ne (by omega), h.rest i (by omega)]
  before hk' := by omega
  seen _ := by rwa [Bootconfig.setBlock_blocks, Function.update_self]

theorem hdr_page (R : Race) (b : Btblock) : (R.page b).hdr = b :=
  Page.hdr_program_erased (prefix_pageOf ..)

/-- Reading the block `t` for the first time. -/
theorem within_readT {e : ℤ} (hs : (racing R).inv s) (hφ : phase R.t who s.log = .start) :
    ∃ φ', phase R.t who ((who, ⟨.mtdRead R.t, e⟩) :: s.log) = φ' ∧
      (racing R).Keeps who s ((sharedMtd who).next (.mtdRead R.t) e s) ∧
      SawT R who φ' (s.flash R.t).hdr := by
  have hphase := phase_read (e := e) hφ
  have hwrote : wrote who.other s.log = true ↔ (phase R.t who.other s.log).Over :=
    wrote_iff_over
  rcases Racing.read hs hφ with ⟨hover, hcontent, hnext⟩ | ⟨hover, ⟨now, hcontent⟩, hnext⟩
  · rw [if_neg fun h => hover (hwrote.1 h)] at hphase
    refine ⟨_, hphase, keeps_of hphase hnext, Or.inl ⟨rfl, ?_⟩⟩
    rcases hcontent with h | h
    · exact Or.inl (by rw [h])
    · exact Or.inr (by rw [h])
  · rw [if_pos (hwrote.2 hover)] at hphase
    refine ⟨_, hphase, keeps_of hphase hnext, Or.inr ⟨rfl, now, ?_⟩⟩
    rw [hcontent, hdr_page]

/-- **`bc_ll_init` among other processes**: the blocks are those of the initial
    flash, but for the block `t`. -/
theorem within_bcLlInit {Q : Bootconfig → Phase → Prop} {dev : String} (hφ : φ = .start)
    (hQ : ∀ bc φ, ReadSoFar R who R.info.ebCnt bc φ → bc.initialised = true → Q bc φ) :
    within (racing R) (sharedMtd who) who (bcLlInit false dev) Q φ := by
  obtain ⟨ht, -, hgood⟩ := R.t_mem
  subst hφ
  rw [bcLlInit]
  refine within_calm (o := .openDev dev) rfl (Or.inl (by simp)) fun s _ _ fd hfd => ?_
  change within _ _ _ (if fd < 0 then _ else _) _ _
  rw [if_neg (by simpa [Fine] using hfd)]
  refine within_calm (o := .libmtdOpen) rfl (Or.inl (by simp)) ?_
  rintro s - - _ rfl
  refine within_calm (o := .mtdGetDevInfo dev) rfl (Or.inl (by simp)) ?_
  rintro s - - ⟨err, info⟩ ⟨herr, hinfo⟩
  change within _ _ _ (if err < 0 then _ else _) _ _
  rw [if_neg (by simpa using herr)]
  refine within_calm (o := .malloc (info.ebCnt * Btblock.size)) rfl (Or.inl (by simp)) ?_
  rintro s - - _ rfl
  change within _ _ _ (readBootconfig _ >>= _) _ _
  rw [within_bind]
  refine within_readBootconfig (fun k broken bc φ => ReadSoFar R who k bc φ ∧ broken ≤ k ∧
    (R.t < k → broken < k)) ?_ ?_ hinfo ⟨⟨hinfo, by simp, fun _ _ => rfl, fun _ => rfl, by simp⟩,
      le_rfl, by simp⟩
  · rintro k broken bc φ hk ⟨hread, hle, hlt⟩
    refine within_readBootblock (hread.info.symm ▸ hk) (fun hb => ?_) fun hb s hs hφ e he => ?_
    · have hkt : k ≠ R.t := by
        rintro rfl
        rw [hgood.1] at hb; cases hb
      refine ⟨hread.step hkt ?_, by simpa using hle, fun hkt' => ?_⟩
      · simp [Race.mem, Bootconfig.ofFlash, hb, hread.rest k le_rfl]
      · simpa using hlt (by omega)
    · by_cases hkt : k = R.t
      · subst hkt
        obtain ⟨φ', hphase, hkeeps, hsaw⟩ :=
          within_readT (e := e) hs (hφ.trans (hread.before le_rfl))
        refine ⟨hkeeps, ?_⟩
        rw [hphase]
        exact ⟨hread.stepT hsaw, by simp; omega, fun _ => by simp; omega⟩
      · have hphase : phase R.t who ((who, ⟨.mtdRead k, e⟩) :: s.log) = phase R.t who s.log :=
          phase_calm rfl (Or.inl (by simpa using hkt))
        have hflash : s.flash k = R.flash k := by
          have hphase₀ : (phase R.t who s.log).Early ∨ phase R.t who s.log = .informed := by
            rw [hφ]
            exact hread.phase
          exact Racing.unchanged hs hphase₀ hkt
        refine ⟨keeps_of hphase ?_, ?_⟩
        · rw [Function.update_eq_self]
          exact hs
        · rw [hphase, hφ]
          refine ⟨hread.step hkt ?_, by simp; omega, fun hkt' => ?_⟩
          · simp [Race.mem, Bootconfig.ofFlash, hb, hflash]
          · have := hlt (by omega)
            simp; omega
  · rintro broken bc φ ⟨hread, -, hlt⟩
    refine ⟨hread.info, ?_⟩
    have hne : broken ≠ R.info.ebCnt := (hlt ht).ne
    simp only [hne, if_false]
    exact hQ _ φ ⟨hread.info, hread.others, hread.rest, hread.before, hread.seen⟩ rfl

/-! ## `bc_ll_set_partition` -/

/-- The loop passes over marked blocks without a call. -/
theorem setPartitionLoop_skip (which : BtLlParttype) (p : ℕ) {c n : ℕ} {pre post : List ℕ}
    (hc : c < n) (hn : bc.info.ebCnt = n) (hring : Ring.ring n c = pre ++ i :: post)
    (hskip : ∀ j ∈ pre, (bc.blocks j).magic = .bad) :
    ∃ fuel, setPartitionLoop which p c n ((c + 1) % n) bc = (do
      let (err, bc) ← updateBootblock bc which p c i
      if err = 0 then pure (i, bc)
      else setPartitionLoop which p c fuel ((i + 1) % bc.info.ebCnt) bc) := by
  have key : ∀ m fuel pre, m < n → m < fuel → Ring.before n c m = pre ++ i :: post →
      (∀ j ∈ pre, (bc.blocks j).magic = .bad) →
      ∃ fuel', setPartitionLoop which p c fuel ((c + n - m) % n) bc = (do
        let (err, bc) ← updateBootblock bc which p c i
        if err = 0 then pure (i, bc)
        else setPartitionLoop which p c fuel' ((i + 1) % bc.info.ebCnt) bc) := by
    intro m
    induction m with
    | zero => intro fuel pre _ _ h; simp [Ring.before] at h
    | succ m ih =>
      rintro (_ | fuel) pre hm hf hpre hskip
      · omega
      have hne : (c + n - (m + 1)) % n ≠ c := fun h => by
        have := (Ring.reach_iff hc hm).1 h; omega
      rw [Ring.before] at hpre
      rw [setPartitionLoop, if_neg hne]
      rcases pre with _ | ⟨j, pre⟩
      · obtain ⟨rfl, -⟩ := List.cons.inj hpre
        exact ⟨fuel, rfl⟩
      · rw [List.cons_append] at hpre
        obtain ⟨rfl, htail⟩ := List.cons.inj hpre
        have hmark := hskip _ (List.mem_cons_self ..)
        have hlt : (c + n - (m + 1)) % n < bc.info.ebCnt := hn ▸ Nat.mod_lt _ (by omega)
        obtain ⟨fuel', ih⟩ := ih fuel pre (by omega) (by omega) htail
          fun j hj => hskip j (List.mem_cons_of_mem _ hj)
        refine ⟨fuel', ?_⟩
        have hupd : updateBootblock bc which p c ((c + n - (m + 1)) % n) = pure (-1, bc) := by
          rw [updateBootblock, access, if_pos hlt, if_pos hmark]
          rfl
        rw [hupd, ← ih, ← Ring.succ_eq hm, ← hn]
        rfl
  rw [← Ring.first_eq hc]
  exact key (n - 1) n pre (by omega) (by omega) hring hskip

/-- **An update among other processes**, by what the erase and the write do. -/
theorem within_updateBootblock {Q : ℤ × Bootconfig → Phase → Prop} {which : BtLlParttype}
    {p c : ℕ} {φ₁ φ₂ : Phase} (hinfo : bc.info = R.info) (hi : i < R.info.ebCnt)
    (hc : c < R.info.ebCnt) (hgood : R.bad i = false) (hm : (bc.blocks i).magic ≠ .bad)
    (herase : ∀ s, (racing R).inv s → phase R.t who s.log = φ → ∀ e : Outcome, 0 ≤ e.ret →
      (racing R).Keeps who s ((sharedMtd who).next (.mtdErase i) e s) ∧
        phase R.t who ((who, ⟨.mtdErase i, e⟩) :: s.log) = φ₁)
    (hwrite : ∀ now s, (racing R).inv s → phase R.t who s.log = φ₁ → ∀ e : Outcome, 0 ≤ e.ret →
      let page := pageOf R.info.minIoSize (updated (bc.blocks c) which p now)
      (racing R).Keeps who s ((sharedMtd who).next (.mtdWrite i page) e s) ∧
        phase R.t who ((who, ⟨.mtdWrite i page, e⟩) :: s.log) = φ₂)
    (hQ : ∀ b, Q (0, bc.setBlock i b) φ₂) :
    within (racing R) (sharedMtd who) who (updateBootblock bc which p c i) Q φ := by
  have hi' : i < bc.info.ebCnt := hinfo.symm ▸ hi
  have hi'' : ∀ b, i < (bc.setBlock i b).info.ebCnt := fun _ => hi'
  have hio := R.io
  rw [updateBootblock, within_bind, within_access hi', if_neg hm, within_bind,
    within_access (hinfo.symm ▸ hc)]
  refine within_calm (o := .time) rfl (Or.inl (by simp)) ?_
  intro s _ _ (now : BitVec 32) _
  set b := updated (bc.blocks c) which p now with hb
  change within _ _ _ (writeErrorcheckBootblock (bc.setBlock i b) i) _ _
  rw [writeErrorcheckBootblock, within_bind]
  refine within_checkBlock (hi'' b) (fun hb => by rw [hgood] at hb; cases hb) fun _ => ?_
  simp only [ne_eq, not_true_eq_false, if_false]
  rw [within_bind, doWriteBootblock]
  -- erase
  rintro s hs hφ e (he : 0 ≤ e.ret)
  obtain ⟨hkeeps, hφ₁⟩ := herase s hs hφ e he
  refine ⟨hkeeps, ?_⟩
  rw [racing_view_next, hφ₁]
  change within _ _ _ (if e.ret < 0 then _ else _) _ _
  rw [if_neg (by omega)]
  refine within_calm (o := .malloc _) rfl (Or.inl (by simp)) ?_
  rintro s - - _ rfl
  change within _ _ _ (pageBuffer (bc.setBlock i b) i >>= _) _ _
  rw [within_bind, pageBuffer, within_bind, within_access (hi'' b), Bootconfig.setBlock_info, hinfo,
    if_neg (by omega), within_pure, Bootconfig.setBlock_blocks, Function.update_self]
  -- write
  rintro s hs hφ e (he : 0 ≤ e.ret)
  obtain ⟨hkeeps, hφ₂⟩ := hwrite now s hs hφ e he
  refine ⟨hkeeps, ?_⟩
  rw [racing_view_next, hφ₂]
  change within _ _ _ (if e.ret < 0 then _ else _) _ _
  rw [if_neg (by omega), within_pure]
  simpa using hQ b

theorem Race.mem_of_good (R : Race) {j : ℕ} (hb : R.bad j = false) :
    R.mem.blocks j = (R.flash j).hdr := by
  simp [Race.mem, Bootconfig.ofFlash, hb]

theorem Race.isNewest (R : Race) :
    IsNewest (versions R.mem.blocks) R.info.ebCnt R.c R.old.epoch.toNat ∧
      R.mem.blocks R.c = R.old := by
  have hnew := currentIdx_eq_some.1 R.current
  have hb : R.bad R.c = false := by
    by_contra hb
    have hm : (R.mem.blocks R.c).magic = .bad := by
      simp [Race.mem, Bootconfig.ofFlash, Bool.not_eq_false _ ▸ hb]
    have hkey := hnew.key_eq
    rw [versions, show (Bootconfig.ofFlash R.bad R.info R.flash).blocks = R.mem.blocks from rfl,
      Btblock.version_of_bad hm] at hkey
    cases hkey
  have hc : R.mem.blocks R.c = R.old := R.mem_of_good hb
  refine ⟨?_, hc⟩
  rw [← hc]
  exact hnew

theorem part_le (b : BitVec 1) : b.toNat ≤ 1 := by
  have := b.isLt
  omega

/-- The configs made in a race follow the current one. -/
theorem Race.update_isNext (R : Race) (who : BtLlParttype) (now : BitVec 32) :
    IsNext R.old who (R.part who).toNat (R.update who now) :=
  updated_isNext R.old who (part_le _) now

theorem Race.update_version (R : Race) (who : BtLlParttype) (now : BitVec 32) :
    (R.update who now).version = some (R.old.epoch.toNat + 1) :=
  (R.update_isNext who now).version (by have := R.epoch; unfold Race.old; omega)

/-- The current block as a process sees it that has not seen the other one … -/
theorem ReadSoFar.current_stale (h : ReadSoFar R who R.info.ebCnt bc .stale) :
    currentIdx bc.blocks R.info.ebCnt = some R.c ∧ bc.blocks R.c = R.old := by
  obtain ⟨ht, htc, hgood⟩ := R.t_mem
  obtain ⟨hnew, hc⟩ := R.isNewest
  have hbc : bc.blocks R.c = R.old := (h.others _ hnew.lt htc.symm).trans hc
  refine ⟨currentIdx_of_isNewest (hnew.lose ?_ fun k hk _ => ?_), hbc⟩
  · rw [versions, versions, hbc, hc]
  · by_cases hkt : k = R.t
    · subst hkt
      rcases h.seen ht with ⟨-, hb | hb⟩ | ⟨hφ, -⟩
      · rw [versions, versions, hb, R.mem_of_good hgood.1]
        exact Or.inl rfl
      · rw [versions, hb]
        exact Or.inr (Btblock.version_of_not_boot Page.hdr_erased_magic)
      · cases hφ
    · rw [versions, versions, h.others k hk hkt]
      exact Or.inl rfl

/-- … and as a process sees it that has. -/
theorem ReadSoFar.current_informed (h : ReadSoFar R who R.info.ebCnt bc .informed) :
    currentIdx bc.blocks R.info.ebCnt = some R.t ∧
      ∃ now, bc.blocks R.t = R.update who.other now := by
  obtain ⟨ht, -⟩ := R.t_mem
  rcases h.seen ht with ⟨hφ, -⟩ | ⟨-, now, hb⟩
  · cases hφ
  refine ⟨currentIdx_of_isNewest (R.isNewest.1.write ht ?_ (Nat.lt_succ_self _) fun k hk hkt => ?_),
    now, hb⟩
  · rw [versions, hb, R.update_version]
  · rw [versions, versions, h.others k hk hkt]
    exact Or.inl rfl

/-- The blocks that are marked in memory are not good. -/
theorem ReadSoFar.marked_iff (h : ReadSoFar R who R.info.ebCnt bc φ) {j : ℕ}
    (hj : j < R.info.ebCnt) : (bc.blocks j).magic = .bad ↔ ¬ Good R.bad R.flash j := by
  obtain ⟨ht, -, hgood⟩ := R.t_mem
  by_cases hjt : j = R.t
  · subst hjt
    refine ⟨fun hm => ?_, fun hg => absurd hgood hg⟩
    exfalso
    rcases h.seen ht with ⟨-, hb | hb⟩ | ⟨-, now, hb⟩
    · rw [hb] at hm
      exact hgood.2 hm
    · rw [hb] at hm
      exact absurd hm (by decide)
    · rw [hb, (R.update_isNext ..).magic] at hm
      exact absurd hm (by decide)
  · rw [h.others j hj hjt]
    cases hb : R.bad j with
    | true => simp [Race.mem, Bootconfig.ofFlash, Good, hb]
    | false => simp [R.mem_of_good hb, Good, hb]

/-- **`bc_ll_set_partition` among other processes** writes the block `t`, or the
    block `u` if it has seen the config of the other process. -/
theorem within_bcLlSetPartition {tgt : Target} (h : ReadSoFar R who R.info.ebCnt bc φ)
    (hinit : bc.initialised = true) :
    within (racing R) (sharedMtd who) who (bcLlSetPartition tgt bc who (R.part who).toNat)
      (fun rb φ' => φ'.Over ∧ rb.2.info = R.info ∧ rb.2.initialised = true) φ := by
  obtain ⟨ht, htc, hgood⟩ := R.t_mem
  have hn : bc.info.ebCnt = R.info.ebCnt := congrArg _ h.info
  have hp : ¬ 1 < (R.part who).toNat := by
    have := part_le (R.part who)
    omega
  -- from the current block `c` to the first good block `i` after it
  have key : ∀ {c i : ℕ} (φ₁ φ₂ : Phase), currentIdx bc.blocks R.info.ebCnt = some c →
      FirstAfter (Good R.bad R.flash) R.info.ebCnt c i → φ₂.Over →
      (∀ s, (racing R).inv s → phase R.t who s.log = φ → ∀ e : Outcome, 0 ≤ e.ret →
        (racing R).Keeps who s ((sharedMtd who).next (.mtdErase i) e s) ∧
          phase R.t who ((who, ⟨.mtdErase i, e⟩) :: s.log) = φ₁) →
      (∀ now s, (racing R).inv s → phase R.t who s.log = φ₁ → ∀ e : Outcome, 0 ≤ e.ret →
        let page := pageOf R.info.minIoSize (updated (bc.blocks c) who (R.part who).toNat now)
        (racing R).Keeps who s ((sharedMtd who).next (.mtdWrite i page) e s) ∧
          phase R.t who ((who, ⟨.mtdWrite i page, e⟩) :: s.log) = φ₂) →
      within (racing R) (sharedMtd who) who (bcLlSetPartition tgt bc who (R.part who).toNat)
        (fun rb φ' => φ'.Over ∧ rb.2.info = R.info ∧ rb.2.initialised = true) φ := by
    intro c i φ₁ φ₂ hcur hfirst hover herase hwrite
    have hc := currentIdx_lt hcur
    obtain ⟨hi, hic, hgi⟩ := hfirst.mem hc
    obtain ⟨pre, post, hring, -, hpre⟩ := hfirst
    have hstart : startBlock bc = pure (c, bc) := by
      rw [startBlock, bcLlGetCurrent, if_neg (by simp [hinit]), hn, hcur]
      rfl
    have hskip : ∀ j ∈ pre, (bc.blocks j).magic = .bad := by
      intro j hj
      have hj' : j ∈ Ring.ring R.info.ebCnt c := by rw [hring]; simp [hj]
      exact (h.marked_iff ((Ring.mem_ring hc).1 hj').1).2 (hpre j hj)
    obtain ⟨fuel, hloop⟩ :=
      setPartitionLoop_skip who (R.part who).toNat hc hn hring hskip
    rw [bcLlSetPartition, if_neg (by simp [hinit]), if_neg hp, hstart, within_bind, within_pure]
    dsimp only
    rw [hn, within_bind, hloop, within_bind]
    refine within_updateBootblock h.info hi hc hgi.1 (fun hm => (h.marked_iff hi).1 hm hgi) herase
      hwrite fun b => ?_
    simp only [if_true, within_pure, hic, if_false]
    rw [within_bind]
    exact within_reread hover h.info hinit fun _ _ hinfo hinit => ⟨hover, hinfo, hinit⟩
  rcases h.seen ht with ⟨rfl, -⟩ | ⟨rfl, -⟩
  · obtain ⟨hcur, hold⟩ := h.current_stale
    refine key .erased .written hcur R.next (Or.inl rfl) ?_ ?_
    · intro s hs hφ e he
      have hφ' := (phase_erase (b := R.t) (e := e)).1 hφ
      refine ⟨keeps_of hφ' ?_, hφ'⟩
      rw [flashAfter, if_neg (by omega)]
      exact Racing.erase hs hφ
    · intro now s hs hφ e he
      rw [hold]
      have hφ' := (phase_write (b := R.t) (e := e)
        (pageOf R.info.minIoSize (R.update who now))).1 hφ
      refine ⟨keeps_of hφ' ?_, hφ'⟩
      rw [flashAfter, if_neg (by omega)]
      exact Racing.write hs hφ now
  · obtain ⟨hcur, now₀, hold⟩ := h.current_informed
    refine key .cleared .finished hcur R.next' (Or.inr rfl) ?_ ?_
    · intro s hs hφ e he
      have hφ' := (phase_erase (b := R.u) (e := e)).2 hφ
      refine ⟨keeps_of hφ' ?_, hφ'⟩
      rw [flashAfter, if_neg (by omega)]
      exact Racing.erase' hs hφ
    · intro now s hs hφ e he
      rw [hold]
      have hφ' := (phase_write (b := R.u) (e := e)
        (pageOf R.info.minIoSize (R.update' who now₀ now))).2 hφ
      refine ⟨keeps_of hφ' ?_, hφ'⟩
      rw [flashAfter, if_neg (by omega)]
      exact Racing.write' hs hφ now₀ now

/-! ## The command -/

/-- **A command among other processes** keeps to the phases of the race. -/
theorem within_main {Q : ℤ → Phase → Prop} (tgt : Target) :
    within (racing R) (sharedMtd who) who (main tgt (Request.set who (R.part who)).argv) Q
      .start := by
  rw [main_eq, within_bind]
  refine within_bcLlInit rfl fun bc φ hread hinit => ?_
  rw [Request.body, within_bind]
  refine within_mono (within_bcLlSetPartition hread hinit) ?_
  rintro ⟨ret, bc'⟩ φ' ⟨hover, hinfo, hinit'⟩
  rw [within_bind]
  refine within_reread hover hinfo hinit' fun code bc'' hinfo'' hinit'' => ?_
  rw [within_bind, printConfig, bcLlGetCurrent, if_neg (by simp [hinit''])]
  exact ⟨rfl, hover⟩

theorem phase_of_over {log : List (BtLlParttype × Event)} {t : ℕ} (h : (phase t who log).Over) :
    phase t who log = if informed t who log then .finished else .written := by
  have hw := wrote_iff_over.2 h
  rw [phase, if_pos hw]

/-- Where both processes are over, both wrote the block `t`, or one of them made
    its config from the other one. -/
theorem Racing.over {φ : BtLlParttype → Phase} {flash : ℕ → Page} (h : Racing R φ flash)
    (hover : ∀ w, (φ w).Over) :
    ((∀ w, φ w = .written) ∧ ∃ w now now' pg, flash = R.withT pg ∧
      (pg = R.page (R.update w now) ∨ pg = (R.page (R.update w now)).program
        (pageOf R.info.minIoSize (R.update w.other now')))) ∨
    ∃ w now now' now'', φ w = .finished ∧ flash = Function.update
      (R.withT (R.page (R.update w.other now))) R.u (R.page (R.update' w now' now'')) := by
  have hearly : ∀ {ψ : Phase}, ψ.Over → ¬ ψ.Early := by
    rintro ψ (rfl | rfl) <;> simp [Phase.Early]
  obtain ⟨w, h⟩ := h
  have hw := hover w
  have hw' := hover w.other
  generalize hφ : φ w = ψ at h hw
  generalize hφ' : φ w.other = ψ' at h hw'
  cases h with
  | untouched h _ => exact absurd h (hearly hw)
  | erased h => exact absurd h (hearly hw')
  | written _ h => exact absurd h (hearly hw')
  | bothErased => simp [Phase.Over] at hw
  | oneWritten _ _ _ => simp [Phase.Over] at hw'
  | bothWritten now now' pg hpg =>
    refine Or.inl ⟨fun w' => ?_, w, now, now', pg, rfl, hpg⟩
    rcases eq_or_ne w' w with rfl | hne
    · exact hφ
    · rw [eq_other_of_ne hne]; exact hφ'
  | informed _ => simp [Phase.Over] at hw
  | cleared _ => simp [Phase.Over] at hw
  | finished now now' now'' => exact Or.inr ⟨w, now, now', now'', hφ, rfl⟩

end

/-! ## The outcome -/

theorem isNewest_update {bad : ℕ → Bool} {info : MtdDevInfo} {flash : ℕ → Page} (pg : Page)
    {n c i v v' : ℕ} (h : IsNewest (versions (Bootconfig.ofFlash bad info flash).blocks) n c v)
    (hi : i < n) (hb : bad i = false) (hpg : pg.hdr.version = some v') (hv : v < v') :
    IsNewest (versions (Bootconfig.ofFlash bad info (Function.update flash i pg)).blocks)
      n i v' := by
  refine h.write hi ?_ hv fun k _ hki => Or.inl ?_
  · rw [← hpg]
    simp [versions, Bootconfig.ofFlash, hb]
  · simp [versions, Bootconfig.ofFlash, Function.update_of_ne hki]

/-- The headers that both processes wrote over each other. -/
theorem and_hdr (R : Race) (b b' : Btblock) :
    ((R.page b).program (pageOf R.info.minIoSize b')).hdr = b.and b' := by
  rw [Page.hdr_program _ (prefix_pageOf ..), hdr_page]

/-- The config of the process `w`: its own partition, and the current one of
    the other image. -/
theorem Race.update_partition (R : Race) (w : BtLlParttype) (now : BitVec 32) :
    ((R.update w now).info w).partition = R.part w ∧
      (R.update w now).info w.other = R.old.info w.other := by
  have hnext := R.update_isNext w now
  exact ⟨BitVec.eq_of_toNat_eq hnext.partition, hnext.other⟩

theorem info_and (b b' : Btblock) (which : BtLlParttype) :
    (b.and b').info which = (b.info which).and (b'.info which) := by
  cases which <;> rfl

/-- A fresh process finds the config `b` in the block `i`. -/
def CurrentIs (bad : ℕ → Bool) (info : MtdDevInfo) (flash : ℕ → Page) (i : ℕ) (b : Btblock) :
    Prop :=
  let bc := Bootconfig.ofFlash bad info flash
  currentIdx bc.blocks info.ebCnt = some i ∧ bc.blocks i = b

theorem currentIs_of_isNewest {bad : ℕ → Bool} {info : MtdDevInfo} {flash : ℕ → Page} {i v : ℕ}
    (h : IsNewest (versions (Bootconfig.ofFlash bad info flash).blocks) info.ebCnt i v)
    (hb : bad i = false) : CurrentIs bad info flash i (flash i).hdr :=
  ⟨currentIdx_of_isNewest h, by simp [Bootconfig.ofFlash, hb]⟩

theorem Race.u_mem (R : Race) : R.u < R.info.ebCnt ∧ R.u ≠ R.t ∧ Good R.bad R.flash R.u :=
  R.next'.mem R.t_mem.1

/-- Where both processes made their configs from the current one, one of the
    updates is lost, or both are mixed up. -/
theorem current_of_written (R : Race) {w : BtLlParttype} {now now' : BitVec 32} {pg : Page}
    (hpg : pg = R.page (R.update w now) ∨ pg = (R.page (R.update w now)).program
      (pageOf R.info.minIoSize (R.update w.other now'))) :
    ∃ b, CurrentIs R.bad R.info (R.withT pg) R.t b ∧ b.epoch.toNat = R.old.epoch.toNat + 1 ∧
      ((∃ which, (b.info which).partition = R.part which ∧
          (b.info which.other).partition = (R.old.info which.other).partition) ∨
        ∀ which, (b.info which).partition = R.part which &&& (R.old.info which).partition) := by
  obtain ⟨ht, -, hgood⟩ := R.t_mem
  obtain ⟨hp, ho⟩ := R.update_partition w now
  obtain ⟨hp', ho'⟩ := R.update_partition w.other now'
  rw [other_other] at ho'
  have he := R.update_isNext w now
  have he' := R.update_isNext w.other now'
  have hver := R.update_version w now
  have hepoch := (Btblock.version_eq_some.1 hver).2.2
  have hcurrent : pg.hdr.version = some (R.old.epoch.toNat + 1) →
      CurrentIs R.bad R.info (R.withT pg) R.t pg.hdr := by
    intro hv
    have h := currentIs_of_isNewest
      (isNewest_update pg R.isNewest.1 ht hgood.1 hv (Nat.lt_succ_self _)) hgood.1
    rwa [Function.update_self] at h
  rcases hpg with rfl | rfl
  · rw [hdr_page] at hcurrent
    refine ⟨_, hcurrent hver, hepoch, Or.inl ⟨w, hp, ?_⟩⟩
    rw [ho]
  · rw [and_hdr] at hcurrent
    have hand : ((R.update w now).and (R.update w.other now')).version =
        some (R.old.epoch.toNat + 1) := by
      rw [← hver]
      refine Btblock.version_congr ?_ ?_
      · rw [Btblock.and, he.magic, he'.magic]
        rfl
      · rw [Btblock.and, he.epoch, he'.epoch, BitVec.and_self]
    refine ⟨_, hcurrent hand, (Btblock.version_eq_some.1 hand).2.2, Or.inr fun which => ?_⟩
    rw [info_and]
    rcases eq_or_ne which w with rfl | hne
    · rw [Btinfo.and, hp, ho']
    · obtain rfl := eq_other_of_ne hne
      rw [Btinfo.and, hp', ho]
      exact BitVec.and_comm ..

/-- Where one process has seen the config of the other one, it keeps it. -/
theorem current_of_finished (R : Race) (w : BtLlParttype) (now now' now'' : BitVec 32) :
    ∃ b, CurrentIs R.bad R.info (Function.update (R.withT (R.page (R.update w.other now))) R.u
        (R.page (R.update' w now' now''))) R.u b ∧
      b.epoch.toNat = R.old.epoch.toNat + 2 ∧ ∀ which, (b.info which).partition = R.part which := by
  obtain ⟨ht, -, hgood⟩ := R.t_mem
  obtain ⟨hu, -, hgood'⟩ := R.u_mem
  have hepoch := R.epoch
  have hver := R.update_version w.other now
  have hver₁ := R.update_version w.other now'
  have hepoch₁ := (Btblock.version_eq_some.1 hver₁).2.2
  have hnext : IsNext (R.update w.other now') w (R.part w).toNat (R.update' w now' now'') :=
    updated_isNext _ w (part_le _) now''
  have hver₂ : (R.update' w now' now'').version = some (R.old.epoch.toNat + 1 + 1) := by
    rw [hnext.version (by rw [hepoch₁]; unfold Race.old; omega), hepoch₁]
  have h₁ := isNewest_update (R.page (R.update w.other now)) R.isNewest.1 ht hgood.1
    (by rw [hdr_page, hver]) (Nat.lt_succ_self _)
  have h₂ := currentIs_of_isNewest (isNewest_update (R.page (R.update' w now' now'')) h₁ hu
    hgood'.1 (by rw [hdr_page, hver₂]) (Nat.lt_succ_self _)) hgood'.1
  rw [Function.update_self, hdr_page] at h₂
  refine ⟨_, h₂, (Btblock.version_eq_some.1 hver₂).2.2, fun which => ?_⟩
  obtain ⟨hp, -⟩ := R.update_partition w.other now'
  rcases eq_or_ne which w with rfl | hne
  · exact BitVec.eq_of_toNat_eq hnext.partition
  · obtain rfl := eq_other_of_ne hne
    rw [hnext.other, hp]

/-- A flash with a current config and another good block has a race. -/
theorem exists_race {bad : ℕ → Bool} {info : MtdDevInfo} {flash : ℕ → Page} {c : ℕ}
    (part : BtLlParttype → BitVec 1) (hio : Btblock.size ≤ info.minIoSize) {old : Btblock}
    (hcur : CurrentIs bad info flash c old) (he : old.epoch.toNat + 2 < 2 ^ 32)
    (hgood : ∃ j < info.ebCnt, j ≠ c ∧ Good bad flash j) :
    ∃ R : Race, R.bad = bad ∧ R.info = info ∧ R.flash = flash ∧ R.part = part ∧ R.c = c ∧
      R.old = old := by
  obtain ⟨hidx, hold⟩ := hcur
  have hnew := currentIdx_eq_some.1 hidx
  have hboot : old.magic = .boot := by
    rw [← hold]; exact (IsNewest.epoch hnew).1
  have hbad : bad c = false := by
    by_contra hb
    rw [← hold] at hboot
    simp only [Bootconfig.ofFlash, hb, if_true] at hboot
    exact absurd hboot (by decide)
  have hhdr : (flash c).hdr = old := by
    rw [← hold]; simp [Bootconfig.ofFlash, hbad]
  obtain ⟨j, hj, hjc, hgj⟩ := hgood
  obtain ⟨t, ht⟩ := exists_firstAfter hnew.lt hj hjc hgj
  obtain ⟨hlt, htc, hgt⟩ := ht.mem hnew.lt
  -- after `t` there is `c` at least
  have hgc : Good bad flash c := ⟨hbad, by rw [hhdr, hboot]; decide⟩
  obtain ⟨u, hu⟩ := exists_firstAfter hlt hnew.lt htc.symm hgc
  exact ⟨⟨bad, info, flash, part, c, t, u, hio, hidx, by rwa [hhdr], ht, hu⟩, rfl, rfl, rfl, rfl,
    rfl, hhdr⟩

/-- **A race that is over**: both processes exit with `0`. -/
theorem Race.ended {tgt : Target} {procs : BtLlParttype → Mtd ℤ} {s : Shared} (R : Race)
    (hrun : Interleaving sharedMtd (Fine R.bad R.info)
      (fun who => main tgt (Request.set who (R.part who)).argv, ⟨R.flash, []⟩) (procs, s))
    (hend : ∀ who, (procs who).Ended) :
    Racing R (fun who => phase R.t who s.log) s.flash ∧
      ∀ who, procs who = .stop (.exit 0) ∧ (phase R.t who s.log).Over := by
  have hstart : (racing R).inv ⟨R.flash, []⟩ := ⟨.kernel, .untouched (Or.inl rfl) (Or.inl rfl)⟩
  -- each process alone keeps to the phases of the race
  obtain ⟨hrace, hprocs⟩ := Interleaving.sound (S := racing R) (Q := fun _ _ _ => False) hstart
    (fun who => within_main tgt) hrun
  refine ⟨hrace, fun who => ?_⟩
  have hw := hprocs who
  have hew := hend who
  cases hp : procs who with
  | ret a => rw [hp] at hw; exact hw.elim
  | stop e =>
    rw [hp] at hw
    obtain ⟨rfl, hover⟩ : e = .exit 0 ∧ (phase R.t who s.log).Over := hw
    exact ⟨rfl, hover⟩
  | call o k => rw [hp] at hew; exact hew.elim

/-- **What two commands leave behind** that set the partitions `part` at the same
    time, in any order of their calls.

    Both exit with `0`.  If one of them has read the first good block `t` after
    the current one when the other one had written, the config that is current
    then has both partitions.  Otherwise both of them have written the block
    `t`, and it holds the config of one of them, or the AND of both. -/
theorem twoProcesses_outcome {bad : ℕ → Bool} {info : MtdDevInfo} {flash : ℕ → Page} {c : ℕ}
    {part : BtLlParttype → BitVec 1} {tgt : Target} {procs : BtLlParttype → Mtd ℤ} {s : Shared}
    (hio : Btblock.size ≤ info.minIoSize) {old : Btblock} (hcur : CurrentIs bad info flash c old)
    (he : old.epoch.toNat + 2 < 2 ^ 32) (hgood : ∃ j < info.ebCnt, j ≠ c ∧ Good bad flash j)
    (hrun : Interleaving sharedMtd (Fine bad info)
      (fun who => main tgt (Request.set who (part who)).argv, ⟨flash, []⟩) (procs, s))
    (hend : ∀ who, (procs who).Ended) :
    (∀ who, procs who = .stop (.exit 0)) ∧
    ∃ t i b, FirstAfter (Good bad flash) info.ebCnt c t ∧ CurrentIs bad info s.flash i b ∧
      ((∃ who, informed t who s.log = true) → b.epoch.toNat = old.epoch.toNat + 2 ∧
        ∀ which, (b.info which).partition = part which) ∧
      ((∀ who, informed t who s.log = false) → i = t ∧ b.epoch.toNat = old.epoch.toNat + 1 ∧
        ((∃ which, (b.info which).partition = part which ∧
            (b.info which.other).partition = (old.info which.other).partition) ∨
          ∀ which, (b.info which).partition = part which &&& (old.info which).partition)) := by
  obtain ⟨R, rfl, rfl, rfl, rfl, rfl, rfl⟩ := exists_race part hio hcur he hgood
  obtain ⟨hrace, hstop⟩ := R.ended hrun hend
  refine ⟨fun who => (hstop who).1, R.t, ?_⟩
  have hphase := fun who => phase_of_over (hstop who).2
  rcases Racing.over hrace fun who => (hstop who).2 with
    ⟨hwritten, w, now, now', pg, hflash, hpg⟩ | ⟨w, now, now', now'', hfin, hflash⟩
  · -- neither has seen the other one
    obtain ⟨b, hb, hepoch, hparts⟩ := current_of_written R hpg
    refine ⟨R.t, b, R.next, hflash ▸ hb, fun ⟨who, hinf⟩ => ?_, fun _ => ⟨rfl, hepoch, hparts⟩⟩
    have h := hphase who
    rw [hinf, hwritten who] at h
    cases h
  · obtain ⟨b, hb, hepoch, hparts⟩ := current_of_finished R w now now' now''
    refine ⟨R.u, b, R.next, hflash ▸ hb, fun _ => ⟨hepoch, hparts⟩, fun hno => ?_⟩
    have h := hphase w
    rw [hno w, show phase R.t w s.log = .finished from hfin] at h
    cases h

/-! ## Two schedules -/

/-- The device of the schedules: three blocks, with a config of epoch 5 in the
    first one, where both partitions are `0`.  Both processes set `1`. -/
def threeInfo : MtdDevInfo := ⟨3, 16⟩

def bothSet (who : BtLlParttype) : Mtd ℤ := main ⟨4, Or.inl rfl⟩ (Request.set who 1).argv

/-- Its responses. -/
def threeAnswers : Oracle Resp := fun _ => nominal (fun _ => false) threeInfo

theorem threeAnswers_fine (n : ℕ) (o : Op) : Fine (fun _ => false) threeInfo o (threeAnswers n o) :=
  nominal_fine _ _ o

/-- The processes and the flash after the process `t` issued `n` calls. -/
def turnOf (c : (BtLlParttype → Mtd ℤ) × Shared) (t : BtLlParttype) (n : ℕ) :
    (BtLlParttype → Mtd ℤ) × Shared :=
  let x := runFor (sharedMtd t) n (c.1 t) c.2 threeAnswers
  (Function.update c.1 t x.1, x.2)

theorem turn_interleaving {c₀ c : (BtLlParttype → Mtd ℤ) × Shared}
    (h : Interleaving sharedMtd (Fine (fun _ => false) threeInfo) c₀ c) (t : BtLlParttype) (n : ℕ) :
    Interleaving sharedMtd (Fine (fun _ => false) threeInfo) c₀ (turnOf c t n) :=
  h.alone t n threeAnswers_fine

def bothStart : (BtLlParttype → Mtd ℤ) × Shared := (bothSet, ⟨twoBlocks, []⟩)

/-- One after the other: both updates are kept. -/
theorem twoProcesses_inSequence :
    let c := turnOf (turnOf bothStart .kernel 100) .rootfs 100
    ∃ i b, CurrentIs (fun _ => false) threeInfo c.2.flash i b ∧
      ∀ which, (b.info which).partition = 1 := by
  intro c
  have hrun : Interleaving sharedMtd (Fine (fun _ => false) threeInfo) bothStart c :=
    turn_interleaving (turn_interleaving .start .kernel 100) .rootfs 100
  have hend : ∀ who, (c.1 who).Ended := by
    intro who
    cases who <;> exact trivial
  have hgood : Good (fun _ => false) twoBlocks 1 := ⟨rfl, by decide⟩
  obtain ⟨-, t, i, b, ht, hb, hinf, -⟩ := @twoProcesses_outcome (fun _ => false) threeInfo twoBlocks
    0 (fun _ => 1) ⟨4, Or.inl rfl⟩ c.1 c.2 (by decide)
    { dummyBlock with magic := .boot, epoch := 5 } ⟨by decide, by decide⟩ (by decide)
    ⟨1, by decide, by decide, hgood⟩ hrun hend
  have ht1 : t = 1 := by
    obtain ⟨_ | ⟨x, pre⟩, post, hring, -, hpre⟩ := ht
    · exact (List.cons.inj hring).1.symm
    · rw [← (List.cons.inj hring).1] at hpre
      exact absurd hgood (hpre _ (List.mem_cons_self ..))
  subst ht1
  exact ⟨i, b, hb, (hinf ⟨.rootfs, by decide⟩).2⟩

/-- Both read the blocks before one of them writes: the partition of the kernel
    is lost. -/
theorem twoProcesses_lost :
    let c := turnOf (turnOf (turnOf (turnOf bothStart .kernel 10) .rootfs 10) .kernel 100) .rootfs 100
    (∃ old, CurrentIs (fun _ => false) threeInfo twoBlocks 0 old) ∧
      (∀ i < 3, Good (fun _ => false) twoBlocks i) ∧
      Interleaving sharedMtd (Fine (fun _ => false) threeInfo) bothStart c ∧
      (∀ who, (c.1 who).Ended) ∧
      ¬ ∃ i b, CurrentIs (fun _ => false) threeInfo c.2.flash i b ∧
        ∀ which, (b.info which).partition = 1 := by
  intro c
  have hmagic : ∀ i < 3, (twoBlocks i).hdr.magic ≠ .bad := by decide
  refine ⟨⟨_, by decide, rfl⟩, fun i hi => ⟨rfl, hmagic i hi⟩, turn_interleaving (turn_interleaving
    (turn_interleaving (turn_interleaving .start .kernel 10) .rootfs 10) .kernel 100) .rootfs 100,
    ?_, ?_⟩
  · intro who
    cases who <;> exact trivial
  · rintro ⟨i, b, ⟨hi, rfl⟩, hpart⟩
    let blocks := (Bootconfig.ofFlash (fun _ => false) threeInfo c.2.flash).blocks
    have h1 : currentIdx blocks 3 = some 1 := by decide
    have h0 : ((blocks 1).info .kernel).partition = 0 := by decide
    obtain rfl : 1 = i := Option.some.inj (h1.symm.trans hi)
    exact absurd (h0.symm.trans (hpart .kernel)) (by decide)

end MetaHipos
