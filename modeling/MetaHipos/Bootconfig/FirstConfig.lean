/-
  The first config on a device without one.

  `bc_ll_set_partition` then starts from a dummy in place of the last block and
  goes around the ring from there, so that all blocks but the last one are
  tried.

  * `Health`, `Behaves`: the blocks that work, and what the other ones do;
  * `wp_setPartition_blank`: the call on a device without a config;
  * `firstConfig_stored_iff`: when the first config is stored.
-/
import MetaHipos.Bootconfig.Attempts

namespace MetaHipos

open LittleEndian Process Newest

/-! ## Blocks that work and blocks that fail -/

/-- What is wrong with a block, if anything. -/
inductive Health where
  | works
  | bad
  | failsCheck
  | failsErase
  | failsWrite
deriving DecidableEq, Repr

/-- The answers of `mtd_is_bad` for a block. -/
def Health.Answers : Health → ℤ → Prop
  | .works, r => r = 0
  | .bad, r => 0 < r
  | .failsCheck, r => r < 0
  | _, _ => True

/-- The responses of a device whose blocks are as `health` says.  A failing
    erase or write leaves an erased block erased. -/
def Behaves (health : ℕ → Health) (info : MtdDevInfo) : (o : Op) → Resp o → Prop
  | .openDev _, fd => 0 ≤ fd
  | .libmtdOpen, lib => lib = true
  | .mtdGetDevInfo _, r => 0 ≤ r.1 ∧ r.2 = info
  | .malloc _, mem => mem = true
  | .time, _ => True
  | .mtdIsBad i, r => (health i).Answers r
  | .mtdRead i, r => health i = .works → Delivers r
  | .mtdErase i, r => (health i = .works → 0 ≤ r.ret) ∧ (health i = .failsErase → r.ret < 0) ∧
      (r.ret < 0 → r.left = .kept ∨ r.left = .complete)
  | .mtdWrite i _, r => (health i = .works → 0 ≤ r.ret) ∧ (health i = .failsWrite → r.ret < 0) ∧
      (r.ret < 0 → r.left = .kept)

/-- The judgement of a run on such a device; it does not stop. -/
def behaving (health : ℕ → Health) (info : MtdDevInfo) : Judge Op Resp Stop World where
  ok := Behaves health info
  inv _ := True
  stop _ _ := False

section
variable {health : ℕ → Health} {info : MtdDevInfo} {i n : ℕ} {b : BitVec 32 → Btblock} {ok : Bool}
  {evs : List Event}

theorem Behaves.not_refused {o : Op} {r : Resp o} (h : Behaves health info o r) :
    ¬ Refused o r := by
  cases o <;> simp only [Behaves, Refused] at h ⊢ <;> first | exact not_false | omega | simp [h]

/-- Only the blocks that work can be written … -/
theorem AttemptCalls.works_iff (h : AttemptCalls i n b ok evs)
    (hevs : ∀ e ∈ evs, Behaves health info e.1 e.2) : ok = true ↔ health i = .works := by
  cases h with
  | notChecked now r hr =>
    have hchk : (health i).Answers r := hevs ⟨.mtdIsBad i, r⟩ (by simp)
    refine ⟨by simp, fun h => ?_⟩
    rw [h] at hchk
    exact absurd hchk hr
  | notErased now e r he =>
    have herase : Behaves health info (.mtdErase i) e := hevs ⟨.mtdErase i, e⟩ (by simp)
    exact ⟨by simp, fun h => absurd (herase.1 h) (by omega)⟩
  | noPage now e he =>
    have hmem : Behaves health info (.malloc n) false := hevs ⟨.malloc n, false⟩ (by simp)
    cases hmem
  | notWritten now e o r he ho =>
    have hwrite : Behaves health info (.mtdWrite i (pageOf n (b now))) o :=
      hevs ⟨.mtdWrite i _, o⟩ (by simp)
    exact ⟨by simp, fun h => absurd (hwrite.1 h) (by omega)⟩
  | written now e o he ho =>
    have hchk : (health i).Answers 0 := hevs ⟨.mtdIsBad i, (0 : ℤ)⟩ (by simp)
    have herase : Behaves health info (.mtdErase i) e := hevs ⟨.mtdErase i, e⟩ (by simp)
    have hwrite : Behaves health info (.mtdWrite i (pageOf n (b now))) o :=
      hevs ⟨.mtdWrite i _, o⟩ (by simp)
    refine ⟨fun _ => ?_, fun _ => rfl⟩
    cases hh : health i with
    | works => rfl
    | bad => rw [hh] at hchk; exact absurd hchk (lt_irrefl _)
    | failsCheck => rw [hh] at hchk; exact absurd hchk (lt_irrefl _)
    | failsErase => exact absurd (herase.2.1 hh) (by omega)
    | failsWrite => exact absurd (hwrite.2.1 hh) (by omega)

/-- … and the other ones stay erased. -/
theorem AttemptCalls.erased (h : AttemptCalls i n b false evs)
    (hevs : ∀ e ∈ evs, Behaves health info e.1 e.2) {w : World} (hw : w.flash i = .erased) :
    (w.play evs).flash i = .erased := by
  have hcalm : ∀ (w : World) (o : Op) (r : Resp o), o.target = none →
      (w.after o r).flash i = w.flash i := fun w o r ho => by rw [after_flash_calm w r ho]
  have herased : ∀ (w : World) (e : Outcome), Behaves health info (.mtdErase i) e →
      w.flash i = .erased → (w.after (.mtdErase i) e).flash i = .erased := by
    intro w e he hw
    rw [after_flash, flashAfter, Function.update_self]
    split_ifs with hneg
    · rcases he.2.2 hneg with hl | hl
      · rw [hl]; exact hw
      · rw [hl]; rfl
    · rfl
  cases h with
  | notChecked now r hr =>
    rw [play_cons, hcalm _ _ _ rfl, play_cons, hcalm _ _ _ rfl, play_nil]
    exact hw
  | notErased now e r he =>
    rw [play_cons, hcalm _ _ _ rfl]
    exact herased _ e (hevs ⟨.mtdErase i, e⟩ (by simp)) hw
  | noPage now e he =>
    rw [play_cons, hcalm _ _ _ rfl]
    exact herased _ e (hevs ⟨.mtdErase i, e⟩ (by simp)) hw
  | notWritten now e o r he ho =>
    have hwrite : Behaves health info (.mtdWrite i (pageOf n (b now))) o :=
      hevs ⟨.mtdWrite i _, o⟩ (by simp)
    rw [play_cons, hcalm _ _ _ rfl, play_cons, after_flash, flashAfter, Function.update_self,
      if_pos ho, hwrite.2.2 ho]
    rw [Page.Left.page, play_cons, hcalm _ _ _ rfl]
    exact herased _ e (hevs ⟨.mtdErase i, e⟩ (by simp)) hw

end

/-! ## Devices without a config -/

/-- After `bc_ll_init`, there is no config in memory or on flash. -/
structure Blank (health : ℕ → Health) (info : MtdDevInfo) (bc : Bootconfig) (w : World) : Prop where
  initialised : bc.initialised = true
  info_eq : bc.info = info
  pos : 0 < info.ebCnt
  notBoot : ∀ i < info.ebCnt, (bc.blocks i).magic ≠ .boot
  notBad : ∀ i < info.ebCnt, health i = .works → (bc.blocks i).magic ≠ .bad
  erased : ∀ i < info.ebCnt, health i ≠ .bad → w.flash i = .erased

/-- `b` is a first config: partition `p` for the image `which` and `0` for the
    other one, and all flags set. -/
structure IsFirst (which : BtLlParttype) (p : ℕ) (b : Btblock) : Prop where
  magic : b.magic = .boot
  epoch : b.epoch = 1
  partition : (b.info which).partition.toNat = p
  other : (b.info which.other).partition = 0
  nBooted : ∀ image, (b.info image).nBooted = 1
  nHealthy : ∀ image, (b.info image).nHealthy = 1

theorem updated_isFirst (which : BtLlParttype) {p : ℕ} (hp : p ≤ 1) (now : BitVec 32) :
    IsFirst which p (updated dummyBlock which p now) := by
  have hnext := updated_isNext dummyBlock which hp now
  refine ⟨hnext.magic, hnext.epoch, hnext.partition, ?_, ?_, ?_⟩
  · rw [hnext.other]; cases which <;> rfl
  · intro image; cases which <;> cases image <;> rfl
  · intro image; cases which <;> cases image <;> rfl

/-- The only config on flash is `b` in the block `i`. -/
structure OnlyConfig (health : ℕ → Health) (n i : ℕ) (b : Btblock) (flash : ℕ → Page) : Prop where
  lt : i < n
  works : health i = .works
  hdr : (flash i).hdr = b
  others : ∀ j < n, j ≠ i → health j ≠ .bad → flash j = .erased

section
variable {health : ℕ → Health} {info : MtdDevInfo} {bc : Bootconfig} {w : World}
  {which : BtLlParttype} {p : ℕ} {tgt : Target}

theorem calm_behaving : Calm (behaving health info) := fun _ _ _ _ _ _ => trivial

/-- **`bc_ll_init` on a device without a config.** -/
theorem wp_bcLlInit_blank {flag : Bool} {dev : String}
    (hflash : ∀ i < info.ebCnt, health i ≠ .bad → w.flash i = .erased) :
    wp mtd { behaving health info with stop := fun _ _ => True } (bcLlInit flag dev)
      (Blank health info) w := by
  refine wp_bcLlInit (fun _ _ _ _ _ _ => trivial) trivial (fun _ _ _ _ _ _ => trivial) ?_
  rintro fd ⟨err, info'⟩ ⟨-, hinfo : info' = info⟩ - -
  subst hinfo
  have hzero : Btblock.zero.magic ≠ .boot ∧ Btblock.zero.magic ≠ .bad := by decide
  have herased : Page.erased.hdr.magic ≠ .boot ∧ Page.erased.hdr.magic ≠ .bad := by decide
  have hbad : Magic.bad ≠ .boot := by decide
  refine wp_reading (fun i _ b => b.magic ≠ .boot ∧ (health i = .works → b.magic ≠ .bad)) rfl
    (fun _ _ _ _ _ _ => trivial) trivial ?_ ?_ ?_ ?_
  · intro i hi r hr hneg
    exact ⟨hzero.1, fun _ => hzero.2⟩
  · intro i hi r hr hpos
    refine ⟨hbad, fun hh => ?_⟩
    have hans : (health i).Answers r := hr
    rw [hh] at hans
    exact absurd hans (by simpa [Health.Answers] using hpos.ne')
  · intro i hi h0 e he
    have hnb : health i ≠ .bad := fun hh => by
      have hans : (health i).Answers 0 := h0
      rw [hh] at hans
      exact absurd hans (lt_irrefl _)
    rw [(opened_quiet w dev fd (err, info')).flash, hflash i hi hnb]
    split_ifs
    · exact ⟨herased.1, fun _ => herased.2⟩
    · exact ⟨hzero.1, fun _ => hzero.2⟩
  · rintro code bc w' - ⟨hinfo, -, hq, hS, hcode⟩
    refine ⟨fun _ => trivial, fun h0 => ?_⟩
    have hpos : 0 < info'.ebCnt := by
      rcases hcode with ⟨-, i, hi, -⟩ | ⟨h1, -⟩
      · exact Nat.zero_lt_of_lt hi
      · simp [h1] at h0
    refine ⟨rfl, hinfo, hpos, fun i hi => ?_, fun i hi => ?_, fun i hi hnb => ?_⟩
    · obtain ⟨_, hb, -⟩ := hS i hi
      exact hb
    · obtain ⟨_, -, hb⟩ := hS i hi
      exact hb
    · rw [hq.flash, (opened_quiet w dev fd (err, info')).flash]
      exact hflash i hi hnb

theorem Blank.startIdx (h : Blank health info bc w) : bc.startIdx = info.ebCnt - 1 ∧
    bc.startMem = bc.setBlock (info.ebCnt - 1) dummyBlock := by
  have hnone : currentIdx bc.blocks bc.info.ebCnt = none := by
    refine currentIdx_eq_none.2 fun j hj => Btblock.version_of_not_boot ?_
    rw [h.info_eq] at hj
    exact h.notBoot j hj
  rw [h.info_eq] at hnone
  simp [Bootconfig.startIdx, Bootconfig.startMem, hnone, h.info_eq]

/-- **`bc_ll_set_partition` on a device without a config** tries all blocks but
    the last one, and writes the first one that works. -/
theorem wp_setPartition_blank {Q : ℤ × Bootconfig → World → Prop} (h : Blank health info bc w)
    (hio : Btblock.size ≤ info.minIoSize) (hp : p ≤ 1)
    (hnone : (∀ i, i + 1 < info.ebCnt → health i ≠ .works) → ∀ bc' w', Q (-1, bc') w')
    (hsome : ∀ i now bc' w', i + 1 < info.ebCnt →
      OnlyConfig health info.ebCnt i (updated dummyBlock which p now) w'.flash →
      Q (0, bc') w') :
    wp mtd (behaving health info) (bcLlSetPartition tgt bc which p) Q w := by
  obtain ⟨hidx, hmem⟩ := h.startIdx
  have hpos := h.pos
  have hlast : info.ebCnt - 1 < info.ebCnt := by omega
  have hstart : bc.startIdx < bc.info.ebCnt := by rwa [hidx, h.info_eq]
  refine wp_bcLlSetPartition (fun l bc' w' => Untried bc l bc' ∧
    (∀ j < info.ebCnt, health j ≠ .bad → w'.flash j = .erased) ∧
    ∃ pre, Ring.ring info.ebCnt (info.ebCnt - 1) = pre ++ l ∧ ∀ j ∈ pre, health j ≠ .works)
    h.initialised hp (congrArg _ h.info_eq) (by rw [hidx]; exact hlast)
    (fun _ _ _ h' => by rw [h'.1.info, h.info_eq]) ?_ ?_ ?_
  · rintro i is bc' w' hi hne ⟨hmemory, her, pre, hpre, hno⟩
    have hinfo := hmemory.info.trans h.info_eq
    have hdummy : bc'.blocks (info.ebCnt - 1) = dummyBlock := by
      rw [← hidx, hmemory.start, hmem, hidx, Bootconfig.setBlock_blocks, Function.update_self]
    have hnext : i + 1 < info.ebCnt := by omega
    rw [hidx]
    have hpre' : Ring.ring info.ebCnt (info.ebCnt - 1) = (pre ++ [i]) ++ is := by rw [hpre]; simp
    have hno' : health i ≠ .works → ∀ j ∈ pre ++ [i], health j ≠ .works := by
      intro hi j hj
      rcases List.mem_append.1 hj with hj | hj
      · exact hno j hj
      · rw [List.mem_singleton.1 hj]; exact hi
    refine wp_updateBootblock_calls (fun _ => trivial) (hinfo.symm ▸ hi) (hinfo.symm ▸ hlast)
      (hinfo.symm ▸ hio) ?_ ?_
    · -- a marked block does not work
      intro hm
      exact ⟨hmemory.skip, her, _, hpre', hno' fun hh => h.notBad i hi hh (hmemory.head ▸ hm)⟩
    · intro hm ok evs err bc'' hcalls hevs herr hinfo'' hini'' hothers
      rw [hdummy] at hcalls
      have hworks := hcalls.works_iff hevs
      cases ok with
      | false =>
        have hne0 : err ≠ 0 := fun h => by cases herr.1 h
        simp only [hne0, if_false]
        refine ⟨hmemory.tried hne hinfo'' hini'' hothers, fun j hj hnb => ?_, _, hpre',
          hno' fun hh => by cases hworks.2 hh⟩
        by_cases hji : j = i
        · subst hji
          exact hcalls.erased hevs (her j hj hnb)
        · rw [play_flash_of_ne (hcalls.target hji), her j hj hnb]
      | true =>
        simp only [herr.2 rfl, if_true]
        obtain ⟨now, hpage⟩ := hcalls.flash w'
        rw [wp_bcLlReread (hini''.trans hmemory.initialised)]
        refine wp_reading (fun _ _ _ => True) rfl calm_behaving trivial (fun _ _ _ _ _ => trivial)
          (fun _ _ _ _ _ => trivial) (fun _ _ _ _ _ => trivial) ?_
        intro code bc₃ w₃ _ hread
        refine hsome i now bc₃ w₃ hnext ⟨hi, hworks.1 rfl, ?_, fun j hj hji hnb => ?_⟩
        · rw [hread.quiet.flash, hpage]
          exact Page.hdr_program_erased (prefix_pageOf ..)
        · rw [hread.quiet.flash, play_flash_of_ne (hcalls.target hji), her j hj hnb]
  · rintro bc' w' ⟨-, -, pre, hpre, hno⟩
    rw [List.append_nil] at hpre
    refine hnone (fun i hi => hno i ?_) bc' w'
    rw [← hpre]
    exact (Ring.mem_ring hlast).2 ⟨by omega, by omega⟩
  · have hring := Untried.ring h.initialised hstart
    rw [h.info_eq] at hring
    exact ⟨hring, h.erased, [], by rw [hidx]; rfl, by simp⟩

/-! ## The first config -/

/-- A fresh process finds the only config of the flash. -/
theorem freshCurrent_only {i : ℕ} {b : Btblock} (hw : OnlyConfig health info.ebCnt i b w.flash)
    (hb : b.version ≠ none) {ω : Oracle Resp} (hω : ∀ n o, Behaves health info o (ω n o))
    (dev : String) :
    ∃ bc' w' ω', exec mtd (freshCurrent dev) w ω = (.done (some i, bc'), w', ω') ∧
      bc'.blocks i = b := by
  have h : wp mtd (behaving health info) (freshCurrent dev)
      (fun cb _ => cb.1 = some i ∧ cb.2.blocks i = b) w := by
    rw [freshCurrent, wp_bind]
    refine wp_bcLlInit calm_behaving trivial (fun o r _ ho hr _ => absurd hr ho.not_refused) ?_
    rintro fd ⟨err, info'⟩ ⟨-, hinfo : info' = info⟩ - -
    subst hinfo
    have hquiet := opened_quiet w dev fd (err, info')
    -- the other blocks have no config in memory either
    refine wp_reading (fun j ok b' => if j = i then ok = true ∧ b' = b else b'.version = none) rfl
      calm_behaving trivial ?_ ?_ ?_ ?_
    · intro j hj r (hr : (health j).Answers r) hneg
      have hji : j ≠ i := by
        rintro rfl
        rw [hw.works] at hr
        exact absurd hr hneg.ne
      rw [if_neg hji]
      exact Btblock.version_zero
    · intro j hj r (hr : (health j).Answers r) hpos
      have hji : j ≠ i := by
        rintro rfl
        rw [hw.works] at hr
        exact absurd hr hpos.ne'
      rw [if_neg hji]
      exact Btblock.version_of_bad rfl
    · intro j hj (h0 : (health j).Answers 0) e he
      by_cases hji : j = i
      · subst hji
        have hd : Delivers e := he hw.works
        rw [if_pos rfl, if_pos hd, hquiet.flash, hw.hdr]
        exact ⟨by simpa using hd, rfl⟩
      · rw [if_neg hji]
        have hnb : health j ≠ .bad := fun hh => by
          rw [hh] at h0
          exact absurd h0 (lt_irrefl _)
        split_ifs
        · rw [hquiet.flash, hw.others j hj hji hnb]
          exact Btblock.version_of_not_boot Page.hdr_erased_magic
        · exact Btblock.version_zero
    · rintro code bc' w' - ⟨hinfo, -, -, hS, hcode⟩
      obtain ⟨_, hi⟩ := hS i hw.lt
      rw [if_pos rfl] at hi
      have hcode : code = 0 := by
        rcases hcode with ⟨h, -⟩ | ⟨-, h⟩
        · exact h
        · have hfalse := h i hw.lt
          simp at hfalse
      refine ⟨fun h => by simp [hcode] at h, fun _ => ?_⟩
      rw [wp_bind, wp_bcLlGetCurrent rfl, wp_pure]
      refine ⟨?_, hi.2⟩
      change currentIdx bc'.blocks bc'.info.ebCnt = some i
      rw [hinfo]
      obtain ⟨v, hv⟩ := Option.ne_none_iff_exists'.1 hb
      refine currentIdx_of_isNewest (v := v) (.write_first hw.lt ?_ fun j hj hji => ?_)
      · rw [versions, hi.2, hv]
      · obtain ⟨_, hj⟩ := hS j hj
        rwa [if_neg hji] at hj
  have hend := wp_exec h hω
  generalize exec mtd (freshCurrent dev) w ω = x at hend
  obtain ⟨⟨curr, bc'⟩ | e, w', ω'⟩ := x
  · obtain ⟨hc, hbc⟩ := hend
    exact ⟨bc', w', ω', by rw [← show curr = _ from hc], hbc⟩
  · exact hend.elim

/-- `bc_ll_set_partition` stores a first config: it returns `0`, and a fresh
    process finds the config. -/
def StoresFirst (health : ℕ → Health) (info : MtdDevInfo) (tgt : Target) (which : BtLlParttype)
    (p : ℕ) (bc : Bootconfig) (w : World) : Prop :=
  ∀ ω : Oracle Resp, (∀ n o, Behaves health info o (ω n o)) → ∃ bc' w' ω',
    exec mtd (bcLlSetPartition tgt bc which p) w ω = (.done (0, bc'), w', ω') ∧
    ∀ dev, ∀ ω₂ : Oracle Resp, (∀ n o, Behaves health info o (ω₂ n o)) → ∃ i bc₂ w₂ ω₂',
      exec mtd (freshCurrent dev) w' ω₂ = (.done (some i, bc₂), w₂, ω₂') ∧
      IsFirst which p (bc₂.blocks i)

variable (which tgt) in
/-- What `bc_ll_set_partition` does on a device without a config. -/
theorem exec_setPartition_blank (h : Blank health info bc w) (hio : Btblock.size ≤ info.minIoSize)
    (hp : p ≤ 1) {ω : Oracle Resp} (hω : ∀ n o, Behaves health info o (ω n o)) :
    ∃ ret bc' w' ω', exec mtd (bcLlSetPartition tgt bc which p) w ω = (.done (ret, bc'), w', ω') ∧
      ((ret = -1 ∧ ∀ i, i + 1 < info.ebCnt → health i ≠ .works) ∨
        (ret = 0 ∧ ∃ i now, i + 1 < info.ebCnt ∧
          OnlyConfig health info.ebCnt i (updated dummyBlock which p now) w'.flash)) := by
  have hwp : wp mtd (behaving health info) (bcLlSetPartition tgt bc which p) (fun rb w' =>
      (rb.1 = -1 ∧ ∀ i, i + 1 < info.ebCnt → health i ≠ .works) ∨
        (rb.1 = 0 ∧ ∃ i now, i + 1 < info.ebCnt ∧
          OnlyConfig health info.ebCnt i (updated dummyBlock which p now) w'.flash)) w :=
    wp_setPartition_blank h hio hp (fun hno _ _ => Or.inl ⟨rfl, hno⟩)
      fun i now _ _ hi honly => Or.inr ⟨rfl, i, now, hi, honly⟩
  have hend := wp_exec hwp hω
  generalize exec mtd (bcLlSetPartition tgt bc which p) w ω = x at hend ⊢
  obtain ⟨⟨ret, bc'⟩ | e, w', ω'⟩ := x
  · exact ⟨ret, bc', w', ω', rfl, hend⟩
  · exact hend.elim

/-- **When a first config is stored.**  If any block works, it is stored exactly
    if the last block is not the only one. -/
theorem firstConfig_stored_iff {flag : Bool} {dev : String} {flash : ℕ → Page}
    {ω ω' : Oracle Resp} (hio : Btblock.size ≤ info.minIoSize) (hp : p ≤ 1)
    (hflash : ∀ i < info.ebCnt, health i ≠ .bad → flash i = .erased)
    (hω : ∀ n o, Behaves health info o (ω n o))
    (hinit : exec mtd (bcLlInit flag dev) ⟨flash, []⟩ ω = (.done bc, w, ω')) :
    ((∃ i < info.ebCnt, health i = .works) → StoresFirst health info tgt which p bc w) ↔
      (health (info.ebCnt - 1) = .works → ∃ i, i + 1 < info.ebCnt ∧ health i = .works) := by
  have hblank : Blank health info bc w := wp_done (wp_bcLlInit_blank hflash) hω hinit
  have hpos := hblank.pos
  constructor
  · intro hstore hlast
    obtain ⟨bc', w', ω₁, hrun, -⟩ := hstore ⟨_, by omega, hlast⟩ ω hω
    obtain ⟨ret, bc₂, w₂, ω₂, hrun₂, ⟨hret, -⟩ | ⟨-, i, now, hi, honly⟩⟩ :=
      exec_setPartition_blank which tgt hblank hio hp hω
    · -- it cannot return `-1` and `0`
      rw [hrun₂] at hrun
      have h0 : ret = 0 := congrArg Prod.fst (End.done.inj (congrArg Prod.fst hrun))
      rw [hret] at h0
      cases h0
    · exact ⟨i, hi, honly.works⟩
  · rintro hcond ⟨j, hj, hworks⟩ ω₁ hω₁
    have hsome : ∃ i, i + 1 < info.ebCnt ∧ health i = .works := by
      rcases Nat.lt_or_ge (j + 1) info.ebCnt with h | h
      · exact ⟨j, h, hworks⟩
      · exact hcond (by rwa [show info.ebCnt - 1 = j by omega])
    obtain ⟨ret, bc', w', ω₂, hrun, ⟨-, hno⟩ | ⟨rfl, i, now, hi, honly⟩⟩ :=
      exec_setPartition_blank which tgt hblank hio hp hω₁
    · obtain ⟨i, hi, hworks⟩ := hsome
      exact absurd hworks (hno i hi)
    · refine ⟨bc', w', ω₂, hrun, fun dev ω₃ hω₃ => ?_⟩
      have hfirst := updated_isFirst which hp now
      have hver : (updated dummyBlock which p now).version ≠ none := by
        rw [ne_eq, Btblock.version_eq_none, hfirst.epoch]
        exact fun h => absurd (h hfirst.magic) (by decide)
      obtain ⟨bc₃, w₃, ω₃', hrun₃, hb⟩ := freshCurrent_only honly hver hω₃ dev
      exact ⟨i, bc₃, w₃, ω₃', hrun₃, hb ▸ hfirst⟩

end

theorem nominal_behaves (info : MtdDevInfo) (o : Op) :
    Behaves (fun _ => .works) info o (nominal (fun _ => false) info o) := by
  cases o <;> simp [Behaves, nominal, Health.Answers, Delivers]

/-- With two blocks that work, a first config is stored … -/
theorem firstConfig_stored_two : ∃ bc w ω', exec mtd (bcLlInit false "/dev/mtd1")
    ⟨fun _ => .erased, []⟩ (fun _ => nominal (fun _ => false) ⟨2, 16⟩) = (.done bc, w, ω') ∧
    StoresFirst (fun _ => .works) ⟨2, 16⟩ ⟨4, Or.inl rfl⟩ .kernel 1 bc w := by
  have hω : ∀ n o, Behaves (fun _ => .works) ⟨2, 16⟩ o
      ((fun _ => nominal (fun _ => false) ⟨2, 16⟩ : Oracle Resp) n o) :=
    fun _ o => nominal_behaves _ o
  refine ⟨_, _, _, rfl, ?_⟩
  refine (firstConfig_stored_iff (by decide) le_rfl (fun _ _ _ => rfl) hω rfl).2
    (fun _ => ⟨0, by decide, rfl⟩) ⟨0, by decide, rfl⟩

/-- … but not with a single one: it is never tried. -/
theorem firstConfig_not_stored_one : ∃ bc w ω', exec mtd (bcLlInit false "/dev/mtd1")
    ⟨fun _ => .erased, []⟩ (fun _ => nominal (fun _ => false) ⟨1, 16⟩) = (.done bc, w, ω') ∧
    ¬ ((∃ i < 1, (fun _ => Health.works) i = .works) →
      StoresFirst (fun _ => .works) ⟨1, 16⟩ ⟨4, Or.inl rfl⟩ .kernel 1 bc w) := by
  refine ⟨_, _, _, rfl, fun h => ?_⟩
  obtain ⟨bc', w', ω', hrun, -⟩ := h ⟨0, by decide, rfl⟩
    (fun _ => nominal (fun _ => false) ⟨1, 16⟩) fun _ o => nominal_behaves _ o
  have hret : (-1 : ℤ) = 0 := congrArg Prod.fst (End.done.inj (congrArg Prod.fst hrun))
  cases hret

end MetaHipos
