/-
  Does the last set win?

  Every successful call writes the epoch after the current one, and the
  highest epoch is the current one.  The epoch is a 32-bit word, though, and
  `0` is no valid epoch: after the last one, what is written is never seen.

  * `lastWins_iff`: a sequence of sets on a device where nothing but its bad
    blocks fails always has the last one in force exactly if the epochs suffice
    for all of them.
-/
import MetaHipos.Bootconfig.Client
import MetaHipos.Bootconfig.SetFine

namespace MetaHipos

open LittleEndian Process Newest

/-- Sequences of calls on a device with the bad blocks `bad` where nothing else
    fails. -/
abbrev SetSession (tgt : Target) (bad : ℕ → Bool) (bc : Bootconfig) (w : World)
    (steps : List (Step SetCall Bootconfig World ℤ)) (s : Bootconfig × World) : Prop :=
  Session mtd (fun _ => Fine bad bc.info)
    (fun c bc => bcLlSetPartition tgt bc c.which c.partition) (bc, w) steps s

/-- If the call returned `0`, the block it wrote is the current one, with the
    partition it was called for, in this process and in a fresh one. -/
def LastWins (bad : ℕ → Bool) (info : MtdDevInfo) (st : Step SetCall Bootconfig World ℤ) : Prop :=
  st.ret = 0 → ∃ i page, writes st.post.2.log = (i, page) :: writes st.pre.2.log ∧
    currentIdx st.post.1.blocks info.ebCnt = some i ∧
    ((st.post.1.blocks i).info st.call.which).partition.toNat = st.call.partition ∧
    ∀ dev ω, (∀ n o, Fine bad info o (ω n o)) → ∃ bc' w' ω',
      exec mtd (freshCurrent dev) st.post.2 ω = (.done (some i, bc'), w', ω') ∧
        bc'.blocks i = st.post.1.blocks i

/-- Where calls are made: in sync with the flash, with a current config. -/
structure Ready (bad : ℕ → Bool) (info : MtdDevInfo) (c e : ℕ) (s : Bootconfig × World) : Prop where
  info_eq : s.1.info = info
  initialised : s.1.initialised = true
  synced : Synced bad s.1 s.2.flash
  newest : IsNewest (versions s.1.blocks) info.ebCnt c e
  minIoSize : Btblock.size ≤ info.minIoSize

/-- All blocks but `c` are marked as bad in memory. -/
def AllMarkedBad (n c : ℕ) (bc : Bootconfig) : Prop :=
  ∀ i < n, i ≠ c → (bc.blocks i).magic = .bad

section
variable {bad : ℕ → Bool} {info : MtdDevInfo} {c e i : ℕ} {s s' : Bootconfig × World}

theorem Ready.current (h : Ready bad info c e s) :
    currentIdx s.1.blocks s.1.info.ebCnt = some c ∧ (s.1.blocks c).magic = .boot ∧
      (s.1.blocks c).epoch.toNat = e := by
  obtain ⟨hm, -, he⟩ := IsNewest.epoch h.newest
  exact ⟨by rw [h.info_eq]; exact currentIdx_of_isNewest h.newest, hm, he⟩

/-- The current config is in a good block. -/
theorem Ready.good (h : Ready bad info c e s) : bad c = false := by
  refine h.synced.unmarked (by rw [h.info_eq]; exact h.newest.lt) fun hm => ?_
  rw [h.current.2.1] at hm
  exact absurd hm (by decide)

/-- A fresh process finds the current config. -/
theorem Ready.fresh (h : Ready bad info c e s) (dev : String) {ω : Oracle Resp}
    (hω : ∀ n o, Fine bad info o (ω n o)) : ∃ bc' w' ω',
      exec mtd (freshCurrent dev) s.2 ω = (.done (some c, bc'), w', ω') ∧
        bc'.blocks c = s.1.blocks c := by
  obtain ⟨bc', w', ω', hrun, hinfo, hS, -⟩ := freshCurrent_fine dev s.2 hω ⟨c, h.newest.lt, h.good⟩
  obtain ⟨hcur, hblk⟩ := h.synced.current_eq hS (hinfo.trans h.info_eq.symm) h.current.1
  rw [h.info_eq, ← hinfo] at hcur
  exact ⟨bc', w', ω', hcur ▸ hrun, hblk⟩

variable {tgt : Target}

/-- The judgement of the calls. -/
def setJudge (bad : ℕ → Bool) (info : MtdDevInfo) (_ : SetCall) : Judge Op Resp Stop World :=
  ⟨Fine bad info, fun _ => True, fun _ _ => True⟩

/-- The rule for one call. -/
theorem set_step (x : SetCall) (h : Ready bad info c e s) {Q : ℤ → Bootconfig × World → Prop}
    (hnone : AllMarkedBad info.ebCnt c s.1 → Q (-1) s)
    (hsome : ∀ i s', FineStep bad s.1 s.2 x.which x.partition i s'.1 s'.2 → Q 0 s') :
    LibSpec mtd (setJudge bad info) (fun c bc => bcLlSetPartition tgt bc c.which c.partition) x s
      Q := by
  obtain ⟨bc, w⟩ := s
  obtain rfl : bc.info = info := h.info_eq
  obtain ⟨hidx, hmem⟩ := start_of_current h.current.1
  refine wp_setPartition_fine (fun _ _ h => h) (fun _ => trivial) h.initialised
    (Nat.zero_lt_of_lt h.newest.lt) h.minIoSize x.le h.synced (fun hall => ?_)
    fun i bc' w' hstep => hsome i (bc', w') hstep
  have := hnone (by rw [AllMarkedBad, ← hidx]; exact hall)
  rw [hmem]; exact this

/-- **A call with an epoch left wins**, and leaves the old block for the next
    call. -/
theorem set_wins {x : SetCall} (h : Ready bad info c e s) (he : e < 2 ^ 32 - 1)
    (hstep : FineStep bad s.1 s.2 x.which x.partition i s'.1 s'.2) :
    Ready bad info i (e + 1) s' ∧ ¬ AllMarkedBad info.ebCnt i s'.1 ∧ LastWins bad info ⟨x, s, 0, s'⟩ := by
  obtain ⟨bc, w⟩ := s
  obtain rfl : bc.info = info := h.info_eq
  obtain ⟨hcur, hmagic, hepoch⟩ := h.current
  obtain ⟨hidx, hmem⟩ := start_of_current hcur
  have hN := Nat.zero_lt_of_lt h.newest.lt
  have hnew := hstep.isNewest h.synced x.le hcur (hepoch.symm ▸ he)
  rw [hepoch] at hnew
  have hready : Ready bad bc.info i (e + 1) s' :=
    ⟨hstep.info, hstep.initialised, hstep.synced, hnew, h.minIoSize⟩
  obtain ⟨now, -, hwrites⟩ := hstep.written
  refine ⟨hready, fun hall => ?_, fun _ => ⟨i, _, hwrites, currentIdx_of_isNewest hnew,
    (hstep.block hN x.le).partition, fun dev ω hω => hready.fresh dev hω⟩⟩
  have hci : c ≠ i := fun h' => (hstep.lt hN).2 (by rw [← h']; exact hidx.symm)
  have hbad := hall c h.newest.lt hci
  rcases hstep.others h.synced h.newest.lt hci with ⟨-, hb⟩ | ⟨hb, -⟩
  · rw [hb] at hbad
    exact absurd (hmagic.symm.trans hbad) (by decide)
  · exact absurd (hmagic.symm.trans hb) (by decide)

/-- **A call without an epoch left does not win.** -/
theorem set_wraps {x : SetCall} (h : Ready bad info c e s) (he : e = 2 ^ 32 - 1)
    (hstep : FineStep bad s.1 s.2 x.which x.partition i s'.1 s'.2) :
    ¬ LastWins bad info ⟨x, s, 0, s'⟩ := by
  obtain ⟨bc, w⟩ := s
  obtain rfl : bc.info = info := h.info_eq
  obtain ⟨hcur, -, hepoch⟩ := h.current
  obtain ⟨hidx, -⟩ := start_of_current hcur
  have hnew := hstep.isNewest_wrap h.synced x.le hcur (hepoch.trans he)
  intro hwins
  obtain ⟨j, page, hwrites, hj, -⟩ := hwins rfl
  obtain ⟨now, -, hwrites'⟩ := hstep.written
  have hji : j = i := by
    have := hwrites.symm.trans hwrites'
    simp only [List.cons.injEq, Prod.mk.injEq] at this
    exact this.1.1
  have hjc : c = j := by
    have := (currentIdx_of_isNewest hnew).symm.trans hj
    exact Option.some.inj this
  exact (hstep.lt (Nat.zero_lt_of_lt h.newest.lt)).2 (by rw [← hji, ← hjc]; exact hidx.symm)

/-- What is marked in memory is bad, or carries the mark on flash. -/
theorem Synced.marked_iff {bc : Bootconfig} {flash : ℕ → Page} (h : Synced bad bc flash)
    (hi : i < bc.info.ebCnt) :
    (bc.blocks i).magic = .bad ↔ bad i = true ∨ (flash i).hdr.magic = .bad := by
  cases hb : bad i with
  | true => exact iff_of_true (h.marked hi hb) (Or.inl rfl)
  | false => rw [h.good hi hb, or_iff_right (by decide)]

/-- **The last set always wins exactly if** the epochs suffice for all calls,
    or no block can be written at all: all others are bad, or marked on flash. -/
theorem lastWins_iff {bc : Bootconfig} {w : World}
    {steps : List (Step SetCall Bootconfig World ℤ)} (hinit : bc.initialised = true)
    (hio : Btblock.size ≤ bc.info.minIoSize) (hsync : Synced bad bc w.flash)
    (hcur : currentIdx bc.blocks bc.info.ebCnt = some c) (hrun : SetSession tgt bad bc w steps s) :
    (∀ st ∈ steps, LastWins bad bc.info st) ↔
      (bc.blocks c).epoch.toNat + steps.length < 2 ^ 32 ∨
        ∀ i < bc.info.ebCnt, i ≠ c → bad i = true ∨ (w.flash i).hdr.magic = .bad := by
  set e := (bc.blocks c).epoch.toNat with he
  have hready : Ready bad bc.info c e (bc, w) :=
    ⟨rfl, hinit, hsync, currentIdx_eq_some.1 hcur, hio⟩
  have hmarked : AllMarkedBad bc.info.ebCnt c bc ↔
      ∀ i < bc.info.ebCnt, i ≠ c → bad i = true ∨ (w.flash i).hdr.magic = .bad :=
    forall_congr' fun i => imp_congr_right fun hi => imp_congr_right fun _ => hsync.marked_iff hi
  rw [← hmarked]
  by_cases hall : AllMarkedBad bc.info.ebCnt c bc
  · -- nothing is ever written
    refine iff_of_true ?_ (Or.inr hall)
    refine (hrun.invariant (fun steps s => Ready bad bc.info c e s ∧ AllMarkedBad bc.info.ebCnt c s.1 ∧
      ∀ st ∈ steps, LastWins bad bc.info st) (setJudge bad bc.info) ⟨hready, hall, by simp⟩
      (fun _ _ _ h => h) ?_).2.2
    rintro steps s x ⟨hr, ha, hw⟩
    refine set_step x hr (fun _ => ⟨hr, ha, fun st hst => ?_⟩) fun i s' hstep => ?_
    · rcases List.mem_append.1 hst with hst | hst
      · exact hw st hst
      · rw [List.mem_singleton.1 hst]
        exact fun h0 => by cases h0
    · obtain ⟨hlt, hne⟩ := hstep.lt (by rw [hr.info_eq]; exact Nat.zero_lt_of_lt hr.newest.lt)
      rw [hr.info_eq] at hlt
      rw [(start_of_current hr.current.1).1] at hne
      exact absurd (ha i hlt hne) hstep.unmarked
  · rw [or_iff_left hall]
    have hinv := hrun.invariant (fun steps s =>
      (e + steps.length < 2 ^ 32 ∧ (∀ st ∈ steps, LastWins bad bc.info st) ∧
        ∃ c, Ready bad bc.info c (e + steps.length) s ∧ ¬ AllMarkedBad bc.info.ebCnt c s.1) ∨
      (¬ e + steps.length < 2 ^ 32 ∧ ¬ ∀ st ∈ steps, LastWins bad bc.info st)) (setJudge bad bc.info)
      (Or.inl ⟨(bc.blocks c).epoch.isLt, by simp, c, hready, hall⟩) (fun _ _ _ h => h) ?_
    · rcases hinv with ⟨h1, h2, -⟩ | ⟨h1, h2⟩
      exacts [iff_of_true h2 h1, iff_of_false h2 h1]
    · rintro steps s x (⟨hlt, hw, c, hr, ha⟩ | ⟨hlt, hw⟩)
      · refine set_step x hr (fun hall => absurd hall ha) fun i s' hstep => ?_
        simp only [List.length_append, List.length_singleton, List.mem_append, List.mem_singleton,
          or_imp, forall_and, forall_eq]
        rcases Nat.lt_or_ge (e + steps.length) (2 ^ 32 - 1) with h1 | h1
        · obtain ⟨hr', ha', hw'⟩ := set_wins hr h1 hstep
          exact Or.inl ⟨by omega, ⟨hw, hw'⟩, i, hr', ha'⟩
        · exact Or.inr ⟨by omega, fun h => set_wraps hr (by omega) hstep h.2⟩
      · -- what is lost once is lost
        refine wp_true (fun _ => trivial) (fun _ _ => trivial) fun _ _ => Or.inr ⟨?_, fun h => ?_⟩
        · rw [List.length_append]; omega
        · exact hw fun st hst => h st (List.mem_append_left _ hst)

end

/-- Block 1 is bad. -/
def secondBad : ℕ → Bool := fun i => i == 1

def secondBadMem : Bootconfig := .ofFlash secondBad ⟨3, 16⟩ twoBlocks

/-- Two sets, which both win, on three blocks with a bad one. -/
theorem lastWins_twice : ∃ steps s,
    SetSession ⟨4, Or.inl rfl⟩ secondBad secondBadMem ⟨twoBlocks, []⟩ steps s ∧
      steps.length = 2 ∧ ∀ st ∈ steps, LastWins secondBad ⟨3, 16⟩ st := by
  have hfine : ∀ (_ : ℕ) (o : Op), Fine secondBad ⟨3, 16⟩ o (nominal secondBad ⟨3, 16⟩ o) :=
    fun _ o => nominal_fine _ _ o
  obtain ⟨steps, s, hrun, hlen⟩ : ∃ steps s,
      SetSession ⟨4, Or.inl rfl⟩ secondBad secondBadMem ⟨twoBlocks, []⟩ steps s ∧
        steps.length = 2 :=
    ⟨_, _, .snoc ⟨.rootfs, 0, by decide⟩ (.snoc ⟨.kernel, 1, by decide⟩ .nil hfine rfl)
      hfine rfl, rfl⟩
  have hsync : Synced secondBad secondBadMem twoBlocks := synced_ofFlash _ _ _
  have hcur : currentIdx secondBadMem.blocks secondBadMem.info.ebCnt = some 0 := by decide
  have hwins := (lastWins_iff rfl (by decide) hsync hcur hrun).2
    (Or.inl (by rw [hlen]; decide))
  exact ⟨steps, s, hrun, hlen, hwins⟩

/-- A set on a device whose current config has the last epoch. -/
theorem lastWins_wraps :
    let flash := flashOf [{ dummyBlock with magic := .boot, epoch := 0xFFFFFFFF }]
    let good : ℕ → Bool := fun _ => false
    ∃ steps s, SetSession ⟨4, Or.inl rfl⟩ good (.ofFlash good twoInfo flash) ⟨flash, []⟩ steps s ∧
      ¬ ∀ st ∈ steps, LastWins good twoInfo st := by
  refine ⟨_, _, .snoc ⟨.kernel, 1, by decide⟩ .nil checkAnswers_fine rfl, fun h => ?_⟩
  obtain ⟨i, page, hw, hi, -⟩ := h _ (List.mem_singleton_self _) rfl
  cases hi.symm.trans (by decide : _ = some 0)
  have h10 : (some 1 : Option ℕ) = some 0 := congrArg (fun l => l.head?.map Prod.fst) hw
  cases h10

end MetaHipos
