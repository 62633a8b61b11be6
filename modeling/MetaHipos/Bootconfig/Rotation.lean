/-
  Rotation over the good blocks.

  On a device whose good blocks are erased at first and where nothing fails but
  its bad blocks, `bc_ll_set_partition` takes turns on the good blocks.

  * `Rotated`: the invariant, which ties the epochs that are still on flash to
    the number of calls;
  * `rotated_step`: one call of the library;
  * `setPartition_rotates`: all calls.
-/
import MetaHipos.Bootconfig.Client
import MetaHipos.Bootconfig.Healthy
import MetaHipos.Bootconfig.SetFine

namespace MetaHipos

open LittleEndian Process Newest Ring

variable {bad : ℕ → Bool} {info : MtdDevInfo}

/-- The good blocks, the lowest one first. -/
def goodBlocks (bad : ℕ → Bool) (info : MtdDevInfo) : List ℕ := goods info.ebCnt fun i => !bad i

theorem mem_goodBlocks {i : ℕ} : i ∈ goodBlocks bad info ↔ i < info.ebCnt ∧ bad i = false := by
  rw [goodBlocks, mem_goods, Bool.not_eq_true']

/-- The state after `k` partitions were set. -/
structure Rotated (bad : ℕ → Bool) (info : MtdDevInfo) (k : ℕ) (s : Bootconfig × World) :
    Prop where
  info_eq : s.1.info = info
  initialised : s.1.initialised = true
  synced : Synced bad s.1 s.2.flash
  unmarked : ∀ i ∈ goodBlocks bad info, (s.1.blocks i).magic ≠ .bad
  live : ∀ i ∈ goodBlocks bad info, ∀ e, versions s.1.blocks i = some e ↔
    1 ≤ e ∧ e ≤ k ∧ k < e + (goodBlocks bad info).length ∧ turn (goodBlocks bad info) (e - 1) = i
  erases : erases s.2.log = ((List.range k).map (turn (goodBlocks bad info))).reverse

namespace Rotated

variable {k : ℕ} {s s' : Bootconfig × World}

section
variable (h : Rotated bad info k s)
include h

theorem bad_version {i : ℕ} (hi : i < info.ebCnt) (hb : bad i = true) :
    versions s.1.blocks i = none :=
  Btblock.version_of_bad (h.synced.marked (h.info_eq ▸ hi) hb)

theorem versions_good {i e : ℕ} (hi : i < info.ebCnt) (hv : versions s.1.blocks i = some e) :
    i ∈ goodBlocks bad info := by
  refine mem_goodBlocks.2 ⟨hi, ?_⟩
  by_contra hb
  rw [h.bad_version hi (by simpa using hb)] at hv; cases hv

/-- The block of the last call is the newest one. -/
theorem newest (hg : 2 ≤ (goodBlocks bad info).length) (hk : 0 < k) :
    IsNewest (versions s.1.blocks) info.ebCnt (turn (goodBlocks bad info) (k - 1)) k := by
  have hmem : turn (goodBlocks bad info) (k - 1) ∈ goodBlocks bad info := turn_mem (by omega)
  refine ⟨(mem_goodBlocks.1 hmem).1, (h.live _ hmem k).2 ⟨hk, le_rfl, by omega, rfl⟩,
    fun j hj u hu => ?_, fun j hj u hu => ?_⟩
  · exact ((h.live j (h.versions_good hj hu) u).1 hu).2.1
  · have hj' := hj.trans (mem_goodBlocks.1 hmem).1
    obtain ⟨-, hle, -, hturn⟩ := (h.live j (h.versions_good hj' hu) u).1 hu
    refine lt_of_le_of_ne hle fun huk => ?_
    rw [huk] at hturn
    omega

theorem current (hg : 2 ≤ (goodBlocks bad info).length) (hk : 0 < k) :
    currentIdx s.1.blocks s.1.info.ebCnt = some (turn (goodBlocks bad info) (k - 1)) := by
  rw [h.info_eq]; exact currentIdx_of_isNewest (h.newest hg hk)

/-- Where the next call starts: it writes the epoch `k + 1` to the block whose
    turn it is. -/
theorem start (hg : 2 ≤ (goodBlocks bad info).length) :
    (s.1.startMem.blocks s.1.startIdx).epoch.toNat = k ∧
      ((ring info.ebCnt s.1.startIdx).filter fun i => !bad i).head? =
        some (turn (goodBlocks bad info) k) := by
  rcases Nat.eq_zero_or_pos k with rfl | hk
  · have hnone : currentIdx s.1.blocks s.1.info.ebCnt = none := by
      rw [h.info_eq, currentIdx_eq_none]
      intro j hj
      by_contra hv
      obtain ⟨e, he⟩ := Option.ne_none_iff_exists'.1 hv
      have := (h.live j (h.versions_good hj he) e).1 he
      omega
    have hidx : s.1.startIdx = info.ebCnt - 1 := by
      rw [Bootconfig.startIdx, hnone, Option.getD_none, h.info_eq]
    refine ⟨?_, by rw [hidx]; exact first_turn hg⟩
    rw [hidx, Bootconfig.startMem, hnone, h.info_eq]
    simp only [Bootconfig.setBlock_blocks, Function.update_self]
    rfl
  · obtain ⟨hidx, hmem⟩ := start_of_current (h.current hg hk)
    rw [hidx, hmem]
    refine ⟨(IsNewest.epoch (h.newest hg hk)).2.2, ?_⟩
    rw [show k = k - 1 + 1 by omega]
    exact next_turn hg rfl

/-- The state only depends on the flash. -/
theorem resync {bc : Bootconfig} {w : World} (hinfo : bc.info = info)
    (hinit : bc.initialised = true) (hq : Quiet s.2 w) (hS : Synced bad bc w.flash) :
    Rotated bad info k (bc, w) := by
  have hblk : ∀ i ∈ goodBlocks bad info, bc.blocks i = s.1.blocks i := fun i hi => by
    obtain ⟨hlt, hb⟩ := mem_goodBlocks.1 hi
    rw [hS.good (hinfo ▸ hlt) hb, h.synced.good (h.info_eq ▸ hlt) hb, hq.flash]
  refine ⟨hinfo, hinit, hS, fun i hi => ?_, fun i hi e => ?_, hq.erases.trans h.erases⟩
  · show (bc.blocks i).magic ≠ .bad
    rw [hblk i hi]; exact h.unmarked i hi
  · rw [← h.live i hi e]
    show (bc.blocks i).version = some e ↔ _
    rw [hblk i hi, versions]

end

/-- The block of the turn `k` is not the one to start from. -/
theorem turn_ne_start (h : Rotated bad info k s) (hg : 2 ≤ (goodBlocks bad info).length) :
    turn (goodBlocks bad info) k ≠ s.1.startIdx := by
  have hn := (mem_goodBlocks.1 (turn_mem (m := k) (l := goodBlocks bad info) (by omega))).1
  have hc : s.1.startIdx < info.ebCnt := h.info_eq ▸ startIdx_lt (h.info_eq ▸ by omega)
  have hmem := List.mem_of_head? (h.start hg).2
  exact ((mem_ring hc).1 (List.mem_filter.1 hmem).1).2

/-- **The next turn**: the block of the turn `k` gets the epoch `k + 1`, and
    loses the epoch it had. -/
theorem set (h : Rotated bad info k s) (hg : 2 ≤ (goodBlocks bad info).length)
    (hk : k + 1 < 2 ^ 32) {c : SetCall} {i : ℕ}
    (hstep : FineStep bad s.1 s.2 c.which c.partition i s'.1 s'.2) :
    i = turn (goodBlocks bad info) k ∧ Rotated bad info (k + 1) s' := by
  obtain ⟨hepoch, hhead⟩ := h.start hg
  have hN : 0 < s.1.info.ebCnt := by
    have := (mem_goodBlocks.1 (turn_mem (m := k) (l := goodBlocks bad info) (by omega))).1
    rw [h.info_eq]; omega
  obtain rfl : i = turn (goodBlocks bad info) k := by
    obtain ⟨pre, post, hring, hpre⟩ := hstep.first
    have hskip : ∀ j ∈ pre, (!bad j) = false := fun j hj => by
      rw [Bool.not_eq_false']
      by_contra hb
      have hj' : j ∈ ring s.1.info.ebCnt s.1.startIdx := by
        rw [hring]; exact List.mem_append_left _ hj
      have hjn := ((mem_ring (startIdx_lt hN)).1 hj').1
      exact h.unmarked j (mem_goodBlocks.2 ⟨h.info_eq ▸ hjn, by simpa using hb⟩) (hpre j hj)
    have := head_filter hring hskip (by simp [hstep.good])
    rw [h.info_eq] at this
    exact Option.some.inj (this.symm.trans hhead)
  refine ⟨rfl, ?_⟩
  set i := turn (goodBlocks bad info) k
  have hnext := hstep.block hN c.le
  have hv : versions s'.1.blocks i = some (k + 1) := by
    rw [← hepoch]; exact hnext.version (by omega)
  have hother : ∀ j ∈ goodBlocks bad info, j ≠ i → s'.1.blocks j = s.1.blocks j := by
    intro j hj hji
    obtain ⟨hjn, hjb⟩ := mem_goodBlocks.1 hj
    rcases hstep.others h.synced (h.info_eq ▸ hjn) hji with ⟨-, hb⟩ | ⟨hb, -⟩
    exacts [hb, absurd hb (h.unmarked j hj)]
  refine ⟨hstep.info.trans h.info_eq, hstep.initialised, hstep.synced, fun j hj => ?_,
    fun j hj e => ?_, ?_⟩
  · by_cases hji : j = i
    · rw [hji, hnext.magic]; decide
    · rw [hother j hj hji]; exact h.unmarked j hj
  · by_cases hji : j = i
    · -- of the turns of the block, only the last one is left
      rw [hji, hv, Option.some.injEq]
      constructor
      · rintro rfl
        exact ⟨by omega, le_rfl, by omega, rfl⟩
      · rintro ⟨h1, h2, h3, h4⟩
        have := turn_inj_of_lt nodup_goods (show e - 1 ≤ k by omega)
          (show k < e - 1 + (goodBlocks bad info).length by omega) h4
        omega
    · -- for the other blocks, the last and the lost turn make no difference
      rw [versions, hother j hj hji, ← versions, h.live j hj e]
      constructor
      · rintro ⟨h1, h2, h3, h4⟩
        refine ⟨h1, by omega, ?_, h4⟩
        by_contra hlt
        have hk' : k = e - 1 + (goodBlocks bad info).length := by omega
        rw [← turn_add_length, ← hk'] at h4
        exact hji h4.symm
      · rintro ⟨h1, h2, h3, h4⟩
        refine ⟨h1, ?_, by omega, h4⟩
        by_contra hgt
        rw [show e - 1 = k by omega] at h4
        exact hji h4.symm
  · rw [hstep.erases, h.erases, List.range_succ, List.map_append, List.map_singleton,
      List.reverse_append, List.reverse_singleton, List.singleton_append]

/-- A healthy mark on the current block changes no version. -/
theorem mark (h : Rotated bad info k s) {c : ℕ} {w : World} {f : Bits}
    (hflash : ∀ j ≠ c, w.flash j = s.2.flash j)
    (hhdr : (w.flash c).hdr = (s.1.blocks c).withHealthy f)
    (herases : MetaHipos.erases w.log = MetaHipos.erases s.2.log) :
    Rotated bad info k (s.1.setBlock c ((s.1.blocks c).withHealthy f), w) := by
  have hblk : ∀ j, ((s.1.setBlock c ((s.1.blocks c).withHealthy f)).blocks j).magic =
      (s.1.blocks j).magic ∧ versions (s.1.setBlock c ((s.1.blocks c).withHealthy f)).blocks j =
        versions s.1.blocks j := fun j => by
    by_cases hj : j = c
    · subst hj
      rw [versions, Bootconfig.setBlock_blocks, Function.update_self, Btblock.version_withHealthy]
      exact ⟨rfl, rfl⟩
    · simp [versions, hj]
  refine ⟨h.info_eq, h.initialised, fun j hj => ?_, fun j hj => ?_, fun j hj e => ?_,
    herases.trans h.erases⟩
  · have hS := h.synced j hj
    split_ifs at hS ⊢ with hb
    · rw [(hblk j).1]; exact hS
    · by_cases hjc : j = c
      · subst hjc
        rw [Bootconfig.setBlock_blocks, Function.update_self]
        exact hhdr.symm
      · rw [Bootconfig.setBlock_blocks, Function.update_of_ne hjc]
        exact hS.trans (congrArg Page.hdr (hflash j hjc)).symm
  · rw [(hblk j).1]; exact h.unmarked j hj
  · rw [(hblk j).2]; exact h.live j hj e

end Rotated

/-! ## Calls -/

/-- The number of partitions set so far. -/
def setCount (steps : List (Step LibCall Bootconfig World ℤ)) : ℕ :=
  (steps.map Step.call).countP LibCall.isSet

/-- Clients of a device where nothing fails but the bad blocks. -/
abbrev FineSession (tgt : Target) (bad : ℕ → Bool) (info : MtdDevInfo)
    (s₀ : Bootconfig × World) (steps : List (Step LibCall Bootconfig World ℤ))
    (s : Bootconfig × World) : Prop :=
  Session mtd (fun _ => Fine bad info) (LibCall.run tgt) s₀ steps s

/-- The call that sets a partition after `k` other ones returns `0`, and erases
    and writes the block whose turn it is. -/
def TakesTurn (bad : ℕ → Bool) (info : MtdDevInfo) (k : ℕ) (c : SetCall)
    (st : Step LibCall Bootconfig World ℤ) : Prop :=
  let i := turn (goodBlocks bad info) k
  st.ret = 0 ∧ erases st.post.2.log = i :: erases st.pre.2.log ∧ ∃ b : Btblock,
    writes st.post.2.log = (i, pageOf info.minIoSize b) :: writes st.pre.2.log ∧
    (st.post.2.flash i).hdr = b ∧ b.magic = .boot ∧ b.epoch.toNat = k + 1 ∧
    (b.info c.which).partition.toNat = c.partition

section
variable {J : Judge Op Resp Stop World} {tgt : Target} {k : ℕ} {s : Bootconfig × World}

/-- **One call** of the library. -/
theorem rotated_step (tgt : Target) {c : LibCall} (hok : ∀ o r, J.ok o r → Fine bad info o r)
    (hinv : ∀ w, J.inv w) (hg : 2 ≤ (goodBlocks bad info).length)
    (hio : Btblock.size ≤ info.minIoSize) (h : Rotated bad info k s) (hk : k + 1 < 2 ^ 32) :
    LibSpec mtd (fun _ => J) (LibCall.run tgt) c s fun r s' =>
      Rotated bad info (k + if c.isSet then 1 else 0) s' ∧
        ∀ x, c = .setPartition x → TakesTurn bad info k x ⟨c, s, r, s'⟩ := by
  obtain ⟨bc, w⟩ := s
  have hcalm : Calm J := fun _ _ _ _ _ _ => hinv _
  have hok' : ∀ o r, J.ok o r → Fine bad bc.info o r := fun o r hr => by
    rw [show bc.info = info from h.info_eq]; exact hok o r hr
  have hmem := mem_goodBlocks.1 (turn_mem (m := k) (l := goodBlocks bad info) (by omega))
  have hN : 0 < bc.info.ebCnt := by
    rw [show bc.info = info from h.info_eq]; omega
  cases c with
  | init dev =>
    rw [LibSpec, LibCall.run, wp_bind]
    refine wp_init_fine hcalm (hinv w) hok ⟨_, hmem⟩ fun bc' w' _ hinfo hinit hq hS => ?_
    exact ⟨h.resync hinfo hinit hq hS, by simp⟩
  | reread =>
    refine wp_reread_fine hcalm (hinv w) hok' h.initialised ?_
    intro code bc' w' _ hinfo hinit hq hS
    exact ⟨h.resync (hinfo.trans h.info_eq) hinit hq hS, by simp⟩
  | setPartition x =>
    refine wp_setPartition_fine hok' hinv h.initialised hN
      (by rw [show bc.info = info from h.info_eq]; exact hio) x.le h.synced (fun hall => ?_)
      fun i bc' w' hstep => ?_
    · -- the block whose turn it is can be written
      refine absurd (hall _ ?_ (h.turn_ne_start hg)) (h.unmarked _ (mem_goodBlocks.2 hmem))
      rw [show bc.info = info from h.info_eq]; exact hmem.1
    · obtain ⟨rfl, hrot⟩ := @Rotated.set _ _ _ _ (bc', w') h hg hk x _ hstep
      refine ⟨hrot, fun y hy => ⟨rfl, hstep.erases, ?_⟩⟩
      obtain rfl : x = y := by injection hy
      obtain ⟨now, hflash, hwrites⟩ := hstep.written
      rw [show bc.info = info from h.info_eq] at hflash hwrites
      have hnext := updated_isNext (bc.startMem.blocks bc.startIdx) x.which x.le now
      have hepoch : (bc.startMem.blocks bc.startIdx).epoch.toNat = k := (h.start hg).1
      refine ⟨_, hwrites, ?_, hnext.magic, ?_, hnext.partition⟩
      · show (w'.flash _).hdr = _
        rw [hflash, Function.update_self]
        exact Page.hdr_program_erased (prefix_pageOf ..)
      · rw [hnext.epoch, toNat_succ (by omega), hepoch]
  | setHealthy which =>
    rw [LibSpec, LibCall.run, setCurrentHealthy, wp_bind, wp_bcLlGetCurrent h.initialised]
    cases hcur : currentIdx bc.blocks bc.info.ebCnt with
    | none => exact ⟨h, by simp⟩
    | some i =>
      have hi := currentIdx_lt hcur
      have hgood : bad i = false := h.synced.unmarked hi fun hm => by
        rw [(IsNewest.epoch (currentIdx_eq_some.1 hcur)).1] at hm
        exact absurd hm (by decide)
      have hmem : bc.blocks i = (w.flash i).hdr := h.synced.good hi hgood
      have h0 : Marked (bc.blocks i) i (bc.blocks i).bits (bc.blocks i).bits (bc, w) :=
        ⟨h.initialised, hi, (Btblock.withHealthy_bits _).symm,
          by rw [Btblock.withHealthy_bits, hmem]⟩
      refine wp_setHealthyOf_marked h0 hinv (fun hlt => ?_) (fun _ => ⟨h, by simp⟩) ?_ ?_
      · rw [show bc.info = info from h.info_eq] at hlt; omega
      · intro _ hm
        exact absurd (hok _ _ hm) (by simp [Fine])
      · intro _ _ o w' page ho hflash _ herases
        have ho0 : 0 ≤ o.ret := hok _ _ ho
        rw [flashAfter, if_neg (by omega)] at hflash
        refine ⟨h.mark (fun j hj => ?_) ?_ herases, by simp⟩
        · rw [hflash, Function.update_of_ne hj]
        · rw [hflash, Function.update_self, program_withHealthy _ h0.flash,
            Btblock.and_update_zero]

/-- A call returns. -/
theorem rotated_returns {c : LibCall} {ω : Oracle Resp} (hω : ∀ n o, Fine bad info o (ω n o))
    (hg : 2 ≤ (goodBlocks bad info).length) (hio : Btblock.size ≤ info.minIoSize)
    (h : Rotated bad info k s) (hk : k + 1 < 2 ^ 32) :
    ∃ r bc w ω', exec mtd (c.run tgt s.1) s.2 ω = (.done (r, bc), w, ω') := by
  have hwp := rotated_step (J := fineJudge bad info) tgt (c := c) (fun _ _ h => h)
    (fun _ => trivial) hg hio h hk
  have hend := wp_exec hwp hω
  generalize exec mtd (c.run tgt s.1) s.2 ω = x at hend
  obtain ⟨⟨r, bc⟩ | e, w, ω'⟩ := x
  · exact ⟨r, bc, w, ω', rfl⟩
  · exact hend.elim

theorem setCount_snoc (steps : List (Step LibCall Bootconfig World ℤ))
    (st : Step LibCall Bootconfig World ℤ) :
    setCount (steps ++ [st]) = setCount steps + if st.call.isSet then 1 else 0 := by
  simp [setCount, List.countP_append, List.countP_cons]

/-- **All calls.** -/
theorem rotated_session {s₀ : Bootconfig × World} {steps : List (Step LibCall Bootconfig World ℤ)}
    (hg : 2 ≤ (goodBlocks bad info).length) (hio : Btblock.size ≤ info.minIoSize)
    (h₀ : Rotated bad info 0 s₀) (hrun : FineSession tgt bad info s₀ steps s)
    (hk : setCount steps < 2 ^ 32 - 1) :
    Rotated bad info (setCount steps) s ∧ ∀ pre st post c, steps = pre ++ st :: post →
      st.call = .setPartition c → TakesTurn bad info (setCount pre) c st := by
  revert hk
  refine hrun.invariant (fun steps s => setCount steps < 2 ^ 32 - 1 →
    Rotated bad info (setCount steps) s ∧ ∀ pre st post c, steps = pre ++ st :: post →
      st.call = .setPartition c → TakesTurn bad info (setCount pre) c st)
    (fun _ => ⟨Fine bad info, fun _ => True, fun _ _ => True⟩) (fun _ => ⟨h₀, by simp⟩)
    (fun _ _ _ h => h) ?_
  intro steps s c ih
  by_cases hk : setCount steps < 2 ^ 32 - 1
  · obtain ⟨hrot, hturns⟩ := ih hk
    refine (rotated_step tgt (fun _ _ h => h) (fun _ => trivial) hg hio hrot (by omega)).mono
      fun r s' ⟨hrot', hturn⟩ _ => ⟨by rw [setCount_snoc]; exact hrot', ?_⟩
    intro pre st post x heq hx
    rcases snoc_eq_split heq with ⟨rfl, rfl, rfl⟩ | ⟨post', rfl, rfl⟩
    · exact hturn x hx
    · exact hturns pre st post' x rfl hx
  · refine wp_true (fun _ => trivial) (fun _ _ => trivial) fun _ _ hk' => ?_
    rw [setCount_snoc] at hk'
    omega

end

/-! ## The result -/

/-- What holds after `k` partitions were set. -/
structure Rotation (bad : ℕ → Bool) (info : MtdDevInfo) (k : ℕ) (s : Bootconfig × World) :
    Prop where
  /-- the last epochs are on flash, in the blocks of their turns -/
  live : ∀ i ∈ goodBlocks bad info, ∀ e, (s.2.flash i).hdr.version = some e ↔
    k - min k (goodBlocks bad info).length < e ∧ e ≤ k ∧ turn (goodBlocks bad info) (e - 1) = i
  /-- the blocks erased, the first one last -/
  history : erases s.2.log = ((List.range k).map (turn (goodBlocks bad info))).reverse
  /-- no good block is worn more than another -/
  wear : ∀ i ∈ goodBlocks bad info, ∀ j ∈ goodBlocks bad info,
    (erases s.2.log).count i ≤ (erases s.2.log).count j + 1
  /-- the block written last is the current one -/
  current : 0 < k → let i := turn (goodBlocks bad info) (k - 1)
    bcLlGetCurrent s.1 = pure (some i) ∧ (s.1.blocks i).epoch.toNat = k

theorem Rotated.rotation {k : ℕ} {s : Bootconfig × World} (h : Rotated bad info k s)
    (hg : 2 ≤ (goodBlocks bad info).length) : Rotation bad info k s where
  live i hi e := by
    obtain ⟨hlt, hb⟩ := mem_goodBlocks.1 hi
    rw [← h.synced.good (h.info_eq ▸ hlt) hb]
    refine (h.live i hi e).trans ?_
    constructor <;> rintro ⟨h1, h2, h3⟩
    · exact ⟨by omega, h2, h3.2⟩
    · exact ⟨by omega, h2, by omega, h3⟩
  history := h.erases
  wear i hi j hj := by
    rw [h.erases, List.count_reverse, List.count_reverse]
    exact count_turns_le nodup_goods hi hj k
  current hk := by
    refine ⟨?_, (IsNewest.epoch (h.newest hg hk)).2.2⟩
    rw [bcLlGetCurrent, if_neg (by simp [h.initialised]), h.current hg hk]

/-- **Rotation, history and wear levelling.**  On a device whose good blocks are
    erased and where nothing fails but the bad ones, `bc_ll_init` returns, and
    so does every later call; each partition set writes the next epoch to the
    next good block, in cyclic order from the lowest one on. -/
theorem setPartition_rotates {tgt : Target} {F : ℕ → Page} {flag : Bool} {dev : String}
    {ω : Oracle Resp}
    (hg : 2 ≤ (goodBlocks bad info).length) (hio : Btblock.size ≤ info.minIoSize)
    (hF : ∀ i ∈ goodBlocks bad info, F i = Page.erased)
    (hω : ∀ n o, Fine bad info o (ω n o)) :
    ∃ bc w ω', exec mtd (bcLlInit flag dev) ⟨F, []⟩ ω = (.done bc, w, ω') ∧
      ∀ steps s, FineSession tgt bad info (bc, w) steps s → setCount steps < 2 ^ 32 - 1 →
        (∀ pre st post c, steps = pre ++ st :: post → st.call = .setPartition c →
          TakesTurn bad info (setCount pre) c st) ∧
        Rotation bad info (setCount steps) s ∧
        ∀ (c : LibCall) (ω : Oracle Resp), (∀ n o, Fine bad info o (ω n o)) →
          ∃ r bc' w' ω', exec mtd (c.run tgt s.1) s.2 ω = (.done (r, bc'), w', ω') := by
  have hmem := mem_goodBlocks.1 (turn_mem (m := 0) (l := goodBlocks bad info) (by omega))
  have hwp : wp mtd (fineJudge bad info) (bcLlInit flag dev)
      (fun bc w => Rotated bad info 0 (bc, w)) ⟨F, []⟩ := by
    refine wp_init_fine (fun _ _ _ _ _ _ => trivial) trivial (fun _ _ h => h) ⟨_, hmem⟩ ?_
    intro bc w _ hinfo hinit hq hS
    -- all good blocks are erased
    have hblk : ∀ i ∈ goodBlocks bad info, bc.blocks i = Page.erased.hdr := fun i hi => by
      obtain ⟨hlt, hb⟩ := mem_goodBlocks.1 hi
      rw [hS.good (hinfo ▸ hlt) hb, hq.flash]
      exact congrArg Page.hdr (hF i hi)
    refine ⟨hinfo, hinit, hS, fun i hi => ?_, fun i hi e => ?_, hq.erases⟩
    · show (bc.blocks i).magic ≠ .bad
      rw [hblk i hi]; decide
    · have hv : versions bc.blocks i = none := by
        rw [versions, hblk i hi]
        exact Btblock.version_of_not_boot Page.hdr_erased_magic
      show versions bc.blocks i = some e ↔ _
      rw [hv]
      refine iff_of_false (by simp) fun h => ?_
      omega
  have hend := wp_exec hwp hω
  generalize exec mtd (bcLlInit flag dev) ⟨F, []⟩ ω = x at hend
  obtain ⟨⟨bc⟩ | e, w, ω'⟩ := x
  · refine ⟨bc, w, ω', rfl, fun steps s hrun hk => ?_⟩
    obtain ⟨hrot, hturns⟩ := rotated_session hg hio hend hrun hk
    exact ⟨hturns, hrot.rotation hg, fun c ω hω => rotated_returns hω hg hio hrot (by omega)⟩
  · exact hend.elim

/-- Block 1 of 3 is bad: two partitions are set, with a healthy mark between. -/
theorem setPartition_rotates_threeBlocks :
    let bad : ℕ → Bool := (· == 1)
    ∃ bc w ω', exec mtd (bcLlInit false "/dev/mtd1") ⟨fun _ => Page.erased, []⟩
        (fun _ => nominal bad ⟨3, 16⟩) = (.done bc, w, ω') ∧
      ∃ steps s, FineSession ⟨4, Or.inl rfl⟩ bad ⟨3, 16⟩ (bc, w) steps s ∧
        steps.map Step.call = [.setPartition ⟨.kernel, 1, le_rfl⟩, .setHealthy .kernel,
          .setPartition ⟨.rootfs, 0, zero_le_one⟩] ∧
        goodBlocks bad ⟨3, 16⟩ = [0, 2] ∧ Rotation bad ⟨3, 16⟩ 2 s := by
  intro bad
  have hω : ∀ (_ : ℕ) o, Fine bad ⟨3, 16⟩ o (nominal bad ⟨3, 16⟩ o) := fun _ o => nominal_fine ..
  obtain ⟨bc, w, ω', hinit, h⟩ := @setPartition_rotates bad ⟨3, 16⟩ ⟨4, Or.inl rfl⟩
    (fun _ => Page.erased) false "/dev/mtd1" _ (by decide) (by decide) (fun _ _ => rfl) hω
  obtain ⟨_, bc₁, w₁, _, h₁⟩ := (h _ _ .nil (by decide)).2.2
    (.setPartition ⟨.kernel, 1, le_rfl⟩) _ hω
  have hs₁ : FineSession ⟨4, Or.inl rfl⟩ bad ⟨3, 16⟩ (bc, w) _ _ :=
    .snoc _ .nil hω h₁
  obtain ⟨_, bc₂, w₂, _, h₂⟩ := (h _ _ hs₁ (show 1 < 2 ^ 32 - 1 by decide)).2.2
    (.setHealthy .kernel) _ hω
  have hs₂ : FineSession ⟨4, Or.inl rfl⟩ bad ⟨3, 16⟩ (bc, w) _ _ :=
    .snoc _ hs₁ hω h₂
  obtain ⟨_, bc₃, w₃, _, h₃⟩ := (h _ _ hs₂ (show 1 < 2 ^ 32 - 1 by decide)).2.2
    (.setPartition ⟨.rootfs, 0, zero_le_one⟩) _ hω
  have hs₃ : FineSession ⟨4, Or.inl rfl⟩ bad ⟨3, 16⟩ (bc, w) _ _ :=
    .snoc _ hs₂ hω h₃
  obtain ⟨-, hrot, -⟩ := h _ _ hs₃ (show 2 < 2 ^ 32 - 1 by decide)
  exact ⟨bc, w, ω', hinit, _, _, hs₃, rfl, by decide, hrot⟩

end MetaHipos
