/-
  The page under healthy marks when all writes succeed.

  Nothing is erased, so a page only loses bits; `setHealthy_sound` says that
  it loses no bit but the two `n_healthy` bits, whatever calls are made, and
  that each of them costs one write at most.
-/
import MetaHipos.Bootconfig.Healthy

namespace MetaHipos

open LittleEndian Process

/-! ## The two bits of the page -/

/-- The byte of the header that holds the `n_healthy` bit, as its bit 7. -/
def healthyByte : BtLlParttype → ℕ
  | .kernel => 13
  | .rootfs => 15

/-- The bit 15 of a `btinfo` is `n_healthy`. -/
theorem Btinfo.word_bit (bi : Btinfo) (h : BitVec 1) (n : ℕ) :
    { bi with nHealthy := h }.word.getLsbD n =
      if n = 15 then h.getLsbD 0 else bi.word.getLsbD n := by
  simp only [Btinfo.word, BitVec.getLsbD_append]
  grind

theorem byteOf_bit {n : ℕ} (w : BitVec n) (k j : ℕ) :
    (byteOf w k).getLsbD j = (decide (j < 8) && w.getLsbD (8 * k + j)) := by
  rw [byteOf, BitVec.getLsbD_extractLsb']

namespace Btblock

/-- The bits of the header, with other `n_healthy` bits. -/
theorem byte_withHealthy_bit (b : Btblock) (f : Bits) (k j : ℕ) :
    ((b.withHealthy f).byte k).getLsbD j = (b.byte k).getLsbD j ∨
      ∃ x, k = healthyByte x ∧ j = 7 := by
  have hword : ∀ (bi : Btinfo) h k', (byteOf { bi with nHealthy := h }.word k').getLsbD j =
      (byteOf bi.word k').getLsbD j ∨ (k' = 1 ∧ j = 7) := by
    intro bi h k'
    rw [byteOf_bit, byteOf_bit, Btinfo.word_bit]
    split_ifs with hn
    · by_cases hj : j < 8
      · exact Or.inr (by omega)
      · exact Or.inl (by simp [hj])
    · exact Or.inl rfl
  by_cases hk : k < size
  · simp only [size] at hk
    interval_cases k
    case «12» => exact (hword b.kernel _ 0).imp id fun h => absurd h.1 (by decide)
    case «13» => exact (hword b.kernel _ 1).imp id fun h => ⟨.kernel, rfl, h.2⟩
    case «14» => exact (hword b.rootfs _ 0).imp id fun h => absurd h.1 (by decide)
    case «15» => exact (hword b.rootfs _ 1).imp id fun h => ⟨.rootfs, rfl, h.2⟩
    all_goals exact Or.inl (by simp [byte, bytes, withHealthy, setHealthy])
  · have h := fun b : Btblock => byte_of_ge b (Nat.not_lt.1 hk)
    exact Or.inl (by rw [h, h])

/-- The bit 7 of its byte is the `n_healthy` bit. -/
theorem byte_healthyByte (b : Btblock) (x : BtLlParttype) :
    (b.byte (healthyByte x)).getLsbD 7 = (b.bits x).getLsbD 0 := by
  have hword : ∀ bi : Btinfo, (byteOf bi.word 1).getLsbD 7 = bi.nHealthy.getLsbD 0 := fun bi => by
    have := Btinfo.word_bit bi bi.nHealthy 15
    rw [byteOf_bit]
    simpa using this
  cases x
  exacts [hword b.kernel, hword b.rootfs]

end Btblock

/-! ## Sequences of calls -/

/-- All pages are allocated and written. -/
def AllWritten : (o : Op) → Resp o → Prop
  | .malloc _, mem => mem = true
  | .mtdWrite .., r => 0 ≤ r.ret
  | _, _ => True

/-- The calls on the block `i`, of the one or the other function. -/
abbrev HealthySession (i : ℕ) (bc : Bootconfig) (w : World)
    (steps : List (Step BtLlParttype Bootconfig World ℤ)) (s : Bootconfig × World) : Prop :=
  Session mtd (fun _ => AllWritten) (fun which bc => setHealthyOf which bc i) (bc, w) steps s

/-- The number of pages written by a step, if it is a call for the image `x`. -/
def pagesOf (x : BtLlParttype) (st : Step BtLlParttype Bootconfig World ℤ) : ℕ :=
  if st.call = x then (writes st.post.2.log).length - (writes st.pre.2.log).length else 0

/-- The number of pages written by the calls for the image `x`. -/
def pageWrites (x : BtLlParttype) (steps : List (Step BtLlParttype Bootconfig World ℤ)) : ℕ :=
  (steps.map (pagesOf x)).sum

/-- The bits after calls for the given images. -/
def bitsAfter (bit : Bits) (called : List BtLlParttype) : Bits :=
  fun x => if x ∈ called then 0 else bit x

theorem bitsAfter_nil (bit : Bits) : bitsAfter bit [] = bit := by
  funext y; simp [bitsAfter]

theorem bitsAfter_snoc (bit : Bits) (called : List BtLlParttype) (x : BtLlParttype) :
    bitsAfter bit (called ++ [x]) = Function.update (bitsAfter bit called) x 0 := by
  funext y
  by_cases hy : y = x
  · subst hy; simp [bitsAfter]
  · simp [bitsAfter, hy]

/-- The state after the calls for the images `called`, from a block `base` on
    the flash `F`. -/
structure AllMarked (base : Btblock) (i : ℕ) (F : ℕ → Page) (called : List BtLlParttype)
    (s : Bootconfig × World) : Prop where
  marked : Marked base i (bitsAfter base.bits called) (bitsAfter base.bits called) s
  minIoSize : Btblock.size ≤ s.1.info.minIoSize
  rest : ∀ k, Btblock.size ≤ k → s.2.flash i k = F i k
  others : ∀ j ≠ i, s.2.flash j = F j

section
variable {base : Btblock} {i : ℕ} {F : ℕ → Page} {called : List BtLlParttype}
  {bc : Bootconfig} {w : World} {s : Bootconfig × World}

/-- The responses are such that everything is written; a call returns. -/
def writtenJudge : Judge Op Resp Stop World := ⟨AllWritten, fun _ => True, fun _ _ => False⟩

/-- **One more call** writes its page if it finds the bit set. -/
theorem allMarked_step (x : BtLlParttype) (h : AllMarked base i F called s) :
    LibSpec mtd (fun _ => writtenJudge) (fun which bc => setHealthyOf which bc i) x s fun _ s' =>
      AllMarked base i F (called ++ [x]) s' ∧ (writes s'.2.log).length =
        (writes s.2.log).length + if bitsAfter base.bits called x = 1 then 1 else 0 := by
  obtain ⟨bc, w⟩ := s
  have hio : ¬ bc.info.minIoSize < Btblock.size := Nat.not_lt.2 h.minIoSize
  set m := bitsAfter base.bits called with hm
  have hm' : bitsAfter base.bits (called ++ [x]) = Function.update m x 0 := bitsAfter_snoc ..
  refine wp_setHealthyOf_marked h.marked (fun _ => trivial) (fun hlt => absurd hlt hio) ?_ ?_ ?_
  · intro h0
    have hsame : bitsAfter base.bits (called ++ [x]) = m := by
      rw [hm', ← h0, Function.update_eq_self]
    refine ⟨⟨hsame ▸ h.marked, h.minIoSize, h.rest, h.others⟩, ?_⟩
    rw [show m x = 0 from h0]; simp
  · exact fun _ hmal => by cases hmal
  · intro h1 _ o w' page (ho : 0 ≤ o.ret) hw' hlog _
    have hflash : w'.flash = Function.update w.flash i ((w.flash i).program page) := by
      rw [hw', flashAfter, if_neg (by omega)]
    have hhdr := program_withHealthy bc.info.minIoSize h.marked.flash (g := Function.update m x 0)
    refine ⟨⟨⟨h.marked.initialised, h.marked.lt, ?_, ?_⟩, h.minIoSize, fun k hk => ?_,
      fun j hj => ?_⟩, ?_⟩
    · rw [hm']; exact Function.update_self ..
    · rw [hm', hflash, Function.update_self, hhdr, Btblock.and_update_zero]
    · rw [hflash, Function.update_self, program_pageOf, if_neg (by omega)]
      exact h.rest k hk
    · rw [hflash, Function.update_of_ne hj]; exact h.others j hj
    · rw [hlog, show m x = 1 from h1]; rfl

theorem pageWrites_snoc (x : BtLlParttype) (steps : List (Step BtLlParttype Bootconfig World ℤ))
    (st : Step BtLlParttype Bootconfig World ℤ) :
    pageWrites x (steps ++ [st]) = pageWrites x steps + pagesOf x st := by
  simp [pageWrites]

/-- **A session of calls**: the state, and the number of pages written. -/
theorem allMarked_session {steps : List (Step BtLlParttype Bootconfig World ℤ)}
    (hinit : bc.initialised = true) (hi : i < bc.info.ebCnt)
    (hio : Btblock.size ≤ bc.info.minIoSize) (hmem : bc.blocks i = (w.flash i).hdr)
    (hrun : HealthySession i bc w steps s) :
    AllMarked (bc.blocks i) i w.flash (steps.map Step.call) s ∧ ∀ x, pageWrites x steps =
      if x ∈ steps.map Step.call ∧ (bc.blocks i).bits x = 1 then 1 else 0 := by
  have h0 : Marked (bc.blocks i) i (bc.blocks i).bits (bc.blocks i).bits (bc, w) :=
    ⟨hinit, hi, (Btblock.withHealthy_bits _).symm, by rw [Btblock.withHealthy_bits, hmem]⟩
  refine hrun.invariant (fun steps s => AllMarked (bc.blocks i) i w.flash (steps.map Step.call) s ∧
    ∀ x, pageWrites x steps =
      if x ∈ steps.map Step.call ∧ (bc.blocks i).bits x = 1 then 1 else 0) (fun _ => writtenJudge)
    ⟨⟨?_, hio, fun _ _ => rfl, fun _ _ => rfl⟩, by simp [pageWrites]⟩ (fun _ _ _ h => h) ?_
  · rw [List.map_nil, bitsAfter_nil]; exact h0
  rintro steps s c ⟨hm, hp⟩
  refine (allMarked_step c hm).mono fun r s' ⟨hm', hw⟩ => ?_
  rw [List.map_append, List.map_singleton]
  refine ⟨hm', fun x => ?_⟩
  rw [pageWrites_snoc, hp]
  by_cases hx : c = x
  · subst hx
    simp only [pagesOf, if_true, hw, bitsAfter]
    by_cases hc : c ∈ steps.map Step.call <;> simp [hc]
  · have hx' : x ≠ c := Ne.symm hx
    simp [pagesOf, hx, hx']

/-- **Marking healthy without erasing is sound.** -/
theorem setHealthy_sound {steps : List (Step BtLlParttype Bootconfig World ℤ)}
    (hinit : bc.initialised = true) (hi : i < bc.info.ebCnt)
    (hio : Btblock.size ≤ bc.info.minIoSize) (hmem : bc.blocks i = (w.flash i).hdr)
    (hrun : HealthySession i bc w steps s) :
    (∀ k < Btblock.size, s.2.flash i k = (s.1.blocks i).byte k) ∧
    (∀ k j, (s.2.flash i k).getLsbD j ≠ (w.flash i k).getLsbD j →
      (w.flash i k).getLsbD j = true ∧
        ∃ x ∈ steps.map Step.call, k = healthyByte x ∧ j = 7) ∧
    (∀ k, Btblock.size ≤ k → s.2.flash i k = w.flash i k) ∧
    (∀ j ≠ i, s.2.flash j = w.flash j) ∧
    (∀ x, pageWrites x steps ≤ 1) ∧
    (∀ steps' s', HealthySession i bc w steps' s' →
      (∀ x, x ∈ steps'.map Step.call ↔ x ∈ steps.map Step.call) → s'.2.flash i = s.2.flash i) := by
  obtain ⟨hm, hp⟩ := allMarked_session hinit hi hio hmem hrun
  -- the bytes of the header, after any session
  have hbyte : ∀ {called s}, AllMarked (bc.blocks i) i w.flash called s → ∀ k < Btblock.size,
      s.2.flash i k = ((bc.blocks i).withHealthy (bitsAfter (bc.blocks i).bits called)).byte k := by
    intro called s h k hk
    rw [← h.marked.flash]
    exact (Btblock.byte_ofBytes _ hk).symm
  have hold : ∀ k < Btblock.size, w.flash i k = (bc.blocks i).byte k := fun k hk => by
    rw [hmem]; exact (Btblock.byte_ofBytes _ hk).symm
  refine ⟨fun k hk => ?_, fun k j hne => ?_, hm.rest, hm.others, fun x => ?_,
    fun steps' s' hrun' hsame => ?_⟩
  · rw [hbyte hm k hk, ← hm.marked.mem]
  · by_cases hk : k < Btblock.size
    · rw [hbyte hm k hk, hold k hk] at hne
      rw [hold k hk]
      rcases Btblock.byte_withHealthy_bit (bc.blocks i) (bitsAfter _ (steps.map Step.call)) k j with
        h | ⟨x, rfl, rfl⟩
      · exact absurd h hne
      rw [Btblock.byte_healthyByte, Btblock.byte_healthyByte, Btblock.bits_withHealthy, bitsAfter]
        at hne
      rw [Btblock.byte_healthyByte]
      split_ifs at hne with hx
      · refine ⟨?_, x, hx, rfl, rfl⟩
        simpa using Ne.symm hne
      · exact absurd rfl hne
    · exact absurd (by rw [hm.rest k (by omega)]) hne
  · rw [hp]; split_ifs <;> omega
  · obtain ⟨hm', -⟩ := allMarked_session hinit hi hio hmem hrun'
    have hbits : bitsAfter (bc.blocks i).bits (steps'.map Step.call) =
        bitsAfter (bc.blocks i).bits (steps.map Step.call) := by
      funext x; simp only [bitsAfter, hsame]
    funext k
    by_cases hk : k < Btblock.size
    · rw [hbyte hm' k hk, hbyte hm k hk, hbits]
    · rw [hm'.rest k (by omega), hm.rest k (by omega)]

end

/-- The kernel of a block is marked twice. -/
theorem setHealthy_sound_twice : ∃ steps s, HealthySession 0 twoMem ⟨twoBlocks, []⟩ steps s ∧
    steps.map Step.call = [.kernel, .kernel] ∧ (∀ x, pageWrites x steps ≤ 1) ∧
    ∀ k < Btblock.size, s.2.flash 0 k = (s.1.blocks 0).byte k := by
  have hok : ∀ o, AllWritten o (nominal (fun _ => false) twoInfo o) := fun o => by
    cases o <;> simp [AllWritten, nominal]
  obtain ⟨steps, s, hrun, hcalls⟩ : ∃ steps s, HealthySession 0 twoMem ⟨twoBlocks, []⟩ steps s ∧
      steps.map Step.call = [.kernel, .kernel] :=
    ⟨_, _, .snoc .kernel (.snoc .kernel .nil (fun _ => hok) rfl) (fun _ => hok) rfl, rfl⟩
  have hs := setHealthy_sound rfl (by decide) (by decide) rfl hrun
  exact ⟨steps, s, hrun, hcalls, hs.2.2.2.2.1, hs.1⟩

end MetaHipos
