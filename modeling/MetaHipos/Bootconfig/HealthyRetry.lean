/-
  When the `0` of a healthy mark can be trusted.

  The bit is cleared in memory before the page is written, and a clear bit in
  memory counts as done.  So a call that could not write its page is not
  repaired by calling it again; but a later page of the other image carries
  the bit along.

  * `healthy_step`: the bits in memory and on flash, from the calls so far and
    their outcomes;
  * `setHealthy_truthful_iff`: when `0` means that the mark is on flash.
-/
import MetaHipos.Bootconfig.Healthy

namespace MetaHipos

open LittleEndian Process

/-! ## Calls whose writes may fail -/

/-- A call and the outcomes it meets; a failed write leaves the flash alone. -/
structure HealthyCall where
  which : BtLlParttype
  malloc : Bool
  write : Outcome
  kept : write.ret < 0 → write.left = .kept

namespace HealthyCall

/-- The responses while the call runs. -/
def Responses (c : HealthyCall) : (o : Op) → Resp o → Prop
  | .malloc _, r => r = c.malloc
  | .mtdWrite .., r => r = c.write
  | _, _ => True

/-- The call can write its page. -/
def Succeeds (c : HealthyCall) : Prop := c.malloc = true ∧ 0 ≤ c.write.ret

/-- The bit of the call's image is clear on flash if the call returned `0`. -/
def Truthful (i : ℕ) (st : Step HealthyCall Bootconfig World ℤ) : Prop :=
  st.ret = 0 → (st.post.2.flash i).hdr.bits st.call.which = 0

end HealthyCall

/-- The images of the calls so far. -/
def images (h : List HealthyCall) : List BtLlParttype := h.map HealthyCall.which

/-- After the calls `h`, on a block with the bits `bit` at first, the mark of
    the image `x` is stored: the first call of some image, at which `x` had
    been called, too, could write its page. -/
def Stored (bit : Bits) (h : List HealthyCall) (x : BtLlParttype) : Prop :=
  ∃ h₁ d h₂, h = h₁ ++ d :: h₂ ∧ d.Succeeds ∧ bit d.which = 1 ∧ d.which ∉ images h₁ ∧
    (x = d.which ∨ x ∈ images h₁)

/-- An image that is not healthy at first is called again only after its mark
    was stored. -/
def NoBlindRetry (bit : Bits) (h : List HealthyCall) : Prop :=
  ∀ h₁ c h₂, h = h₁ ++ c :: h₂ → bit c.which = 1 → c.which ∈ images h₁ → Stored bit h₁ c.which

section
variable {bit : Bits} {h : List HealthyCall} {c : HealthyCall} {x : BtLlParttype}

theorem stored_snoc : Stored bit (h ++ [c]) x ↔ Stored bit h x ∨
    (c.Succeeds ∧ bit c.which = 1 ∧ c.which ∉ images h ∧ (x = c.which ∨ x ∈ images h)) := by
  constructor
  · rintro ⟨h₁, d, h₂, heq, hd⟩
    rcases snoc_eq_split heq with ⟨rfl, rfl, rfl⟩ | ⟨h₃, rfl, rfl⟩
    · exact Or.inr hd
    · exact Or.inl ⟨h₁, d, h₃, rfl, hd⟩
  · rintro (⟨h₁, d, h₂, rfl, hd⟩ | hd)
    · exact ⟨h₁, d, h₂ ++ [c], by simp, hd⟩
    · exact ⟨h, c, [], rfl, hd⟩

theorem noBlindRetry_snoc : NoBlindRetry bit (h ++ [c]) ↔ NoBlindRetry bit h ∧
    (bit c.which = 1 → c.which ∈ images h → Stored bit h c.which) := by
  constructor
  · refine fun hn => ⟨fun h₁ d h₂ heq => ?_, hn h c [] rfl⟩
    exact hn h₁ d (h₂ ++ [c]) (by simp [heq])
  · rintro ⟨hn, hc⟩ h₁ d h₂ heq
    rcases snoc_eq_split heq with ⟨rfl, rfl, rfl⟩ | ⟨h₃, rfl, rfl⟩
    · exact hc
    · exact hn h₁ d h₃ rfl

theorem images_snoc : x ∈ images (h ++ [c]) ↔ x ∈ images h ∨ x = c.which := by
  simp [images]

end

/-- The bits in memory and on flash after the calls `h`. -/
structure MarkedBy (bit : Bits) (h : List HealthyCall) (m f : Bits) : Prop where
  mem : ∀ x, m x = 0 ↔ bit x = 0 ∨ x ∈ images h
  flash : ∀ x, f x = 0 ↔ bit x = 0 ∨ Stored bit h x

section
variable {bit m f : Bits} {h : List HealthyCall} {c : HealthyCall}

theorem eq_one_iff {x : BitVec 1} : x = 1 ↔ x ≠ 0 := by
  rcases bit_cases x with rfl | rfl <;> decide

theorem MarkedBy.set_iff (hm : MarkedBy bit h m f) {x : BtLlParttype} :
    m x = 1 ↔ bit x = 1 ∧ x ∉ images h := by
  rw [eq_one_iff, eq_one_iff, ne_eq, hm.mem, not_or]

/-- A call that finds its bit clear changes nothing. -/
theorem MarkedBy.done (hm : MarkedBy bit h m f) (h0 : m c.which = 0) :
    MarkedBy bit (h ++ [c]) m f where
  mem x := by
    rw [images_snoc, ← or_assoc, ← hm.mem]
    exact ⟨Or.inl, fun hx => hx.elim id fun he => he ▸ h0⟩
  flash x := by
    rw [stored_snoc, ← or_assoc, ← hm.flash]
    refine ⟨Or.inl, fun hx => hx.elim id fun hc => ?_⟩
    rw [hm.set_iff.2 ⟨hc.2.1, hc.2.2.1⟩] at h0
    exact absurd h0 (by decide)

/-- The bits in memory after a call that finds its bit set. -/
theorem MarkedBy.mem_update (hm : MarkedBy bit h m f) (x : BtLlParttype) :
    Function.update m c.which 0 x = 0 ↔ bit x = 0 ∨ x ∈ images (h ++ [c]) := by
  rw [images_snoc, ← or_assoc, ← hm.mem]
  by_cases hx : x = c.which
  · subst hx; simp
  · simp [hx]

/-- A call that cannot write its page clears the bit in memory only. -/
theorem MarkedBy.fail (hm : MarkedBy bit h m f) (hc : ¬ c.Succeeds) :
    MarkedBy bit (h ++ [c]) (Function.update m c.which 0) f where
  mem := hm.mem_update
  flash x := by
    rw [stored_snoc, ← or_assoc, ← hm.flash]
    exact ⟨Or.inl, fun hx => hx.elim id fun h => absurd h.1 hc⟩

theorem and_eq_zero_iff {x y : BitVec 1} : x &&& y = 0 ↔ x = 0 ∨ y = 0 := by
  have h : ∀ x y : BitVec 1, x &&& y = 0 ↔ x = 0 ∨ y = 0 := by decide
  exact h x y

/-- A call that writes its page stores all bits that are clear in memory. -/
theorem MarkedBy.succeed (hm : MarkedBy bit h m f) (h1 : m c.which = 1) (hc : c.Succeeds) :
    MarkedBy bit (h ++ [c]) (Function.update m c.which 0)
      fun x => f x &&& Function.update m c.which 0 x where
  mem := hm.mem_update
  flash x := by
    obtain ⟨hb, hn⟩ := hm.set_iff.1 h1
    have hx : (c.Succeeds ∧ bit c.which = 1 ∧ c.which ∉ images h ∧ (x = c.which ∨ x ∈ images h)) ↔
        x ∈ images (h ++ [c]) := by
      rw [images_snoc, or_comm]
      exact ⟨fun h => h.2.2.2, fun h => ⟨hc, hb, hn, h⟩⟩
    rw [and_eq_zero_iff, hm.mem_update, hm.flash, stored_snoc, hx]
    tauto

end

section
variable {base : Btblock} {i : ℕ} {bc : Bootconfig} {w : World}

/-- A call within its responses. -/
def healthyJudge (c : HealthyCall) : Judge Op Resp Stop World :=
  ⟨c.Responses, fun _ => True, fun _ _ => True⟩

/-- **What a call does after the calls `h`**, and when it is truthful. -/
theorem healthy_step {m f : Bits} {h : List HealthyCall} {s : Bootconfig × World} (c : HealthyCall)
    (hs : Marked base i m f s) (hm : MarkedBy base.bits h m f) :
    LibSpec mtd healthyJudge (fun c bc => setHealthyOf c.which bc i) c s fun r s' =>
      (∃ m' f', Marked base i m' f' s' ∧ MarkedBy base.bits (h ++ [c]) m' f') ∧
      (HealthyCall.Truthful i ⟨c, s, r, s'⟩ ↔
        (base.bits c.which = 1 → c.which ∈ images h → Stored base.bits h c.which)) := by
  obtain ⟨bc, w⟩ := s
  -- a call that finds its bit set is the first one for its image
  have hfirst : m c.which = 1 →
      (base.bits c.which = 1 → c.which ∈ images h → Stored base.bits h c.which) :=
    fun h1 _ hn => absurd hn (hm.set_iff.1 h1).2
  refine wp_setHealthyOf_marked hs (fun _ => trivial) (fun _ _ => trivial) ?_ ?_ ?_
  · refine fun h0 => ⟨⟨m, f, hs, hm.done h0⟩, ?_⟩
    have hflash : (w.flash i).hdr.bits c.which = f c.which := by rw [hs.flash]; simp
    rw [HealthyCall.Truthful, hflash, hm.flash]
    have := (hm.mem c.which).1 h0
    simp only [true_imp_iff]
    rw [eq_one_iff]
    tauto
  · intro h1 (hmal : false = c.malloc) w' hw'
    have hc : ¬ c.Succeeds := fun hc => absurd (hmal.trans hc.1) (by decide)
    refine ⟨⟨_, _, ⟨hs.initialised, hs.lt, Function.update_self .., ?_⟩, hm.fail hc⟩,
      iff_of_true (fun hr => by cases hr) (hfirst h1)⟩
    rw [hw']; exact hs.flash
  · intro h1 (hmal : true = c.malloc) o w' page (ho : o = c.write) hw' _ _
    subst ho
    have hflash : w'.flash i = if c.write.ret < 0 then w.flash i else (w.flash i).program page := by
      rw [hw', flashAfter, Function.update_self]
      split_ifs with hlt
      · rw [c.kept hlt]; rfl
      · rfl
    by_cases hlt : c.write.ret < 0
    · have hc : ¬ c.Succeeds := fun hc => absurd hc.2 (by omega)
      rw [if_pos hlt] at hflash
      refine ⟨⟨_, _, ⟨hs.initialised, hs.lt, Function.update_self .., ?_⟩, hm.fail hc⟩,
        iff_of_true (fun hr => by rw [if_pos hlt] at hr; cases hr) (hfirst h1)⟩
      rw [hflash]; exact hs.flash
    · rw [if_neg hlt] at hflash
      have hhdr := program_withHealthy bc.info.minIoSize hs.flash (g := Function.update m c.which 0)
      refine ⟨⟨_, _, ⟨hs.initialised, hs.lt, Function.update_self .., ?_⟩,
        hm.succeed h1 ⟨hmal.symm, by omega⟩⟩, iff_of_true (fun _ => ?_) (hfirst h1)⟩
      · rw [hflash]; exact hhdr
      · rw [hflash, hhdr, Btblock.bits_withHealthy, Function.update_self]
        exact and_eq_zero_iff.2 (Or.inr rfl)

/-- **A healthy mark that reports success is on flash exactly if** no image is
    marked again, after a first mark that was not stored. -/
theorem setHealthy_truthful_iff {steps : List (Step HealthyCall Bootconfig World ℤ)}
    {s : Bootconfig × World} (hinit : bc.initialised = true) (hi : i < bc.info.ebCnt)
    (hmem : bc.blocks i = (w.flash i).hdr)
    (hrun : Session mtd HealthyCall.Responses (fun c bc => setHealthyOf c.which bc i) (bc, w)
      steps s) :
    (∀ st ∈ steps, HealthyCall.Truthful i st) ↔
      NoBlindRetry (bc.blocks i).bits (steps.map Step.call) := by
  have h0 : Marked (bc.blocks i) i (bc.blocks i).bits (bc.blocks i).bits (bc, w) :=
    ⟨hinit, hi, (Btblock.withHealthy_bits _).symm, by rw [Btblock.withHealthy_bits, hmem]⟩
  have hby : MarkedBy (bc.blocks i).bits [] (bc.blocks i).bits (bc.blocks i).bits :=
    ⟨by simp [images], by simp [Stored]⟩
  refine (hrun.invariant (fun steps s => (∃ m f, Marked (bc.blocks i) i m f s ∧
    MarkedBy (bc.blocks i).bits (steps.map Step.call) m f) ∧
    ((∀ st ∈ steps, HealthyCall.Truthful i st) ↔
      NoBlindRetry (bc.blocks i).bits (steps.map Step.call))) healthyJudge
    ⟨⟨_, _, h0, hby⟩, by simp [NoBlindRetry]⟩ (fun _ _ _ h => h) ?_).2
  rintro steps s c ⟨⟨m, f, hs, hm⟩, hiff⟩
  refine (healthy_step c hs hm).mono fun r s' ⟨hex, htr⟩ => ?_
  rw [List.map_append, List.map_singleton]
  refine ⟨hex, ?_⟩
  rw [noBlindRetry_snoc, ← hiff, ← htr]
  simp only [List.mem_append, List.mem_singleton, or_imp, forall_and, forall_eq]

end

/-- A device that gives the outcomes of the call. -/
def HealthyCall.answers (c : HealthyCall) : Response Resp
  | .malloc _ => c.malloc
  | .mtdWrite .. => c.write
  | o => nominal (fun _ => false) twoInfo o

theorem HealthyCall.answers_ok (c : HealthyCall) (o : Op) : c.Responses o (c.answers o) := by
  cases o <;> first | rfl | exact trivial

/-- A kernel is marked, and this succeeds. -/
theorem setHealthy_truthful_once : ∃ steps s, Session mtd HealthyCall.Responses
    (fun c bc => setHealthyOf c.which bc 0) (twoMem, ⟨twoBlocks, []⟩) steps s ∧
    steps.map Step.call = [⟨.kernel, true, ⟨0, .kept⟩, fun _ => rfl⟩] ∧
    ∀ st ∈ steps, HealthyCall.Truthful 0 st := by
  have hrun : ∃ steps s, Session mtd HealthyCall.Responses
      (fun c bc => setHealthyOf c.which bc 0) (twoMem, ⟨twoBlocks, []⟩) steps s ∧
      steps.map Step.call = [⟨.kernel, true, ⟨0, .kept⟩, fun _ => rfl⟩] :=
    ⟨_, _, .snoc ⟨.kernel, true, ⟨0, .kept⟩, fun _ => rfl⟩ .nil
      (fun _ => HealthyCall.answers_ok _) rfl, rfl⟩
  obtain ⟨steps, s, hrun, hcalls⟩ := hrun
  refine ⟨steps, s, hrun, hcalls, (setHealthy_truthful_iff rfl (by decide) rfl hrun).2 ?_⟩
  rw [hcalls]
  exact (noBlindRetry_snoc (h := [])).2 ⟨by simp [NoBlindRetry], by simp [images]⟩

/-- A kernel is marked again after its first mark failed. -/
theorem setHealthy_retry_untruthful : ∃ steps s, Session mtd HealthyCall.Responses
    (fun c bc => setHealthyOf c.which bc 0) (twoMem, ⟨twoBlocks, []⟩) steps s ∧
    ¬ ∀ st ∈ steps, HealthyCall.Truthful 0 st := by
  let c : HealthyCall := ⟨.kernel, true, ⟨-1, .kept⟩, fun _ => rfl⟩
  refine ⟨_, _, .snoc c (.snoc c .nil (fun _ => c.answers_ok) rfl) (fun _ => c.answers_ok) rfl, ?_⟩
  intro h
  exact absurd (h _ (List.mem_append_right _ (List.mem_singleton_self _)) rfl) (by decide)

end MetaHipos
