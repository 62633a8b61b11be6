/-
  No operation on a block known to be bad.

  That a block is bad is only known from the magic in memory, which is
  overwritten again and again.  `Noted` says what there is to rely on: a block
  with the magic of a valid config was not reported as bad when it was checked
  last.  It is kept by every function, on every path.
-/
import MetaHipos.Bootconfig.Client
import MetaHipos.Bootconfig.Reading

namespace MetaHipos

open LittleEndian Process

/-! ## Careful logs -/

/-- The block `i` was checked, and not reported as bad when it was checked last. -/
def NotBad (i : ℕ) (log : List Event) : Prop := ∃ r ≤ 0, lastBad i log = some r

/-- The event is not about to harm a bad block, after the events `log`. -/
structure CarefulAfter (log : List Event) (e : Event) : Prop where
  notBad : ∀ i, e.1.target = some i → NotBad i log
  checked : ∀ i, e.1 = .mtdErase i → log.head? = some ⟨.mtdIsBad i, (0 : ℤ)⟩

/-- So were all events. -/
def Careful (log : List Event) : Prop :=
  ∀ later e earlier, log = later ++ e :: earlier → CarefulAfter earlier e

section
variable {i : ℕ} {log : List Event} {e : Event}

theorem careful_nil : Careful [] := fun later e earlier h => by simp at h

theorem Careful.cons (h : Careful log) (he : CarefulAfter log e) : Careful (e :: log) := by
  rintro (_ | ⟨e', later⟩) e'' earlier heq
  · obtain ⟨rfl, rfl⟩ := List.cons.inj heq
    exact he
  · exact h later e'' earlier (List.cons.inj heq).2

theorem Careful.calm (h : Careful log) {o : Op} {r : Resp o} (ho : o.target = none) :
    Careful (⟨o, r⟩ :: log) := by
  refine h.cons ⟨fun i hi => ?_, fun i hi => ?_⟩
  · rw [ho] at hi; cases hi
  · rw [show o = .mtdErase i from hi] at ho; cases ho

theorem notBad_of_last {r : ℤ} (h : lastBad i log = some r) (hr : r ≤ 0) : NotBad i log :=
  ⟨r, hr, h⟩

end

/-- The judgement of all runs. -/
def careJudge : Judge Op Resp Stop World :=
  ⟨fun _ _ => True, fun w => Careful w.log, fun _ _ => True⟩

theorem careJudge_calm : Calm careJudge := fun _ _ _ ho _ h => h.calm ho

/-- What the memory says about bad blocks. -/
structure Noted (n : ℕ) (bc : Bootconfig) (w : World) : Prop where
  careful : Careful w.log
  ebCnt : bc.info.ebCnt = n
  notBad : ∀ i < n, (bc.blocks i).magic = .boot → NotBad i w.log

variable {n i : ℕ} {bc : Bootconfig} {w : World}

/-- The block `i` after it was checked: it may get any content unless it was
    reported as bad. -/
theorem Noted.check (h : Noted n bc w) {w' : World} {r : ℤ} {bc' : Bootconfig}
    (hw : Careful w'.log) (hlast : lastBad i w'.log = some r)
    (hothers : ∀ j ≠ i, lastBad j w'.log = lastBad j w.log) (hinfo : bc'.info = bc.info)
    (hne : ∀ j ≠ i, bc'.blocks j = bc.blocks j)
    (hi : 0 < r → (bc'.blocks i).magic ≠ .boot) : Noted n bc' w' := by
  refine ⟨hw, hinfo ▸ h.ebCnt, fun j hj hm => ?_⟩
  by_cases hji : j = i
  · subst hji
    exact notBad_of_last hlast (not_lt.1 fun hr => hi hr hm)
  · rw [hne j hji] at hm
    rw [NotBad, hothers j hji]
    exact h.notBad j hj hm

/-- Blocks that are not valid configs are not relied on. -/
theorem Noted.forget (h : Noted n bc w) {bc' : Bootconfig} (hinfo : bc'.info = bc.info)
    (hm : ∀ i, (bc'.blocks i).magic = .boot → (bc.blocks i).magic = .boot) : Noted n bc' w :=
  ⟨h.careful, hinfo ▸ h.ebCnt, fun i hi hb => h.notBad i hi (hm i hb)⟩

/-! ## Reading -/

theorem lastBad_check (r : ℤ) :
    ∀ j ≠ i, lastBad j (w.after (.mtdIsBad i) r).log = lastBad j w.log :=
  fun _ hj => lastBad_isBad_ne _ hj.symm r

/-- A block that was reported as bad carries the mark. -/
theorem noteBad_magic (bc : Bootconfig) {r : ℤ} (hr : 0 < r) :
    ((bc.noteBad i r).blocks i).magic ≠ .boot := by
  rw [Bootconfig.noteBad, if_pos hr, Bootconfig.setBlock_blocks, Function.update_self]
  exact (by decide : Magic.bad ≠ .boot)

theorem noted_readBootblock {Q : ℤ × Bootconfig → World → Prop} (h : Noted n bc w) (hi : i < n)
    (hQ : ∀ err bc' w', Noted n bc' w' → bc'.initialised = bc.initialised → Q (err, bc') w') :
    wp mtd careJudge (readBootblock bc i) Q w := by
  rw [wp_readBootblock (h.ebCnt.symm ▸ hi)]
  intro r _
  have hc := careJudge_calm w (.mtdIsBad i) r rfl trivial h.careful
  refine ⟨hc, fun _ => hQ _ _ _ ?_ (noteBad_initialised ..), ?_⟩
  · exact h.check hc (lastBad_self ..) (lastBad_check r) (noteBad_info ..)
      (fun j hj => noteBad_blocks_ne bc r hj) (noteBad_magic bc)
  · rintro rfl e _
    have hc' := careJudge_calm _ (.mtdRead i) e rfl trivial hc
    refine ⟨hc', hQ _ _ _ (h.check hc' (lastBad_self i w.log 0) (lastBad_check 0) ?_ ?_
      (by simp)) ?_⟩
    all_goals unfold Bootconfig.noteRead; split_ifs
    any_goals rfl
    · exact fun j hj => Function.update_of_ne hj ..
    · exact fun _ _ => rfl

/-- The memory after `_read_bootconfig`, whatever was read. -/
theorem noted_readBootconfig {Q : ℤ × Bootconfig → World → Prop} (h : Noted n bc w)
    (hQ : ∀ code bc' w', Noted n bc' w' → bc'.initialised = bc.initialised → (0 ≤ code → 0 < n) →
      Q (code, bc') w') : wp mtd careJudge (readBootconfig bc) Q w := by
  refine wp_readBootconfig (fun k broken bc' w' => broken ≤ k ∧ Noted n bc' w' ∧
    bc'.initialised = bc.initialised) ?_ ?_ h.ebCnt ⟨le_rfl, h, rfl⟩
  · rintro k broken bc' w' hk ⟨hle, hN, hini⟩
    refine noted_readBootblock hN hk fun err bc'' w'' hN' hini' => ⟨?_, hN', hini'.trans hini⟩
    split_ifs <;> omega
  · rintro broken bc' w' ⟨hle, hN, hini⟩
    refine ⟨hN.ebCnt, hQ _ _ _ hN hini fun h => ?_⟩
    by_contra hn
    rw [if_pos (by omega)] at h
    omega

theorem clear_magic {b : Btblock} {m : ℕ} (h : (b.clear m).magic = .boot) : b.magic = .boot := by
  have h0 : ¬ 0 < m := fun hm => by
    have := congrArg Magic.c0 h
    simp [Btblock.clear, Btblock.ofBytes, Magic.boot, hm] at this
  obtain rfl : m = 0 := by omega
  simpa [Btblock.clear] using h

theorem noted_reread {Q : ℤ × Bootconfig → World → Prop} {tgt : Target} (h : Noted n bc w)
    (hinit : bc.initialised = true)
    (hQ : ∀ code bc' w', Noted n bc' w' → bc'.initialised = true → Q (code, bc') w') :
    wp mtd careJudge (bcLlReread tgt bc) Q w := by
  rw [wp_bcLlReread hinit]
  exact noted_readBootconfig (h.forget rfl fun i => clear_magic)
    fun code bc' w' hN hini _ => hQ code bc' w' hN (hini.trans hinit)

theorem noted_init {Q : Bootconfig → World → Prop} {flag : Bool} {dev : String}
    (h : Careful w.log)
    (hQ : ∀ n bc w', 0 < n → Noted n bc w' → bc.initialised = true → Q bc w') :
    wp mtd careJudge (bcLlInit flag dev) Q w := by
  refine wp_bcLlInit careJudge_calm h (fun _ _ _ _ _ _ => trivial) fun fd r _ _ hi => ?_
  have h0 : Noted r.2.ebCnt ⟨flag, fun _ => .zero, r.2⟩ (w.opened dev fd r) :=
    ⟨hi, rfl, fun i _ hm => absurd hm (by decide : Btblock.zero.magic ≠ .boot)⟩
  exact noted_readBootconfig h0 fun code bc w' hN _ hn =>
    ⟨fun _ => trivial, fun hc => hQ _ _ w' (hn hc) (hN.forget rfl fun _ => id) rfl⟩

/-! ## Writing -/

/-- A block that was just checked is written with care. -/
theorem careful_doWriteBootblock {Q : ℤ → World → Prop} {log : List Event} (hi : i < bc.info.ebCnt)
    (h : Careful w.log) (hlog : w.log = ⟨.mtdIsBad i, (0 : ℤ)⟩ :: log)
    (hQ : ∀ err w', Careful w'.log → (∀ j, lastBad j w'.log = lastBad j w.log) → Q err w') :
    wp mtd careJudge (doWriteBootblock bc i) Q w := by
  have hlast : lastBad i w.log = some 0 := by rw [hlog, lastBad_self]
  have hgood : NotBad i w.log := notBad_of_last hlast le_rfl
  rw [wp_doWriteBootblock hi]
  intro e _
  have h1 : Careful (w.after (.mtdErase i) e).log := by
    refine h.cons ⟨fun j hj => ?_, fun j hj => ?_⟩
    · obtain rfl : i = j := Option.some.inj hj
      exact hgood
    · obtain rfl : i = j := by injection hj
      rw [hlog]; rfl
  refine ⟨h1, fun _ => hQ _ _ h1 fun _ => rfl, fun _ m _ => ?_⟩
  have h2 := careJudge_calm _ (.malloc bc.info.minIoSize) m rfl trivial h1
  refine ⟨h2, fun _ => hQ _ _ h2 fun _ => rfl, fun _ => ⟨fun _ => trivial, fun _ o _ => ?_⟩⟩
  have h3 := h2.cons (e := ⟨.mtdWrite i (pageOf bc.info.minIoSize (bc.blocks i)), o⟩)
    ⟨fun j hj => ?_, fun j hj => by cases hj⟩
  · exact ⟨h3, hQ _ _ h3 fun _ => rfl⟩
  · obtain rfl : i = j := Option.some.inj hj
    exact hgood

theorem noted_updateBootblock {Q : ℤ × Bootconfig → World → Prop} {which : BtLlParttype} {p c : ℕ}
    (h : Noted n bc w) (hi : i < n) (hc : c < n)
    (hQ : ∀ err bc' w', Noted n bc' w' → bc'.initialised = bc.initialised → Q (err, bc') w') :
    wp mtd careJudge (updateBootblock bc which p c i) Q w := by
  rw [wp_updateBootblock (h.ebCnt.symm ▸ hi) (h.ebCnt.symm ▸ hc)]
  refine ⟨fun _ => hQ _ _ _ h rfl, fun _ now _ => ?_⟩
  have h1 := careJudge_calm w .time now rfl trivial h.careful
  refine ⟨h1, ?_⟩
  set b := updated (bc.blocks c) which p now
  -- the block was given the new content before it was checked; any later check tells
  have hchecked : ∀ {w'} r, Careful w'.log → lastBad i w'.log = some r →
      (∀ j ≠ i, lastBad j w'.log = lastBad j w.log) →
      Noted n ((bc.setBlock i b).noteBad i r) w' := by
    intro w' r hw' hlast hothers
    exact h.check hw' hlast hothers (noteBad_info ..) (fun j hj => setBlock_noteBad_ne _ b r hj)
      (noteBad_magic _)
  have hib : i < (bc.setBlock i b).info.ebCnt := h.ebCnt.symm ▸ hi
  rw [wp_writeErrorcheckBootblock hib]
  intro r _
  have h2 := careJudge_calm _ (.mtdIsBad i) r rfl trivial h1
  have hr := lastBad_check (i := i) (w := w.after .time now) r
  refine ⟨h2, fun _ => hQ _ _ _ (hchecked r h2 (lastBad_self ..) hr) (noteBad_initialised ..), ?_⟩
  rintro rfl
  refine careful_doWriteBootblock hib h2 rfl fun err w' h3 hlast => ⟨fun _ r' _ => ?_, fun _ => ?_⟩
  · have h4 := careJudge_calm _ (.mtdIsBad i) r' rfl trivial h3
    refine ⟨h4, hQ _ _ _ (hchecked r' h4 (lastBad_self ..) fun j hj => ?_)
      (noteBad_initialised ..)⟩
    rw [lastBad_check r' j hj, hlast, hr j hj]; rfl
  · refine hQ _ _ _ (hchecked 0 h3 ?_ fun j hj => ?_) rfl
    · rw [hlast]; exact lastBad_self ..
    · rw [hlast, hr j hj]; rfl

theorem noted_setPartition {Q : ℤ × Bootconfig → World → Prop} {tgt : Target}
    {which : BtLlParttype} {p : ℕ} (h : Noted n bc w) (hn : 0 < n) (hinit : bc.initialised = true)
    (hp : p ≤ 1) (hQ : ∀ err bc' w', Noted n bc' w' → bc'.initialised = true → Q (err, bc') w') :
    wp mtd careJudge (bcLlSetPartition tgt bc which p) Q w := by
  have hstart : bc.startIdx < n := h.ebCnt ▸ startIdx_lt (h.ebCnt.symm ▸ hn)
  refine wp_bcLlSetPartition (fun _ bc' w' => Noted n bc' w' ∧ bc'.initialised = true) hinit hp
    h.ebCnt hstart (fun _ _ _ h => h.1.ebCnt) ?_ (fun _ _ h => hQ _ _ _ h.1 h.2) ⟨?_, ?_⟩
  · rintro i is bc' w' hi hne ⟨hN, hini⟩
    refine noted_updateBootblock hN hi hstart fun err bc'' w'' hN' hini' => ?_
    split_ifs
    · exact noted_reread hN' (hini'.trans hini) fun code => hQ 0
    · exact ⟨hN', hini'.trans hini⟩
  · -- the dummy block is not a valid config
    refine h.forget startMem_info fun i hm => ?_
    by_cases hi : i = bc.startIdx
    · subst hi
      unfold Bootconfig.startMem Bootconfig.startIdx at hm
      split at hm
      · next hcur => rw [hcur] at hm; unfold Bootconfig.startIdx; rw [hcur]; exact hm
      · next hcur =>
        rw [hcur] at hm
        simp only [Option.getD_none, Bootconfig.setBlock_blocks, Function.update_self] at hm
        exact absurd hm (by decide)
    · rwa [startMem_blocks hi] at hm
  · rw [startMem_initialised]; exact hinit

/-- Marking the current block is careful, without any check. -/
theorem noted_setCurrentHealthy {Q : ℤ × Bootconfig → World → Prop} {which : BtLlParttype}
    (h : Noted n bc w) (hinit : bc.initialised = true)
    (hQ : ∀ err bc' w', Noted n bc' w' → bc'.initialised = true → Q (err, bc') w') :
    wp mtd careJudge (setCurrentHealthy which bc) Q w := by
  rw [setCurrentHealthy, wp_bind, wp_bcLlGetCurrent hinit]
  cases hcur : currentIdx bc.blocks bc.info.ebCnt with
  | none => exact hQ _ _ _ h hinit
  | some i =>
    have hi := currentIdx_lt hcur
    have hm := (IsNewest.epoch (currentIdx_eq_some.1 hcur)).1
    have hgood : NotBad i w.log := h.notBad i (h.ebCnt ▸ hi) hm
    -- the memory may change where the block is not bad, and the log where it is not checked
    have hstay : ∀ {w'}, Careful w'.log → (∀ j, lastBad j w'.log = lastBad j w.log) →
        Noted n (bc.setBlock i ((bc.blocks i).markHealthy which)) w' := by
      intro w' hw' hlast
      refine ⟨hw', h.ebCnt, fun j hj hmj => ?_⟩
      rw [NotBad, hlast]
      by_cases hji : j = i
      · subst hji; exact hgood
      · rw [Bootconfig.setBlock_blocks, Function.update_of_ne hji] at hmj
        exact h.notBad j hj hmj
    rw [wp_setHealthyOf hinit hi rfl]
    refine ⟨fun _ m _ => ?_, fun _ => hQ _ _ _ h hinit⟩
    have h1 := careJudge_calm w (.malloc bc.info.minIoSize) m rfl trivial h.careful
    refine ⟨h1, fun _ => hQ _ _ _ (hstay h1 fun _ => rfl) hinit, fun _ => ⟨fun _ => trivial,
      fun _ o _ => ?_⟩⟩
    have h2 := h1.cons (e := ⟨.mtdWrite i (pageOf bc.info.minIoSize
      ((bc.blocks i).markHealthy which)), o⟩) ⟨fun j hj => ?_, fun j hj => by cases hj⟩
    · exact ⟨h2, hQ _ _ _ (hstay h2 fun _ => rfl) hinit⟩
    · obtain rfl : i = j := Option.some.inj hj
      exact hgood

/-! ## All runs -/

/-- The memory of a client: not initialised yet, or `Noted`. -/
def ClientMem (bc : Bootconfig) (w : World) : Prop :=
  Careful w.log ∧ (bc.initialised = true → ∃ n, 0 < n ∧ Noted n bc w)

/-- **One call** of the library, from any memory of a client. -/
theorem clientMem_step {Q : ℤ × Bootconfig → World → Prop} {tgt : Target} (c : LibCall)
    (h : ClientMem bc w) (hQ : ∀ err bc' w', ClientMem bc' w' → Q (err, bc') w') :
    wp mtd careJudge (c.run tgt bc) Q w := by
  have hmem : ∀ {n err} {bc' : Bootconfig} {w'}, 0 < n → Noted n bc' w' →
      bc'.initialised = true → Q (err, bc') w' :=
    fun hn hN _ => hQ _ _ _ ⟨hN.careful, fun _ => ⟨_, hn, hN⟩⟩
  cases c with
  | init dev =>
    rw [LibCall.run, wp_bind]
    exact noted_init h.1 fun n bc' w' => hmem
  | reread =>
    cases hinit : bc.initialised with
    | false => rw [LibCall.run, bcLlReread, if_pos hinit]; exact trivial
    | true =>
      obtain ⟨n, hn, hN⟩ := h.2 hinit
      exact noted_reread hN hinit fun code bc' w' => hmem hn
  | setPartition x =>
    cases hinit : bc.initialised with
    | false => rw [LibCall.run, bcLlSetPartition, if_pos hinit]; exact trivial
    | true =>
      obtain ⟨n, hn, hN⟩ := h.2 hinit
      exact noted_setPartition hN hn hinit x.le fun code bc' w' => hmem hn
  | setHealthy which =>
    cases hinit : bc.initialised with
    | false =>
      rw [LibCall.run, setCurrentHealthy, wp_bind, bcLlGetCurrent, if_pos hinit]; exact trivial
    | true =>
      obtain ⟨n, hn, hN⟩ := h.2 hinit
      exact noted_setCurrentHealthy hN hinit fun code bc' w' => hmem hn

/-- **All calls.** -/
theorem clientMem_client {tgt : Target} : ∀ (calls : List LibCall) (bc : Bootconfig) (w : World),
    ClientMem bc w → wp mtd careJudge (client tgt calls bc) ClientMem w
  | [], _, _, h => h
  | c :: calls, bc, w, h => by
    rw [client, wp_bind]
    exact clientMem_step c h fun _ bc' w' => clientMem_client calls bc' w'

/-- **No operation on a block known to be bad.**  Wherever a client is cut, for
    whatever reason, every erase and every write so far happened when the most
    recent answer of `mtd_is_bad` for the block was not "bad", and every erase
    right after `mtd_is_bad` had answered `0` for the block. -/
theorem badBlock_untouched {tgt : Target} {bc : Bootconfig} (hinit : bc.initialised = false)
    (calls : List LibCall) (flash : ℕ → Page) (ω : Oracle Resp) (n : ℕ) :
    ∀ later e earlier,
      (cut mtd n (client tgt calls bc) ⟨flash, []⟩ ω).log = later ++ e :: earlier →
      (∀ i, e.1.target = some i → ∃ r ≤ 0, lastBad i earlier = some r) ∧
      (∀ i, e.1 = .mtdErase i → earlier.head? = some ⟨.mtdIsBad i, (0 : ℤ)⟩) := by
  have h0 : ClientMem bc ⟨flash, []⟩ := ⟨careful_nil, fun h => by rw [hinit] at h; cases h⟩
  have hcut : Careful (cut mtd n (client tgt calls bc) ⟨flash, []⟩ ω).log :=
    wp_cut (clientMem_client calls bc _ h0) careful_nil (fun _ _ => trivial) n
  intro later e earlier heq
  have he := hcut later e earlier heq
  exact ⟨he.notBad, he.checked⟩

/-- The 13th call of a client that sets a partition is a write. -/
theorem badBlock_untouched_write :
    let ω := fun _ => nominal (fun _ => false) twoInfo
    let w := cut mtd 13 (client ⟨4, Or.inl rfl⟩
      [.init "/dev/mtd1", .setPartition ⟨.kernel, 1, le_rfl⟩] (.zeroed false)) ⟨twoBlocks, []⟩ ω
    w.log.head?.map (fun e => e.1.target) = some (some 1) ∧
    ∀ later e earlier, w.log = later ++ e :: earlier →
      (∀ i, e.1.target = some i → ∃ r ≤ 0, lastBad i earlier = some r) ∧
      (∀ i, e.1 = .mtdErase i → earlier.head? = some ⟨.mtdIsBad i, (0 : ℤ)⟩) :=
  ⟨by decide, badBlock_untouched rfl _ _ _ _⟩

end MetaHipos
