/-
  Reading the config blocks into memory.

  * `wp_reading`: one rule for `_read_bootconfig`, from what is known about a
    single block after it was read;
  * `Fine`: the responses of a device with the bad blocks `bad` where nothing
    else fails, and `Synced`: the memory shows the flash, but for these blocks;
  * `wp_init_fine`, `wp_reread_fine`: on such a device `bc_ll_init` and
    `bc_ll_reread` establish it;
  * `freshCurrent_fine`: a fresh `bc_ll_init` and `bc_ll_get_current` find the
    newest config of the flash.
-/
import MetaHipos.Bootconfig.Current

namespace MetaHipos

open LittleEndian Process Newest

/-! ## Calls that leave the flash alone -/

/-- The blocks erased, the latest first. -/
def erases : List Event → List ℕ
  | [] => []
  | ⟨.mtdErase i, _⟩ :: log => i :: erases log
  | _ :: log => erases log

/-- The blocks written and the pages written to them, the latest first. -/
def writes : List Event → List (ℕ × List Byte)
  | [] => []
  | ⟨.mtdWrite i page, _⟩ :: log => (i, page) :: writes log
  | _ :: log => writes log

theorem erases_other {o : Op} (r : Resp o) (log : List Event) (h : o.target = none) :
    erases (⟨o, r⟩ :: log) = erases log := by
  cases o <;> first | rfl | cases h

theorem writes_other {o : Op} (r : Resp o) (log : List Event) (h : o.target = none) :
    writes (⟨o, r⟩ :: log) = writes log := by
  cases o <;> first | rfl | cases h

/-- The flash was not touched on the way from `w` to `w'`. -/
structure Quiet (w w' : World) : Prop where
  flash : w'.flash = w.flash
  erases : erases w'.log = erases w.log
  writes : writes w'.log = writes w.log

theorem Quiet.refl (w : World) : Quiet w w := ⟨rfl, rfl, rfl⟩

theorem Quiet.trans {w w' w'' : World} (h : Quiet w w') (h' : Quiet w' w'') : Quiet w w'' :=
  ⟨h'.flash.trans h.flash, h'.erases.trans h.erases, h'.writes.trans h.writes⟩

theorem Quiet.after {w w' : World} (h : Quiet w w') {o : Op} {r : Resp o} (ho : o.target = none) :
    Quiet w (w'.after o r) where
  flash := (funext fun j => after_flash_of_ne w' o r (by simp [ho])).trans h.flash
  erases := (erases_other r _ ho).trans h.erases
  writes := (writes_other r _ ho).trans h.writes

/-- The invariant of `J` does not mind calls that leave the flash alone. -/
def Calm (J : Judge Op Resp Stop World) : Prop :=
  ∀ w o r, o.target = none → J.ok o r → J.inv w → J.inv (w.after o r)

/-- The most recent answer of `mtd_is_bad` for the block `i`. -/
def lastBad (i : ℕ) : List Event → Option ℤ
  | [] => none
  | ⟨.mtdIsBad j, r⟩ :: log => if j = i then some r else lastBad i log
  | _ :: log => lastBad i log

section
variable (i j : ℕ) (log : List Event)

@[simp] theorem lastBad_self (r : ℤ) : lastBad i (⟨.mtdIsBad i, r⟩ :: log) = some r := if_pos rfl

theorem lastBad_isBad_ne {i j : ℕ} (h : j ≠ i) (r : ℤ) :
    lastBad i (⟨.mtdIsBad j, r⟩ :: log) = lastBad i log := if_neg h

theorem lastBad_other {o : Op} (r : Resp o) (h : ∀ j, o ≠ .mtdIsBad j) :
    lastBad i (⟨o, r⟩ :: log) = lastBad i log := by
  cases o <;> first | rfl | exact absurd rfl (h _)

end

variable {J : Judge Op Resp Stop World} {bc : Bootconfig} {w : World} {n : ℕ}

/-! ## All blocks -/

/-- What `_read_bootconfig` leaves behind where `S i ok b` is what is known
    about a block `b` read from `i`, successfully (`ok`) or not. -/
structure ReadAll (S : ℕ → Bool → Btblock → Prop) (n : ℕ) (bc : Bootconfig) (w : World)
    (code : ℤ) (bc' : Bootconfig) (w' : World) : Prop where
  info : bc'.info = bc.info
  initialised : bc'.initialised = bc.initialised
  quiet : Quiet w w'
  blocks : ∀ i < n, ∃ ok, S i ok (bc'.blocks i)
  code : code = 0 ∧ (∃ i < n, S i true (bc'.blocks i)) ∨
    code = -1 ∧ ∀ i < n, S i false (bc'.blocks i)

/-- **The rule for `_read_bootconfig`.**  The hypotheses are the three ways a
    block is left: not to be checked, bad, or read. -/
theorem wp_reading {Q : ℤ × Bootconfig → World → Prop} (S : ℕ → Bool → Btblock → Prop)
    (hn : bc.info.ebCnt = n) (hcalm : Calm J) (hw : J.inv w)
    (herr : ∀ i < n, ∀ r : ℤ, J.ok (.mtdIsBad i) r → r < 0 → S i false (bc.blocks i))
    (hbad : ∀ i < n, ∀ r : ℤ, J.ok (.mtdIsBad i) r → 0 < r →
      S i false { bc.blocks i with magic := .bad })
    (hread : ∀ i < n, J.ok (.mtdIsBad i) (0 : ℤ) → ∀ e : ℤ, J.ok (.mtdRead i) e →
      S i (Delivers e) (if Delivers e then (w.flash i).hdr else bc.blocks i))
    (hQ : ∀ code bc' w', J.inv w' → ReadAll S n bc w code bc' w' → Q (code, bc') w') :
    wp mtd J (readBootconfig bc) Q w := by
  refine wp_readBootconfig (fun k broken bc' w' => J.inv w' ∧ bc'.info = bc.info ∧
    bc'.initialised = bc.initialised ∧ Quiet w w' ∧ (∀ i < k, ∃ ok, S i ok (bc'.blocks i)) ∧
    (∀ i, k ≤ i → bc'.blocks i = bc.blocks i) ∧
    broken ≤ k ∧ (broken = k → ∀ i < k, S i false (bc'.blocks i)) ∧
    (broken < k → ∃ i < k, S i true (bc'.blocks i))) ?_ ?_ hn
    ⟨hw, rfl, rfl, .refl w, by simp, by simp, le_rfl, by simp, by simp⟩
  · rintro k broken bc' w' hk ⟨hi, hinfo, hinit, hq, hS, hrest, hle, hall, hsome⟩
    -- one more block: its new content `b`, everything else as before
    have key : ∀ (ok : Bool) (b : Btblock) (bc'' : Bootconfig) (w'' : World) (err : ℤ),
        (∀ j ≠ k, bc''.blocks j = bc'.blocks j) → bc''.blocks k = b → bc''.info = bc'.info →
        bc''.initialised = bc'.initialised → J.inv w'' → Quiet w w'' → S k ok b →
        (err ≠ 0 ↔ ok = false) →
        J.inv w'' ∧ bc''.info = bc.info ∧ bc''.initialised = bc.initialised ∧ Quiet w w'' ∧
        (∀ i < k + 1, ∃ ok, S i ok (bc''.blocks i)) ∧
        (∀ i, k + 1 ≤ i → bc''.blocks i = bc.blocks i) ∧
        (if err ≠ 0 then broken + 1 else broken) ≤ k + 1 ∧
        ((if err ≠ 0 then broken + 1 else broken) = k + 1 →
          ∀ i < k + 1, S i false (bc''.blocks i)) ∧
        ((if err ≠ 0 then broken + 1 else broken) < k + 1 →
          ∃ i < k + 1, S i true (bc''.blocks i)) := by
      intro ok b bc'' w'' err hne hb hinfo' hinit' hi' hq' hSk herr
      refine ⟨hi', hinfo'.trans hinfo, hinit'.trans hinit, hq', fun i hik => ?_, fun i hik => ?_,
        ?_, fun hbr i hik => ?_, fun hbr => ?_⟩
      · rcases Nat.lt_succ_iff_lt_or_eq.1 hik with h | rfl
        · rw [hne i h.ne]; exact hS i h
        · exact ⟨ok, hb ▸ hSk⟩
      · rw [hne i (by omega)]; exact hrest i (by omega)
      · split_ifs <;> omega
      · split_ifs at hbr with he
        · rcases Nat.lt_succ_iff_lt_or_eq.1 hik with h | rfl
          · rw [hne i h.ne]; exact hall (by omega) i h
          · rw [hb, ← herr.1 he]; exact hSk
        · omega
      · split_ifs at hbr with he
        · obtain ⟨i, hik, hSi⟩ := hsome (by omega)
          exact ⟨i, by omega, by rw [hne i hik.ne]; exact hSi⟩
        · have hok : ok = true := by
            by_contra hok
            exact he (herr.2 (by simpa using hok))
          exact ⟨k, by omega, by rw [hb, ← hok]; exact hSk⟩
    have hkb : bc'.blocks k = bc.blocks k := hrest k le_rfl
    rw [wp_readBootblock (by rw [hinfo, hn]; exact hk)]
    intro r hr
    have hi1 : J.inv (w'.after (.mtdIsBad k) r) := hcalm _ _ _ rfl hr hi
    refine ⟨hi1, fun hr0 => ?_, ?_⟩
    · rcases Int.lt_or_gt_of_ne hr0 with hneg | hpos
      · have hc : badCode r = -1 := if_pos hneg
        have hb : bc'.noteBad k r = bc' := if_neg (by omega)
        rw [hc, hb]
        exact key false (bc.blocks k) _ _ _ (fun _ _ => rfl) hkb rfl rfl hi1 (hq.after rfl)
          (herr k hk r hr hneg) (by simp)
      · have hb : bc'.noteBad k r = bc'.setBlock k { bc'.blocks k with magic := .bad } :=
          if_pos hpos
        rw [badCode_eq_one.2 hpos, hb]
        exact key false _ _ _ _ (fun j hj => Function.update_of_ne hj ..)
          (Function.update_self ..) rfl rfl hi1 (hq.after rfl) (hkb ▸ hbad k hk r hr hpos) (by simp)
    · rintro rfl e he
      have hi2 := hcalm _ (.mtdRead k) e rfl he hi1
      refine ⟨hi2, ?_⟩
      have hS' := hread k hk hr e he
      by_cases hd : Delivers e
      · rw [if_pos hd] at hS'
        rw [Bootconfig.noteRead, if_pos hd, if_pos hd, hq.flash]
        exact key true _ _ _ _ (fun j hj => Function.update_of_ne hj ..)
          (Function.update_self ..) rfl rfl hi2 ((hq.after rfl).after rfl) (by simpa [hd] using hS')
          (by simp)
      · rw [if_neg hd] at hS'
        rw [Bootconfig.noteRead, if_neg hd, if_neg hd]
        exact key false (bc.blocks k) _ _ _ (fun _ _ => rfl) hkb rfl rfl hi2
          ((hq.after rfl).after rfl) (by simpa [hd] using hS') (by simp)
  · rintro broken bc' w' ⟨hi, hinfo, hinit, hq, hS, -, hle, hall, hsome⟩
    refine ⟨by rw [hinfo, hn], hQ _ _ _ hi ⟨hinfo, hinit, hq, hS, ?_⟩⟩
    split_ifs with h
    · exact Or.inr ⟨rfl, hall h⟩
    · exact Or.inl ⟨rfl, hsome (by omega)⟩

/-! ## `bc_ll_init` -/

/-- The responses that make `bc_ll_init` exit before it reads. -/
def Refused : (o : Op) → Resp o → Prop
  | .openDev _, fd => fd < 0
  | .libmtdOpen, lib => lib = false
  | .mtdGetDevInfo _, r => r.1 < 0
  | .malloc _, mem => mem = false
  | _, _ => False

/-- The world in which `bc_ll_init` starts to read. -/
def World.opened (w : World) (dev : String) (fd : ℤ) (r : ℤ × MtdDevInfo) : World :=
  (((w.after (.openDev dev) fd).after .libmtdOpen true).after (.mtdGetDevInfo dev) r).after
    (.malloc (r.2.ebCnt * Btblock.size)) true

theorem opened_quiet (w : World) (dev : String) (fd : ℤ) (r : ℤ × MtdDevInfo) :
    Quiet w (w.opened dev fd r) :=
  ((((Quiet.refl w).after rfl).after rfl).after rfl).after rfl

/-- The rule for `bc_ll_init`. -/
theorem wp_bcLlInit {Q : Bootconfig → World → Prop} {flag : Bool} {dev : String} (hcalm : Calm J)
    (hw : J.inv w)
    (hstop : ∀ o r w', J.ok o r → Refused o r → J.inv w' → J.stop (.exit 1) w')
    (hread : ∀ fd r, J.ok (.mtdGetDevInfo dev) r → 0 ≤ r.1 → J.inv (w.opened dev fd r) →
      wp mtd J (readBootconfig ⟨flag, fun _ => .zero, r.2⟩) (fun rb w' =>
        (rb.1 < 0 → J.stop (.exit 1) w') ∧ (0 ≤ rb.1 → Q { rb.2 with initialised := true } w'))
        (w.opened dev fd r)) :
    wp mtd J (bcLlInit flag dev) Q w := by
  rw [bcLlInit]
  intro (fd : ℤ) hfd
  have h1 := hcalm _ (.openDev dev) fd rfl hfd hw
  refine ⟨h1, ?_⟩
  change wp mtd J (if fd < 0 then _ else _) _ _
  rcases lt_or_ge fd 0 with hneg | hpos
  · rw [if_pos hneg]; exact hstop (.openDev dev) fd _ hfd hneg h1
  rw [if_neg (by omega)]
  intro (lib : Bool) hlib
  have h2 := hcalm _ .libmtdOpen lib rfl hlib h1
  refine ⟨h2, ?_⟩
  cases lib with
  | false => exact hstop .libmtdOpen false _ hlib rfl h2
  | true =>
  intro (r : ℤ × MtdDevInfo) hr
  have h3 := hcalm _ (.mtdGetDevInfo dev) r rfl hr h2
  refine ⟨h3, ?_⟩
  change wp mtd J (if r.1 < 0 then _ else _) _ _
  rcases lt_or_ge r.1 0 with hneg | hpos
  · rw [if_pos hneg]; exact hstop (.mtdGetDevInfo dev) r _ hr hneg h3
  rw [if_neg (by omega)]
  intro (mem : Bool) hmem
  have h4 := hcalm _ (.malloc (r.2.ebCnt * Btblock.size)) mem rfl hmem h3
  refine ⟨h4, ?_⟩
  cases mem with
  | false => exact hstop (.malloc _) false _ hmem rfl h4
  | true =>
  change wp mtd J (readBootconfig _ >>= _) _ _
  rw [wp_bind]
  refine wp_mono (hread fd r hr hpos h4) ?_
  rintro ⟨err, bc⟩ w' ⟨hlt, hge⟩
  change wp mtd J (if err < 0 then _ else _) _ _
  rcases lt_or_ge err 0 with hneg | hpos
  · rw [if_pos hneg]; exact hlt hneg
  · rw [if_neg (by omega)]; exact hge hpos

/-! ## A device where only the bad blocks fail -/

/-- The answer `r` of `mtd_is_bad` is right and not a failure. -/
def Answers (bad : Bool) (r : ℤ) : Prop := if bad then 0 < r else r = 0

/-- The responses of a device with the bad blocks `bad` where nothing else
    fails. -/
def Fine (bad : ℕ → Bool) (info : MtdDevInfo) : (o : Op) → Resp o → Prop
  | .openDev _, fd => 0 ≤ fd
  | .libmtdOpen, lib => lib = true
  | .mtdGetDevInfo _, r => 0 ≤ r.1 ∧ r.2 = info
  | .malloc _, mem => mem = true
  | .time, _ => True
  | .mtdIsBad i, r => Answers (bad i) r
  | .mtdRead _, r => Delivers r
  | .mtdErase _, r => 0 ≤ r.ret
  | .mtdWrite .., r => 0 ≤ r.ret

theorem Fine.not_refused {bad : ℕ → Bool} {info : MtdDevInfo} {o : Op} {r : Resp o}
    (h : Fine bad info o r) : ¬ Refused o r := by
  cases o <;> simp only [Fine, Refused] at h ⊢ <;> first | exact not_false | omega | simp [h]

/-- A device that answers as it should. -/
def nominal (bad : ℕ → Bool) (info : MtdDevInfo) : Response Resp
  | .openDev _ => (3 : ℤ)
  | .libmtdOpen => true
  | .mtdGetDevInfo _ => ((0 : ℤ), info)
  | .malloc _ => true
  | .time => (0 : BitVec 32)
  | .mtdIsBad i => if bad i then (1 : ℤ) else (0 : ℤ)
  | .mtdRead _ => (0 : ℤ)
  | .mtdErase _ => ⟨0, .kept⟩
  | .mtdWrite .. => ⟨0, .kept⟩

theorem nominal_fine (bad : ℕ → Bool) (info : MtdDevInfo) (o : Op) :
    Fine bad info o (nominal bad info o) := by
  cases o with
  | mtdIsBad i => cases h : bad i <;> simp [Fine, nominal, Answers, h]
  | _ => simp [Fine, nominal, Delivers]

/-- The memory shows the flash, but for the bad blocks. -/
def Synced (bad : ℕ → Bool) (bc : Bootconfig) (flash : ℕ → Page) : Prop :=
  ∀ i < bc.info.ebCnt, if bad i then (bc.blocks i).magic = .bad else bc.blocks i = (flash i).hdr

/-- The memory after everything was read. -/
def Bootconfig.ofFlash (bad : ℕ → Bool) (info : MtdDevInfo) (flash : ℕ → Page) : Bootconfig :=
  ⟨true, fun i => if bad i then { Btblock.zero with magic := .bad } else (flash i).hdr, info⟩

theorem synced_ofFlash (bad : ℕ → Bool) (info : MtdDevInfo) (flash : ℕ → Page) :
    Synced bad (.ofFlash bad info flash) flash := by
  intro i _
  cases h : bad i <;> simp [Bootconfig.ofFlash, h]

/-- The device of the examples: two blocks, the first one with a config of
    epoch 5 that is not marked as healthy, the second one erased. -/
def twoInfo : MtdDevInfo := ⟨2, 16⟩

/-- A flash with a config of epoch 5 in block 0; the other blocks are erased. -/
def twoBlocks : ℕ → Page := flashOf [{ dummyBlock with magic := .boot, epoch := 5 }]

/-- The device after its blocks were read. -/
def twoMem : Bootconfig := .ofFlash (fun _ => false) twoInfo twoBlocks

/-- Its responses, where block 1 answers `x` to `mtd_is_bad`. -/
def checkAnswers (x : ℤ) : Oracle Resp
  | _, .mtdIsBad 1 => x
  | _, o => nominal (fun _ => false) twoInfo o

theorem checkAnswers_fine (n : ℕ) (o : Op) :
    Fine (fun _ => false) twoInfo o (checkAnswers 0 n o) := by
  have h : checkAnswers 0 n o = nominal (fun _ => false) twoInfo o := by
    rcases o with _ | _ | _ | _ | _ | (_ | _ | _) | _ | _ | _ <;> rfl
  rw [h]
  exact nominal_fine _ _ o

section
variable {bad : ℕ → Bool} {info : MtdDevInfo}

theorem wp_readBootconfig_fine {Q : ℤ × Bootconfig → World → Prop} (hcalm : Calm J) (hw : J.inv w)
    (hok : ∀ o r, J.ok o r → Fine bad info o r)
    (hQ : ∀ code bc' w', J.inv w' → bc'.info = bc.info → bc'.initialised = bc.initialised →
      Quiet w w' → Synced bad bc' w'.flash → ((∃ i < bc.info.ebCnt, bad i = false) → code = 0) →
      Q (code, bc') w') :
    wp mtd J (readBootconfig bc) Q w := by
  refine wp_reading
    (fun i ok b => if bad i then b.magic = .bad else ok = true ∧ b = (w.flash i).hdr)
    rfl hcalm hw ?_ ?_ ?_ ?_
  · intro i hi r hr hneg
    have hf : Answers (bad i) r := hok _ _ hr
    unfold Answers at hf
    split_ifs at hf ⊢ <;> omega
  · intro i hi r hr hpos
    have hf : Answers (bad i) r := hok _ _ hr
    unfold Answers at hf
    split_ifs at hf ⊢
    · rfl
    · omega
  · intro i hi h0 e he
    have hf : Answers (bad i) 0 := hok _ _ h0
    have hd : Delivers e := hok _ _ he
    unfold Answers at hf
    split_ifs at hf ⊢
    · omega
    · exact ⟨by simpa using hd, rfl⟩
  · rintro code bc' w' hi ⟨hinfo, hinit, hq, hS, hcode⟩
    refine hQ _ _ _ hi hinfo hinit hq (fun i hi => ?_) ?_
    · obtain ⟨ok, h⟩ := hS i (by rw [← hinfo]; exact hi)
      rw [hq.flash]
      split_ifs at h ⊢
      exacts [h, h.2]
    · rintro ⟨i, hi, hb⟩
      rcases hcode with ⟨h, -⟩ | ⟨-, h⟩
      · exact h
      · have := h i hi
        simp [hb] at this

/-- `bc_ll_reread` on a fine device. -/
theorem wp_reread_fine {Q : ℤ × Bootconfig → World → Prop} {tgt : Target} (hcalm : Calm J)
    (hw : J.inv w) (hok : ∀ o r, J.ok o r → Fine bad info o r) (hinit : bc.initialised = true)
    (hQ : ∀ code bc' w', J.inv w' → bc'.info = bc.info → bc'.initialised = true →
      Quiet w w' → Synced bad bc' w'.flash → Q (code, bc') w') :
    wp mtd J (bcLlReread tgt bc) Q w := by
  rw [wp_bcLlReread hinit]
  exact wp_readBootconfig_fine hcalm hw hok fun code bc' w' hi hinfo hini hq hS _ =>
    hQ code bc' w' hi hinfo (hini.trans hinit) hq hS

/-- **`bc_ll_init` on a fine device** returns, in sync with the flash. -/
theorem wp_init_fine {Q : Bootconfig → World → Prop} {flag : Bool} {dev : String} (hcalm : Calm J)
    (hw : J.inv w) (hok : ∀ o r, J.ok o r → Fine bad info o r)
    (hgood : ∃ i < info.ebCnt, bad i = false)
    (hQ : ∀ bc w', J.inv w' → bc.info = info → bc.initialised = true → Quiet w w' →
      Synced bad bc w'.flash → Q bc w') : wp mtd J (bcLlInit flag dev) Q w := by
  refine wp_bcLlInit hcalm hw (fun o r w' ho hr _ => absurd hr (hok o r ho).not_refused) ?_
  intro fd r hr _ hi
  obtain ⟨-, rfl⟩ : 0 ≤ r.1 ∧ r.2 = info := hok _ _ hr
  refine wp_readBootconfig_fine hcalm hi hok fun code bc w' hi hinfo _ hq hS hcode => ?_
  have h0 : code = 0 := hcode hgood
  exact ⟨fun h => by omega, fun _ => hQ _ w' hi hinfo rfl ((opened_quiet w dev fd r).trans hq) hS⟩

end

/-! ## A fresh process -/

/-- `bc_ll_init` followed by `bc_ll_get_current`. -/
def freshCurrent (dev : String) : Mtd (Option ℕ × Bootconfig) := do
  let bc ← bcLlInit false dev
  let curr ← bcLlGetCurrent bc
  pure (curr, bc)

/-- The judgement of a run whose responses are fine; it does not stop. -/
def fineJudge (bad : ℕ → Bool) (info : MtdDevInfo) : Judge Op Resp Stop World where
  ok := Fine bad info
  inv _ := True
  stop _ _ := False

/-- **A fresh process finds the newest config of the flash.** -/
theorem freshCurrent_fine {bad : ℕ → Bool} {info : MtdDevInfo} {ω : Oracle Resp} (dev : String)
    (w : World) (hω : ∀ n o, Fine bad info o (ω n o)) (hgood : ∃ i < info.ebCnt, bad i = false) :
    ∃ bc w' ω', exec mtd (freshCurrent dev) w ω =
        (.done (currentIdx bc.blocks bc.info.ebCnt, bc), w', ω') ∧
      bc.info = info ∧ Synced bad bc w.flash ∧ Quiet w w' := by
  have h : wp mtd (fineJudge bad info) (freshCurrent dev) (fun cb w' =>
      cb.1 = currentIdx cb.2.blocks cb.2.info.ebCnt ∧ cb.2.info = info ∧ Synced bad cb.2 w.flash ∧
        Quiet w w') w := by
    rw [freshCurrent, wp_bind]
    refine wp_init_fine (fun _ _ _ _ _ _ => trivial) trivial (fun _ _ h => h) hgood ?_
    intro bc w' _ hinfo hinit hq hS
    rw [wp_bind, wp_bcLlGetCurrent hinit, wp_pure]
    exact ⟨rfl, hinfo, hq.flash ▸ hS, hq⟩
  have hend := wp_exec h hω
  generalize exec mtd (freshCurrent dev) w ω = x at hend
  obtain ⟨⟨curr, bc⟩ | e, w', ω'⟩ := x
  · obtain ⟨hc, hinfo, hS, hq⟩ := hend
    exact ⟨bc, w', ω', by rw [← show curr = _ from hc], hinfo, hS, hq⟩
  · exact hend.elim

end MetaHipos
