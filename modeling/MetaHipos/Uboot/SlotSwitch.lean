/-
  The firmware slot over any number of boots.

  An installation asks for the other slot by `upgrade_available = 1` and
  `ustate = 1`.  The boot that finds this writes the other slot to `firmware`,
  which would be the wrong way round if it was found once more.  `bootSlot` is
  the slot a boot is going to use; it is the same for all boots, whether the
  environment was saved or not.
-/
import Mathlib.Data.List.Infix
import MetaHipos.Process.Reboot
import MetaHipos.Uboot.Board

namespace MetaHipos.Uboot

open Process

/-! ## Slots -/

/-- The two slots. -/
inductive Slot where
  | a
  | b
deriving DecidableEq, Repr

namespace Slot

/-- The slot that is not this one. -/
def other : Slot → Slot
  | a => b
  | b => a

/-- Its letter. -/
def char : Slot → Char
  | a => 'a'
  | b => 'b'

end Slot

/-- The slot of a value of `firmware`. -/
def slot (firmware : ℕ) : Slot := if firmware = 1 then .b else .a

variable {ε : Type} [UbootEnv ε]

/-- The variable `firmware`. -/
def firmware (e : ε) : ℕ := envGetUlong e "firmware" 10 0

/-- The variable `upgrade_available`. -/
def upgradeAvailable (e : ε) : ℕ := envGetUlong e "upgrade_available" 10 0

/-- The variable `ustate`. -/
def ustate (e : ε) : ℕ := envGetUlong e "ustate" 10 0

/-- The next boot is to switch the slot. -/
def Switching (e : ε) : Prop := upgradeAvailable e = 1 ∧ ustate e = 1

instance (e : ε) : Decidable (Switching e) := inferInstanceAs (Decidable (_ ∧ _))

/-- The slot the next boot uses. -/
def bootSlot (e : ε) : Slot := if Switching e then (slot (firmware e)).other else slot (firmware e)

/-- The environment that is saved by a boot that switches the slot. -/
def switched (e : ε) : ε :=
  envSetUlong (envSetUlong e "firmware" (if firmware e = 1 then 0 else 1)) "ustate" 2

/-- The boot commands: the slot `s`, and as the alternative the other slot, with
    the legacy boot if `legacy`. -/
structure BootsOn (e : ε) (s : Slot) (legacy : Prop) : Prop where
  bootcmd : envGet e "bootcmd" = some (fitbootText s.char)
  fitboot : ¬ legacy → envGet e "altbootcmd" = some (fitbootText s.other.char)
  legacyboot : legacy → envGet e "altbootcmd" = some (legacybootText s.other.char)

/-- The values fit into an `int`. -/
structure Small (e : ε) : Prop where
  firmware : firmware e < 2 ^ 31
  upgradeAvailable : upgradeAvailable e < 2 ^ 31
  ustate : ustate e < 2 ^ 31

/-- The variables that are loaded from flash are the same. -/
def SameVars (e e' : ε) : Prop := ∀ n ∈ envFlagsList, envGet e n = envGet e' n

section
variable {e e' : ε}

theorem cInt_of_small {v : ℕ} (h : v < 2 ^ 31) : cInt v = v := by
  rw [cInt, BitVec.toInt_eq_toNat_of_lt]
  · simp only [BitVec.toNat_ofNat]; omega
  · simp only [BitVec.toNat_ofNat]; omega

theorem SameVars.values (h : SameVars e e') : firmware e = firmware e' ∧
    upgradeAvailable e = upgradeAvailable e' ∧ ustate e = ustate e' :=
  ⟨UbootEnv.envGetUlong_congr _ _ _ _ (h _ (by decide)),
    UbootEnv.envGetUlong_congr _ _ _ _ (h _ (by decide)),
    UbootEnv.envGetUlong_congr _ _ _ _ (h _ (by decide))⟩

theorem SameVars.bootSlot (h : SameVars e e') : bootSlot e = bootSlot e' := by
  obtain ⟨hf, hu, hs⟩ := h.values
  rw [Uboot.bootSlot, Uboot.bootSlot, hf]
  exact if_congr (by rw [Switching, Switching, hu, hs]) rfl rfl

theorem SameVars.small (h : SameVars e e') (hs : Small e') : Small e := by
  obtain ⟨hf, hu, hst⟩ := h.values
  exact ⟨hf ▸ hs.firmware, hu ▸ hs.upgradeAvailable, hst ▸ hs.ustate⟩

/-- Setting another variable. -/
theorem SameVars.envSet (h : SameVars e e') {n : String} (v : String) (hn : n ∉ envFlagsList) :
    SameVars (envSet e n v) e' := fun m hm => by
  have hmn : m ≠ n := fun hmn => hn (hmn ▸ hm)
  rw [UbootEnv.envGet_envSet_of_ne _ _ _ _ hmn]
  exact h m hm

theorem switched_values (e : ε) :
    firmware (switched e) = (if firmware e = 1 then 0 else 1) ∧
      upgradeAvailable (switched e) = upgradeAvailable e ∧ ustate (switched e) = 2 := by
  have hne : ∀ {n : String} v, n ≠ "firmware" → n ≠ "ustate" →
      envGet (envSetUlong (envSetUlong e "firmware" v) "ustate" 2) n = envGet e n := by
    intro n v h1 h2
    rw [UbootEnv.envGet_envSetUlong_of_ne _ _ _ _ h2, UbootEnv.envGet_envSetUlong_of_ne _ _ _ _ h1]
  refine ⟨?_, UbootEnv.envGetUlong_congr _ _ _ _ (hne _ (by decide) (by decide)),
    UbootEnv.envGetUlong_envSetUlong _ _ _ _ (by decide)⟩
  rw [firmware, switched, UbootEnv.envGetUlong_congr _ _ _ _
    (UbootEnv.envGet_envSetUlong_of_ne _ "ustate" _ "firmware" (by decide)),
    UbootEnv.envGetUlong_envSetUlong _ _ _ _ (by split_ifs <;> decide)]

/-- **The slot is switched once**: the boots after a switch use the same slot as
    the one that switched. -/
theorem bootSlot_switched (h : Switching e) :
    ¬ Switching (switched e) ∧ bootSlot (switched e) = bootSlot e := by
  obtain ⟨hf, -, hs⟩ := switched_values e
  have hn : ¬ Switching (switched e) := fun h' => by
    have := h'.2
    rw [hs] at this; cases this
  refine ⟨hn, ?_⟩
  rw [bootSlot, bootSlot, if_neg hn, if_pos h, hf]
  by_cases h1 : firmware e = 1 <;> simp [h1, slot, Slot.other]

end

/-! ## One boot -/

/-- The answers of the HAB are those of `hab`; everything else is free. -/
def HabAnswers (hab : Hab) : (o : BoardOp ε) → BoardAns o → Prop
  | .imxHabIsEnabled, r => r = hab.enabled
  | .habRvtReportStatus, r => r = (hab.status, hab.config, hab.state)
  | _, _ => True

section
variable {J : Judge (BoardOp ε) BoardAns Fault ε} {e stored : ε} {Q : ε → ε → Prop}

omit [UbootEnv ε] in
/-- Only `env_save` writes to flash. -/
theorem wp_query {α : Type} {Q : α → ε → Prop} {o : BoardOp ε} {k : BoardAns o → UBoot ε α}
    (hJ : J.inv stored) (ho : ∀ env, o ≠ .envSave env)
    (h : ∀ r, J.ok o r → wp (envFlash ε) J (k r) Q stored) :
    wp (envFlash ε) J (Proc.ask o >>= k) Q stored := by
  intro r hr
  cases o with
  | envSave env => exact absurd rfl (ho env)
  | _ => exact ⟨hJ, h r hr⟩

omit [UbootEnv ε] in
theorem wp_i2cProbeLoop {Q : Bool → ε → Prop} (hJ : J.inv stored) (hQ : ∀ b, Q b stored) : ∀ n,
    wp (envFlash ε) J (i2cProbeLoop n) Q stored
  | 0 => hQ false
  | n + 1 => by
    refine wp_query hJ (by simp) fun ret _ => ?_
    rw [wp_ite]
    exact ⟨fun _ => hQ true, fun _ => wp_i2cProbeLoop hJ hQ n⟩

omit [UbootEnv ε] in
theorem wp_hasI2cDevice {Q : Bool → ε → Prop} (hJ : J.inv stored) (hQ : ∀ b, Q b stored) :
    wp (envFlash ε) J hasI2cDevice Q stored := by
  refine wp_query hJ (by simp) fun ret _ => ?_
  rw [wp_ite]
  exact ⟨fun _ => hQ false, fun _ => wp_i2cProbeLoop hJ hQ 5⟩

theorem wp_isDefaultFdt {board : Board} {Q : Bool → ε → Prop} {fdt : String}
    (hfdt : envGet e "fdt_file" = some fdt) :
    wp (envFlash ε) J (isDefaultFdt board e) Q stored ↔
      Q (fdt = board.defaultFdtFile) stored := by
  rw [isDefaultFdt, hfdt]
  exact Iff.rfl

/-- The detection of the board sets `fdt_file` at most. -/
theorem wp_boardDetect {board : Board} {fdt : String} (hJ : J.inv stored)
    (hfdt : envGet e "fdt_file" = some fdt) (hvars : SameVars e stored)
    (hQ : ∀ e' fdt', SameVars e' stored → envGet e' "fdt_file" = some fdt' → Q e' stored) :
    wp (envFlash ε) J (boardDetect board e) Q stored := by
  have hsame := hQ e fdt hvars hfdt
  have hset : ∀ fdt', fdt' ≠ "" → Q (envSet e "fdt_file" fdt') stored := fun fdt' hne =>
    hQ _ fdt' (hvars.envSet fdt' (by decide)) (UbootEnv.envGet_envSet _ _ _ hne)
  rw [boardDetect]
  cases board.variant with
  | ivap =>
    refine wp_query hJ (by simp) fun gpio _ => ?_
    rw [wp_ite]
    refine ⟨fun _ => hsame, fun _ => ?_⟩
    rw [wp_bind, wp_isDefaultFdt hfdt, wp_ite]
    refine ⟨fun _ => hsame, fun _ => wp_query hJ (by simp) fun mx6qp _ => ?_⟩
    cases mx6qp
    · exact hset HIMX_DEFAULT_FDT_FILE_DVREC (by decide)
    · exact hset HIMX_DEFAULT_FDT_FILE_DVREC_P (by decide)
  | dvmon =>
    rw [wp_bind]
    refine wp_hasI2cDevice hJ fun touch => ?_
    rw [wp_ite]
    refine ⟨fun _ => hsame, fun _ => ?_⟩
    rw [wp_bind, wp_isDefaultFdt hfdt, wp_ite]
    exact ⟨fun _ => hsame, fun _ => hset _ (by decide)⟩
  | other => exact hsame

omit [UbootEnv ε] in
theorem wp_getHabState {hab : Hab} {Q : ℤ → ε → Prop} (hok : J.ok = HabAnswers hab)
    (hJ : J.inv stored) (hQ : Q hab.value stored) :
    wp (envFlash ε) J getHabState Q stored := by
  refine wp_query hJ (by simp) fun enabled henabled => wp_query hJ (by simp) fun r hr => ?_
  rw [hok] at henabled hr
  obtain rfl : enabled = hab.enabled := henabled
  obtain rfl : r = (hab.status, hab.config, hab.state) := hr
  exact hQ

/-- The name of the configuration is set, within its buffer. -/
theorem wp_boardGenerateFitConf {fdt : String} (hfdt : envGet e "fdt_file" = some fdt)
    (hQ : ∀ fitConf, Q (envSet e "fit_conf" fitConf) stored) :
    wp (envFlash ε) J (boardGenerateFitConf e) Q stored := by
  simp only [boardGenerateFitConf, hfdt]
  split
  · exact hQ fdt
  · next basename _ =>
    have hfit : 5 + 26 ≤ (charArray 32 "conf-".toList).length := by decide
    obtain ⟨buf, hbuf⟩ : ∃ buf, fitConfBuffer basename = some buf := ⟨_, if_pos (e := none) hfit⟩
    rw [hbuf]
    exact hQ _

/-- The boot commands fit into their buffers. -/
theorem snprintf_bootText (s : Slot) :
    snprintf 64 (fitbootText s.char) = fitbootText s.char ∧
      snprintf 64 (legacybootText s.char) = legacybootText s.char := by
  cases s <;> decide +kernel

theorem fitbootText_ne (s : Slot) : fitbootText s.char ≠ "" ∧ legacybootText s.char ≠ "" := by
  cases s <;> decide

/-- The commands that are set at the end. -/
theorem bootsOn_set (e : ε) (s : Slot) {legacy : Prop} [Decidable legacy] :
    BootsOn (envSet (envSet e "bootcmd" (snprintf 64 (fitbootText s.char))) "altbootcmd"
      (if legacy then snprintf 64 (legacybootText s.other.char)
        else snprintf 64 (fitbootText s.other.char))) s legacy := by
  obtain ⟨hfit, -⟩ := snprintf_bootText s
  obtain ⟨hfit', hlegacy'⟩ := snprintf_bootText s.other
  obtain ⟨hne, hne'⟩ := fitbootText_ne s.other
  rw [hfit, hfit', hlegacy']
  refine ⟨?_, fun hl => ?_, fun hl => ?_⟩
  · rw [UbootEnv.envGet_envSet_of_ne _ _ _ _ (by decide),
      UbootEnv.envGet_envSet _ _ _ (fitbootText_ne s).1]
  · rw [if_neg hl, UbootEnv.envGet_envSet _ _ _ hne]
  · rw [if_pos hl, UbootEnv.envGet_envSet _ _ _ hne']

/-- The slot to boot is selected, and a switch is saved or not. -/
theorem wp_selectFirmware {Q : Char × Char × ε → ε → Prop} (hvars : SameVars e stored)
    (hJ : J.inv stored) (hsave : Switching stored → J.inv (switched e))
    (hQ : ∀ e' stored', J.inv stored' →
      Q ((bootSlot stored).char, (bootSlot stored).other.char, e') stored') :
    wp (envFlash ε) J (selectFirmware e (firmware stored) (upgradeAvailable stored) (ustate stored))
      Q stored := by
  have hf := hvars.values.1
  have h1 : ∀ n : ℕ, ((n : ℤ) = 1) = (n = 1) := fun n => propext (by omega)
  have hwrite : Switching stored → ∀ v, v = (if firmware stored = 1 then 0 else 1) →
      wp (envFlash ε) J (saveSwitch e v) (fun _ stored' => J.inv stored') stored := by
    intro hsw v hv saved _
    have hv' : envSetUlong (envSetUlong e "firmware" v) "ustate" 2 = switched e := by
      rw [switched, hf, hv]
    have hJ' : J.inv (if saved then envSetUlong (envSetUlong e "firmware" v) "ustate" 2
        else stored) := by
      rw [hv']
      cases saved
      exacts [hJ, hsave hsw]
    exact ⟨hJ', hJ'⟩
  simp only [selectFirmware, h1]
  by_cases hsw : Switching stored
  · have hslot : bootSlot stored = (slot (firmware stored)).other := if_pos hsw
    rw [if_pos (show upgradeAvailable stored = 1 ∧ ustate stored = 1 from hsw)]
    by_cases hfw : firmware stored = 1
    · have hs : bootSlot stored = .a := by rw [hslot, slot, if_pos hfw]; rfl
      rw [if_pos hfw, wp_bind]
      refine wp_mono (hwrite hsw 0 (if_pos hfw).symm) fun e' stored' hJ' => ?_
      have := hQ e' stored' hJ'
      rw [hs] at this; exact this
    · have hs : bootSlot stored = .b := by rw [hslot, slot, if_neg hfw]; rfl
      rw [if_neg hfw, wp_bind]
      refine wp_mono (hwrite hsw 1 (if_neg hfw).symm) fun e' stored' hJ' => ?_
      have := hQ e' stored' hJ'
      rw [hs] at this; exact this
  · have hslot : bootSlot stored = slot (firmware stored) := if_neg hsw
    rw [if_neg (show ¬ (upgradeAvailable stored = 1 ∧ ustate stored = 1) from hsw)]
    have hnow := hQ e stored hJ
    by_cases hfw : firmware stored = 1
    · rw [if_pos hfw]
      rw [hslot, slot, if_pos hfw] at hnow
      exact hnow
    · rw [if_neg hfw]
      rw [hslot, slot, if_neg hfw] at hnow
      exact hnow

/-- **The commands name the slot to boot**, and a switch is saved at most. -/
theorem wp_boardGenerateBootcmd {habState : ℤ} (hvars : SameVars e stored) (hsmall : Small stored)
    (hJ : J.inv stored) (hsave : Switching stored → J.inv (switched e))
    (hQ : ∀ e' stored', BootsOn e' (bootSlot stored) (upgradeAvailable stored ≠ 0 ∧ habState = 0) →
      J.inv stored' → Q e' stored') :
    wp (envFlash ε) J (boardGenerateBootcmd habState e) Q stored := by
  obtain ⟨hf, hu, hs⟩ := hvars.values
  have hfI : cInt (envGetUlong e "firmware" 10 0) = firmware stored := by
    rw [← hf]; exact cInt_of_small (hvars.small hsmall).firmware
  have huI : cInt (envGetUlong e "upgrade_available" 10 0) = upgradeAvailable stored := by
    rw [← hu]; exact cInt_of_small (hvars.small hsmall).upgradeAvailable
  have hsI : cInt (envGetUlong e "ustate" 10 0) = ustate stored := by
    rw [← hs]; exact cInt_of_small (hvars.small hsmall).ustate
  have h0 : ∀ n : ℕ, ((n : ℤ) ≠ 0) = (n ≠ 0) := fun n => propext (by omega)
  rw [boardGenerateBootcmd]
  simp only [hfI, huI, hsI, h0]
  rw [wp_bind]
  exact wp_selectFirmware hvars hJ hsave fun e' stored' hJ' => hQ _ _ (bootsOn_set e' _) hJ'

/-- **One boot**, from the environment on flash. -/
theorem wp_boot {board : Board} {hab : Hab} (hok : J.ok = HabAnswers hab) (hsmall : Small stored)
    (hJ : J.inv stored)
    (hsave : Switching stored → ∀ e, SameVars e stored → J.inv (switched e))
    (hQ : ∀ e' stored', BootsOn e' (bootSlot stored) (upgradeAvailable stored ≠ 0 ∧ hab.value = 0) →
      J.inv stored' → Q e' stored') : wp (envFlash ε) J (boot board stored) Q stored := by
  have hload : SameVars (envLoad board.defaultFdtFile stored) stored :=
    fun n hn => UbootEnv.envGet_envLoad _ _ _ hn
  rw [boot, boardLateInit, wp_bind]
  refine wp_boardDetect hJ (UbootEnv.envLoad_fdtFile _ _) hload fun e fdt hvars hfdt => ?_
  rw [wp_bind]
  refine wp_getHabState hok hJ ?_
  rw [wp_bind]
  refine wp_boardGenerateFitConf hfdt fun fitConf => ?_
  have hvars' := hvars.envSet (n := "fit_conf") fitConf (by decide)
  exact wp_boardGenerateBootcmd hvars' hsmall hJ (fun hsw => hsave hsw _ hvars') hQ

end

/-! ## All boots -/

/-- The environment on flash, after boots that started with `stored₀`. -/
structure Consistent (stored₀ stored : ε) : Prop where
  bootSlot : bootSlot stored = bootSlot stored₀
  upgradeAvailable : upgradeAvailable stored = upgradeAvailable stored₀
  small : Small stored
  fixed : ¬ Switching stored₀ → stored = stored₀

theorem Consistent.switched {stored₀ stored e : ε} (h : Consistent stored₀ stored)
    (hsw : Switching stored) (hvars : SameVars e stored) : Consistent stored₀ (switched e) := by
  obtain ⟨hf, hu, hs⟩ := hvars.values
  have hsw' : Switching e := ⟨hu.trans hsw.1, hs.trans hsw.2⟩
  obtain ⟨hf', hu', hs'⟩ := switched_values e
  refine ⟨(bootSlot_switched hsw').2.trans (hvars.bootSlot.trans h.bootSlot),
    hu'.trans (hu.trans h.upgradeAvailable), ⟨?_, ?_, ?_⟩, fun hn => ?_⟩
  · rw [hf']; split_ifs <;> decide
  · rw [hu']; exact (hvars.small h.small).upgradeAvailable
  · rw [hs']; decide
  · rw [h.fixed hn] at hsw
    exact absurd hsw hn

/-- The command runs the given variable. -/
def Runs (cmd name : String) : Prop := ("run " ++ name ++ ";").toList <:+: cmd.toList

instance (cmd name : String) : Decidable (Runs cmd name) := inferInstanceAs (Decidable (_ <:+: _))

/-- The slot of a command, and no other one. -/
def Names (cmd : String) (s : Slot) : Prop :=
  ∀ s' : Slot, Runs cmd ("setup_part_" ++ String.ofList [s'.char]) ↔ s' = s

theorem names_texts (s : Slot) : (Names (fitbootText s.char) s ∧
      ¬ Runs (fitbootText s.char) "do_legacyboot") ∧
    (Names (legacybootText s.char) s ∧ Runs (legacybootText s.char) "do_legacyboot") := by
  cases s <;> refine ⟨⟨fun s' => ?_, by decide +kernel⟩, ⟨fun s' => ?_, by decide +kernel⟩⟩ <;>
    cases s' <;> decide +kernel

/-- What the boot commands do. -/
theorem BootsOn.commands {e : ε} {s : Slot} {legacy : Prop} (h : BootsOn e s legacy) :
    ∃ cmd alt, envGet e "bootcmd" = some cmd ∧ envGet e "altbootcmd" = some alt ∧
      Names cmd s ∧ Names alt s.other ∧ ¬ Runs cmd "do_legacyboot" ∧
      (Runs alt "do_legacyboot" ↔ legacy) := by
  obtain ⟨⟨hn, hr⟩, -⟩ := names_texts s
  obtain ⟨⟨hn', hr'⟩, hn'', hr''⟩ := names_texts s.other
  by_cases hl : legacy
  · exact ⟨_, _, h.bootcmd, h.legacyboot hl, hn, hn'', hr, iff_of_true hr'' hl⟩
  · exact ⟨_, _, h.bootcmd, h.fitboot hl, hn, hn', hr, iff_of_false hr' hl⟩

/-- The invariant of all boots, and what each of them does. -/
theorem consistent_boot (board : Board) {stored₀ stored : ε} (h : Consistent stored₀ stored)
    (hab : Hab) (stop : Fault → ε → Prop) :
    wp (envFlash ε) ⟨HabAnswers hab, Consistent stored₀, stop⟩ (boot board stored)
      (fun e stored' => Consistent stored₀ stored' ∧
        BootsOn e (bootSlot stored₀) (upgradeAvailable stored₀ ≠ 0 ∧ hab.value = 0)) stored := by
  refine wp_boot rfl h.small h (fun hsw e hvars => h.switched hsw hvars)
    fun e' stored' hboots hJ => ⟨hJ, ?_⟩
  rw [← h.bootSlot, ← h.upgradeAvailable]
  exact hboots

/-- **One installation switches the slot exactly once.**  Whatever boots are
    cut and whatever saves are lost, every boot that gets to its commands boots
    the slot that the environment asked for in the beginning, with the other
    slot as the alternative; if no switch was asked for, the environment never
    changes; and every boot gets to its commands unless the power fails. -/
theorem slot_switches_once {board : Board} {stored₀ stored : ε} {boots : List (Hab × ε)}
    (hsmall : Small stored₀)
    (hrun : Reboots (envFlash ε) HabAnswers (boot board) stored₀ boots stored) :
    let s := if upgradeAvailable stored₀ = 1 ∧ ustate stored₀ = 1 then
      (slot (firmware stored₀)).other else slot (firmware stored₀)
    (∀ x ∈ boots, ∃ cmd alt,
      envGet x.2 "bootcmd" = some cmd ∧ envGet x.2 "altbootcmd" = some alt ∧
      Names cmd s ∧ Names alt s.other ∧ ¬ Runs cmd "do_legacyboot" ∧
      (Runs alt "do_legacyboot" ↔ upgradeAvailable stored₀ ≠ 0 ∧ x.1.value = 0)) ∧
    (¬ (upgradeAvailable stored₀ = 1 ∧ ustate stored₀ = 1) → stored = stored₀) ∧
    ∀ hab ω, (∀ n o, HabAnswers hab o (ω n o)) → ∃ e stored' ω',
      exec (envFlash ε) (boot board stored) stored ω = (.done e, stored', ω') := by
  intro s
  have h₀ : Consistent stored₀ stored₀ := ⟨rfl, rfl, hsmall, fun _ => rfl⟩
  obtain ⟨hcons, hboots⟩ := hrun.invariant (Consistent stored₀) (fun hab e =>
    BootsOn e s (upgradeAvailable stored₀ ≠ 0 ∧ hab.value = 0)) (fun _ _ => False) h₀
    fun hab stored h => consistent_boot board h hab _
  refine ⟨fun x hx => (hboots x hx).commands, hcons.fixed, fun hab ω hω => ?_⟩
  have hend := wp_exec (consistent_boot board hcons hab fun _ _ => False) hω
  generalize exec (envFlash ε) (boot board stored) stored ω = y at hend
  obtain ⟨e | f, stored', ω'⟩ := y
  · exact ⟨e, stored', ω', rfl⟩
  · exact hend.elim

/-- A board that is asked to switch from slot b. -/
def askedToSwitch : String → Option String := fun n =>
  if n ∈ ["firmware", "upgrade_available", "ustate"] then some "1" else none

def openHab : Hab := ⟨false, .success, .opened, .nonsecure⟩

/-- Its outside, where the environment is saved or not. -/
def openBoard (save : Bool) : Response (@BoardAns (String → Option String))
  | .gpioGetValue => (1 : ℤ)
  | .isCpuTypeMx6qp => false
  | .uclassGetDevice => (0 : ℤ)
  | .dmI2cProbe => (0 : ℤ)
  | .imxHabIsEnabled => false
  | .habRvtReportStatus => (.success, .opened, .nonsecure)
  | .envSave _ => save

theorem openBoard_answers (save : Bool) (o : BoardOp (String → Option String)) :
    HabAnswers openHab o (openBoard save o) := by
  cases o <;> first | rfl | exact trivial

/-- Two boots, the first of which cannot save the environment. -/
theorem slot_switches_once_lost :
    let board : Board := ⟨.other, "/boot/imx6q-himx0294-imoc-2.dtb"⟩
    ∃ e₁ e₂ stored, Reboots (envFlash _) HabAnswers (boot board) askedToSwitch
        [(openHab, e₁), (openHab, e₂)] stored ∧
      (∃ cmd, envGet e₁ "bootcmd" = some cmd ∧ Names cmd .a) ∧
      (∃ cmd, envGet e₂ "bootcmd" = some cmd ∧ Names cmd .a) := by
  intro board
  have hsmall : Small askedToSwitch := ⟨by decide, by decide, by decide⟩
  have hω : ∀ save (_ : ℕ) o, HabAnswers openHab o (openBoard save o) :=
    fun save _ => openBoard_answers save
  obtain ⟨-, -, hboot⟩ := @slot_switches_once _ _ board _ _ _ hsmall .nil
  obtain ⟨e₁, stored₁, _, h₁⟩ := hboot openHab _ (hω false)
  have hrun₁ := Reboots.done openHab .nil (hω false) h₁
  obtain ⟨-, -, hboot⟩ := slot_switches_once hsmall hrun₁
  obtain ⟨e₂, stored₂, _, h₂⟩ := hboot openHab _ (hω true)
  have hrun₂ := hrun₁.done openHab (hω true) h₂
  obtain ⟨hcmds, -⟩ := slot_switches_once hsmall hrun₂
  have hslot : (if upgradeAvailable askedToSwitch = 1 ∧ ustate askedToSwitch = 1 then
    (slot (firmware askedToSwitch)).other else slot (firmware askedToSwitch)) = .a := by decide
  rw [hslot] at hcmds
  obtain ⟨cmd₁, _, hc₁, _, hn₁, _⟩ := hcmds (openHab, e₁) (by simp)
  obtain ⟨cmd₂, _, hc₂, _, hn₂, _⟩ := hcmds (openHab, e₂) (by simp)
  exact ⟨e₁, e₂, stored₂, hrun₂, ⟨cmd₁, hc₁, hn₁⟩, ⟨cmd₂, hc₂, hn₂⟩⟩

end MetaHipos.Uboot
