/-
  The first boot survives any number of power losses.

  A boot that is cut leaves the sources alone until `lvremove` removes
  `pvsn_rootfs`, and by then the copies are complete.  The next boot either
  starts again, under a new key, or finds nothing to do.

  * `PowerLoss`: what is lost with the power;
  * `Torn`: what a command may have done when it is cut;
  * `AtBoot`: the invariant of the boots;
  * `firstBoot_survives`: the main result.
-/
import MetaHipos.Initrd.FirstBoot
import MetaHipos.Process.Outage

namespace MetaHipos.Initrd.Encrypt

open Process

section
variable {K B : Type} {p : Platform K B} {s s' s₀ s₁ : Host K B}

/-! ## Power losses -/

/-- Mappings, mounts and the keyring are gone.  A volume that was mapped may hold
    anything, and so may the keystore if it was mounted. -/
structure PowerLoss (s s' : Host K B) : Prop where
  booted : Booted s'
  volume : ∀ dev, (∀ d k, s.mapping d ≠ some (dev, k)) → s'.volume dev = s.volume dev
  present : ∀ dev, (s'.volume dev).isSome = (s.volume dev).isSome
  keys : s.mountedOn mntKeystore = none → s'.blob = s.blob ∧ s'.keyFile = s.keyFile

/-- A command that is cut may have done a part of what it does, or all of it;
    `lvremove` removes its volumes in the order of its arguments. -/
def Torn (c : Issued) (r : Resp K B) : Prop :=
  ∀ devices lvs, c.cmd = .lvremove devices lvs →
    lvs.Pairwise fun v w => r.outcome.part w = true → r.outcome.part v = true

theorem torn_of_success {c : Issued} {r : Resp K B} (h : r.outcome = .success) : Torn c r :=
  fun _ _ _ => List.pairwise_of_forall fun _ _ _ => by rw [h]; rfl

/-! ## The invariant -/

/-- Only targets and keys differ. -/
structure Intact (s₀ s : Host K B) : Prop where
  volume : ∀ v ∉ targets, s.volume (lv v) = s₀.volume (lv v)
  present : ∀ v, (s.volume (lv v)).isSome = (s₀.volume (lv v)).isSome

theorem Intact.trans (h : Intact s₀ s₁) (h' : Intact s₁ s) : Intact s₀ s :=
  ⟨fun v hv => (h'.volume v hv).trans (h.volume v hv), fun v => (h'.present v).trans (h.present v)⟩

/-- The volumes can be encrypted again. -/
theorem Intact.provisioned (h : Intact s₀ s) (hprov : Provisioned p s₀) : Provisioned p s where
  rootfs := by rw [h.present]; exact hprov.rootfs
  files source hsource := by
    rw [h.volume source (by revert source; decide)]
    exact hprov.files source hsource
  targets label hlabel := by rw [h.present]; exact hprov.targets label hlabel

/-- Copies of the same sources. -/
theorem Intact.completeCopies (h : Intact s₀ s₁) (hcopies : CompleteCopies p s₁ s) :
    CompleteCopies p s₀ s := by
  obtain ⟨k, hblob, ⟨c, d, hc, hd⟩, hpop⟩ := hcopies
  refine ⟨k, hblob, ⟨c, d, by rw [← h.volume _ (by decide), hc], hd⟩, fun x hx => ?_⟩
  obtain ⟨f, ⟨c, hc, hf⟩, hholds⟩ := hpop x hx
  refine ⟨f, ⟨c, ?_, hf⟩, hholds⟩
  rw [← h.volume x.2 (source_not_target x hx), hc]

/-- What a boot may find: the volumes as they were provisioned, but for the
    targets, or complete copies and no `pvsn_rootfs`. -/
structure AtBoot (p : Platform K B) (s₀ s : Host K B) : Prop where
  booted : Booted s
  volumes : Intact s₀ s ∨ s.volume (lv pvsnRootfs) = none ∧ CompleteCopies p s₀ s

/-- Where nothing is mapped, and the keystore is not mounted, nothing is lost. -/
theorem PowerLoss.completeCopies (h : PowerLoss s s') (hmap : ∀ dev, s.mapping dev = none)
    (hkeystore : s.mountedOn mntKeystore = none) (hcopies : CompleteCopies p s₀ s) :
    CompleteCopies p s₀ s' := by
  have hvol : ∀ dev, s'.volume dev = s.volume dev := fun dev =>
    h.volume dev fun d k => by rw [hmap d]; simp
  exact hcopies.congr (h.keys hkeystore).1 fun v _ => hvol _

theorem AtBoot.powerLoss (h : AtBoot p s₀ s) (hloss : PowerLoss s s') : AtBoot p s₀ s' where
  booted := hloss.booted
  volumes := by
    have hvol : ∀ dev, s'.volume dev = s.volume dev := fun dev =>
      hloss.volume dev fun d k => by rw [h.booted.mapping d]; simp
    rcases h.volumes with hintact | ⟨hroot, hcopies⟩
    · exact Or.inl ⟨fun v hv => (hvol _).trans (hintact.volume v hv),
        fun v => by rw [hvol, hintact.present]⟩
    · exact Or.inr ⟨(hvol _).trans hroot,
        hloss.completeCopies h.booted.mapping (h.booted.mountedOn _) hcopies⟩

/-- While the volumes are encrypted, only they can be lost. -/
theorem Within.powerLoss {D : String → Prop} (h : Within (· ∈ targets) D s₁ s)
    (hbooted : Booted s₁) (hloss : PowerLoss s s') : Intact s₁ s' where
  volume v hv := by
    rw [hloss.volume, h.volume v hv]
    intro d k hd
    by_cases hex : ∃ w ∈ targets, d = decryptDev w
    · obtain ⟨w, hw, rfl⟩ := hex
      have hvw : lv v = lv w := h.own w hw _ hd
      exact hv (lv_inj.1 hvw ▸ hw)
    · rw [h.mapping d fun w hw hdw => hex ⟨w, hw, hdw⟩, hbooted.mapping] at hd
      cases hd
  present v := by rw [hloss.present, h.present]

/-! ## A boot -/

/-- Commands that are not cut succeed. -/
def succeed (K B : Type) : Judge Issued (fun _ => Resp K B) ℕ (Host K B) :=
  patternJudge K B fun _ => .success

/-- `lvremove` may be cut: either nothing is removed, or `pvsn_rootfs` is. -/
theorem remove_powerLoss {devices : String} {k : K} {done dirs : List String} {P : Issued → Outcome}
    {r : Resp K B} (h : Progress p P s₁ k done dirs s) (hP : AllSucceed P) (hintact : Intact s₀ s₁)
    (hcopies : CompleteCopies p s₁ s) (hr : Torn ⟨main, .lvremove devices pvsnVolumes⟩ r)
    (hloss : PowerLoss (s.remove (pvsnVolumes.filter r.outcome.part)) s') : AtBoot p s₀ s' := by
  obtain ⟨hmap, hkeystore⟩ := h.clean hP
  have hvol : ∀ v, s'.volume (lv v) =
      (s.remove (pvsnVolumes.filter r.outcome.part)).volume (lv v) := fun v =>
    hloss.volume _ fun d _ hd => absurd ((hmap d).symm.trans hd) (by simp)
  refine ⟨hloss.booted, ?_⟩
  by_cases hroot : r.outcome.part (vgName pvsnRootfs) = true
  · refine Or.inr ⟨?_, hintact.completeCopies
      (hloss.completeCopies hmap hkeystore (completeCopies_remove.2 hcopies))⟩
    rw [hvol, remove_volume, if_pos ⟨by decide, hroot⟩]
  · -- the others come later
    have hnone : ∀ v ∈ sources, r.outcome.part (vgName v) ≠ true := by
      have horder := hr devices pvsnVolumes rfl
      rw [pvsnVolumes_eq, List.pairwise_map, sources, List.pairwise_cons] at horder
      intro v hv hpart
      rcases List.mem_cons.1 hv with rfl | hv
      exacts [hroot hpart, hroot (horder.1 v hv hpart)]
    have hsame : ∀ v, s'.volume (lv v) = s.volume (lv v) := fun v => by
      rw [hvol, remove_volume, if_neg fun hs => hnone v hs.1 hs.2]
    exact Or.inl (hintact.trans ⟨fun v hv => by rw [hsame, h.steps.volume hv],
      fun v => by rw [hsame, h.steps.within.present]⟩)

/-- Commands that are not cut succeed; wherever a boot is cut, the next one finds
    the volumes as in `AtBoot`. -/
def bootJudge (p : Platform K B) (s₀ : Host K B) :
    Judge Issued (fun _ => Resp K B) ℕ (Host K B) where
  ok := (succeed K B).ok
  inv t := ∀ s', PowerLoss t s' → AtBoot p s₀ s'
  stop := (succeed K B).stop

/-- `hiposencrypt_run` from the volumes as provisioned. -/
theorem wpCut_hiposencryptRun {root : String} (hprov : Provisioned p s₀) (h : AtBoot p s₀ s₁)
    (hintact : Intact s₀ s₁) :
    wpCut (host p) (bootJudge p s₀) Torn (hiposencryptRun root)
      (fun _ s => CompleteCopies p s₀ s) s₁ := by
  have hall : AllSucceed fun _ => .success := fun _ => rfl
  have hidle : Idle (· ∈ targets) s₁ :=
    ⟨fun _ _ => h.booted.mapping _, fun _ _ => h.booted.mountedOn _⟩
  have hcopy := wp_hiposencryptCopy h.booted (hintact.provisioned hprov) hall.copiesAll
  have hkeep := wp_calls ⟨fun _ _ => True, fun _ => True, fun _ _ => False⟩
    (calls_hiposencryptCopy (D := fun _ => True) trivial fun _ _ => trivial)
    (fun _ _ _ hc hs => Within.next (p := p) hc hs) (Within.start hidle)
  rw [hiposencryptRun, wpCut_bind]
  refine wpCut_mono (wpCut_of_wp hcopy hkeep (fun _ _ _ => trivial)
    (fun _ _ => torn_of_success) fun t ht s' hloss =>
      ⟨hloss.booted, Or.inl (hintact.trans (ht.powerLoss h.booted hloss))⟩) ?_
  -- the last command
  rintro _ s ⟨hcopies, k, done, dirs, hprog⟩
  refine ⟨fun r hr s' hloss => ?_, fun r hr => ?_⟩
  · rw [next_lvremove] at hloss
    exact remove_powerLoss hprog hall hintact hcopies hr hloss
  · show CompleteCopies p s₀ _
    rw [next_lvremove]
    exact hintact.completeCopies (completeCopies_remove.2 hcopies)

theorem hiposencryptEnabled_eq {root : String} : hiposencryptEnabled root = (do
    let found ← run main (.lvs root (lv pvsnRootfs))
    pure found.ok) := rfl

theorem next_lvs {step devices dev : String} {r : Resp K B} :
    (host p).next ⟨step, .lvs devices dev⟩ r s = s := by
  simp [host, Host.success, Host.failure]

/-- `hiposencrypt_enabled` looks for `pvsn_rootfs`. -/
theorem wpCut_hiposencryptEnabled {root : String} (h : AtBoot p s₀ s₁) :
    wpCut (host p) (bootJudge p s₀) Torn (hiposencryptEnabled root)
      (fun b s => s = s₁ ∧ b = (s₁.volume (lv pvsnRootfs)).isSome) s₁ := by
  rw [hiposencryptEnabled_eq]
  refine ⟨fun r _ s' hloss => ?_, fun r hr => ⟨next_lvs, ?_⟩⟩
  · rw [next_lvs] at hloss
    exact h.powerLoss hloss
  · have hok : r.outcome.ok = true := by rw [show r.outcome = .success from hr]; rfl
    simp only [host, hok, Host.possible, Bool.true_and]
    cases (s₁.volume (lv pvsnRootfs)).isSome <;> rfl

/-- A boot that is not cut ends with complete copies. -/
theorem wpCut_boot (root : String) (hprov : Provisioned p s₀) (h : AtBoot p s₀ s₁) :
    wpCut (host p) (bootJudge p s₀) Torn (boot root) (fun _ s => CompleteCopies p s₀ s) s₁ := by
  rw [boot, wpCut_bind]
  refine wpCut_mono (wpCut_hiposencryptEnabled h) ?_
  rintro b s ⟨rfl, hb⟩
  rcases h.volumes with hintact | ⟨hroot, hcopies⟩
  · rw [hintact.present, hprov.rootfs] at hb
    subst hb
    exact (wpCut_bind ..).2 (wpCut_hiposencryptRun hprov h hintact)
  · rw [hroot] at hb
    subst hb
    exact hcopies

/-! ## Boots -/

/-- The states in which a boot starts, after any number of power losses. -/
abbrev Boots (p : Platform K B) (root : String) (s₀ s : Host K B) : Prop :=
  Outages (host p) (succeed K B).ok Torn PowerLoss (boot root) s₀ s

theorem Boots.atBoot {root : String} (h : Boots p root s₀ s) (hbooted : Booted s₀)
    (hprov : Provisioned p s₀) : AtBoot p s₀ s :=
  Outages.invariant h (AtBoot p s₀) ⟨hbooted, Or.inl ⟨fun _ _ => rfl, fun _ => rfl⟩⟩
    (fun _ _ h hloss => h.powerLoss hloss) fun _ h => wpCut_boot _ hprov h

/-- **The first boot survives any number of power losses**: where
    `hiposencrypt_enabled` returns 0, the sources are as they were; where it
    returns 1, and after a boot that is not cut, the copies are complete. -/
theorem firstBoot_survives {root : String} {ω : Oracle fun _ : Issued => Resp K B}
    (hbooted : Booted s₀) (hprov : Provisioned p s₀) (h : Boots p root s₀ s)
    (hω : ∀ n c, (ω n c).outcome = .success) :
    (∀ s' ω', exec (host p) (hiposencryptEnabled root) s ω = (.done true, s', ω') →
      ∀ v ∈ sources, s.volume (lv v) = s₀.volume (lv v) ∧ (s.volume (lv v)).isSome) ∧
    (∀ s' ω', exec (host p) (hiposencryptEnabled root) s ω = (.done false, s', ω') →
      CompleteCopies p s₀ s) ∧
    ∃ b s' ω', exec (host p) (boot root) s ω = (.done b, s', ω') ∧ CompleteCopies p s₀ s' := by
  have hat := Boots.atBoot h hbooted hprov
  have henabled : ∀ b s' ω', exec (host p) (hiposencryptEnabled root) s ω = (.done b, s', ω') →
      b = (s.volume (lv pvsnRootfs)).isSome := fun b s' ω' he =>
    (wp_done (wp_of_wpCut (wpCut_hiposencryptEnabled hat)) hω he).2
  refine ⟨fun s' ω' he v hv => ?_, fun s' ω' he => ?_, ?_⟩
  · have hroot := henabled _ _ _ he
    rcases hat.volumes with hintact | ⟨hnone, -⟩
    · refine ⟨hintact.volume v fun ht => target_not_source v ht hv, ?_⟩
      rw [hintact.present]
      exact hprov.source hv
    · rw [hnone] at hroot
      cases hroot
  · have hroot := henabled _ _ _ he
    rcases hat.volumes with hintact | ⟨-, hcopies⟩
    · rw [hintact.present, hprov.rootfs] at hroot
      cases hroot
    · exact hcopies
  · have hends := wp_exec (wp_of_wpCut (wpCut_boot root hprov hat)) hω
    rcases hrun : exec (host p) (boot root) s ω with ⟨b | e, s', ω'⟩
    · rw [hrun] at hends
      exact ⟨b, s', ω', rfl, hends⟩
    · rw [hrun] at hends
      exact hends.elim

/-- What remains if nothing is damaged. -/
def Host.reboot (s : Host K B) : Host K B where
  volume := s.volume
  blob := s.blob
  keyFile := s.keyFile
  keyring := none
  mapping _ := none
  mountedOn _ := none
  tmpfs _ := Files.none

theorem powerLoss_reboot : PowerLoss s s.reboot where
  booted := ⟨fun _ => rfl, fun _ => rfl, rfl, fun _ => rfl⟩
  volume _ _ := rfl
  present _ := rfl
  keys _ := ⟨rfl, rfl⟩

end

/-- Every command succeeds, and the key is `true`. -/
def allSucceed : Oracle fun _ : Issued => Resp Bool (Option Files × Bool) :=
  fun _ c => quietResp smallPlatform (fun _ => .success) true c

/-- The power is lost after 25 commands. -/
theorem firstBoot_survives_once :
    let s₀ := blankHost smallPlatform false
    let s := (cut (host smallPlatform) 25 (boot "/dev/mmcblk0p4") s₀ allSucceed).reboot
    (∀ s' ω', exec (host smallPlatform) (hiposencryptEnabled "/dev/mmcblk0p4") s allSucceed =
        (.done true, s', ω') →
      ∀ v ∈ sources, s.volume (lv v) = s₀.volume (lv v) ∧ (s.volume (lv v)).isSome) ∧
    (∀ s' ω', exec (host smallPlatform) (hiposencryptEnabled "/dev/mmcblk0p4") s allSucceed =
        (.done false, s', ω') → CompleteCopies smallPlatform s₀ s) ∧
    ∃ b s' ω', exec (host smallPlatform) (boot "/dev/mmcblk0p4") s allSucceed =
      (.done b, s', ω') ∧ CompleteCopies smallPlatform s₀ s' :=
  firstBoot_survives blankHost_booted blankHost_provisioned
    (.cut (ω := allSucceed) 25 .first (fun _ _ _ => rfl) (fun _ _ => torn_of_success rfl)
      powerLoss_reboot)
    fun _ _ => rfl

end MetaHipos.Initrd.Encrypt
