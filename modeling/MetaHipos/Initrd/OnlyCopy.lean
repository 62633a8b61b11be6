/-
  When the only copy is removed.

  `hiposencrypt_run` removes the sources at its end, whatever has failed.  So it
  only removes them after complete copies if `lvremove` removes nothing, or if
  the commands in `CopiesAll` succeed: if one of them fails, there are volumes
  and a run in which a copy is missing.

  * `blankHost`: these volumes;
  * `QuietProgress`: what holds after some of the steps;
  * `onlyCopy_iff`: the main result;
  * `onlyCopy_lost`: the sources are removed, and nothing was copied.
-/
import MetaHipos.Initrd.Failures

namespace MetaHipos.Initrd.Encrypt

open Process

section
variable {K B : Type} {p : Platform K B} {P : Issued → Outcome} {k : K} {s s' s₀ : Host K B}
  {label source : String}

/-! ## The run -/

/-- The source of the userdata stays mounted after the first step that uses it. -/
def StaysMounted (P : Issued → Outcome) : Prop :=
  (P ⟨"userdata_a", .umount (stepDirs "userdata_a" pvsnUserdata)⟩).part (tmpDir pvsnUserdata) =
    false

/-- A command that the volume depends on fails. -/
def Fails (p : Platform K B) (P : Issued → Outcome) (x : String × String) : Prop :=
  ¬ (Populates p P x.1 x.2 ∧ (MountsSource P x.1 x.2 ∨ x.1 = "userdata_b" ∧ StaysMounted P))

/-- What holds in a quiet run after the steps for `done`: where one of their
    commands failed, the volume is short. -/
structure QuietProgress (p : Platform K B) (P : Issued → Outcome) (k : K)
    (done dirs : List String) (s : Host K B) : Prop where
  steps : Steps done dirs (blankHost p k) s
  keyed : Keyed P k s
  short : s.keyring = some k → ∀ x ∈ populated, x.1 ∈ done → Fails p P x → Short p x.1 k s

variable {done dirs : List String}

theorem wp_any {α : Type} {script : Script α} (h : script.Calls fun _ => True) :
    wp (host p) (quietJudge p P k) script (fun _ _ => True) s :=
  wp_calls (quietJudge p P k) h (fun _ _ _ _ _ => trivial) trivial

/-- `umount` of the source, whatever came before. -/
theorem wp_populate_unmounts : wp (host p) (quietJudge p P k) (encryptAndPopulate label source)
    (fun _ s' => (P ⟨label, .umount (stepDirs label source)⟩).part (tmpDir source) = true →
      s'.mountedOn (tmpDir source) = none) s := by
  rw [encryptAndPopulate_eq, wp_bind]
  refine wp_mono (wp_any (calls_dmsetupCreate trivial fun _ _ => trivial)) fun _ _ _ => ?_
  rw [wp_bind]
  refine wp_mono (wp_any (.ask trivial)) fun _ _ _ => ?_
  rw [wp_bind]
  refine wp_mono (wp_any (calls_mkdirMount trivial trivial)) fun _ _ _ => ?_
  rw [wp_bind]
  refine wp_mono (wp_any (calls_mkdirMount trivial trivial)) fun _ _ _ => ?_
  rw [wp_bind]
  refine wp_mono (wp_any (.ask trivial)) fun _ s₅ _ => ?_
  refine wp_quiet_of_pattern (wp_run fun r hr _ => ?_)
  rw [next_umount hr]
  refine wp_release fun t _ _ hpart => ?_
  exact (umount_mountedOn (by simp [stepDirs])).trans (if_pos hpart)

/-- A step with a command that fails leaves its volume short. -/
theorem wp_populate_fails (h : QuietProgress p P k done dirs s) (hx : (label, source) ∈ populated)
    (hnew : label ∉ done) (hkey : s.keyring = some k) (hfails : Fails p P (label, source))
    (hsource : ¬ (label = "userdata_b" ∧ StaysMounted P) → s.mountedOn (tmpDir source) = none) :
    wp (host p) (quietJudge p P k) (encryptAndPopulate label source)
      (fun _ s' => Short p label k s') s := by
  obtain ⟨hlabel, -⟩ := populated_spec _ hx
  have hnot : source ∉ targets := source_not_target _ hx
  have hne : source ≠ label := by rintro rfl; exact hnot hlabel
  have hbooted := blankHost_booted (p := p) (k := k)
  have hvol : s.volume (lv label) = some (p.encrypt k p.blank) := by
    rw [h.steps.within.volume label hnew, blankHost_target hlabel]
  have hplain : s.volume (decryptDev label) = none := by
    rw [← Option.isNone_iff_eq_none, ← Option.not_isSome, h.steps.within.present,
      blankHost_decryptDev]
    rfl
  have htmp : s.tmpfs (tmpDir source) = Files.none :=
    h.steps.within.tmpfs source fun hd => hnot (h.steps.isTarget source hd)
  have hblank : p.read (p.decrypt k (p.encrypt k p.blank)) = none := by
    rw [p.decrypt_encrypt, p.read_blank]
  have htarget : Target label k s :=
    ⟨hkey, h.steps.free hbooted hnew, h.steps.plain hbooted label, by rw [hvol]; rfl⟩
  have hmounted := (h.steps.idle hbooted hlabel hnew).mountedOn label rfl
  refine wp_mono (wp_populate_short htarget hvol hblank hplain hmounted htmp hne ?_)
    fun _ _ hs => hs
  by_cases hpop : Populates p P label source
  · have hmounts := not_or.1 (mt (And.intro hpop) hfails)
    exact Or.inr ⟨hmounts.1, hsource hmounts.2⟩
  · exact Or.inl hpop

/-- One more step.  The source is not mounted yet, unless it stays mounted. -/
theorem wp_populateQuiet (h : QuietProgress p P k done dirs s) (hx : (label, source) ∈ populated)
    (hnew : label ∉ done) (hsource : ¬ (label = "userdata_b" ∧ StaysMounted P) →
      s.mountedOn (tmpDir source) = none) :
    wp (host p) (quietJudge p P k) (encryptAndPopulate label source)
      (fun _ s' => QuietProgress p P k (label :: done) (source :: dirs) s') s := by
  obtain ⟨hlabel, -, -, hone⟩ := populated_spec _ hx
  have hnot : source ∉ targets := source_not_target _ hx
  have hne : source ≠ label := by rintro rfl; exact hnot hlabel
  have hidle := h.steps.idle (blankHost_booted (p := p) (k := k)) hlabel hnew
  have hshort : wp (host p) (quietJudge p P k) (encryptAndPopulate label source)
      (fun _ s' => s.keyring = some k → Fails p P (label, source) → Short p label k s') s := by
    by_cases hboth : s.keyring = some k ∧ Fails p P (label, source)
    · exact wp_mono (wp_populate_fails h hx hnew hboth.1 hboth.2 hsource) fun _ _ hs _ _ => hs
    · exact wp_mono (wp_any ((calls_encryptAndPopulate (L := (· = label)) (D := (· = source))
        rfl rfl hne).mono fun _ _ => trivial)) fun _ _ _ hkey hfails => absurd ⟨hkey, hfails⟩ hboth
  refine wp_mono (wp_frame hshort (L := (· = label)) (D := (· = source))
    (calls_encryptAndPopulate rfl rfl hne) hidle) ?_
  rintro _ s' ⟨hshort', hw, hkeys⟩
  refine ⟨h.steps.step hw hlabel hnot, ⟨hkeys.blob ▸ h.keyed.blob, hkeys.keyring ▸ h.keyed.keyring⟩,
    fun hkey x hx' hdone hfails => ?_⟩
  rw [hkeys.keyring] at hkey
  by_cases hxl : x.1 = label
  · have hxe : x = (label, source) := Prod.ext hxl (hone x hx' hxl)
    subst hxe
    exact hshort' hkey hfails
  · exact (h.short hkey x hx' ((List.mem_cons.1 hdone).resolve_left hxl) hfails).frame hw hxl

/-- The key of the copies, if there are any. -/
theorem CompleteCopies.key (h : CompleteCopies p s₀ s) (hblob : s.blob = none ∨ s.blob = some k) :
    (∃ c d, s₀.volume (lv pvsnRootfs) = some c ∧ s.volume (lv "rootfs_a") = some d ∧
      p.decrypt k d = c) ∧
    ∀ x ∈ populated, ∃ f, Held p x.2 f s₀ ∧ Holds p x.1 k (f.onto p.fresh) s := by
  obtain ⟨k', hk', hcopies⟩ := h
  obtain rfl : k' = k := by
    rcases hblob with hblob | hblob
    · rw [hblob] at hk'
      cases hk'
    · exact Option.some.inj (hk'.symm.trans hblob)
  exact hcopies

/-- A blank volume is no clone. -/
theorem incomplete_of_blank (hblob : s.blob = none ∨ s.blob = some k)
    (hvol : s.volume (lv "rootfs_a") = some (p.encrypt k p.blank)) :
    ¬ CompleteCopies p (blankHost p k) s := by
  intro hcopies
  obtain ⟨⟨c, d, hc, hd, hdec⟩, -⟩ := hcopies.key hblob
  rw [blankHost_source (by decide), Option.some.injEq] at hc
  rw [hvol, Option.some.injEq] at hd
  rw [← hd, p.decrypt_encrypt, ← hc] at hdec
  have hread := read_someDisk (p := p)
  rw [← hdec, p.read_blank] at hread
  cases hread

/-- A short volume has no files of its source. -/
theorem incomplete_of_short (hblob : s.blob = none ∨ s.blob = some k) {x : String × String}
    (hx : x ∈ populated) (hshort : Short p x.1 k s) : ¬ CompleteCopies p (blankHost p k) s := by
  intro hcopies
  obtain ⟨f, ⟨c, hc, hf⟩, d, hd, hread⟩ := (hcopies.key hblob).2 x hx
  rw [blankHost_source (List.mem_cons_of_mem _ (populated_spec x hx).2.1), Option.some.injEq] at hc
  rw [← hc, read_someDisk, Option.some.injEq] at hf
  rw [← hf, someFiles_onto] at hread
  obtain ⟨d', hd', hshows⟩ := hshort.volume
  rw [Option.some.inj (hd'.symm.trans hd), hread] at hshows
  rcases hshows with h | h
  · cases h
  · exact someFiles_ne_fresh (Option.some.inj h)

/-- The last step. -/
theorem wp_cloneQuiet (h : QuietProgress p P k done dirs s) (hdone : ∀ x ∈ populated, x.1 ∈ done)
    (hnew : "rootfs_a" ∉ done) (hP : ¬ CopiesAll p P) :
    wp (host p) (quietJudge p P k) (encryptAndClone "rootfs_a" pvsnRootfs)
      (fun _ s' => ¬ CompleteCopies p (blankHost p k) s') s := by
  have hlabel : "rootfs_a" ∈ targets := by decide
  have hbooted := blankHost_booted (p := p) (k := k)
  have hcalls : (encryptAndClone "rootfs_a" pvsnRootfs).Calls
      (StepCmd (· = "rootfs_a") (· = pvsnRootfs)) := calls_encryptAndClone rfl
  have hidle := h.steps.idle hbooted hlabel hnew
  by_cases hall : Clones p P "rootfs_a" pvsnRootfs ∧ s.keyring = some k
  · -- so one of the other steps failed
    obtain ⟨x, hx, hfails⟩ : ∃ x ∈ populated, Fails p P x := by
      by_contra hnone
      push Not at hnone
      have hkey := (h.keyed.keyring.resolve_left (by rw [hall.2]; simp)).2
      have hpop := fun x hx => not_not.1 (hnone x hx)
      exact hP ⟨hkey, fun x hx => (hpop x hx).1, fun x hx => (hpop x hx).2, hall.1⟩
    have hshort := h.short hall.2 x hx (hdone x hx) hfails
    have hxl : x.1 ≠ "rootfs_a" := fun he => hnew (he ▸ hdone x hx)
    refine wp_mono (wp_frame (wp_any (hcalls.mono fun _ _ => trivial)) hcalls hidle) ?_
    rintro _ s' ⟨-, hw, hkeys⟩
    exact incomplete_of_short (hkeys.blob ▸ h.keyed.blob) hx (hshort.frame hw hxl)
  · have hvol : s.volume (lv "rootfs_a") = some (p.encrypt k p.blank) := by
      rw [h.steps.within.volume _ hnew, blankHost_target hlabel]
    refine wp_mono (wp_frame (wp_clone_blank hvol (h.steps.free hbooted hnew)
      (h.keyed.keyring.imp id And.left) hall) hcalls hidle) ?_
    rintro _ s' ⟨hvol', hw, hkeys⟩
    exact incomplete_of_blank (hkeys.blob ▸ h.keyed.blob) hvol'

/-- **Where a command fails, a copy is missing.** -/
theorem wp_copy_incomplete (hP : ¬ CopiesAll p P) :
    wp (host p) (quietJudge p P k) hiposencryptCopy
      (fun _ s => ¬ CompleteCopies p (blankHost p k) s) (blankHost p k) := by
  have hbooted := blankHost_booted (p := p) (k := k)
  -- directories that are not mounted on yet
  have hunused : ∀ {done dirs : List String} {s : Host K B} {v : String},
      Steps done dirs (blankHost p k) s → v ∉ done → v ∉ dirs → s.mountedOn (tmpDir v) = none :=
    fun hs hdone hdirs => hs.within.mounted _ hdone hdirs
  rw [hiposencryptCopy, wp_bind]
  refine wp_mono (wp_createKey_frame _ (wp_createKey_quiet rfl rfl rfl rfl)) ?_
  rintro _ s₁ ⟨hkeyed, hsteps⟩
  have h₁ : QuietProgress p P k [] ["keystore"] s₁ := ⟨hsteps, hkeyed, by simp⟩
  rw [wp_bind]
  refine wp_mono (wp_populateQuiet h₁ (by decide) (by decide) fun _ => hunused hsteps (by decide)
    (by decide)) fun _ s₂ h₂ => ?_
  rw [wp_bind]
  refine wp_mono (wp_populateQuiet h₂ (by decide) (by decide) fun _ => hunused h₂.steps (by decide)
    (by decide)) fun _ s₃ h₃ => ?_
  rw [wp_bind]
  refine wp_mono (wp_and (wp_populateQuiet h₃ (by decide) (by decide) fun _ => hunused h₃.steps
    (by decide) (by decide)) wp_populate_unmounts fun _ _ h => h) ?_
  rintro _ s₄ ⟨h₄, hunmounted⟩
  rw [wp_bind]
  refine wp_mono (wp_populateQuiet h₄ (by decide) (by decide) fun hstays => hunmounted ?_)
    fun _ s₅ h₅ => ?_
  · rw [← Bool.not_eq_false]
    exact fun h => hstays ⟨rfl, h⟩
  exact wp_cloneQuiet h₅ (by decide) (by decide) hP

/-! ## The removal -/

/-- **The sources are removed only if the copies are complete**, in every run
    whose commands fail as in `P`, whatever the volumes hold. -/
def RemovesSafely (p : Platform K B) (P : Issued → Outcome) (root : String) : Prop :=
  ∀ (s₀ : Host K B) (ω : Oracle fun _ : Issued => Resp K B), Booted s₀ → Provisioned p s₀ →
    (∀ n c, (ω n c).outcome = P c) →
    ∀ s' ω', exec (host p) (hiposencryptRun root) s₀ ω = (.done (), s', ω') →
      (∃ v ∈ sources, s'.volume (lv v) = none) → CompleteCopies p s₀ s'

variable {root : String}

/-- `lvremove` removes none of the sources. -/
def RemovesNothing (P : Issued → Outcome) (root : String) : Prop :=
  ∀ v ∈ sources, (P ⟨main, .lvremove root pvsnVolumes⟩).part (vgName v) = false

/-- The last command, after the copy. -/
theorem wp_hiposencryptRun {J : Judge Issued (fun _ => Resp K B) ℕ (Host K B)}
    {Q : Host K B → Prop} (hinv : ∀ s, J.inv s) (hok : ∀ c r, J.ok c r → r.outcome = P c)
    (h : wp (host p) J hiposencryptCopy (fun _ s => Q (s.remove (pvsnVolumes.filter
      (P ⟨main, .lvremove root pvsnVolumes⟩).part))) s₀) :
    wp (host p) J (hiposencryptRun root) (fun _ s => Q s) s₀ := by
  rw [hiposencryptRun, wp_bind]
  refine wp_mono h fun _ s hQ r hr => ⟨hinv _, ?_⟩
  show Q _
  rw [next_lvremove, hok _ _ hr]
  exact hQ

/-- Where a command fails, the sources are removed without a copy. -/
theorem wp_run_incomplete {v : String} (hv : v ∈ sources)
    (hremoves : (P ⟨main, .lvremove root pvsnVolumes⟩).part (vgName v) = true)
    (hP : ¬ CopiesAll p P) :
    wp (host p) (quietJudge p P k) (hiposencryptRun root)
      (fun _ s => s.volume (lv v) = none ∧ ¬ CompleteCopies p (blankHost p k) s)
      (blankHost p k) := by
  have hok : ∀ c r, (quietJudge p P k).ok c r → r.outcome = P c := fun c r hr => by
    rw [show r = _ from hr]
    rfl
  refine wp_hiposencryptRun (fun _ => trivial) hok
    (wp_mono (wp_copy_incomplete hP) fun _ s hs => ?_)
  exact ⟨by rw [remove_volume, if_pos ⟨hv, hremoves⟩], mt completeCopies_remove.1 hs⟩

/-- Whatever fails, the sources are there until the last command. -/
theorem wp_run_keeps (hbooted : Booted s₀) (hprov : Provisioned p s₀) (hP : RemovesNothing P root) :
    wp (host p) (patternJudge K B P) (hiposencryptRun root)
      (fun _ s => ∀ v ∈ sources, s.volume (lv v) ≠ none) s₀ := by
  have hidle : Idle (· ∈ targets) s₀ :=
    ⟨fun _ _ => hbooted.mapping _, fun _ _ => hbooted.mountedOn _⟩
  have hkeep := wp_calls (patternJudge K B P)
    (calls_hiposencryptCopy (D := fun _ => True) trivial fun _ _ => trivial)
    (fun _ _ _ hc hs => Within.next (p := p) hc hs) (Within.start hidle)
  refine wp_hiposencryptRun (fun _ => trivial) (fun _ _ hr => hr) (wp_judge (wp_mono hkeep ?_)
    (fun _ _ h => h) (fun _ _ => trivial) fun _ _ h => h)
  intro _ s hw v hv
  rw [remove_volume, if_neg (by rw [hP v hv]; simp)]
  intro hnone
  have hpresent := hw.present (lv v)
  rw [hnone, hprov.source hv] at hpresent
  cases hpresent

/-- **Exactly when the only copy is safe.** -/
theorem onlyCopy_iff [Nonempty K] :
    RemovesSafely p P root ↔ RemovesNothing P root ∨ CopiesAll p P := by
  constructor
  · intro hsafe
    by_contra hnot
    obtain ⟨hremoves, hcopies⟩ := not_or.1 hnot
    obtain ⟨v, hv, hpart⟩ : ∃ v ∈ sources,
        (P ⟨main, .lvremove root pvsnVolumes⟩).part (vgName v) = true := by
      by_contra hnone
      push Not at hnone
      exact hremoves fun v hv => Bool.eq_false_iff.2 (hnone v hv)
    obtain ⟨k⟩ := ‹Nonempty K›
    have hends := wp_exec (wp_run_incomplete (k := k) hv hpart hcopies)
      (ω := fun _ c => quietResp p P k c) fun _ _ => rfl
    rcases hrun : exec (host p) (hiposencryptRun root) (blankHost p k)
      (fun _ c => quietResp p P k c) with ⟨u | e, s', ω'⟩
    · rw [hrun] at hends
      exact hends.2 (hsafe _ _ blankHost_booted blankHost_provisioned (fun _ _ => rfl) s' ω' hrun
        ⟨v, hv, hends.1⟩)
    · rw [hrun] at hends
      exact hends
  · rintro (hnothing | hcopies) s₀ ω hbooted hprov hω s' ω' hrun
    · rintro ⟨v, hv, hnone⟩
      exact absurd hnone (wp_done (wp_run_keeps hbooted hprov hnothing) hω hrun v hv)
    · have hcomplete : wp (host p) (patternJudge K B P) (hiposencryptRun root)
          (fun _ s => CompleteCopies p s₀ s) s₀ :=
        wp_hiposencryptRun (fun _ => trivial) (fun _ _ hr => hr)
          (wp_mono (wp_hiposencryptCopy hbooted hprov hcopies) fun _ s hs =>
            completeCopies_remove.2 hs.1)
      have hdone := wp_done hcomplete hω hrun
      exact fun _ => hdone

end

/-! ## A lost copy -/

/-- The key cannot be created; every other command does what it can. -/
def keygenFails (c : Issued) : Outcome :=
  if c.cmd = .caamKeygenCreate volumeKey then .failure fun _ => false else .success

theorem onlyCopy_iff_keygenFails : RemovesSafely smallPlatform keygenFails "/dev/mmcblk0p4" ↔
    RemovesNothing keygenFails "/dev/mmcblk0p4" ∨ CopiesAll smallPlatform keygenFails :=
  onlyCopy_iff

theorem keygenFails_copiesAll : ¬ CopiesAll smallPlatform keygenFails := fun h => by
  have hcreate := h.key.create
  rw [Succeeds] at hcreate
  revert hcreate
  decide

/-- The run where it fails. -/
def lostRun : End ℕ Unit × Host Bool (Option Files × Bool) ×
    Oracle fun _ : Issued => Resp Bool (Option Files × Bool) :=
  exec (host smallPlatform) (hiposencryptRun "/dev/mmcblk0p4") (blankHost smallPlatform true)
    fun _ c => quietResp smallPlatform keygenFails true c

/-- Nothing is encrypted, and all sources are removed. -/
theorem onlyCopy_lost : ¬ RemovesSafely smallPlatform keygenFails "/dev/mmcblk0p4" ∧
    lostRun.1 = .done () ∧ (∀ v ∈ sources, lostRun.2.1.volume (lv v) = none) ∧
    ¬ CompleteCopies smallPlatform (blankHost smallPlatform true) lostRun.2.1 := by
  have hends : ∀ v ∈ sources, lostRun.1 = .done () ∧ lostRun.2.1.volume (lv v) = none ∧
      ¬ CompleteCopies smallPlatform (blankHost smallPlatform true) lostRun.2.1 := by
    intro v hv
    have hpart : (keygenFails ⟨main, .lvremove "/dev/mmcblk0p4" pvsnVolumes⟩).part (vgName v) =
        true := rfl
    have hjudge := wp_exec (wp_run_incomplete (k := true) hv hpart keygenFails_copiesAll)
      (ω := fun _ c => quietResp smallPlatform keygenFails true c) fun _ _ => rfl
    rw [← lostRun] at hjudge
    rcases hrun : lostRun with ⟨u | e, s', ω'⟩
    · rw [hrun] at hjudge
      exact ⟨rfl, hjudge⟩
    · rw [hrun] at hjudge
      exact hjudge.elim
  have hroot := hends pvsnRootfs (by decide)
  refine ⟨fun hsafe => ?_, hroot.1, fun v hv => (hends v hv).2.1, hroot.2.2⟩
  refine hroot.2.2 (hsafe _ (fun _ c => quietResp smallPlatform keygenFails true c)
    blankHost_booted blankHost_provisioned (fun _ _ => rfl) _ lostRun.2.2 ?_
      ⟨pvsnRootfs, by decide, hroot.2.1⟩)
  exact Prod.ext hroot.1 rfl

end MetaHipos.Initrd.Encrypt
