/-
  The volumes at the first boot.

  `hiposencrypt_run` encrypts five volumes, one step after the other.  A step
  keeps what the earlier ones have done.

  * `Provisioned`: the volumes as they are prepared;
  * `CompleteCopies`: what the encrypted volumes hold when all is done;
  * `Progress`, `Progress.step`: what holds after some of the steps;
  * `wp_hiposencryptCopy`: if the commands in `CopiesAll` succeed, the copies are
    complete.
-/
import Mathlib.Logic.Equiv.Bool
import Mathlib.Logic.Equiv.Prod
import MetaHipos.Initrd.Copies

namespace MetaHipos.Initrd.Encrypt

open Process

/-! ## Volumes -/

/-- The volumes that are encrypted. -/
def targets : List String := ["provisioning", "datastore", "userdata_a", "userdata_b", "rootfs_a"]

/-- The volumes that are encrypted with a file system of their own, and their
    sources. -/
def populated : List (String × String) :=
  [("provisioning", pvsnProvisioning), ("datastore", pvsnDatastore), ("userdata_a", pvsnUserdata),
    ("userdata_b", pvsnUserdata)]

/-- The volumes that are removed. -/
def sources : List String := [pvsnRootfs, pvsnUserdata, pvsnProvisioning, pvsnDatastore]

theorem target_not_source : ∀ v ∈ targets, v ∉ sources := by decide

theorem populated_target : ∀ x ∈ populated, x.1 ∈ targets := by decide

theorem source_not_target : ∀ x ∈ populated, x.2 ∉ targets := by decide

section
variable {K B : Type} {p : Platform K B} {P : Issued → Outcome} {s s' s₀ : Host K B}

/-- Nothing is mapped, mounted or in the keyring. -/
structure Booted (s : Host K B) : Prop where
  mapping : ∀ dev, s.mapping dev = none
  mountedOn : ∀ dir, s.mountedOn dir = none
  keyring : s.keyring = none
  tmpfs : ∀ dir, s.tmpfs dir = Files.none

/-- The volumes that `hiposprovisioning` creates.  The sources but the first
    hold file systems, the keystore too. -/
structure Provisioned (p : Platform K B) (s : Host K B) : Prop where
  rootfs : (s.volume (lv pvsnRootfs)).isSome
  files : ∀ source ∈ [pvsnUserdata, pvsnProvisioning, pvsnDatastore, "keystore"],
    ∃ c f, s.volume (lv source) = some c ∧ p.read c = some f
  targets : ∀ label ∈ targets, (s.volume (lv label)).isSome

theorem Provisioned.source (h : Provisioned p s) {v : String} (hv : v ∈ sources) :
    (s.volume (lv v)).isSome := by
  rcases List.mem_cons.1 hv with rfl | hv
  · exact h.rootfs
  · obtain ⟨c, f, hc, -⟩ := h.files v (by revert v; decide)
    rw [hc, Option.isSome_some]

/-- The source held the files `f`. -/
def Held (p : Platform K B) (source : String) (f : Files) (s₀ : Host K B) : Prop :=
  ∃ c, s₀.volume (lv source) = some c ∧ p.read c = some f

/-- **The copies are complete**: under the key whose blob is in the keystore,
    `rootfs_a` decrypts block for block to its source, and the other volumes
    decrypt to file systems with the files of theirs, and those of a new file
    system. -/
def CompleteCopies (p : Platform K B) (s₀ s : Host K B) : Prop :=
  ∃ k, s.blob = some k ∧
    (∃ c d, s₀.volume (lv pvsnRootfs) = some c ∧ s.volume (lv "rootfs_a") = some d ∧
      p.decrypt k d = c) ∧
    ∀ x ∈ populated, ∃ f, Held p x.2 f s₀ ∧ Holds p x.1 k (f.onto p.fresh) s

/-- The name of a volume, for `lvremove`. -/
def vgName (v : String) : String := lvmLabel ++ "/" ++ v

theorem pvsnVolumes_eq : pvsnVolumes = sources.map vgName := rfl

/-- The volumes that are left. -/
theorem remove_volume {part : String → Bool} {v : String} :
    (s.remove (pvsnVolumes.filter part)).volume (lv v) =
      if v ∈ sources ∧ part (vgName v) = true then none else s.volume (lv v) := by
  have hdev : ∀ w, "/dev/" ++ vgName w = lv w := fun w => by
    simp only [vgName, lv, String.append_assoc]
  have hmem : lv v ∈ (pvsnVolumes.filter part).map ("/dev/" ++ ·) ↔
      v ∈ sources ∧ part (vgName v) = true := by
    simp only [pvsnVolumes_eq, List.mem_map, List.mem_filter]
    constructor
    · rintro ⟨_, ⟨⟨w, hw, rfl⟩, hpart⟩, heq⟩
      rw [hdev, lv_inj] at heq
      exact heq ▸ ⟨hw, hpart⟩
    · rintro ⟨hv, hpart⟩
      exact ⟨vgName v, ⟨⟨v, hv, rfl⟩, hpart⟩, hdev v⟩
  simp only [Host.remove, hmem]

/-- What `lvremove` leaves behind, whether it succeeds or not. -/
theorem next_lvremove {step devices : String} {lvs : List String} {r : Resp K B} :
    (host p).next ⟨step, .lvremove devices lvs⟩ r s = s.remove (lvs.filter r.outcome.part) := by
  simp only [host, Host.possible, Bool.and_true, Host.success, Host.failure]
  cases r.outcome with
  | success => simp [Outcome.ok, Outcome.part]
  | failure part => simp [Outcome.ok]

/-- The copies are in the targets. -/
theorem CompleteCopies.congr (h : CompleteCopies p s₀ s) (hblob : s'.blob = s.blob)
    (hvol : ∀ v ∈ Encrypt.targets, s'.volume (lv v) = s.volume (lv v)) :
    CompleteCopies p s₀ s' := by
  obtain ⟨k, hk, ⟨c, d, hc, hd, hdec⟩, hpop⟩ := h
  refine ⟨k, hblob.trans hk, ⟨c, d, hc, (hvol _ (by decide)).trans hd, hdec⟩, fun x hx => ?_⟩
  obtain ⟨f, hheld, d, hd, hread⟩ := hpop x hx
  exact ⟨f, hheld, d, (hvol _ (populated_target x hx)).trans hd, hread⟩

/-- Removing sources neither makes nor loses copies. -/
theorem completeCopies_remove {part : String → Bool} :
    CompleteCopies p s₀ (s.remove (pvsnVolumes.filter part)) ↔ CompleteCopies p s₀ s := by
  have hkeep : ∀ v ∈ Encrypt.targets,
      (s.remove (pvsnVolumes.filter part)).volume (lv v) = s.volume (lv v) := fun v hv => by
    rw [remove_volume, if_neg fun hs => target_not_source v hv hs.1]
  exact ⟨fun h => h.congr rfl fun v hv => (hkeep v hv).symm, fun h => h.congr rfl hkeep⟩

/-! ## Steps -/

/-- Every command succeeds. -/
def AllSucceed (P : Issued → Outcome) : Prop := ∀ c, P c = .success

theorem AllSucceed.succeeds {step : String} {cmd : EncryptCmd} (h : AllSucceed P) :
    Succeeds P step cmd := by rw [Succeeds, h]; rfl

/-- The steps for `done` were taken, and nothing was mounted but on directories of
    theirs and on `dirs`. -/
structure Steps (done dirs : List String) (s₀ s : Host K B) : Prop where
  isTarget : ∀ v ∈ done, v ∈ targets
  notTarget : ∀ v ∈ dirs, v ∉ targets
  within : Within (· ∈ done) (· ∈ dirs) s₀ s

variable {k : K} {done dirs : List String} {label source : String} {f : Files}

theorem Steps.step (h : Steps done dirs s₀ s) (hw : Within (· = label) (· = source) s s')
    (hlabel : label ∈ targets) (hsource : source ∉ targets) :
    Steps (label :: done) (source :: dirs) s₀ s' where
  isTarget v hv := by
    rcases List.mem_cons.1 hv with rfl | hv
    exacts [hlabel, h.isTarget v hv]
  notTarget v hv := by
    rcases List.mem_cons.1 hv with rfl | hv
    exacts [hsource, h.notTarget v hv]
  within := h.within.cons hw fun hd => hsource (h.isTarget source hd)

theorem Steps.volume (h : Steps done dirs s₀ s) {v : String} (hv : v ∉ targets) :
    s.volume (lv v) = s₀.volume (lv v) := h.within.volume v fun hd => hv (h.isTarget v hd)

theorem Steps.plain (h : Steps done dirs s₀ s) (hbooted : Booted s₀) (v : String) :
    s.mapping (lv v) = none := by
  rw [h.within.mapping _ fun _ _ => lv_ne_decryptDev _ _, hbooted.mapping]

theorem Steps.free (h : Steps done dirs s₀ s) (hbooted : Booted s₀) (hnew : label ∉ done) :
    s.mapping (decryptDev label) = none := by
  rw [h.within.mapping _ fun w hw => ?_, hbooted.mapping]
  rw [Ne, decryptDev_inj]
  rintro rfl
  exact hnew hw

theorem Steps.idle (h : Steps done dirs s₀ s) (hbooted : Booted s₀) (hlabel : label ∈ targets)
    (hnew : label ∉ done) : Idle (· = label) s where
  mapping v hv := hv ▸ h.free hbooted hnew
  mountedOn v hv := by
    rw [hv, h.within.mounted label hnew fun hd => h.notTarget label hd hlabel, hbooted.mountedOn]

/-- What holds when the volumes in `done` are populated, with the key `k`. -/
structure Progress (p : Platform K B) (P : Issued → Outcome) (s₀ : Host K B) (k : K)
    (done dirs : List String) (s : Host K B) : Prop where
  steps : Steps done dirs s₀ s
  blob : s.blob = some k
  keyring : s.keyring = some k
  copied : ∀ x ∈ populated, x.1 ∈ done → ∃ f, Held p x.2 f s₀ ∧ Holds p x.1 k (f.onto p.fresh) s
  clean : AllSucceed P → (∀ dev, s.mapping dev = none) ∧ s.mountedOn mntKeystore = none

/-- A step keeps what the earlier ones have done. -/
theorem Progress.step (h : Progress p P s₀ k done dirs s)
    (hw : Within (· = label) (· = source) s s') (hkeys : SameKeys s s')
    (hlabel : label ∈ targets) (hnew : label ∉ done) (hsource : source ∈ sources)
    (hpop : ∀ x ∈ populated, x.1 = label → ∃ f, Held p x.2 f s₀ ∧ Holds p x.1 k (f.onto p.fresh) s')
    (hfree : AllSucceed P → s'.mapping (decryptDev label) = none) :
    Progress p P s₀ k (label :: done) (source :: dirs) s' where
  steps := h.steps.step hw hlabel fun ht => target_not_source source ht hsource
  blob := hkeys.blob.trans h.blob
  keyring := hkeys.keyring.trans h.keyring
  copied x hx hdone := by
    rcases List.mem_cons.1 hdone with hxl | hxd
    · exact hpop x hx hxl
    · obtain ⟨f, hf, c, hc, hread⟩ := h.copied x hx hxd
      refine ⟨f, hf, c, ?_, hread⟩
      rw [hw.volume x.1 (by rintro rfl; exact hnew hxd), hc]
  clean hP := by
    obtain ⟨hmap, hmnt⟩ := h.clean hP
    refine ⟨fun dev => ?_, ?_⟩
    · by_cases hdev : dev = decryptDev label
      · rw [hdev, hfree hP]
      · rw [hw.mapping dev fun v hv => by rwa [hv], hmap]
    · have hkl : "keystore" ≠ label := by rintro rfl; exact absurd hlabel (by decide)
      have hks : "keystore" ≠ source := by rintro rfl; exact absurd hsource (by decide)
      exact (hw.mounted "keystore" hkl hks).trans hmnt

theorem Progress.target (h : Progress p P s₀ k done dirs s) (hbooted : Booted s₀)
    (hprov : Provisioned p s₀) (hlabel : label ∈ targets) (hnew : label ∉ done) :
    Target label k s where
  keyring := h.keyring
  free := h.steps.free hbooted hnew
  plain := h.steps.plain hbooted label
  volume := by rw [h.steps.within.present, hprov.targets label hlabel]

theorem Steps.shows (h : Steps done dirs s₀ s) (hbooted : Booted s₀) (hheld : Held p source f s₀)
    (hsource : source ∉ targets) : Shows p source f s where
  mapping := h.plain hbooted source
  volume := by rw [h.volume hsource]; exact hheld

/-- The source of a volume. -/
theorem populated_spec : ∀ x ∈ populated, x.1 ∈ targets ∧ x.2 ∈ sources ∧
    x.2 ∈ [pvsnUserdata, pvsnProvisioning, pvsnDatastore, "keystore"] ∧
    ∀ y ∈ populated, y.1 = x.1 → y.2 = x.2 := by decide

/-- One more volume is populated. -/
theorem wp_populateNext (hbooted : Booted s₀) (hprov : Provisioned p s₀)
    (h : Progress p P s₀ k done dirs s) (hx : (label, source) ∈ populated) (hnew : label ∉ done)
    (hP : Populates p P label source)
    (hsource : MountsSource P label source ∨ s.mountedOn (tmpDir source) = some (lv source)) :
    wp (host p) (patternJudge K B P) (encryptAndPopulate label source)
      (fun _ s' => Progress p P s₀ k (label :: done) (source :: dirs) s' ∧
        Released P label source s') s := by
  obtain ⟨hlabel, hsrc, hmem, hone⟩ := populated_spec _ hx
  have hnot : source ∉ targets := source_not_target _ hx
  have hne : source ≠ label := by rintro rfl; exact hnot hlabel
  obtain ⟨c, f, hc, hf⟩ := hprov.files source hmem
  have hheld : Held p source f s₀ := ⟨c, hc, hf⟩
  refine wp_mono (wp_frame (wp_encryptAndPopulate hP hsource (h.target hbooted hprov hlabel hnew)
    (h.steps.shows hbooted hheld hnot) hne) (L := (· = label)) (D := (· = source))
      (calls_encryptAndPopulate rfl rfl hne) (h.steps.idle hbooted hlabel hnew)) ?_
  rintro _ s' ⟨⟨hholds, hreleased⟩, hw, hkeys⟩
  refine ⟨h.step hw hkeys hlabel hnew hsrc (fun x hx hxl => ?_) fun hall => ?_, hreleased⟩
  · rw [hone x hx hxl, hxl]
    exact ⟨f, hheld, hholds⟩
  · exact hreleased.mapping hall.succeeds

/-! ## The whole copy -/

/-- The commands that the copies depend on.  The source of the userdata is
    mounted twice, unless it stays mounted. -/
structure CopiesAll (p : Platform K B) (P : Issued → Outcome) : Prop where
  key : CreatesKey P
  populates : ∀ x ∈ populated, Populates p P x.1 x.2
  mounts : ∀ x ∈ populated, MountsSource P x.1 x.2 ∨ x.1 = "userdata_b" ∧
    (P ⟨"userdata_a", .umount (stepDirs "userdata_a" pvsnUserdata)⟩).part
      (tmpDir pvsnUserdata) = false
  clones : Clones p P "rootfs_a" pvsnRootfs

theorem AllSucceed.maps (h : AllSucceed P) : Maps p P label := ⟨h.succeeds, h.succeeds⟩

theorem AllSucceed.copiesAll (h : AllSucceed P) : CopiesAll p P where
  key := ⟨h.succeeds, h.succeeds, h.succeeds, h.succeeds⟩
  populates _ _ := ⟨h.maps, h.succeeds, h.succeeds, h.succeeds, h.succeeds⟩
  mounts _ _ := Or.inl ⟨h.succeeds, h.succeeds⟩
  clones := ⟨h.maps, h.succeeds⟩

/-- Creating the key touches no volume. -/
theorem wp_createKey_frame (J : Judge Issued (fun _ => Resp K B) ℕ (Host K B))
    {Q : Unit → Host K B → Prop} (h : wp (host p) J createKey Q s₀) :
    wp (host p) J createKey (fun a s => Q a s ∧ Steps [] ["keystore"] s₀ s) s₀ := by
  have hcalls := calls_createKey (L := fun v => v ∈ ([] : List String)) (D := (· ∈ ["keystore"]))
    (by simp) (by simp)
  have hidle : Idle (· ∈ ([] : List String)) s₀ :=
    ⟨fun _ h => by simp at h, fun _ h => by simp at h⟩
  have hframe := wp_calls J hcalls (fun _ _ _ hc hs => Within.next (p := p) hc hs)
    (Within.start hidle)
  refine wp_mono (wp_and h hframe fun _ _ h => h) fun _ s ⟨hQ, hw⟩ => ⟨hQ, by simp, ?_, hw⟩
  decide

/-- The key is created, and nothing copied. -/
theorem wp_firstKey (hbooted : Booted s₀) (hprov : Provisioned p s₀) (hP : CreatesKey P) :
    wp (host p) (patternJudge K B P) createKey
      (fun _ s => ∃ k, Progress p P s₀ k [] ["keystore"] s) s₀ := by
  obtain ⟨c, f, hc, hf⟩ := hprov.files "keystore" (by decide)
  refine wp_mono (wp_createKey_frame _ (wp_createKey hP ⟨hbooted.mapping _, c, hc, hf⟩)) ?_
  rintro _ s ⟨⟨k, hblob, hkeyring, hmounted⟩, hsteps⟩
  refine ⟨k, hsteps, hblob, hkeyring, by simp, fun hall => ⟨fun dev => ?_, hmounted hall.succeeds⟩⟩
  rw [hsteps.within.mapping dev fun _ h => by simp at h, hbooted.mapping]

/-- The last volume is cloned. -/
theorem wp_cloneLast (hbooted : Booted s₀) (hprov : Provisioned p s₀)
    (h : Progress p P s₀ k done dirs s) (hdone : ∀ x ∈ populated, x.1 ∈ done)
    (hnew : "rootfs_a" ∉ done) (hP : Clones p P "rootfs_a" pvsnRootfs) :
    wp (host p) (patternJudge K B P) (encryptAndClone "rootfs_a" pvsnRootfs)
      (fun _ s' => Progress p P s₀ k ("rootfs_a" :: done) (pvsnRootfs :: dirs) s' ∧
        CompleteCopies p s₀ s') s := by
  have hlabel : "rootfs_a" ∈ targets := by decide
  obtain ⟨c, hc⟩ := Option.isSome_iff_exists.1 hprov.rootfs
  have hsource : s.volume (lv pvsnRootfs) = some c := by rw [h.steps.volume (by decide), hc]
  refine wp_mono (wp_frame (wp_encryptAndClone hP (h.target hbooted hprov hlabel hnew)
    (h.steps.plain hbooted _) hsource) (L := (· = "rootfs_a")) (D := (· = pvsnRootfs))
      (calls_encryptAndClone rfl) (h.steps.idle hbooted hlabel hnew)) ?_
  rintro _ s' ⟨⟨⟨d, hd, hdec⟩, hreleased⟩, hw, hkeys⟩
  have hstep := h.step hw hkeys hlabel hnew (by decide)
    (fun x hx hxl => absurd hxl (by revert x; decide)) fun hall => hreleased hall.succeeds
  exact ⟨hstep, k, hstep.blob, ⟨c, d, hc, hd, hdec⟩,
    fun x hx => hstep.copied x hx (List.mem_cons_of_mem _ (hdone x hx))⟩

/-- **The copies are complete** when the commands in `CopiesAll` succeed. -/
theorem wp_hiposencryptCopy (hbooted : Booted s₀) (hprov : Provisioned p s₀) (hP : CopiesAll p P) :
    wp (host p) (patternJudge K B P) hiposencryptCopy
      (fun _ s => CompleteCopies p s₀ s ∧ ∃ k done dirs, Progress p P s₀ k done dirs s) s₀ := by
  have hmount : ∀ x ∈ populated, x.1 ≠ "userdata_b" → MountsSource P x.1 x.2 := fun x hx hb =>
    (hP.mounts x hx).resolve_right fun h => hb h.1
  rw [hiposencryptCopy, wp_bind]
  refine wp_mono (wp_firstKey hbooted hprov hP.key) fun _ s₁ ⟨k, h₁⟩ => ?_
  have hx₁ : ("provisioning", pvsnProvisioning) ∈ populated := by decide
  rw [wp_bind]
  refine wp_mono (wp_populateNext hbooted hprov h₁ hx₁ (by decide) (hP.populates _ hx₁)
    (Or.inl (hmount _ hx₁ (by decide)))) fun _ s₂ ⟨h₂, _⟩ => ?_
  have hx₂ : ("datastore", pvsnDatastore) ∈ populated := by decide
  rw [wp_bind]
  refine wp_mono (wp_populateNext hbooted hprov h₂ hx₂ (by decide) (hP.populates _ hx₂)
    (Or.inl (hmount _ hx₂ (by decide)))) fun _ s₃ ⟨h₃, _⟩ => ?_
  have hx₃ : ("userdata_a", pvsnUserdata) ∈ populated := by decide
  rw [wp_bind]
  refine wp_mono (wp_populateNext hbooted hprov h₃ hx₃ (by decide) (hP.populates _ hx₃)
    (Or.inl (hmount _ hx₃ (by decide)))) fun _ s₄ ⟨h₄, hreleased⟩ => ?_
  -- the source of the userdata may still be mounted
  have hx₄ : ("userdata_b", pvsnUserdata) ∈ populated := by decide
  have hsource : MountsSource P "userdata_b" pvsnUserdata ∨
      s₄.mountedOn (tmpDir pvsnUserdata) = some (lv pvsnUserdata) :=
    (hP.mounts _ hx₄).imp id fun h => by rw [hreleased.source, h.2]; rfl
  rw [wp_bind]
  refine wp_mono (wp_populateNext hbooted hprov h₄ hx₄ (by decide) (hP.populates _ hx₄) hsource)
    fun _ s₅ ⟨h₅, _⟩ => ?_
  exact wp_mono (wp_cloneLast hbooted hprov h₅ (by decide) (by decide) hP.clones)
    fun _ s₆ ⟨h₆, hcopies⟩ => ⟨hcopies, k, _, _, h₆⟩

theorem calls_hiposencryptCopy {D : String → Prop} (hkeystore : D "keystore")
    (hsources : ∀ v ∈ sources, D v) :
    hiposencryptCopy.Calls fun c => Local (· ∈ targets) D c.cmd := by
  have hstep : ∀ {script : Script Unit}, script.Calls (StepCmd (· ∈ targets) D) →
      script.Calls fun c => Local (· ∈ targets) D c.cmd := fun h => h.mono fun _ h => h.1
  have hpop : ∀ x ∈ populated, (encryptAndPopulate x.1 x.2).Calls fun c =>
      Local (· ∈ targets) D c.cmd := fun x hx => by
    refine hstep (calls_encryptAndPopulate ?_ (hsources _ ?_) (source_not_target x hx)) <;>
      revert x <;> decide
  refine .bind (calls_createKey hkeystore (by decide)) fun _ => ?_
  refine .bind (hpop (_, _) (by decide)) fun _ => .bind (hpop (_, _) (by decide)) fun _ => ?_
  refine .bind (hpop (_, _) (by decide)) fun _ => .bind (hpop (_, _) (by decide)) fun _ => ?_
  exact hstep (calls_encryptAndClone (by decide))

/-! ## Blank targets -/

/-- Files at every path, none as in a new file system. -/
def someFiles (p : Platform K B) : Files := fun path => some ((p.fresh path).getD "" ++ "x")

theorem someFiles_onto (g : Files) : (someFiles p).onto g = someFiles p := by
  funext path
  simp [Files.onto, someFiles]

theorem someFiles_ne_fresh : someFiles p ≠ p.fresh := by
  intro h
  have hpath := congrFun h ""
  rw [someFiles] at hpath
  cases hf : p.fresh "" with
  | none => rw [hf] at hpath; cases hpath
  | some a =>
    rw [hf, Option.getD_some, Option.some.injEq] at hpath
    have hlen := congrArg String.length hpath
    rw [String.length_append] at hlen
    simp at hlen

/-- A device with these files. -/
def someDisk (p : Platform K B) : ℕ → B := p.write (someFiles p) (p.format p.blank)

theorem read_someDisk : p.read (someDisk p) = some (someFiles p) := by
  rw [someDisk, p.read_write _ _ _ (p.read_format _), someFiles_onto]

/-- Sources with files, and targets that are blank under the key `k`. -/
def blankHost (p : Platform K B) (k : K) : Host K B where
  volume dev :=
    if dev ∈ ("keystore" :: sources).map lv then some (someDisk p)
    else if dev ∈ targets.map lv then some (p.encrypt k p.blank)
    else none
  blob := none
  keyFile := none
  keyring := none
  mapping _ := none
  mountedOn _ := none
  tmpfs _ := Files.none

theorem blankHost_booted : Booted (blankHost p k) := ⟨fun _ => rfl, fun _ => rfl, rfl, fun _ => rfl⟩

theorem blankHost_source {v : String} (hv : v ∈ "keystore" :: sources) :
    (blankHost p k).volume (lv v) = some (someDisk p) :=
  if_pos (List.mem_map_of_mem hv)

theorem blankHost_target {v : String} (hv : v ∈ targets) :
    (blankHost p k).volume (lv v) = some (p.encrypt k p.blank) := by
  have hnot : lv v ∉ ("keystore" :: sources).map lv := fun hmem => by
    obtain ⟨w, hw, heq⟩ := List.mem_map.1 hmem
    rw [lv_inj] at heq
    subst heq
    revert hw
    revert w
    decide
  simp only [blankHost]
  rw [if_neg hnot, if_pos (List.mem_map_of_mem hv)]

theorem blankHost_decryptDev (v : String) : (blankHost p k).volume (decryptDev v) = none := by
  have hnot : ∀ l : List String, decryptDev v ∉ l.map lv := fun l hmem => by
    obtain ⟨w, -, heq⟩ := List.mem_map.1 hmem
    exact lv_ne_decryptDev w v heq
  simp only [blankHost]
  rw [if_neg (hnot _), if_neg (hnot _)]

theorem blankHost_provisioned : Provisioned p (blankHost p k) where
  rootfs := by rw [blankHost_source (by decide)]; rfl
  files source hsource :=
    ⟨_, _, blankHost_source (by revert source; decide), read_someDisk⟩
  targets label hlabel := by rw [blankHost_target hlabel]; rfl

end

/-- A small platform: the first block holds the files, and whether they are
    scrambled. -/
def smallPlatform : Platform Bool (Option Files × Bool) where
  cipher k _ := (Equiv.refl _).prodCongr (if k then Equiv.boolNot else Equiv.refl _)
  getsz _ := 8
  read c := if (c 0).2 then none else (c 0).1
  fresh := fun path => if path = "lost+found" then some "" else none
  format c := Function.update c 0
    (some fun path => if path = "lost+found" then some "" else none, false)
  write f c := Function.update c 0 ((c 0).1.map f.onto, (c 0).2)
  blank := fun _ => (none, false)
  read_format c := by simp
  read_write f c g h := by
    split_ifs at h with hscrambled
    simp [hscrambled, h]
  read_blank := rfl

end MetaHipos.Initrd.Encrypt
