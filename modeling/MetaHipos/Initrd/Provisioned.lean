/-
  A provisioning boot from the card to the running system.

  * `wp_mountAll`: the root file system and the volumes below it;
  * `Running`: what the production software finds;
  * `Fresh.provisions`: a card with the artifacts is provisioned;
  * `provisioning_settled`: after any number of power losses, a card is provisioned
    by the next boot, or its artifacts are gone, and then it is never complete if
    it lacks a volume;
  * `Handover`, `provisioned_encrypts`: a provisioned card survives the first boot.
-/
import MetaHipos.Initrd.PowerLoss
import MetaHipos.Initrd.Provisioning
import MetaHipos.Initrd.PvsnBroken
import MetaHipos.Initrd.PvsnRootfs

namespace MetaHipos.Initrd.Provision

open Process Encrypt

section
variable {K B : Type} {p : Platform K B} {z : Tools B} {s t s₀ : Card B} {a : Files}
  {x : Release B} {rootfsDir lvmdev : String} {Q : Unit → Card B → Prop}

/-! ## Mounts of several volumes -/

theorem wp_mounts {vs : List (String × String)}
    (hread : ∀ v ∈ vs, ((s.lv v.1).bind p.read).isSome) (hnodup : (vs.map Prod.snd).Nodup)
    (h : ∀ M, (∀ v ∈ vs, M v.2 = some (.lv v.1, false)) →
      (∀ dir ∉ vs.map Prod.snd, M dir = s.mountedOn dir) → Q () { s with mountedOn := M }) :
    wp (card p z) goesWell (runAll (vs.map fun v => .mount false (.lv v.1) v.2)) Q s := by
  rw [runAll]
  induction vs generalizing s with
  | nil => exact h s.mountedOn (by simp) fun _ _ => rfl
  | cons v vs ih =>
    rw [List.map_cons, List.nodup_cons] at hnodup
    rw [List.map_cons, forEach, wp_bind]
    refine wp_mount (hread v List.mem_cons_self) ?_
    refine ih (fun w hw => hread w (List.mem_cons_of_mem v hw)) hnodup.2 fun M hM hsame =>
      h M (fun w hw => ?_) fun dir hdir => ?_
    · rcases List.mem_cons.1 hw with rfl | hw
      · rw [hsame _ hnodup.1, remount_self]
      · exact hM w hw
    · rw [List.map_cons, List.mem_cons, not_or] at hdir
      rw [hsame dir hdir.2, remount_ne hdir.1]

/-- The mounts are moved below `rootfsDir`. -/
theorem wp_moves {vs : List (String × String)}
    (hmounted : ∀ v ∈ vs, s.mountedOn v.2 = some (.lv v.1, false))
    (hnodup : (vs.map Prod.snd).Nodup) (hapart : ∀ v ∈ vs, ∀ w ∈ vs, rootfsDir ++ v.2 ≠ w.2)
    (h : ∀ M, (∀ v ∈ vs, M (rootfsDir ++ v.2) = some (.lv v.1, false)) →
      (∀ dir, (∀ v ∈ vs, dir ≠ v.2 ∧ dir ≠ rootfsDir ++ v.2) → M dir = s.mountedOn dir) →
      Q () { s with mountedOn := M }) :
    wp (card p z) goesWell (runAll (vs.map fun v => .mountMove v.2 (rootfsDir ++ v.2))) Q s := by
  rw [runAll]
  induction vs generalizing s with
  | nil => exact h s.mountedOn (by simp) fun _ _ => rfl
  | cons v vs ih =>
    have hmem := List.mem_cons_self (a := v) (l := vs)
    rw [List.map_cons, List.nodup_cons] at hnodup
    rw [List.map_cons, forEach, wp_bind]
    refine wp_run (by rw [Card.possible, hmounted v hmem]; rfl) fun _ => ?_
    rw [Card.success, hmounted v hmem]
    -- the other mounts are where they were
    have hstay : ∀ dir, dir ≠ v.2 → dir ≠ rootfsDir ++ v.2 → ((s.remount v.2 none).remount
        (rootfsDir ++ v.2) (some (.lv v.1, false))).mountedOn dir = s.mountedOn dir :=
      fun dir h₁ h₂ => by rw [remount_ne h₂, remount_ne h₁]
    have hne : ∀ w ∈ vs, w.2 ≠ v.2 := fun w hw he =>
      hnodup.1 (he ▸ List.mem_map_of_mem hw)
    refine ih (fun w hw => ?_) hnodup.2
      (fun w hw u hu => hapart w (List.mem_cons_of_mem v hw) u (List.mem_cons_of_mem v hu))
      fun M hM hsame => h M (fun w hw => ?_) fun dir hdir => ?_
    · have hw' := List.mem_cons_of_mem v hw
      rw [hstay w.2 (hne w hw) (hapart v hmem w hw').symm, hmounted w hw']
    · rcases List.mem_cons.1 hw with rfl | hw
      · rw [hsame, remount_self]
        refine fun u hu => ⟨hapart w hmem u (List.mem_cons_of_mem w hu), fun he => ?_⟩
        exact hne u hu ((String.append_right_inj _).1 he).symm
      · exact hM w hw
    · have hv := hdir v hmem
      rw [hsame dir fun u hu => hdir u (List.mem_cons_of_mem v hu), hstay dir hv.1 hv.2]

/-! ## The root file system -/

/-- The directory of the root file system is none of those that the script uses. -/
def Separate (rootfsDir : String) : Prop := rootfsDir ∉ "" :: "/tmp" :: mountDirs

instance : Decidable (Separate rootfsDir) :=
  inferInstanceAs (Decidable (rootfsDir ∉ "" :: "/tmp" :: mountDirs))

theorem Separate.notMem (h : Separate rootfsDir) : rootfsDir ∉ mountDirs := fun hmem =>
  h (List.mem_cons_of_mem _ (List.mem_cons_of_mem _ hmem))

/-- A provisioned card on which nothing is mounted. -/
structure Ready (p : Platform K B) (x : Release B) (s : Card B) : Prop where
  installed : Installed p x s
  mountedOn : ∀ dir, s.mountedOn dir = none
  verity : ∀ label, s.verity label = none
  bound : s.bound = []

/-- The verity mapping of the image. -/
def mapping (x : Release B) : Verity :=
  ⟨.lv pvsnRootfs, roothashFile, x.roothash, verityFile "rootfs_a" ".hashdevice"⟩

/-- What `openssl` has accepted. -/
def signed (x : Release B) : Signed := ⟨roothashPubkey, x.signature, roothashFile, x.roothash⟩

/-- The card with the keystore and the root file system mounted. -/
def Card.rootMounted (s : Card B) (x : Release B) (rootfsDir : String) : Card B :=
  { s with
    mountedOn := Function.update (Function.update s.mountedOn mntKeystore
      (some (.lv "keystore", false))) rootfsDir (some (.verity verityLabel, true))
    verity := Function.update s.verity verityLabel (some (mapping x))
    accepted := signed x :: s.accepted }

/-- The card with a verity mapping. -/
def Card.setVerity (s : Card B) (label : String) (m : Verity) : Card B :=
  { s with verity := Function.update s.verity label (some m) }

theorem setVerity_self {label : String} {m : Verity} :
    (s.setVerity label m).verity label = some m := Function.update_self ..

theorem content_verity {label name : String} {m : Verity} (h : s.verity label = some m)
    (hm : m.data = .lv name) : s.content (.verity label) = s.lv name := by
  obtain ⟨data, file, rootHash, hashDevice⟩ := m
  subst hm
  rw [Card.content, h]

/-- The card with one more accepted file. -/
def Card.accept (s : Card B) (f : Signed) : Card B := { s with accepted := f :: s.accepted }

theorem success_opensslVerify {r : Resp B} {pubkey c₁ c₂ : String} {f₁ f₂ : FilePath}
    (h₁ : s.file p f₁ = some c₁) (h₂ : s.file p f₂ = some c₂) :
    s.success p z r (.opensslVerify pubkey f₁ f₂) = s.accept ⟨pubkey, c₁, f₂, c₂⟩ := by
  simp only [Card.success, h₁, h₂]
  rfl

/-- The artifacts in the mounted keystore. -/
theorem Installed.keystore_file (h : Installed p x s)
    (hmnt : s.mountedOn mntKeystore = some (.lv "keystore", false)) :
    s.file p (verityFile "rootfs_a" ".roothash.signature") = some x.signature ∧
    s.file p roothashFile = some x.roothash ∧
    s.file p (verityFile "rootfs_a" ".hashdevice") = some x.hashdevice := by
  have hfiles : s.files p mntKeystore = some (keystoreFiles p x) := by
    rw [files_mounted hmnt]
    exact h.keystore
  have hfile : ∀ suffix, s.file p (verityFile "rootfs_a" suffix) =
      keystoreFiles p x ("verity/" ++ "rootfs_a" ++ suffix) := fun suffix => by
    rw [Card.file, verityFile, hfiles]
    rfl
  rw [roothashFile, hfile, hfile, hfile]
  simp [keystoreFiles, Files.onto, single]

theorem wp_mountRootfs (h : Ready p x s) (hart : Artifacts p z a x)
    (hQ : Q () (s.rootMounted x rootfsDir)) :
    wp (card p z) goesWell (do
      run (.mount false (.lv "keystore") mntKeystore)
      verifyMountRootfs pvsnRootfs "rootfs_a" rootfsDir) Q s := by
  rw [wp_bind]
  refine wp_mount (by rw [Card.content, h.installed.keystore]; rfl) ?_
  have hinst : Installed p x (s.remount mntKeystore (some (.lv "keystore", false))) :=
    h.installed.congr rfl
  obtain ⟨hsig, hhash, hdev⟩ := hinst.keystore_file remount_self
  rw [verifyMountRootfs_eq, wp_bind]
  refine wp_ask (by rw [Card.possible, hsig, hhash]; rfl) fun _ => ?_
  rw [success_opensslVerify hsig hhash]
  refine (wp_ite ..).2 ⟨fun hno => ?_, fun _ => ?_⟩
  · cases hno
  generalize ht : (s.remount mntKeystore (some (.lv "keystore", false))).accept
    ⟨roothashPubkey, x.signature, roothashFile, x.roothash⟩ = t
  have hhash' : t.file p roothashFile = some x.roothash := by
    rw [← ht]
    exact hhash
  have hdev' : t.file p (verityFile "rootfs_a" ".hashdevice") = some x.hashdevice := by
    rw [← ht]
    exact hdev
  have hlv : t.content (.lv pvsnRootfs) = some x.image := by
    rw [← ht]
    exact h.installed.rootfs
  have hnone : t.verity verityLabel = none := by
    rw [← ht]
    exact h.verity _
  rw [wp_bind]
  refine wp_run (by rw [Card.possible, hhash', hlv, hnone, hdev']; rfl) fun _ => ?_
  rw [Card.success, hhash']
  show wp _ _ _ Q (t.setVerity verityLabel (mapping x))
  refine wp_mount ?_ ?_
  · rw [content_verity setVerity_self rfl]
    exact Option.isSome_of_eq_some ((congrArg (Option.bind · p.read) hlv).trans hart.read)
  · subst ht
    exact hQ

/-! ## The volumes below it -/

/-- The volumes that are mounted, … -/
def sourceMounts : List (String × String) :=
  [(pvsnUserdata, mntUserdata), (pvsnProvisioning, mntProvisioning), (pvsnDatastore, mntDatastore)]

/-- … and those that are moved below the root file system. -/
def movedMounts : List (String × String) :=
  [(pvsnUserdata, mntUserdata), ("keystore", mntKeystore), (pvsnDatastore, mntDatastore),
    (pvsnProvisioning, mntProvisioning)]

theorem mountSources_eq : mountSources rootfsDir = (do
    runAll (sourceMounts.map fun v => .mount false (.lv v.1) v.2)
    run (.cp ⟨rootfsDir, "etc/shadow"⟩ ⟨"/tmp", "etc_shadow"⟩)
    run (.sed ⟨"/tmp", "etc_shadow"⟩)) := rfl

theorem moveMounts_eq : moveMounts rootfsDir =
    runAll (movedMounts.map fun v => .mountMove v.2 (rootfsDir ++ v.2)) := rfl

/-- A file in memory is edited. -/
theorem wp_sed_memory {f : FilePath} {c : String} (hf : s.file p f = some c)
    (hdir : s.mountedOn f.dir = none)
    (h : Q () (s.setTmpfs f.dir ((single f.path (z.sed c)).onto (s.tmpfs f.dir)))) :
    wp (card p z) goesWell (run (.sed f)) Q s := by
  refine wp_run ?_ fun r => ?_
  · rw [Card.possible, hf, Card.writable, hdir]
    rfl
  · simpa only [Card.success, hf, put_memory hdir] using h

/-- What is mounted before the mounts are moved. -/
structure Mounted (x : Release B) (rootfsDir : String) (s : Card B) : Prop where
  rootfs : s.mountedOn rootfsDir = some (.verity verityLabel, true)
  verity : s.verity verityLabel = some (mapping x)
  accepted : signed x ∈ s.accepted
  tmp : s.mountedOn "/tmp" = none
  moved : ∀ v ∈ movedMounts, s.mountedOn v.2 = some (.lv v.1, false)

/-- The passwords of the image are replaced. -/
structure Injected (z : Tools B) (x : Release B) (rootfsDir : String) (s : Card B) : Prop where
  bound : s.bound = [(⟨"/tmp", "etc_shadow"⟩, ⟨rootfsDir, "etc/shadow"⟩)]
  shadow : s.tmpfs "/tmp" "etc_shadow" = some (z.sed x.shadow)

theorem Mounted.shadow (h : Mounted x rootfsDir s) (hart : Artifacts p z a x)
    (hlv : s.lv pvsnRootfs = some x.image) :
    s.file p ⟨rootfsDir, "etc/shadow"⟩ = some x.shadow := by
  rw [Card.file, files_mounted h.rootfs, content_verity h.verity rfl, hlv, Option.bind_some,
    hart.read]
  exact hart.shadow

/-- The mounts of the sources. -/
theorem mounted_sources {M : String → Option (Dev × Bool)} (h : Ready p x s)
    (hroot : Separate rootfsDir) (hM : ∀ v ∈ sourceMounts, M v.2 = some (.lv v.1, false))
    (hsame : ∀ dir ∉ sourceMounts.map Prod.snd, M dir = (s.rootMounted x rootfsDir).mountedOn dir) :
    Mounted x rootfsDir { s.rootMounted x rootfsDir with mountedOn := M } := by
  have hne : ∀ {dir}, dir ∈ "" :: "/tmp" :: mountDirs → dir ≠ rootfsDir := fun hmem he =>
    hroot (he ▸ hmem)
  have hrootfs : rootfsDir ∉ sourceMounts.map Prod.snd := fun hmem =>
    hroot.notMem ((by decide : ∀ dir ∈ sourceMounts.map Prod.snd, dir ∈ mountDirs) _ hmem)
  have hkeystore : M mntKeystore = some (.lv "keystore", false) := by
    rw [hsame _ (by decide)]
    show Function.update _ rootfsDir _ mntKeystore = _
    rw [Function.update_of_ne (hne (by decide)), Function.update_self]
  have hverity : (s.rootMounted x rootfsDir).verity verityLabel = some (mapping x) := by
    show (s.setVerity verityLabel (mapping x)).verity verityLabel = _
    exact setVerity_self
  refine ⟨?_, hverity, List.mem_cons_self, ?_, fun v hv => ?_⟩
  · exact (hsame _ hrootfs).trans (Function.update_self ..)
  · refine (hsame _ (by decide)).trans ?_
    show Function.update (Function.update s.mountedOn mntKeystore _) rootfsDir _ "/tmp" = none
    rw [Function.update_of_ne (hne (by decide)), Function.update_of_ne (by decide)]
    exact h.mountedOn _
  · have hcases : v ∈ sourceMounts ∨ v = ("keystore", mntKeystore) := by
      revert v
      decide
    rcases hcases with hv | rfl
    exacts [hM v hv, hkeystore]

/-- **What the production software finds**: the verified image as its root file
    system, with the passwords replaced, and below it the volumes. -/
structure Running (z : Tools B) (x : Release B) (rootfsDir : String) (s : Card B) : Prop where
  rootfs : s.mountedOn rootfsDir = some (.verity verityLabel, true)
  verity : s.verity verityLabel = some (mapping x)
  accepted : signed x ∈ s.accepted
  below : ∀ v ∈ movedMounts, s.mountedOn (rootfsDir ++ v.2) = some (.lv v.1, false)
  injected : Injected z x rootfsDir s

/-- The directories below `rootfsDir` are none of the others. -/
theorem Separate.apart (h : Separate rootfsDir) :
    ∀ v ∈ movedMounts, ∀ w ∈ movedMounts, rootfsDir ++ v.2 ≠ w.2 := by
  intro v hv w hw he
  have hsuffix : v.2.toList <:+ w.2.toList := by
    rw [← he, String.toList_append]
    exact List.suffix_append ..
  have hsame : v.2 = w.2 := (by decide : ∀ v ∈ movedMounts, ∀ w ∈ movedMounts,
    v.2.toList <:+ w.2.toList → v.2 = w.2) v hv w hw hsuffix
  rw [← hsame, String.append_eq_right_iff] at he
  exact h (he ▸ List.mem_cons_self)

/-- The mounts once the passwords are in memory. -/
theorem wp_bindAndMove (h : Mounted x rootfsDir s) (hroot : Separate rootfsDir)
    (hart : Artifacts p z a x) (hlv : s.lv pvsnRootfs = some x.image) (hbound : s.bound = [])
    (hshadow : s.tmpfs "/tmp" "etc_shadow" = some (z.sed x.shadow))
    (hQ : ∀ t, t.lv = s.lv → t.part = s.part → Running z x rootfsDir t → Q () t) :
    wp (card p z) goesWell (do
      run (.mountBind ⟨"/tmp", "etc_shadow"⟩ ⟨rootfsDir, "etc/shadow"⟩)
      moveMounts rootfsDir) Q s := by
  have hfile : s.file p ⟨"/tmp", "etc_shadow"⟩ = some (z.sed x.shadow) := by
    rw [Card.file, files_memory h.tmp]
    exact hshadow
  rw [wp_bind]
  refine wp_run (by rw [Card.possible, hfile, h.shadow hart hlv]; rfl) fun _ => ?_
  rw [moveMounts_eq]
  refine wp_moves h.moved (by decide) hroot.apart fun M hM hsame => hQ _ rfl rfl ?_
  have hroots : ∀ v ∈ movedMounts, rootfsDir ≠ v.2 ∧ rootfsDir ≠ rootfsDir ++ v.2 := fun v hv => by
    obtain ⟨hmem, hne⟩ := (by decide : ∀ v ∈ movedMounts, v.2 ∈ mountDirs ∧ v.2 ≠ "") v hv
    exact ⟨fun he => hroot.notMem (he ▸ hmem),
      fun he => hne (String.append_eq_left_iff.1 he.symm)⟩
  refine ⟨(hsame rootfsDir hroots).trans h.rootfs, h.verity, h.accepted, hM, ?_, hshadow⟩
  exact congrArg (List.cons _) hbound

/-- `mount_volumes` on a provisioned card. -/
theorem wp_mountVolumes (h : Ready p x s) (hart : Artifacts p z a x) (hroot : Separate rootfsDir)
    (hQ : ∀ t, t.lv = s.lv → t.part = s.part → Running z x rootfsDir t → Q () t) :
    wp (card p z) goesWell (mountVolumes rootfsDir) Q (s.rootMounted x rootfsDir) := by
  rw [mountVolumes_eq, wp_bind, mountSources_eq, wp_bind]
  refine wp_mounts (fun v hv => ?_) (by decide) fun M hM hsame => ?_
  · have hmem := (by decide : ∀ v ∈ sourceMounts,
      v.1 ∈ [pvsnUserdata, pvsnProvisioning, pvsnDatastore]) v hv
    show ((s.lv v.1).bind p.read).isSome
    rw [h.installed.fresh _ hmem]
    rfl
  have hmounted := mounted_sources h hroot hM hsame
  have hlv : ({ s.rootMounted x rootfsDir with mountedOn := M } : Card B).lv = s.lv := rfl
  have hpart : ({ s.rootMounted x rootfsDir with mountedOn := M } : Card B).part = s.part := rfl
  have hbound : ({ s.rootMounted x rootfsDir with mountedOn := M } : Card B).bound = [] := h.bound
  generalize ({ s.rootMounted x rootfsDir with mountedOn := M } : Card B) = u at *
  have himage : u.lv pvsnRootfs = some x.image := by rw [hlv, h.installed.rootfs]
  -- the passwords
  rw [wp_bind]
  refine wp_cp_memory (hmounted.shadow hart himage) hmounted.tmp ?_
  refine wp_sed_memory (c := x.shadow) ?_ hmounted.tmp ?_
  · rw [Card.file, files_memory (s := u.setTmpfs _ _) hmounted.tmp, setTmpfs_self]
    simp [Files.onto, single]
  refine wp_bindAndMove ⟨hmounted.rootfs, hmounted.verity, hmounted.accepted, hmounted.tmp,
    hmounted.moved⟩ hroot hart himage hbound ?_ fun t ht ht' =>
      hQ t (ht.trans hlv) (ht'.trans hpart)
  rw [setTmpfs_self]
  simp [Files.onto, single]

/-! ## Boots -/

/-- `vgs` does not find a volume group. -/
theorem wp_vgs_none {Q : Result → Card B → Prop} (hvg : s.vg = none) (h : Q ⟨false, ""⟩ s) :
    wp (card p z) goesWell (Proc.ask (.vgs lvmdev)) Q s := by
  refine wp_well (fun hyes => ?_) fun _ _ => h
  rw [Card.possible, hvg] at hyes
  cases hyes

theorem mountAll_eq : mountAll rootfsDir = (do
    (do
      run (.mount false (.lv "keystore") mntKeystore)
      verifyMountRootfs pvsnRootfs "rootfs_a" rootfsDir)
    mountVolumes rootfsDir) := rfl

theorem wp_mountAll (h : Ready p x s) (hart : Artifacts p z a x) (hroot : Separate rootfsDir)
    (hQ : ∀ t, t.lv = s.lv → t.part = s.part → Running z x rootfsDir t → Q () t) :
    wp (card p z) goesWell (mountAll rootfsDir) Q s := by
  rw [mountAll_eq, wp_bind]
  exact wp_mountRootfs h hart (wp_mountVolumes h hart hroot hQ)

/-- The image of the next boot is added to the boot partitions that have a file
    system. -/
def ImageDeployed (p : Platform K B) (lvmdev : String) (x : Release B) (s t : Card B) : Prop :=
  ∀ d ∈ bootPartitions (devOf lvmdev), ∀ f, s.readable p d = some f →
    t.readable p d = some ((single "fitImage.signed.deploy" x.fitimage).onto f)

theorem wp_provisions (hdev : devOf lvmdev ++ "p4" = lvmdev) (hroot : Separate rootfsDir)
    (hoff : Off s) (hfresh : Fresh p lvmdev a s) (hart : Artifacts p z a x) :
    wp (card p z) goesWell (hiposprovisioningRun rootfsDir lvmdev)
      (fun _ t => Installed p x t ∧ ImageDeployed p lvmdev x s t ∧ Running z x rootfsDir t) s := by
  rw [hiposprovisioningRun_eq, prepareMounts, wp_bind, wp_bind]
  refine wp_run_idle trivial ?_
  rw [wp_bind]
  refine wp_run_idle trivial (wp_run_idle trivial ?_)
  rw [wp_bind]
  refine wp_vgs_none hfresh.vg ?_
  rw [wp_bind]
  refine wp_prepareSdcard hdev hoff hfresh hart fun t ht => ?_
  have hready : Ready p x t := ⟨ht.installed, fun dir => by rw [ht.mountedOn, hoff.mountedOn],
    fun label => by rw [ht.verity, hoff.verity], by rw [ht.bound, hoff.bound]⟩
  refine wp_mountAll hready hart hroot fun u hlv hpart hrun => ⟨ht.installed.congr hlv, ?_, hrun⟩
  intro d hd f hf
  rw [readable_congr (congrFun hpart d)]
  exact ht.deployed d hd f hf

/-- **A card with the artifacts is provisioned** by a boot that is not cut: the
    volumes of the first boot are there and filled, the image of the next boot is
    on both boot partitions, and the verified root file system is running. -/
theorem Fresh.provisions {ω : Oracle fun _ : ProvCmd => Resp B}
    (hfresh : Fresh p lvmdev a s) (hoff : Off s) (hart : Artifacts p z a x)
    (hdev : devOf lvmdev ++ "p4" = lvmdev) (hroot : Separate rootfsDir)
    (hω : ∀ n c, (ω n c).ok = true) :
    ∃ t ω', exec (card p z) (hiposprovisioningRun rootfsDir lvmdev) s ω = (.done (), t, ω') ∧
      Installed p x t ∧ ImageDeployed p lvmdev x s t ∧ Running z x rootfsDir t := by
  have hend := wp_exec (wp_provisions (z := z) hdev hroot hoff hfresh hart) (ω := ω) hω
  rcases hrun : exec (card p z) (hiposprovisioningRun rootfsDir lvmdev) s ω with ⟨e | e, t, ω'⟩
  · rw [hrun] at hend
    exact ⟨t, ω', rfl, hend⟩
  · rw [hrun] at hend
    exact hend.elim

/-- **After any number of power losses** the artifacts are still there, and the
    next boot that is not cut provisions the card, or they are gone; if a volume is
    missing then, some volume stays missing for ever. -/
theorem provisioning_settled (hoff : Off s₀) (hfresh : Fresh p lvmdev a s₀)
    (hart : Artifacts p z a x) (hdev : devOf lvmdev ++ "p4" = lvmdev) (hroot : Separate rootfsDir)
    (h : Boots p z rootfsDir lvmdev s₀ s) :
    (s.readable p lvmdev = some a ∧ ∀ ω : Oracle fun _ : ProvCmd => Resp B,
      (∀ n c, (ω n c).ok = true) → ∃ t ω',
        exec (card p z) (hiposprovisioningRun rootfsDir lvmdev) s ω = (.done (), t, ω') ∧
        Installed p x t ∧ ImageDeployed p lvmdev x s t ∧ Running z x rootfsDir t) ∨
    (s.readable p lvmdev = none ∧ ((∃ v ∈ names, s.lv v = none) →
      ∀ s', Boots p z rootfsDir lvmdev s s' → (∃ v ∈ names, s'.lv v = none) ∧
        ∀ ω : Oracle fun _ : ProvCmd => Resp B, (∀ n c, (ω n c).ok = true) → ∃ v ∈ names,
          (exec (card p z) (hiposprovisioningRun rootfsDir lvmdev) s' ω).2.1.lv v = none)) := by
  obtain ⟨hoff', hfresh' | hgone⟩ := h.atBoot hdev ⟨hoff, .inl hfresh⟩
  · exact .inl ⟨hfresh'.artifacts, fun ω hω => hfresh'.provisions hoff' hart hdev hroot hω⟩
  · refine .inr ⟨hgone.artifacts, fun hmissing s' hs' => ?_⟩
    obtain ⟨hoff'', hbroken⟩ := hs'.broken hdev hoff' ⟨hgone, hmissing⟩
    exact ⟨hbroken.2, fun ω hω => (hbroken.boot_missing hdev hoff'' hω).2⟩

end

/-- The release on the card of the small platform. -/
def smallRelease : Release (Option Files × Bool) :=
  ⟨"gz", disk (single "etc/shadow" "root:*:"), single "etc/shadow" "root:*:", "root:*:", "fitImage",
    "tree", "hash", "signature"⟩

theorem smallRelease_artifacts :
    Artifacts smallPlatform smallTools smallArtifacts smallRelease :=
  ⟨by decide, rfl, rfl, rfl, by decide, by decide, by decide, by decide⟩

/-- The power is lost after eight commands. -/
theorem provisioning_settled_once :
    let E := card smallPlatform smallTools
    let script := hiposprovisioningRun "/rootfs" smallRoot
    let s := (cut E 8 script smallCard allWell).powerOff
    (s.readable smallPlatform smallRoot = some smallArtifacts ∧
      ∀ ω : Oracle fun _ : ProvCmd => Resp (Option Files × Bool), (∀ n c, (ω n c).ok = true) →
        ∃ t ω', exec E script s ω = (.done (), t, ω') ∧ Installed smallPlatform smallRelease t ∧
          ImageDeployed smallPlatform smallRoot smallRelease s t ∧
          Running smallTools smallRelease "/rootfs" t) ∨
    (s.readable smallPlatform smallRoot = none ∧ ((∃ v ∈ names, s.lv v = none) →
      ∀ s', Boots smallPlatform smallTools "/rootfs" smallRoot s s' →
        (∃ v ∈ names, s'.lv v = none) ∧
        ∀ ω : Oracle fun _ : ProvCmd => Resp (Option Files × Bool), (∀ n c, (ω n c).ok = true) →
          ∃ v ∈ names, (exec E script s' ω).2.1.lv v = none)) :=
  provisioning_settled smallCard_off smallCard_fresh smallRelease_artifacts devOf_smallRoot
    (by decide) (.cut (ω := allWell) 8 .first (fun _ _ _ => rfl) (fun _ _ => trivial)
      loss_powerOff)

section
variable {K B : Type} {p : Platform K B} {z : Tools B} {s s₀ : Card B} {a : Files}
  {x : Release B} {rootfsDir lvmdev : String}

/-! ## The first boot -/

/-- What the first boot finds of a provisioned card: the same volumes.
    `pvsn_rootfs` was not mounted for writing; the files in the other volumes may
    have changed in the production. -/
structure Handover (p : Platform K B) (s : Card B) (h : Host K B) : Prop where
  booted : Encrypt.Booted h
  rootfs : h.volume (lv pvsnRootfs) = s.lv pvsnRootfs
  present : ∀ v, (h.volume (lv v)).isSome = (s.lv v).isSome
  files : ∀ v, ((s.lv v).bind p.read).isSome → ((h.volume (lv v)).bind p.read).isSome

variable {h₀ h : Host K B}

/-- The script leaves behind what `hiposencrypt` relies on. -/
theorem Installed.provisioned (hs : Installed p x s) (hand : Handover p s h₀) :
    Provisioned p h₀ where
  rootfs := by rw [hand.rootfs, hs.rootfs]; rfl
  files v hv := by
    have hread : ((s.lv v).bind p.read).isSome := by
      have hcases : v ∈ [pvsnUserdata, pvsnProvisioning, pvsnDatastore] ∨ v = "keystore" := by
        revert v
        decide
      rcases hcases with hv | rfl
      · rw [hs.fresh v hv]
        rfl
      · rw [hs.keystore]
        rfl
    obtain ⟨f, hf⟩ := Option.isSome_iff_exists.1 (hand.files v hread)
    obtain ⟨c, hc, hcf⟩ := Option.bind_eq_some_iff.1 hf
    exact ⟨c, f, hc, hcf⟩
  targets v hv := by
    rw [hand.present]
    exact hs.lv v ((by decide : ∀ v ∈ Encrypt.targets, v ∈ names) v hv)

/-- **From the card to the encrypted device**: whatever power losses there were
    before the card was provisioned, and then in the first boot, in the end
    `rootfs_a` decrypts to the image of the artifacts, under the key in the
    keystore. -/
theorem provisioned_encrypts (hoff : Off s₀) (hfresh : Fresh p lvmdev a s₀)
    (hart : Artifacts p z a x) (hdev : devOf lvmdev ++ "p4" = lvmdev) (hroot : Separate rootfsDir)
    (hboots : Boots p z rootfsDir lvmdev s₀ s) (hreadable : s.readable p lvmdev ≠ none)
    {ω : Oracle fun _ : ProvCmd => Resp B} (hω : ∀ n c, (ω n c).ok = true) :
    ∃ t ω', exec (card p z) (hiposprovisioningRun rootfsDir lvmdev) s ω = (.done (), t, ω') ∧
      ∀ h₀ : Host K B, Handover p t h₀ → ∀ root h, Encrypt.Boots p root h₀ h →
        ∀ ν : Oracle fun _ : Issued => Encrypt.Resp K B, (∀ n c, (ν n c).outcome = .success) →
          ∃ b h' ν', exec (host p) (boot root) h ν = (.done b, h', ν') ∧
            ∃ k d, h'.blob = some k ∧ h'.volume (lv "rootfs_a") = some d ∧
              p.decrypt k d = x.image := by
  obtain ⟨hoff', hfresh' | hgone⟩ := hboots.atBoot hdev ⟨hoff, .inl hfresh⟩
  · obtain ⟨t, ω', hrun, hinst, -⟩ := hfresh'.provisions (z := z) hoff' hart hdev hroot hω
    refine ⟨t, ω', hrun, fun h₀ hand root h hh ν hν => ?_⟩
    have hprov := hinst.provisioned hand
    have hat := hh.atBoot hand.booted hprov
    have hends := wp_exec (wp_of_wpCut (wpCut_boot root hprov hat)) hν
    rcases hrun' : exec (host p) (boot root) h ν with ⟨b | e, h', ν'⟩
    · rw [hrun'] at hends
      obtain ⟨k, hblob, ⟨c, d, hc, hd, hdec⟩, -⟩ := hends
      rw [hand.rootfs, hinst.rootfs, Option.some.injEq] at hc
      exact ⟨b, h', ν', rfl, k, d, hblob, hd, hdec.trans hc.symm⟩
    · rw [hrun'] at hends
      exact hends.elim
  · exact absurd hgone.artifacts hreadable

end

/-- A machine that boots with the volumes of a card. -/
def hostOf {K B : Type} (s : Card B) : Host K B where
  volume dev :=
    if (lv "").toList <+: dev.toList then
      s.lv (String.ofList (dev.toList.drop (lv "").toList.length))
    else none
  blob := none
  keyFile := none
  keyring := none
  mapping _ := none
  mountedOn _ := none
  tmpfs _ := Files.none

theorem hostOf_volume {K B : Type} (s : Card B) (v : String) :
    (hostOf s : Host K B).volume (lv v) = s.lv v := by
  have hlv : (lv v).toList = (lv "").toList ++ v.toList := by
    simp [lv, String.toList_append]
  rw [hostOf]
  simp only [hlv, List.prefix_append, if_true, List.drop_left, String.ofList_toList]

theorem handover_hostOf {K B : Type} (p : Platform K B) (s : Card B) :
    Handover p s (hostOf s : Host K B) where
  booted := ⟨fun _ => rfl, fun _ => rfl, rfl, fun _ => rfl⟩
  rootfs := hostOf_volume s _
  present v := by rw [hostOf_volume]
  files v h := by rwa [hostOf_volume]

set_option maxRecDepth 10000 in
/-- The power is lost after eight commands of the provisioning, and then after
    25 commands of the first boot. -/
theorem provisioned_encrypts_cut :
    let E := card smallPlatform smallTools
    let script := hiposprovisioningRun "/rootfs" smallRoot
    ∃ t ω', exec E script (cut E 8 script smallCard allWell).powerOff allWell = (.done (), t, ω') ∧
      ∃ b h' ν', exec (host smallPlatform) (boot smallRoot)
          (cut (host smallPlatform) 25 (boot smallRoot) (hostOf t) allSucceed).reboot allSucceed =
          (.done b, h', ν') ∧
        ∃ k d, h'.blob = some k ∧ h'.volume (lv "rootfs_a") = some d ∧
          smallPlatform.decrypt k d = smallRelease.image := by
  intro E script
  have hreadable : ((cut E 8 script smallCard allWell).powerOff.readable smallPlatform
      smallRoot).isSome = true := by decide
  obtain ⟨t, ω', hrun, hencrypts⟩ := provisioned_encrypts smallCard_off smallCard_fresh
    smallRelease_artifacts devOf_smallRoot (by decide)
    (.cut (ω := allWell) 8 .first (fun _ _ _ => rfl) (fun _ _ => trivial) loss_powerOff)
    (Option.isSome_iff_ne_none.1 hreadable) (ω := allWell) fun _ _ => rfl
  exact ⟨t, ω', hrun, hencrypts (hostOf t) (handover_hostOf _ t) smallRoot _
    (.cut (ω := allSucceed) 25 .first (fun _ _ _ => rfl) (fun _ _ => torn_of_success rfl)
      powerLoss_reboot) allSucceed fun _ _ => rfl⟩

end MetaHipos.Initrd.Provision
