/-
  What provisioning a card leaves behind.

  On a card with the artifacts, the script ends with the volumes that the first
  boot encrypts, the image in `pvsn_rootfs`, and the verity mapping of it as the
  root file system.

  * `Deployed`, `keystoreFiles`: the boot partitions and the keystore;
  * `Installed`: the card once it is provisioned;
  * `wp_prepareSdcard`, `wp_mountAll`: the two halves of the script;
  * `Fresh.provisions`: the main result.
-/
import MetaHipos.Initrd.PvsnLoss

namespace MetaHipos.Initrd.Provision

open Process Encrypt

/-! ## Releases -/

/-- What is in the artifacts: the compressed image, its blocks, the file system
    on it and the passwords there; the image for the next boot, and what
    `veritysetup` and `openssl` read. -/
structure Release (B : Type) where
  gz : String
  image : ℕ → B
  rootfs : Files
  shadow : String
  fitimage : String
  hashdevice : String
  roothash : String
  signature : String

/-- The artifacts are files of a release. -/
structure Artifacts {K B : Type} (p : Platform K B) (z : Tools B) (a : Files) (x : Release B) :
    Prop where
  gz : a fileRootfsGz = some x.gz
  zcat : z.zcat x.gz = some x.image
  read : p.read x.image = some x.rootfs
  shadow : x.rootfs "etc/shadow" = some x.shadow
  fitimage : a fileFitimage = some x.fitimage
  hashdevice : a fileRootfsHashdevice = some x.hashdevice
  roothash : a fileRootfsRoothash = some x.roothash
  signature : a fileRootfsRoothashSignature = some x.signature

section
variable {K B : Type} {p : Platform K B} {z : Tools B} {s t : Card B} {a : Files}
  {x : Release B} {dev lvmdev : String} {Q : Unit → Card B → Prop}

/-- Every command succeeds that can, and the script does not stop. -/
def goesWell : Judge ProvCmd (fun _ => Resp B) ℕ (Card B) where
  ok := allOk
  inv _ := True
  stop _ _ := False

/-! ## States -/

/-- The card with other blocks on a volume. -/
def Card.setLv (s : Card B) (v : String) (c : ℕ → B) : Card B :=
  { s with lv := Function.update s.lv v (some c) }

/-- The card with other blocks on a partition. -/
def Card.setPart (s : Card B) (d : String) (c : ℕ → B) : Card B :=
  { s with part := Function.update s.part d (some c) }

/-- The card with other files in a directory of the init file system. -/
def Card.setTmpfs (s : Card B) (dir : String) (f : Files) : Card B :=
  { s with tmpfs := Function.update s.tmpfs dir f }

theorem write_lv {v : String} {b c : ℕ → B} (h : s.lv v = some b) :
    s.write (.lv v) c = s.setLv v c := by
  rw [Card.write, h, Card.setLv, Option.map_some]

theorem write_part {d : String} {b c : ℕ → B} (h : s.part d = some b) :
    s.write (.part d) c = s.setPart d c := by
  rw [Card.write, h, Card.setPart, Option.map_some]

@[simp] theorem setLv_self {v : String} {c : ℕ → B} : (s.setLv v c).lv v = some c :=
  Function.update_self ..

theorem setLv_ne {v w : String} {c : ℕ → B} (h : w ≠ v) : (s.setLv v c).lv w = s.lv w :=
  Function.update_of_ne h ..

theorem setLv_isSome {v w : String} {c : ℕ → B} (h : (s.lv v).isSome) :
    ((s.setLv w c).lv v).isSome := by
  by_cases hvw : v = w
  · rw [hvw, setLv_self]
    rfl
  · rwa [setLv_ne hvw]

@[simp] theorem setLv_setLv {v : String} {b c : ℕ → B} :
    (s.setLv v b).setLv v c = s.setLv v c := by
  simp only [Card.setLv, Function.update_idem]

@[simp] theorem setTmpfs_self {dir : String} {f : Files} : (s.setTmpfs dir f).tmpfs dir = f :=
  Function.update_self ..

@[simp] theorem remount_self {dir : String} {m : Option (Dev × Bool)} :
    (s.remount dir m).mountedOn dir = m := Function.update_self ..

theorem remount_ne {dir dir' : String} {m : Option (Dev × Bool)} (h : dir' ≠ dir) :
    (s.remount dir m).mountedOn dir' = s.mountedOn dir' := Function.update_of_ne h ..

/-- A mount that is undone. -/
theorem remount_none {dir : String} {m : Option (Dev × Bool)} (h : s.mountedOn dir = none) :
    (s.remount dir m).remount dir none = s := by
  simp only [Card.remount, Function.update_idem]
  rw [← h, Function.update_eq_self]

theorem remount_free {dir : String} (h : s.mountedOn dir = none) : s.remount dir none = s := by
  rw [Card.remount, ← h, Function.update_eq_self]

theorem files_memory {dir : String} (h : s.mountedOn dir = none) :
    s.files p dir = some (s.tmpfs dir) := by
  rw [Card.files, h]

theorem files_mounted {dir : String} {d : Dev} {ro : Bool} (h : s.mountedOn dir = some (d, ro)) :
    s.files p dir = (s.content d).bind p.read := by
  rw [Card.files, h]

theorem put_memory {dir : String} {f : Files} (h : s.mountedOn dir = none) :
    s.put p dir f = s.setTmpfs dir (f.onto (s.tmpfs dir)) := by
  rw [Card.put, h]
  rfl

theorem put_mounted {dir : String} {f : Files} {d : Dev} {b : ℕ → B}
    (h : s.mountedOn dir = some (d, false)) (hb : s.content d = some b) :
    s.put p dir f = s.write d (p.write f b) := by
  simp only [Card.put, h, hb]

/-! ## Commands -/

/-- A command that goes well succeeds if it can. -/
theorem wp_well {α : Type} {c : ProvCmd} {k : Result → Script α} {Q : α → Card B → Prop}
    (hok : s.possible p z c = true → ∀ r,
      wp (card p z) goesWell (k ⟨true, s.output p z c⟩) Q (s.success p z r c))
    (hfail : s.possible p z c = false → ∀ r,
      wp (card p z) goesWell (k ⟨false, ""⟩) Q (s.failure p r c)) :
    wp (card p z) goesWell (.call c k) Q s := by
  refine wp_command _ (fun _ => rfl) (fun _ => rfl) (fun _ => trivial) (fun r _ hgood => ?_)
    fun r hr hbad => ?_
  · exact hok (Bool.and_eq_true_iff.1 hgood).2 r
  · rw [show r.ok = true from hr, Bool.true_and] at hbad
    exact hfail hbad r

theorem wp_ask {c : ProvCmd} {Q : Result → Card B → Prop} (hc : s.possible p z c = true)
    (h : ∀ r, Q ⟨true, s.output p z c⟩ (s.success p z r c)) :
    wp (card p z) goesWell (Proc.ask c) Q s :=
  wp_well (fun _ r => h r) fun hno => absurd (hc.symm.trans hno) (by decide)

theorem wp_run {c : ProvCmd} (hc : s.possible p z c = true)
    (h : ∀ r, Q () (s.success p z r c)) : wp (card p z) goesWell (run c) Q s :=
  wp_well (fun _ r => h r) fun hno => absurd (hc.symm.trans hno) (by decide)

theorem wp_run_idle {c : ProvCmd} (hc : Idle c) (h : Q () s) :
    wp (card p z) goesWell (run c) Q s := by
  intro r _
  rw [next_idle hc]
  exact ⟨trivial, h⟩

theorem wp_mount {ro : Bool} {d : Dev} {dir : String}
    (hd : ((s.content d).bind p.read).isSome) (h : Q () (s.remount dir (some (d, ro)))) :
    wp (card p z) goesWell (run (.mount ro d dir)) Q s := wp_run hd fun _ => h

theorem wp_umount {dir : String} (h : Q () (s.remount dir none)) :
    wp (card p z) goesWell (run (.umount dir)) Q s := wp_run rfl fun _ => h

/-- There is no file system to be mounted. -/
theorem wp_mount_none {ro : Bool} {d : Dev} {dir : String} (hd : (s.content d).bind p.read = none)
    (h : Q () s) : wp (card p z) goesWell (run (.mount ro d dir)) Q s := by
  refine wp_well (fun hyes => ?_) fun _ _ => h
  rw [Card.possible, hd] at hyes
  cases hyes

/-- A file is copied to a file system. -/
theorem wp_cp {f f' : FilePath} {c : String} {d : Dev} {b : ℕ → B} (hf : s.file p f = some c)
    (hdir : s.mountedOn f'.dir = some (d, false)) (hb : s.content d = some b)
    (h : Q () (s.write d (p.write (single f'.path c) b))) :
    wp (card p z) goesWell (run (.cp f f')) Q s := by
  refine wp_run ?_ fun r => ?_
  · rw [Card.possible, hf, Card.writable, hdir]
    rfl
  · simpa only [Card.success, hf, put_mounted hdir hb] using h

/-- A file is copied to a directory in memory. -/
theorem wp_cp_memory {f f' : FilePath} {c : String} (hf : s.file p f = some c)
    (hdir : s.mountedOn f'.dir = none)
    (h : Q () (s.setTmpfs f'.dir ((single f'.path c).onto (s.tmpfs f'.dir)))) :
    wp (card p z) goesWell (run (.cp f f')) Q s := by
  refine wp_run ?_ fun r => ?_
  · rw [Card.possible, hf, Card.writable, hdir]
    rfl
  · simpa only [Card.success, hf, put_memory hdir] using h

/-- A new file system on a volume. -/
theorem wp_mkfs {v : String} (hv : (s.lv v).isSome)
    (h : ∀ c, p.read c = some p.fresh → Q () (s.setLv v c)) :
    wp (card p z) goesWell (run (.mkfsExt4 (.lv v))) Q s := by
  obtain ⟨b, hb⟩ := Option.isSome_iff_exists.1 hv
  have hcontent : s.content (.lv v) = some b := hb
  refine wp_run (by rw [Card.possible, hcontent]; rfl) fun r => ?_
  simpa only [Card.success, hcontent, write_lv hb] using h _ (p.read_format b)

/-! ## The artifacts -/

/-- The artifacts are in memory. -/
structure Copied (a : Files) (s : Card B) : Prop where
  mountedOn : s.mountedOn "/tmp/provisioning" = none
  tmpfs : s.tmpfs "/tmp/provisioning" = a

theorem Copied.file (h : Copied a s) (name : String) : s.file p (artifact name) = a name := by
  rw [Card.file, artifact, files_memory h.mountedOn, h.tmpfs]
  rfl

theorem wp_copyArtifacts (hp4 : s.readable p (dev ++ "p4") = some a)
    (hmnt : s.mountedOn "/tmp/mnt" = none) (hprov : Copied Files.none s)
    (h : Q () (s.setTmpfs "/tmp/provisioning" a)) :
    wp (card p z) goesWell (copyArtifacts dev) Q s := by
  rw [copyArtifacts, wp_bind]
  refine wp_mount (Option.isSome_of_eq_some hp4) ?_
  have hne : "/tmp/provisioning" ≠ "/tmp/mnt" := by decide
  have hfiles : (s.remount "/tmp/mnt" (some (.part (dev ++ "p4"), true))).files p "/tmp/mnt" =
      some a := by
    rw [files_mounted remount_self]
    exact hp4
  have hfree : (s.remount "/tmp/mnt" (some (.part (dev ++ "p4"), true))).mountedOn
      "/tmp/provisioning" = none := by
    rw [remount_ne hne]
    exact hprov.mountedOn
  rw [wp_bind]
  refine wp_run ?_ fun r => wp_umount ?_
  · rw [Card.possible, hfiles, Card.writable, hfree]
    rfl
  have honto : a.onto (s.tmpfs "/tmp/provisioning") = a := by
    rw [hprov.tmpfs]
    funext path
    exact Option.or_none
  rw [Card.success, hfiles]
  show Q () (((s.remount _ _).put p _ a).remount _ none)
  rw [put_memory hfree]
  show Q () (((s.setTmpfs _ (a.onto (s.tmpfs "/tmp/provisioning"))).remount _ _).remount _ none)
  rw [honto, remount_none]
  exacts [h, hmnt]

/-! ## The volume group -/

/-- The volumes in `names` are created on `lvmdev`. -/
structure Grouped (lvmdev : String) (s t : Card B) : Prop where
  part : ∀ d ≠ lvmdev, t.part d = s.part d
  vg : t.vg = some lvmdev
  lv : ∀ v ∈ names, (t.lv v).isSome
  verity : t.verity = s.verity
  mountedOn : t.mountedOn = s.mountedOn
  bound : t.bound = s.bound
  tmpfs : t.tmpfs = s.tmpfs
  accepted : t.accepted = s.accepted

/-- The card with the volume group on `lvmdev`. -/
def Card.group (p : Platform K B) (s : Card B) (lvmdev : String) : Card B :=
  { s with
    part := Function.update s.part lvmdev (some p.blank)
    pv := Function.update s.pv lvmdev true
    vg := some lvmdev }

theorem wp_lvcreates {vs : List (String × String)} (hvg : s.vg = some lvmdev)
    (hnew : ∀ v ∈ vs, s.lv v.1 = none) (hsize : ∀ v ∈ vs, v.2 ≠ "B")
    (hnodup : (vs.map Prod.fst).Nodup)
    (h : ∀ L, (∀ v ∈ vs, (L v.1).isSome) → (∀ w ∉ vs.map Prod.fst, L w = s.lv w) →
      Q () { s with lv := L }) :
    wp (card p z) goesWell (runAll (vs.map fun v => .lvcreate lvmdev v.1 v.2)) Q s := by
  rw [runAll]
  induction vs generalizing s with
  | nil => exact h s.lv (by simp) fun _ _ => rfl
  | cons v vs ih =>
    rw [List.map_cons, List.nodup_cons] at hnodup
    rw [List.map_cons, forEach, wp_bind]
    refine wp_run ?_ fun r => ?_
    · simp [Card.possible, hvg, hnew v List.mem_cons_self, hsize v List.mem_cons_self]
    show wp _ _ _ Q (s.setLv v.1 r.content)
    refine ih hvg (fun w hw => ?_) (fun w hw => hsize w (List.mem_cons_of_mem v hw)) hnodup.2
      fun L hL hsame => h L (fun w hw => ?_) fun w hw => ?_
    · have hne : w.1 ≠ v.1 := fun he => hnodup.1 (he ▸ List.mem_map_of_mem hw)
      rw [setLv_ne hne]
      exact hnew w (List.mem_cons_of_mem v hw)
    · rcases List.mem_cons.1 hw with rfl | hw
      · rw [hsame _ hnodup.1, setLv_self]
        rfl
      · exact hL w hw
    · rw [List.map_cons, List.mem_cons, not_or] at hw
      rw [hsame w hw.2, setLv_ne hw.1]

theorem volumes_size {bytes : String} (h : bytes ≠ "") : ∀ v ∈ volumes bytes, v.2 ≠ "B" := by
  have hbytes : bytes ++ "B" ≠ "B" := fun he => h (String.append_eq_right_iff.1 he)
  intro v hv
  simp only [volumes, List.mem_cons, List.not_mem_nil, or_false] at hv
  rcases hv with rfl | rfl | rfl | rfl | rfl | rfl | rfl | rfl | rfl | rfl | rfl <;>
    first | exact hbytes | exact of_decide_eq_true rfl

theorem wp_createLvm (hpart : (s.part lvmdev).isSome) (hvg : s.vg = none)
    (hlv : ∀ v, s.lv v = none) (ha : Copied a s) {gz : String} (hgz : a fileRootfsGz = some gz)
    (hsize : z.size gz ≠ "") (h : ∀ t, Grouped lvmdev s t → Q () t) :
    wp (card p z) goesWell (createLvm dev lvmdev) Q s := by
  rw [createLvm_eq, wp_bind]
  refine wp_run_idle trivial ?_
  rw [wp_bind]
  refine wp_run_idle trivial ?_
  rw [wp_bind]
  refine wp_run hpart fun _ => ?_
  rw [createVolumes, wp_bind]
  refine wp_run ?_ fun _ => ?_
  · simp [Card.possible, Card.success, hvg]
  show wp _ _ _ Q (s.group p lvmdev)
  have ha' : Copied a (s.group p lvmdev) := ⟨ha.mountedOn, ha.tmpfs⟩
  have hfile : (s.group p lvmdev).file p (artifact fileRootfsGz) = some gz :=
    (ha'.file _).trans hgz
  rw [wp_bind]
  -- the size of the image
  refine wp_ask ?_ fun _ => ?_
  · rw [Card.possible, hfile]
    rfl
  have hout : (s.group p lvmdev).output p z (.tail (artifact fileRootfsGz)) = z.size gz := by
    rw [Card.output, hfile]
  rw [hout, wp_bind]
  show wp _ _ _ _ (s.group p lvmdev)
  have hnodup : ((volumes (z.size gz)).map Prod.fst).Nodup := (by decide : names.Nodup)
  refine wp_lvcreates rfl (fun v _ => hlv v.1) (volumes_size hsize) hnodup fun L hL hsame => ?_
  rw [wp_bind]
  refine wp_run_idle trivial (wp_run_idle trivial (h _ ?_))
  refine ⟨fun d hd => Function.update_of_ne hd .., rfl, fun v hv => ?_, rfl, rfl, rfl, rfl, rfl⟩
  obtain ⟨w, hw, rfl⟩ := List.mem_map.1 ((names_eq (z.size gz)).symm ▸ hv)
  exact hL w hw

/-! ## The keystore -/

/-- The verity artifacts of the image in a new file system. -/
def keystoreFiles (p : Platform K B) (x : Release B) : Files :=
  (single "verity/rootfs_a.roothash.signature" x.signature).onto
    ((single "verity/rootfs_a.roothash" x.roothash).onto
      ((single "verity/rootfs_a.hashdevice" x.hashdevice).onto p.fresh))

/-- The keystore holds the blocks `c` and is mounted. -/
def Card.keystore (s : Card B) (c : ℕ → B) : Card B :=
  (s.setLv "keystore" c).remount mntKeystore (some (.lv "keystore", false))

theorem Copied.keystore (h : Copied a s) (c : ℕ → B) : Copied a (s.keystore c) := by
  have hne : "/tmp/provisioning" ≠ mntKeystore := by decide
  exact ⟨(remount_ne hne).trans h.mountedOn, h.tmpfs⟩

theorem wp_cpKeystore {name path y : String} {c : ℕ → B} {g : Files} (ha : Copied a s)
    (hy : a name = some y) (hc : p.read c = some g)
    (h : ∀ c', p.read c' = some ((single path y).onto g) → Q () (s.keystore c')) :
    wp (card p z) goesWell (run (.cp (artifact name) ⟨mntKeystore, path⟩)) Q (s.keystore c) := by
  have hlv : (s.keystore c).lv "keystore" = some c := by
    show (s.setLv "keystore" c).lv "keystore" = _
    exact setLv_self
  refine wp_cp (((ha.keystore c).file name).trans hy) remount_self hlv ?_
  rw [write_lv hlv]
  have hsame : (s.keystore c).setLv "keystore" (p.write (single path y) c) =
      s.keystore (p.write (single path y) c) := by
    show ((s.setLv _ c).setLv _ _).remount _ _ = _
    rw [setLv_setLv]
    rfl
  rw [hsame]
  exact h _ (p.read_write _ _ _ hc)

theorem wp_writeVerityArtifacts {c : ℕ → B} (ha : Copied a s)
    (hart : Artifacts p z a x) (hc : p.read c = some p.fresh)
    (h : ∀ c', p.read c' = some (keystoreFiles p x) →
      Q () (s.keystore c')) :
    wp (card p z) goesWell (writeVerityArtifacts "rootfs_a") Q (s.keystore c) := by
  rw [writeVerityArtifacts, wp_bind]
  refine wp_cpKeystore ha hart.hashdevice hc fun c hc => ?_
  rw [wp_bind]
  refine wp_cpKeystore ha hart.roothash hc fun c hc => ?_
  exact wp_cpKeystore ha hart.signature hc fun c hc => h c hc

/-- `fill_volumes` up to the image. -/
def fillKeystore : Script Unit := do
  run (.mkfsExt4 (.lv "keystore"))
  run (.mount false (.lv "keystore") mntKeystore)
  run (.mkdir [mntKeystore ++ "/caam", mntKeystore ++ "/verity"])
  writeVerityArtifacts "rootfs_a"
  run (.umount mntKeystore)

theorem wp_fillKeystore (ha : Copied a s) (hks : (s.lv "keystore").isSome)
    (hmnt : s.mountedOn mntKeystore = none) (hart : Artifacts p z a x)
    (h : ∀ c, p.read c = some (keystoreFiles p x) →
      Q () (s.setLv "keystore" c)) : wp (card p z) goesWell fillKeystore Q s := by
  rw [fillKeystore, wp_bind]
  refine wp_mkfs hks fun c hc => ?_
  rw [wp_bind]
  refine wp_mount ?_ ?_
  · have hcontent : (s.setLv "keystore" c).content (.lv "keystore") = some c := setLv_self
    rw [hcontent, Option.bind_some, hc]
    rfl
  rw [wp_bind]
  refine wp_run_idle trivial ?_
  rw [wp_bind]
  refine wp_writeVerityArtifacts ha hart hc fun c hc => wp_umount ?_
  have hback : (s.keystore c).remount mntKeystore none = s.setLv "keystore" c := remount_none hmnt
  rw [hback]
  exact h c hc

/-! ## The boot partitions -/

theorem readable_congr {d : String} (h : t.part d = s.part d) :
    t.readable p d = s.readable p d := by
  rw [Card.readable, Card.readable, h]

/-- The image for the next boot is on the partition, if that has a file system. -/
structure Deployed (p : Platform K B) (partition fit : String) (s t : Card B) : Prop where
  part : ∀ d ≠ partition, t.part d = s.part d
  pv : t.pv = s.pv
  vg : t.vg = s.vg
  lv : t.lv = s.lv
  verity : t.verity = s.verity
  mountedOn : t.mountedOn = s.mountedOn
  bound : t.bound = s.bound
  tmpfs : ∀ dir ≠ "/tmp/boot", t.tmpfs dir = s.tmpfs dir
  accepted : t.accepted = s.accepted
  deployed : ∀ f, s.readable p partition = some f →
    t.readable p partition = some ((single "fitImage.signed.deploy" fit).onto f)

theorem wp_copyFitimage {partition fit : String} (ha : Copied a s)
    (hfit : a fileFitimage = some fit) (hmnt : s.mountedOn "/tmp/boot" = none)
    (h : ∀ t, Deployed p partition fit s t → Q () t) :
    wp (card p z) goesWell (copyFitimage partition (artifact fileFitimage)) Q s := by
  rw [copyFitimage, wp_bind]
  cases hread : s.readable p partition with
  | none =>
    -- the image is copied to the directory itself
    refine wp_mount_none hread ?_
    rw [wp_bind]
    refine wp_cp_memory ((ha.file _).trans hfit) hmnt (wp_umount (h _ ?_))
    have hfree : (s.remount "/tmp/boot" none).mountedOn = s.mountedOn := by rw [remount_free hmnt]
    refine ⟨fun _ _ => rfl, rfl, rfl, rfl, rfl, hfree, rfl,
      fun dir hdir => Function.update_of_ne hdir .., rfl, fun f hf => ?_⟩
    rw [hread] at hf
    cases hf
  | some f =>
    obtain ⟨b, hb, hf⟩ := Option.bind_eq_some_iff.1 hread
    refine wp_mount (Option.isSome_of_eq_some hread) ?_
    have hne : "/tmp/provisioning" ≠ "/tmp/boot" := by decide
    have ha' : Copied a (s.remount "/tmp/boot" (some (.part partition, false))) :=
      ⟨(remount_ne hne).trans ha.mountedOn, ha.tmpfs⟩
    rw [wp_bind]
    refine wp_cp ((ha'.file _).trans hfit) remount_self hb (wp_umount ?_)
    rw [write_part (s := s.remount _ _) hb]
    have hback : ((s.remount "/tmp/boot" (some (.part partition, false))).setPart partition
        (p.write (single "fitImage.signed.deploy" fit) b)).remount "/tmp/boot" none =
        s.setPart partition (p.write (single "fitImage.signed.deploy" fit) b) :=
      remount_none (s := s.setPart _ _) hmnt
    rw [hback]
    refine h _ ⟨fun d hd => Function.update_of_ne hd .., rfl, rfl, rfl, rfl, rfl, rfl,
      fun _ _ => rfl, rfl, fun g hg => ?_⟩
    cases hread.symm.trans hg
    have hpart : (s.setPart partition (p.write (single "fitImage.signed.deploy" fit) b)).part
        partition = some (p.write (single "fitImage.signed.deploy" fit) b) :=
      Function.update_self ..
    rw [Card.readable, hpart]
    exact p.read_write _ _ _ hf

/-- The partitions for the two firmware slots. -/
def bootPartitions (dev : String) : List String := [dev ++ "p2", dev ++ "p1"]

/-- The image is on both of them. -/
structure BothDeployed (p : Platform K B) (dev fit : String) (s t : Card B) : Prop where
  part : ∀ d ∉ bootPartitions dev, t.part d = s.part d
  vg : t.vg = s.vg
  lv : t.lv = s.lv
  verity : t.verity = s.verity
  mountedOn : t.mountedOn = s.mountedOn
  bound : t.bound = s.bound
  accepted : t.accepted = s.accepted
  deployed : ∀ d ∈ bootPartitions dev, ∀ f, s.readable p d = some f →
    t.readable p d = some ((single "fitImage.signed.deploy" fit).onto f)

/-- `copy_fitimage` for both partitions. -/
def copyFitimages (dev : String) : Script Unit := do
  copyFitimage (dev ++ "p2") (artifact fileFitimage)
  copyFitimage (dev ++ "p1") (artifact fileFitimage)

theorem wp_copyFitimages {fit : String} (ha : Copied a s) (hfit : a fileFitimage = some fit)
    (hmnt : s.mountedOn "/tmp/boot" = none) (h : ∀ t, BothDeployed p dev fit s t → Q () t) :
    wp (card p z) goesWell (copyFitimages dev) Q s := by
  rw [copyFitimages, wp_bind]
  refine wp_copyFitimage ha hfit hmnt fun t ht => ?_
  have hat : Copied a t := ⟨by rw [ht.mountedOn]; exact ha.mountedOn,
    (ht.tmpfs _ (by decide)).trans ha.tmpfs⟩
  refine wp_copyFitimage hat hfit (by rw [ht.mountedOn]; exact hmnt) fun u hu => h u ?_
  have h21 : dev ++ "p2" ≠ dev ++ "p1" := fun he =>
    absurd ((String.append_right_inj dev).1 he) (by decide)
  refine ⟨fun d hd => ?_, hu.vg.trans ht.vg, hu.lv.trans ht.lv, hu.verity.trans ht.verity,
    hu.mountedOn.trans ht.mountedOn, hu.bound.trans ht.bound, hu.accepted.trans ht.accepted,
    fun d hd f hf => ?_⟩
  · rw [bootPartitions, List.mem_pair, not_or] at hd
    exact (hu.part d hd.2).trans (ht.part d hd.1)
  · rw [bootPartitions, List.mem_pair] at hd
    rcases hd with rfl | rfl
    · rw [readable_congr (hu.part _ h21)]
      exact ht.deployed f hf
    · refine hu.deployed f ?_
      rw [readable_congr (ht.part _ h21.symm)]
      exact hf

/-! ## The volumes -/

/-- **A provisioned card**: all volumes are there, `pvsn_rootfs` holds the image,
    the other sources are new file systems, and the keystore holds what verifies
    the image. -/
structure Installed (p : Platform K B) (x : Release B) (s : Card B) : Prop where
  lv : ∀ v ∈ names, (s.lv v).isSome
  rootfs : s.lv pvsnRootfs = some x.image
  fresh : ∀ v ∈ [pvsnUserdata, pvsnProvisioning, pvsnDatastore],
    (s.lv v).bind p.read = some p.fresh
  keystore : (s.lv "keystore").bind p.read = some (keystoreFiles p x)

theorem Installed.congr (h : Installed p x s) (ht : t.lv = s.lv) : Installed p x t :=
  ⟨by rw [ht]; exact h.lv, by rw [ht]; exact h.rootfs, by rw [ht]; exact h.fresh,
    by rw [ht]; exact h.keystore⟩

/-- Only volumes differ. -/
structure LvOnly (s t : Card B) : Prop where
  part : t.part = s.part
  vg : t.vg = s.vg
  verity : t.verity = s.verity
  mountedOn : t.mountedOn = s.mountedOn
  bound : t.bound = s.bound
  tmpfs : t.tmpfs = s.tmpfs
  accepted : t.accepted = s.accepted

theorem LvOnly.refl : LvOnly s s := ⟨rfl, rfl, rfl, rfl, rfl, rfl, rfl⟩

theorem LvOnly.setLv (h : LvOnly s t) (v : String) (c : ℕ → B) : LvOnly s (t.setLv v c) :=
  ⟨h.part, h.vg, h.verity, h.mountedOn, h.bound, h.tmpfs, h.accepted⟩

/-- The five volumes that are written. -/
theorem installed_setLv {c₁ c₂ c₃ c₄ : ℕ → B} (hlv : ∀ v ∈ names, (s.lv v).isSome)
    (h₁ : p.read c₁ = some (keystoreFiles p x))
    (h₂ : p.read c₂ = some p.fresh) (h₃ : p.read c₃ = some p.fresh) (h₄ : p.read c₄ = some p.fresh)
    (ht : t.lv = (((((s.setLv "keystore" c₁).setLv pvsnRootfs x.image).setLv pvsnUserdata c₂).setLv
      pvsnProvisioning c₃).setLv pvsnDatastore c₄).lv) : Installed p x t where
  lv v hv := by
    rw [ht]
    exact setLv_isSome (setLv_isSome (setLv_isSome (setLv_isSome (setLv_isSome (hlv v hv)))))
  rootfs := by
    rw [ht, setLv_ne (by decide), setLv_ne (by decide), setLv_ne (by decide), setLv_self]
  fresh v hv := by
    rw [ht]
    simp only [List.mem_cons, List.not_mem_nil, or_false] at hv
    rcases hv with rfl | rfl | rfl
    · rwa [setLv_ne (by decide), setLv_ne (by decide), setLv_self]
    · rwa [setLv_ne (by decide), setLv_self]
    · rwa [setLv_self]
  keystore := by
    rwa [ht, setLv_ne (by decide), setLv_ne (by decide), setLv_ne (by decide),
      setLv_ne (by decide), setLv_self]

/-- The image is unpacked to a volume. -/
theorem wp_zcat {f : FilePath} {gz v : String} {c : ℕ → B} (hf : s.file p f = some gz)
    (hgz : z.zcat gz = some c) (hv : (s.lv v).isSome) (h : Q () (s.setLv v c)) :
    wp (card p z) goesWell (run (.zcat f (.lv v))) Q s := by
  obtain ⟨b, hb⟩ := Option.isSome_iff_exists.1 hv
  have hbind : (s.file p f).bind z.zcat = some c := by rw [hf, Option.bind_some, hgz]
  refine wp_run ?_ fun r => ?_
  · rw [Card.possible, hbind]
    exact hv
  · simpa only [Card.success, hbind, write_lv hb] using h

/-- `fill_volumes` up to the boot partitions. -/
def fillLvs : Script Unit := do
  fillKeystore
  run (.zcat (artifact fileRootfsGz) (.lv pvsnRootfs))
  run .sync
  run (.mkfsExt4 (.lv pvsnUserdata))
  run (.mkfsExt4 (.lv pvsnProvisioning))
  run (.mkfsExt4 (.lv pvsnDatastore))

theorem fillVolumes_eq : fillVolumes dev = (do
    fillLvs
    copyFitimages dev) := rfl

theorem wp_fillLvs (hmnt : s.mountedOn mntKeystore = none) (ha : Copied a s)
    (hart : Artifacts p z a x) (hlv : ∀ v ∈ names, (s.lv v).isSome)
    (h : ∀ t, Installed p x t → LvOnly s t → Q () t) :
    wp (card p z) goesWell fillLvs Q s := by
  have hset : ∀ {v c}, Copied a (s.setLv v c) := ⟨ha.mountedOn, ha.tmpfs⟩
  rw [fillLvs, wp_bind]
  refine wp_fillKeystore ha (hlv _ (by decide)) hmnt hart fun c₁ h₁ => ?_
  rw [wp_bind]
  refine wp_zcat ((hset.file _).trans hart.gz) hart.zcat (setLv_isSome (hlv _ (by decide))) ?_
  rw [wp_bind]
  refine wp_run_idle trivial ?_
  rw [wp_bind]
  refine wp_mkfs (setLv_isSome (setLv_isSome (hlv _ (by decide)))) fun c₂ h₂ => ?_
  rw [wp_bind]
  refine wp_mkfs (setLv_isSome (setLv_isSome (setLv_isSome (hlv _ (by decide))))) fun c₃ h₃ => ?_
  refine wp_mkfs (setLv_isSome (setLv_isSome (setLv_isSome (setLv_isSome (hlv _ (by decide))))))
    fun c₄ h₄ => ?_
  exact h _ (installed_setLv hlv h₁ h₂ h₃ h₄ rfl)
    (((((LvOnly.refl.setLv _ _).setLv _ _).setLv _ _).setLv _ _).setLv _ _)

/-! ## The card -/

/-- What `prepare_sdcard` leaves behind. -/
structure Prepared (p : Platform K B) (dev lvmdev : String) (x : Release B) (s t : Card B) :
    Prop where
  installed : Installed p x t
  vg : t.vg = some lvmdev
  verity : t.verity = s.verity
  mountedOn : t.mountedOn = s.mountedOn
  bound : t.bound = s.bound
  accepted : t.accepted = s.accepted
  deployed : ∀ d ∈ bootPartitions dev, ∀ f, s.readable p d = some f →
    t.readable p d = some ((single "fitImage.signed.deploy" x.fitimage).onto f)

theorem wp_prepareSdcard (hdev : dev ++ "p4" = lvmdev) (hoff : Off s) (hfresh : Fresh p lvmdev a s)
    (hart : Artifacts p z a x) (h : ∀ t, Prepared p dev lvmdev x s t → Q () t) :
    wp (card p z) goesWell (prepareSdcard dev lvmdev) Q s := by
  have hpart : (s.part lvmdev).isSome := by
    obtain ⟨c, hc, -⟩ := Option.bind_eq_some_iff.1 hfresh.artifacts
    exact Option.isSome_of_eq_some hc
  rw [prepareSdcard, wp_bind]
  refine wp_copyArtifacts (a := a) (by rw [hdev]; exact hfresh.artifacts) (hoff.mountedOn _)
    ⟨hoff.mountedOn _, hoff.tmpfs _⟩ ?_
  have ha : Copied a (s.setTmpfs "/tmp/provisioning" a) :=
    ⟨hoff.mountedOn _, setTmpfs_self⟩
  rw [wp_bind]
  refine wp_createLvm hpart hfresh.vg hfresh.lv ha hart.gz (z.size_ne _ _ hart.zcat) fun t ht => ?_
  have hat : Copied a t := ⟨by rw [ht.mountedOn]; exact ha.mountedOn,
    by rw [ht.tmpfs]; exact ha.tmpfs⟩
  have hfree : ∀ dir, t.mountedOn dir = none := fun dir => by
    rw [ht.mountedOn]
    exact hoff.mountedOn dir
  rw [fillVolumes_eq, wp_bind]
  refine wp_fillLvs (hfree _) hat hart ht.lv fun t' ht' hsame => ?_
  have hat' : Copied a t' := ⟨by rw [hsame.mountedOn]; exact hat.mountedOn,
    by rw [hsame.tmpfs]; exact hat.tmpfs⟩
  have hboot : t'.mountedOn "/tmp/boot" = none := by
    rw [hsame.mountedOn]
    exact hfree _
  refine wp_copyFitimages hat' hart.fitimage hboot fun u hu => h u ?_
  refine ⟨ht'.congr hu.lv, hu.vg.trans (hsame.vg.trans ht.vg),
    hu.verity.trans (hsame.verity.trans ht.verity),
    hu.mountedOn.trans (hsame.mountedOn.trans ht.mountedOn),
    hu.bound.trans (hsame.bound.trans ht.bound),
    hu.accepted.trans (hsame.accepted.trans ht.accepted), fun d hd f hf => ?_⟩
  · refine hu.deployed d hd f ?_
    have hne : d ≠ lvmdev := by
      rw [bootPartitions, List.mem_pair] at hd
      rcases hd with rfl | rfl
      · rw [← hdev]
        exact (part_ne dev).1
      · rw [← hdev]
        exact (part_ne dev).2
    have hpart : t'.part d = s.part d := by
      rw [hsame.part, ht.part d hne]
      rfl
    exact (readable_congr hpart).trans hf

end

end MetaHipos.Initrd.Provision
