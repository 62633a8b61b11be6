/-
  Only a signed root file system of the booted slot is mounted.

  Most commands of `hiposmount` are not checked.  Without a mapping there is no
  device to be mounted, however, and that mount is checked.

  * `wp_dmsetupCreate`, `wp_mount`: what unchecked commands may do;
  * `Opened`: the mappings of the booted slot, which later commands keep;
  * `hiposmount_verified`: where the last line is reached, all of them belong to
    one slot, and the root hash is the one that was accepted;
  * `hiposmount_leftover`: not so if something else was left under the name of
    the decrypted root file system;
  * `hiposmountRun_verified`: the last line changes nothing of this.
-/
import MetaHipos.Initrd.Hiposmount

namespace MetaHipos.Initrd

open Process

/-! ## Commands that may fail -/

/-- Nothing is asked for but the end of the script. -/
def anyOutcome (α : Type) : Judge MountCmd (fun _ => Result) ℕ (Machine α) where
  ok _ _ := True
  inv _ := True
  stop _ _ := True

section
variable {α : Type} {read : List Mount → String → Option α} {s : Machine α}

theorem wp_ask {β : Type} {c : MountCmd} {k : Result → Script β} {Q : β → Machine α → Prop}
    (h : ∀ r : Result, wp (machine read) (anyOutcome α)
      (k { r with ok := s.succeeds read c r.ok }) Q
      (if s.succeeds read c r.ok then s.effect read c else s)) :
    wp (machine read) (anyOutcome α) (Proc.ask c >>= k) Q s :=
  fun r _ => ⟨trivial, h r⟩

/-- A command without an effect on devices and mounts. -/
theorem wp_noEffect {β : Type} {c : MountCmd} {k : Result → Script β} {Q : β → Machine α → Prop}
    (hc : s.effect read c = s)
    (h : ∀ r, wp (machine read) (anyOutcome α) (k r) Q s) :
    wp (machine read) (anyOutcome α) (Proc.ask c >>= k) Q s := by
  refine wp_ask fun r => ?_
  rw [hc, ite_self]
  exact h _

/-- `dmsetup create` may leave things as they are. -/
theorem wp_dmsetupCreate {label lvm : String} {Q : Unit → Machine α → Prop} (hfail : Q () s)
    (hok : s.device (mapper label) = none → Q () (s.map label (.crypt lvm))) :
    wp (machine read) (anyOutcome α) (dmsetupCreate label lvm) Q s := by
  refine wp_noEffect rfl fun sectors => wp_ask fun r => ?_
  split_ifs with hr
  · rw [Machine.succeeds, Bool.and_eq_true, Option.isNone_iff_eq_none] at hr
    exact hok hr.2
  · exact hfail

/-- So may a mount; else its device exists. -/
theorem wp_mount {β : Type} {ro : Bool} {dev dir : String} {k : Result → Script β}
    {Q : β → Machine α → Prop}
    (hfail : ∀ r, r.ok = false → wp (machine read) (anyOutcome α) (k r) Q s)
    (hok : ∀ r, r.ok = true → s.device dev ≠ none →
      wp (machine read) (anyOutcome α) (k r) Q { s with mounts := ⟨dir, dev, ro⟩ :: s.mounts }) :
    wp (machine read) (anyOutcome α) (Proc.ask (.mount ro dev dir) >>= k) Q s := by
  refine wp_ask fun r => ?_
  split_ifs with hr
  · have hdev := hr
    rw [Machine.succeeds, Bool.and_eq_true, Option.isSome_iff_ne_none] at hdev
    exact hok _ hr hdev.2
  · exact hfail _ (by simpa using hr)

/-- A temporary file system may be mounted. -/
theorem wp_mountTmpfs {β : Type} {dir : String} {k : Result → Script β} {Q : β → Machine α → Prop}
    (h : ∀ r tmpfs, (∀ m ∈ tmpfs, m = ⟨dir, "tmp", false⟩) →
      wp (machine read) (anyOutcome α) (k r) Q { s with mounts := tmpfs ++ s.mounts }) :
    wp (machine read) (anyOutcome α) (Proc.ask (.mountTmpfs dir) >>= k) Q s := by
  refine wp_ask fun r => ?_
  split_ifs
  · exact h _ [⟨dir, "tmp", false⟩] (by simp)
  · exact h _ [] (by simp)

/-! ## The mappings of a slot -/

/-- The path is a name of the volume. -/
def IsVolume (volume path : String) : Prop :=
  path = "/dev/mapper/hydralvm-" ++ volume ∨ path = "/dev/hydralvm/" ++ volume

/-- The root-hash file of a slot. -/
def roothashFile (x : String) : String := mntKeystore ++ "/verity/rootfs_" ++ x ++ ".roothash"

/-- The hash device of a slot. -/
def hashDevice (x : String) : String := mntKeystore ++ "/verity/rootfs_" ++ x ++ ".hashdevice"

/-- If the device exists, it decrypts the volume. -/
def Decrypts (s : Machine α) (label volume : String) : Prop :=
  ∀ d, s.device (mapper label) = some d → ∃ dev, d = .crypt dev ∧ IsVolume volume dev

theorem Decrypts.of_none {label volume : String} (h : s.device (mapper label) = none) :
    Decrypts s label volume := fun d hd => by
  rw [h] at hd
  cases hd

/-- The mappings of the slot `x` are open, with a root hash that was accepted. -/
structure Opened (x : String) (s : Machine α) : Prop where
  verity : ∃ rootHash signature, s.device (mapper (labelVerityRootfs ++ x)) =
      some (.verity (mapper (labelDecryptRootfs ++ x)) (roothashFile x) rootHash (hashDevice x)) ∧
    ⟨roothashPubkey, signature, roothashFile x, rootHash⟩ ∈ s.accepted
  rootfs : ∃ dev, s.device (mapper (labelDecryptRootfs ++ x)) = some (.crypt dev) ∧
    IsVolume ("rootfs_" ++ x) dev
  userdata : Decrypts s (labelDecryptUserdata ++ x) ("userdata_" ++ x)

theorem mapper_ne {l l' : String} (h : l ≠ l') : mapper l ≠ mapper l' := fun he =>
  h (String.append_right_inj _ |>.1 he)

theorem map_device_ne {label l : String} {d : Device α} (h : l ≠ label) :
    (s.map label d).device (mapper l) = s.device (mapper l) :=
  Function.update_of_ne (mapper_ne h) ..

theorem map_device_self {label : String} {d : Device α} :
    (s.map label d).device (mapper label) = some d := Function.update_self ..

/-- New mappings with other labels change nothing. -/
theorem Opened.map {x label lvm : String} (h : Opened x s) (hv : labelVerityRootfs ++ x ≠ label)
    (hr : labelDecryptRootfs ++ x ≠ label)
    (hu : labelDecryptUserdata ++ x = label → IsVolume ("userdata_" ++ x) lvm) :
    Opened x (s.map label (.crypt lvm)) where
  verity := by rw [map_device_ne hv]; exact h.verity
  rootfs := by rw [map_device_ne hr]; exact h.rootfs
  userdata d hd := by
    by_cases hl : labelDecryptUserdata ++ x = label
    · rw [hl, map_device_self] at hd
      exact ⟨lvm, (Option.some.inj hd).symm, hu hl⟩
    · rw [map_device_ne hl] at hd
      exact h.userdata d hd

/-! ## The script -/

/-- The mounts that may be made below the root file system. -/
def BelowRootfs (rootfsDir x : String) (m : Mount) : Prop :=
  m = ⟨rootfsDir ++ mntUserdata, mapper (labelDecryptUserdata ++ x), false⟩ ∨
  m = ⟨rootfsDir ++ mntDatastore, mapper labelDecryptDatastore, false⟩ ∨
  m = ⟨rootfsDir ++ mntProvisioning, mapper labelDecryptProvisioning, true⟩

/-- The mounts from the machine `s₀` on: perhaps `/tmp`, the keystore, the root
    file system, and volumes below it. -/
def MountedFrom (rootfsDir x : String) (s₀ s : Machine α) : Prop :=
  ∃ below tmpfs, (∀ m ∈ below, BelowRootfs rootfsDir x m) ∧
    (∀ m ∈ tmpfs, m = ⟨"/tmp", "tmp", false⟩) ∧
    s.mounts = below ++ ⟨rootfsDir, mapper (labelVerityRootfs ++ x), true⟩ ::
      ⟨mntKeystore, lvmKeystore, true⟩ :: (tmpfs ++ s₀.mounts)

/-- What the machine is before the script runs: no root file system is open, and
    mappings that are left over decrypt the volumes they are named after. -/
structure Booted (s₀ : Machine α) : Prop where
  verity : ∀ x, x = "a" ∨ x = "b" → s₀.device (mapper (labelVerityRootfs ++ x)) = none
  rootfs : ∀ x, x = "a" ∨ x = "b" → Decrypts s₀ (labelDecryptRootfs ++ x) ("rootfs_" ++ x)
  userdata : ∀ x, x = "a" ∨ x = "b" → Decrypts s₀ (labelDecryptUserdata ++ x) ("userdata_" ++ x)
  accepted : s₀.accepted = []

theorem firmwareslotOf_cases (slot : String) :
    firmwareslotOf slot = "a" ∨ firmwareslotOf slot = "b" := by
  unfold firmwareslotOf
  split_ifs
  exacts [Or.inl rfl, Or.inr rfl]

/-- The labels of a slot are different. -/
theorem labels_ne {x : String} (hx : x = "a" ∨ x = "b") :
    labelVerityRootfs ++ x ≠ labelDecryptRootfs ++ x ∧
    labelVerityRootfs ++ x ≠ labelDecryptUserdata ++ x ∧
    labelDecryptRootfs ++ x ≠ labelDecryptUserdata ++ x ∧
    ∀ l ∈ [labelDecryptDatastore, labelDecryptProvisioning], labelVerityRootfs ++ x ≠ l ∧
      labelDecryptRootfs ++ x ≠ l ∧ labelDecryptUserdata ++ x ≠ l := by
  rcases hx with rfl | rfl <;> decide

/-- The root hash is accepted, but nothing is open. -/
structure Checked (read : List Mount → String → Option α) (x : String) (s : Machine α) : Prop where
  verity : s.device (mapper (labelVerityRootfs ++ x)) = none
  rootfs : Decrypts s (labelDecryptRootfs ++ x) ("rootfs_" ++ x)
  userdata : Decrypts s (labelDecryptUserdata ++ x) ("userdata_" ++ x)
  accepted : ∃ rootHash signature, read s.mounts (roothashFile x) = some rootHash ∧
    ⟨roothashPubkey, signature, roothashFile x, rootHash⟩ ∈ s.accepted

/-- The root file system is decrypted, or not. -/
theorem wp_decryptRootfs {x : String} (hx : x = "a" ∨ x = "b") (h : Checked read x s) :
    wp (machine read) (anyOutcome α) (dmsetupCreate (labelDecryptRootfs ++ x) (lvmRootfs ++ x))
      (fun _ s' => Checked read x s' ∧ s'.mounts = s.mounts) s := by
  obtain ⟨hvr, -, hru, -⟩ := labels_ne hx
  refine wp_dmsetupCreate ⟨h, rfl⟩ fun _ => ⟨⟨?_, ?_, ?_, h.accepted⟩, rfl⟩
  · rw [map_device_ne hvr]
    exact h.verity
  · intro d hd
    rw [map_device_self] at hd
    exact ⟨_, (Option.some.inj hd).symm, Or.inl (by rw [← String.append_assoc]; rfl)⟩
  · intro d hd
    rw [map_device_ne hru.symm] at hd
    exact h.userdata d hd

/-- `veritysetup open` needs the mapping of the decrypted root file system. -/
theorem wp_verityOpen {x : String} {k : Result → Script Unit} {Q : Unit → Machine α → Prop}
    (hx : x = "a" ∨ x = "b") (h : Checked read x s)
    (hfail : ∀ r, wp (machine read) (anyOutcome α) (k r) Q s)
    (hok : ∀ r s', Opened x s' → s'.mounts = s.mounts →
      wp (machine read) (anyOutcome α) (k r) Q s') :
    wp (machine read) (anyOutcome α) (Proc.ask (.veritysetupOpen (roothashFile x)
      (mapper (labelDecryptRootfs ++ x)) (labelVerityRootfs ++ x) (hashDevice x)) >>= k) Q s := by
  obtain ⟨hvr, hvu, -, -⟩ := labels_ne hx
  obtain ⟨rootHash, signature, hread, hacc⟩ := h.accepted
  refine wp_ask fun r => ?_
  split_ifs with hr
  · refine hok _ _ ?_ (by rw [Machine.effect, hread]; rfl)
    simp only [Machine.succeeds, Bool.and_eq_true, Option.isSome_iff_exists] at hr
    obtain ⟨⟨⟨⟨-, d, hd⟩, -⟩, -⟩, -⟩ := hr
    obtain ⟨dev, rfl, hdev⟩ := h.rootfs d hd
    rw [Machine.effect, hread]
    refine ⟨⟨rootHash, signature, map_device_self, hacc⟩, ⟨dev, ?_, hdev⟩, fun d' hd' => ?_⟩
    · rw [map_device_ne hvr.symm, hd]
    · rw [map_device_ne hvu.symm] at hd'
      exact h.userdata d' hd'
  · exact hfail _

/-- The volumes below the root file system are mounted, as far as possible. -/
theorem wp_belowRootfs {rootfsDir x : String} {s₀ : Machine α} {dev dir : String} {ro : Bool}
    {β : Type} {k : Result → Script β} {Q : β → Machine α → Prop}
    (hm : BelowRootfs rootfsDir x ⟨dir, dev, ro⟩)
    (hopen : Opened x s) (hmounts : MountedFrom rootfsDir x s₀ s)
    (hk : ∀ r s', Opened x s' → MountedFrom rootfsDir x s₀ s' →
      wp (machine read) (anyOutcome α) (k r) Q s') :
    wp (machine read) (anyOutcome α) (Proc.ask (.mount ro dev dir) >>= k) Q s := by
  refine wp_mount (fun r _ => hk r s hopen hmounts) fun r _ _ => hk r _ ?_ ?_
  · exact ⟨hopen.verity, hopen.rootfs, hopen.userdata⟩
  · obtain ⟨below, tmpfs, hbelow, htmpfs, heq⟩ := hmounts
    refine ⟨⟨dir, dev, ro⟩ :: below, tmpfs, fun m hmem => ?_, htmpfs, by rw [heq, List.cons_append]⟩
    rcases List.mem_cons.1 hmem with rfl | hmem
    exacts [hm, hbelow m hmem]

/-- The part of the script up to the mount of the root file system. -/
theorem wp_rootfs {rootfsDir x : String} {k : Result → Script Unit} {Q : Unit → Machine α → Prop}
    (hx : x = "a" ∨ x = "b") (h : Checked read x s)
    (hfail : ∀ r s', r.ok = false → wp (machine read) (anyOutcome α) (k r) Q s')
    (hok : ∀ r s', r.ok = true → Opened x s' →
      s'.mounts = ⟨rootfsDir, mapper (labelVerityRootfs ++ x), true⟩ :: s.mounts →
      wp (machine read) (anyOutcome α) (k r) Q s') :
    wp (machine read) (anyOutcome α) (do
      dmsetupCreate (labelDecryptRootfs ++ x) (lvmRootfs ++ x)
      let _ ← Proc.ask (.veritysetupOpen (roothashFile x) (mapper (labelDecryptRootfs ++ x))
        (labelVerityRootfs ++ x) (hashDevice x))
      let rootfs ← Proc.ask (.mount true (mapper (labelVerityRootfs ++ x)) rootfsDir)
      k rootfs) Q s := by
  rw [wp_bind]
  refine wp_mono (wp_decryptRootfs hx h) fun _ s₁ ⟨h₁, hm₁⟩ => ?_
  refine wp_verityOpen hx h₁ (fun _ => ?_) fun _ s₂ h₂ hm₂ => ?_
  · -- without the mapping the mount fails
    exact wp_mount (fun r hr => hfail r _ hr) fun r _ hdev => absurd h₁.verity hdev
  · refine wp_mount (fun r hr => hfail r _ hr) fun r hr _ => hok r _ hr ?_ ?_
    · exact ⟨h₂.verity, h₂.rootfs, h₂.userdata⟩
    · rw [hm₂, hm₁]

/-- The mappings of the volumes below the root file system. -/
theorem wp_decryptBelow {x : String} {k : Script Unit} {Q : Unit → Machine α → Prop}
    (hx : x = "a" ∨ x = "b") (h : Opened x s)
    (hk : ∀ s', Opened x s' → s'.mounts = s.mounts → wp (machine read) (anyOutcome α) k Q s') :
    wp (machine read) (anyOutcome α) (do
      dmsetupCreate (labelDecryptUserdata ++ x) (lvmUserdata ++ x)
      dmsetupCreate labelDecryptDatastore lvmDatastore
      dmsetupCreate labelDecryptProvisioning lvmProvisioning
      k) Q s := by
  obtain ⟨-, hvu, hru, hother⟩ := labels_ne hx
  obtain ⟨hvd, hrd, hud⟩ := hother labelDecryptDatastore (by simp)
  obtain ⟨hvp, hrp, hup⟩ := hother labelDecryptProvisioning (by simp)
  have huser : IsVolume ("userdata_" ++ x) (lvmUserdata ++ x) :=
    Or.inl (by rw [← String.append_assoc]; rfl)
  let kept (_ : Unit) (s' : Machine α) := Opened x s' ∧ s'.mounts = s.mounts
  rw [wp_bind]
  refine wp_mono (Q := kept) (wp_dmsetupCreate ⟨h, rfl⟩ fun _ =>
    ⟨h.map hvu hru fun _ => huser, rfl⟩) fun _ s₁ ⟨h₁, hm₁⟩ => ?_
  rw [wp_bind]
  refine wp_mono (Q := kept) (wp_dmsetupCreate ⟨h₁, hm₁⟩ fun _ =>
    ⟨h₁.map hvd hrd fun he => absurd he hud, hm₁⟩) fun _ s₂ ⟨h₂, hm₂⟩ => ?_
  rw [wp_bind]
  refine wp_mono (Q := kept) (wp_dmsetupCreate ⟨h₂, hm₂⟩ fun _ =>
    ⟨h₂.map hvp hrp fun he => absurd he hup, hm₂⟩) fun _ s₃ ⟨h₃, hm₃⟩ => ?_
  exact hk s₃ h₃ hm₃

/-- The signature check, from a machine where nothing is open yet. -/
theorem wp_opensslVerify {x signature : String} {k : Result → Script Unit}
    {Q : Unit → Machine α → Prop} (hverity : s.device (mapper (labelVerityRootfs ++ x)) = none)
    (hrootfs : Decrypts s (labelDecryptRootfs ++ x) ("rootfs_" ++ x))
    (huserdata : Decrypts s (labelDecryptUserdata ++ x) ("userdata_" ++ x))
    (hfail : ∀ r s', r.ok = false → wp (machine read) (anyOutcome α) (k r) Q s')
    (hok : ∀ r s', r.ok = true → Checked read x s' → s'.mounts = s.mounts →
      wp (machine read) (anyOutcome α) (k r) Q s') :
    wp (machine read) (anyOutcome α)
      (Proc.ask (.opensslVerify roothashPubkey signature (roothashFile x)) >>= k) Q s := by
  refine wp_ask fun r => ?_
  split_ifs with hr
  · have hfiles := hr
    simp only [Machine.succeeds, Bool.and_eq_true, Option.isSome_iff_exists] at hfiles
    obtain ⟨⟨-, sig, hsig⟩, rootHash, hroot⟩ := hfiles
    refine hok _ _ hr ?_ (by rw [Machine.effect, hsig, hroot])
    rw [Machine.effect, hsig, hroot]
    exact ⟨hverity, hrootfs, huserdata, rootHash, sig, hroot, List.mem_cons_self⟩
  · exact hfail _ _ (by simpa using hr)

/-- All of the script but its last line. -/
theorem wp_hiposmountPrepare {rootfsDir slot : String} {s₀ : Machine α} (h : Booted s₀) :
    wp (machine read) (anyOutcome α) (hiposmountPrepare rootfsDir slot)
      (fun _ s => Opened (firmwareslotOf slot) s ∧ MountedFrom rootfsDir (firmwareslotOf slot) s₀ s)
      s₀ := by
  have hx := firmwareslotOf_cases slot
  rw [hiposmountPrepare]
  generalize firmwareslotOf slot = x at hx ⊢
  refine wp_mountTmpfs fun _ tmpfs htmpfs => wp_noEffect rfl fun _ =>
    wp_mount (fun r hr => ?_) fun r hr _ => ?_
  · rw [if_pos hr]
    trivial
  rw [if_neg (by rw [hr]; decide)]
  refine wp_opensslVerify (h.verity x hx) (h.rootfs x hx) (h.userdata x hx) (fun r s₁ hr => ?_)
    fun r s₁ hr h₁ hm₁ => ?_
  · rw [if_pos hr]
    trivial
  rw [if_neg (by rw [hr]; decide)]
  refine wp_noEffect rfl fun _ => wp_noEffect rfl fun _ => wp_noEffect rfl fun _ =>
    wp_rootfs hx h₁ (fun r s₂ hr => ?_) fun r s₂ hr h₂ hm₂ => ?_
  · rw [if_pos hr]
    trivial
  rw [if_neg (by rw [hr]; decide)]
  refine wp_decryptBelow hx h₂ fun s₃ h₃ hm₃ => ?_
  have hmounts : MountedFrom rootfsDir x s₀ s₃ :=
    ⟨[], tmpfs, by simp, htmpfs, by rw [hm₃, hm₂, hm₁]; rfl⟩
  refine wp_belowRootfs (Or.inl rfl) h₃ hmounts fun _ s₄ h₄ hm₄ => ?_
  refine wp_belowRootfs (Or.inr (Or.inl rfl)) h₄ hm₄ fun _ s₅ h₅ hm₅ => ?_
  exact wp_belowRootfs (Or.inr (Or.inr rfl)) h₅ hm₅ fun _ s₆ h₆ hm₆ => ⟨h₆, hm₆⟩

/-! ## What is mounted -/

/-- No volume below the root file system is mounted on it. -/
theorem BelowRootfs.dir_ne {rootfsDir x : String} {m : Mount} (h : BelowRootfs rootfsDir x m) :
    m.dir ≠ rootfsDir := by
  have hne : ∀ below, below ≠ "" → rootfsDir ++ below ≠ rootfsDir := fun below hb he =>
    hb (by simpa using he)
  rcases h with rfl | rfl | rfl
  exacts [hne mntUserdata (by decide), hne mntDatastore (by decide),
    hne mntProvisioning (by decide)]

theorem MountedFrom.mountedOn {rootfsDir x : String} {s₀ : Machine α}
    (h : MountedFrom rootfsDir x s₀ s) :
    s.mountedOn rootfsDir = some (mapper (labelVerityRootfs ++ x)) := by
  obtain ⟨below, tmpfs, hbelow, -, heq⟩ := h
  have hnone : below.find? (fun m => decide (m.dir = rootfsDir)) = none := by
    rw [List.find?_eq_none]
    intro m hm
    simpa using (hbelow m hm).dir_ne
  rw [Machine.mountedOn, heq, List.find?_append, hnone, Option.none_or, List.find?_cons_of_pos]
  · rfl
  · simp

/-- A move of the keystore leaves the root file system mounted. -/
theorem mountedOn_move {rootfsDir dir dir' : String} (h : rootfsDir ≠ dir) (h' : dir' ≠ rootfsDir) :
    (s.effect read (.mountMove dir dir')).mountedOn rootfsDir = s.mountedOn rootfsDir := by
  cases hm : s.mounts.find? fun m => m.dir = dir with
  | none => simp only [Machine.effect, hm]
  | some m =>
    have hdir : m.dir = dir := by simpa using List.find?_some hm
    have herase : ∀ l : List Mount, (l.erase m).find? (fun m => decide (m.dir = rootfsDir)) =
        l.find? fun m => decide (m.dir = rootfsDir) := by
      intro l
      induction l with
      | nil => rfl
      | cons a l ih =>
        by_cases ha : a = m
        · subst ha
          rw [List.erase_cons_head, List.find?_cons_of_neg]
          simpa [hdir] using h.symm
        · rw [List.erase_cons_tail (by simpa using ha), List.find?_cons, List.find?_cons, ih]
    simp only [Machine.effect, hm, Machine.mountedOn]
    rw [List.find?_cons_of_neg (by simpa using h'), herase]

/-- **Only a signed root file system of the booted slot is mounted**, whatever
    the keystore contains and whichever commands fail. -/
theorem hiposmount_verified {rootfsDir slot : String} {s₀ s : Machine α}
    {ω ω' : Oracle fun _ : MountCmd => Result} (h : Booted s₀)
    (hrun : exec (machine read) (hiposmountPrepare rootfsDir slot) s₀ ω = (.done (), s, ω')) :
    ∃ x, x = (if slot = "a" then "a" else "b") ∧
      s.mountedOn rootfsDir = some (mapper (labelVerityRootfs ++ x)) ∧
      s₀.device (mapper (labelVerityRootfs ++ x)) = none ∧ Opened x s ∧
      MountedFrom rootfsDir x s₀ s := by
  obtain ⟨hopen, hmounts⟩ := wp_done (wp_hiposmountPrepare h) (fun _ _ => trivial) hrun
  exact ⟨firmwareslotOf slot, rfl, hmounts.mountedOn, h.verity _ (firmwareslotOf_cases slot), hopen,
    hmounts⟩

/-- The same after the whole script. -/
theorem hiposmountRun_verified {rootfsDir slot : String} {s₀ s : Machine α}
    {ω ω' : Oracle fun _ : MountCmd => Result} (h : Booted s₀) (hdir : rootfsDir ≠ mntKeystore)
    (hrun : exec (machine read) (hiposmountRun rootfsDir slot) s₀ ω = (.done (), s, ω')) :
    s.mountedOn rootfsDir = some (mapper (labelVerityRootfs ++ firmwareslotOf slot)) ∧
      Opened (firmwareslotOf slot) s := by
  have hbelow : rootfsDir ++ mntKeystore ≠ rootfsDir := fun he =>
    absurd (show mntKeystore = "" by simpa using he) (by decide)
  let Q (_ : Unit) (s : Machine α) : Prop :=
    s.mountedOn rootfsDir = some (mapper (labelVerityRootfs ++ firmwareslotOf slot)) ∧
      Opened (firmwareslotOf slot) s
  have hwp : wp (machine read) (anyOutcome α) (hiposmountRun rootfsDir slot) Q s₀ := by
    rw [hiposmountRun, wp_bind]
    refine wp_mono (wp_hiposmountPrepare h) fun _ s₁ ⟨hopen, hmounts⟩ => wp_ask fun r => ?_
    rw [wp_pure]
    split_ifs
    · refine ⟨(mountedOn_move hdir hbelow).trans hmounts.mountedOn, ?_⟩
      simp only [Machine.effect]
      split
      · exact ⟨hopen.verity, hopen.rootfs, hopen.userdata⟩
      · exact hopen
    · exact ⟨hmounts.mountedOn, hopen⟩
  exact wp_done (Q := Q) hwp (fun _ _ => trivial) hrun

end

/-- The volumes that `hiposprovisioning` creates; all files are alike. -/
def provisioned : Machine Unit where
  device path :=
    if path ∈ [lvmKeystore, lvmDatastore, lvmProvisioning, lvmRootfs ++ "a", lvmRootfs ++ "b",
      lvmUserdata ++ "a", lvmUserdata ++ "b"] then some .volume else none
  mounts := []
  accepted := []

theorem booted_provisioned : Booted provisioned where
  verity x hx := by rcases hx with rfl | rfl <;> decide
  rootfs x hx := Decrypts.of_none (by rcases hx with rfl | rfl <;> decide)
  userdata x hx := Decrypts.of_none (by rcases hx with rfl | rfl <;> decide)
  accepted := rfl

/-- Every command succeeds that can. -/
def allOk : Oracle fun _ : MountCmd => Result := fun _ _ => ⟨true, ""⟩

/-- The run that boots from the slot `a`. -/
def nominalRun : End ℕ Unit × Machine Unit × Oracle fun _ : MountCmd => Result :=
  exec (machine fun _ _ => some ()) (hiposmountPrepare "/rootfs" "a") provisioned allOk

theorem hiposmount_verified_nominal :
    nominalRun.1 = .done () ∧
    ∃ x, x = (if "a" = "a" then "a" else "b") ∧
      nominalRun.2.1.mountedOn "/rootfs" = some (mapper (labelVerityRootfs ++ x)) ∧
      provisioned.device (mapper (labelVerityRootfs ++ x)) = none ∧ Opened x nominalRun.2.1 ∧
      MountedFrom "/rootfs" x provisioned nominalRun.2.1 :=
  have hdone : nominalRun.1 = .done () := by decide
  ⟨hdone, hiposmount_verified booted_provisioned (Prod.ext hdone rfl)⟩

/-- The same volumes, where something else was left under the name of the
    decrypted root file system. -/
def leftover : Machine Unit :=
  provisioned.map (labelDecryptRootfs ++ "a") .volume

/-- It is not replaced, and opened for the root file system. -/
theorem hiposmount_leftover : ¬ ∀ (s₀ s : Machine Unit) (ω ω' : Oracle fun _ : MountCmd => Result),
    (∀ x, x = "a" ∨ x = "b" → s₀.device (mapper (labelVerityRootfs ++ x)) = none) →
    s₀.accepted = [] →
    exec (machine fun _ _ => some ()) (hiposmountPrepare "/rootfs" "a") s₀ ω = (.done (), s, ω') →
    ∃ dev, s.device (mapper (labelDecryptRootfs ++ "a")) = some (.crypt dev) ∧
      IsVolume ("rootfs_" ++ "a") dev := by
  intro h
  let run := exec (machine fun _ _ => some ()) (hiposmountPrepare "/rootfs" "a") leftover allOk
  have hdone : run.1 = .done () := by decide
  have hverity : ∀ x, x = "a" ∨ x = "b" →
      leftover.device (mapper (labelVerityRootfs ++ x)) = none := by
    rintro x (rfl | rfl) <;> decide
  obtain ⟨dev, hdev, -⟩ := h leftover run.2.1 allOk run.2.2 hverity rfl (Prod.ext hdone rfl)
  have hleft : (run.2.1.device (mapper (labelDecryptRootfs ++ "a"))).map (fun
      | .volume => true
      | _ => false) = some true := by decide
  rw [hdev] at hleft
  cases hleft

end MetaHipos.Initrd
