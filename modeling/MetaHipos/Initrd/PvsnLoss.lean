/-
  Power losses while a card is provisioned.

  The artifacts are on the partition that becomes the volume group, and the
  volumes are only created where there is no group yet.  Up to `pvcreate` a
  power loss changes nothing; then the artifacts are gone.

  * `Keeps`: what all commands but three leave alone;
  * `Fresh`, `Gone`: what a boot may find;
  * `copyCmds`, `fillCmds`, `mountCmds`: the script as lists of commands;
  * `Boots.atBoot`: a boot finds nothing else.
-/
import MetaHipos.Initrd.FirstBoot
import MetaHipos.Initrd.Hiposprovisioning
import MetaHipos.Process.Outage

namespace MetaHipos.Initrd.Provision

open Process Encrypt

section
variable {K B : Type} {p : Platform K B} {z : Tools B} {s s' s₀ s₁ : Card B} {r : Resp B}
  {lvmdev dev dir : String} {c : ProvCmd}

/-! ## Partitions and volumes -/

/-- The other partitions are written, and what is on the volumes; the partition
    `lvmdev` is not mounted for writing. -/
structure Keeps (lvmdev : String) (s₀ s : Card B) : Prop where
  part : s.part lvmdev = s₀.part lvmdev
  pv : s.pv = s₀.pv
  vg : s.vg = s₀.vg
  lv : ∀ v, (s.lv v).isSome = (s₀.lv v).isSome
  ro : ∀ dir, s.mountedOn dir ≠ some (.part lvmdev, false)

theorem Keeps.refl (h : ∀ dir, s.mountedOn dir ≠ some (.part lvmdev, false)) : Keeps lvmdev s s :=
  ⟨rfl, rfl, rfl, fun _ => rfl, h⟩

theorem Keeps.write (h : Keeps lvmdev s₀ s) {d : Dev} (hd : d ≠ .part lvmdev) (b : ℕ → B) :
    Keeps lvmdev s₀ (s.write d b) := by
  cases d with
  | part path =>
    have hne : lvmdev ≠ path := fun he => hd (by rw [he])
    exact ⟨(Function.update_of_ne hne ..).trans h.part, h.pv, h.vg, h.lv, h.ro⟩
  | lv name =>
    refine ⟨h.part, h.pv, h.vg, fun v => ?_, h.ro⟩
    rw [← h.lv v]
    show (Function.update s.lv name _ v).isSome = _
    by_cases hv : v = name
    · rw [hv, Function.update_self]
      cases s.lv name <;> rfl
    · rw [Function.update_of_ne hv]
  | verity label => exact h

theorem Keeps.put (h : Keeps lvmdev s₀ s) (dir : String) (f : Files) :
    Keeps lvmdev s₀ (s.put p dir f) := by
  rw [Card.put]
  split
  · next d hd =>
    have hne : d ≠ .part lvmdev := fun he => h.ro dir (by rw [hd, he])
    split
    · exact h.write hne _
    · exact h
  · exact h
  · exact ⟨h.part, h.pv, h.vg, h.lv, h.ro⟩

theorem Keeps.spoil (h : Keeps lvmdev s₀ s) (dir : String) (b : ℕ → B) :
    Keeps lvmdev s₀ (s.spoil dir b) := by
  rw [Card.spoil]
  split
  · next d hd =>
    have hne : d ≠ .part lvmdev := fun he => h.ro dir (by rw [hd, he])
    exact h.write hne b
  · exact h

theorem Keeps.remount (h : Keeps lvmdev s₀ s) {m : Option (Dev × Bool)}
    (hm : m ≠ some (.part lvmdev, false)) : Keeps lvmdev s₀ (s.remount dir m) := by
  refine ⟨h.part, h.pv, h.vg, h.lv, fun d => ?_⟩
  show Function.update s.mountedOn dir m d ≠ _
  by_cases hd : d = dir
  · rw [hd, Function.update_self]
    exact hm
  · rw [Function.update_of_ne hd]
    exact h.ro d

/-- A command that leaves the partition `lvmdev` and the volume group alone. -/
def Harmless (lvmdev : String) : ProvCmd → Prop
  | .mount ro d _ => ro = true ∨ d ≠ .part lvmdev
  | .mkfsExt4 d => d ≠ .part lvmdev
  | .zcat _ d => d ≠ .part lvmdev
  | .pvcreate _ => False
  | .vgcreate _ => False
  | .lvcreate .. => False
  | _ => True

theorem Keeps.success (h : Keeps lvmdev s₀ s) (hc : Harmless lvmdev c) :
    Keeps lvmdev s₀ (s.success p z r c) := by
  cases c with
  | mount ro d dir =>
    refine h.remount fun he => ?_
    cases he
    rcases hc with hro | hd
    · cases hro
    · exact hd rfl
  | umount dir => exact h.remount (by simp)
  | cpAll src dst =>
    rw [Card.success]
    split
    exacts [h.put dst _, h]
  | cp file file' =>
    rw [Card.success]
    split
    exacts [h.put _ _, h]
  | mkfsExt4 d =>
    rw [Card.success]
    split
    exacts [h.write hc _, h]
  | zcat file d =>
    rw [Card.success]
    split
    exacts [h.write hc _, h]
  | opensslVerify pubkey signature file =>
    rw [Card.success]
    split
    · exact ⟨h.part, h.pv, h.vg, h.lv, h.ro⟩
    · exact h
  | veritysetupOpen file d label hashDevice =>
    rw [Card.success]
    split
    · exact ⟨h.part, h.pv, h.vg, h.lv, h.ro⟩
    · exact h
  | sed file =>
    rw [Card.success]
    split
    exacts [h.put _ _, h]
  | mountBind file file' => exact ⟨h.part, h.pv, h.vg, h.lv, h.ro⟩
  | mountMove dir dir' => exact (h.remount (by simp)).remount (h.ro dir)
  | pvcreate d => exact hc.elim
  | vgcreate d => exact hc.elim
  | lvcreate d name size => exact hc.elim
  | _ => exact h

theorem Keeps.failure (h : Keeps lvmdev s₀ s) (hc : Harmless lvmdev c) :
    Keeps lvmdev s₀ (s.failure p r c) := by
  cases c with
  | cpAll src dst => exact h.spoil dst _
  | cp file file' => exact h.spoil _ _
  | mkfsExt4 d => exact h.write hc _
  | zcat file d => exact h.write hc _
  | sed file => exact h.spoil _ _
  | pvcreate d => exact hc.elim
  | _ => exact h

/-- **What harmless commands keep**, whether they succeed or not. -/
theorem Keeps.next (h : Keeps lvmdev s₀ s) (hc : Harmless lvmdev c) :
    Keeps lvmdev s₀ ((card p z).next c r s) := by
  show Keeps lvmdev s₀ (if _ then _ else _)
  split_ifs
  exacts [h.success hc, h.failure hc]

/-! ## Power losses -/

/-- Nothing is mounted, mapped or in memory. -/
structure Off (s : Card B) : Prop where
  verity : ∀ label, s.verity label = none
  mountedOn : ∀ dir, s.mountedOn dir = none
  tmpfs : ∀ dir, s.tmpfs dir = Files.none
  bound : s.bound = []
  accepted : s.accepted = []

/-- The power is lost.  Partitions keep what they hold unless they are mounted
    for writing; volumes may lose it, but stay there. -/
structure Loss (s s' : Card B) : Prop where
  off : Off s'
  pv : s'.pv = s.pv
  vg : s'.vg = s.vg
  lv : ∀ v, (s'.lv v).isSome = (s.lv v).isSome
  part : ∀ d, (∀ dir, s.mountedOn dir ≠ some (.part d, false)) → s'.part d = s.part d

/-- Every command succeeds that can. -/
def allOk (_ : ProvCmd) (r : Resp B) : Prop := r.ok = true

/-- A command that is cut may have failed, or not. -/
def anyResp (_ : ProvCmd) (_ : Resp B) : Prop := True

/-- The files on a partition. -/
def Card.readable (p : Platform K B) (s : Card B) (d : String) : Option Files :=
  (s.part d).bind p.read

/-- The names of the volumes. -/
def names : List String := (volumes "").map Prod.fst

theorem names_eq (bytes : String) : (volumes bytes).map Prod.fst = names := rfl

/-- A card with the artifacts `a`, and without volumes. -/
structure Fresh (p : Platform K B) (lvmdev : String) (a : Files) (s : Card B) : Prop where
  artifacts : s.readable p lvmdev = some a
  vg : s.vg = none
  lv : ∀ v, s.lv v = none

/-- The artifacts are gone; there is no volume, or a volume group. -/
structure Gone (p : Platform K B) (lvmdev : String) (s : Card B) : Prop where
  artifacts : s.readable p lvmdev = none
  lv : (s.vg = none ∧ ∀ v, s.lv v = none) ∨ s.vg = some lvmdev

theorem Keeps.readable (h : Keeps lvmdev s₀ s) : s.readable p lvmdev = s₀.readable p lvmdev := by
  rw [Card.readable, Card.readable, h.part]

theorem Keeps.lv_none (h : Keeps lvmdev s₀ s) {v : String} (hv : s₀.lv v = none) :
    s.lv v = none := by
  have := h.lv v
  rw [hv] at this
  simpa using this

theorem Keeps.fresh {a : Files} (h : Keeps lvmdev s₀ s) (hs : Fresh p lvmdev a s₀) :
    Fresh p lvmdev a s :=
  ⟨h.readable.trans hs.artifacts, h.vg.trans hs.vg, fun v => h.lv_none (hs.lv v)⟩

theorem Keeps.gone (h : Keeps lvmdev s₀ s) (hs : Gone p lvmdev s₀) : Gone p lvmdev s where
  artifacts := h.readable.trans hs.artifacts
  lv := by
    rw [h.vg]
    exact hs.lv.imp_left fun hnone => ⟨hnone.1, fun v => h.lv_none (hnone.2 v)⟩

/-- A power loss keeps what harmless commands keep. -/
theorem Keeps.loss (h : Keeps lvmdev s₀ s) (hloss : Loss s s') : Keeps lvmdev s₀ s' where
  part := (hloss.part lvmdev h.ro).trans h.part
  pv := hloss.pv.trans h.pv
  vg := hloss.vg.trans h.vg
  lv v := (hloss.lv v).trans (h.lv v)
  ro dir := by
    rw [hloss.off.mountedOn]
    exact (Option.some_ne_none _).symm

theorem Off.ro (h : Off s) (dir : String) : s.mountedOn dir ≠ some (.part lvmdev, false) := by
  rw [h.mountedOn]
  exact (Option.some_ne_none _).symm

/-! ## Commands that set up the volume group -/

/-- A command of the script for the partition `lvmdev`. -/
def Setup (lvmdev : String) (c : ProvCmd) : Prop :=
  Harmless lvmdev c ∨ c = .pvcreate lvmdev ∨ c = .vgcreate lvmdev ∨
    ∃ name size, c = .lvcreate lvmdev name size

theorem next_eq : (card p z).next c r s =
    if r.ok && s.possible p z c then s.success p z r c else s.failure p r c := rfl

/-- A command that leaves the card as it is. -/
def Idle : ProvCmd → Prop
  | .mountTmpfs _ | .mkdir _ | .parted _ | .partprobe _ | .vgs _ | .tail _ | .vgchange _
  | .vgmknodes _ | .sync => True
  | _ => False

theorem next_idle (h : Idle c) : (card p z).next c r s = s := by
  have hsame : s.success p z r c = s ∧ s.failure p r c = s := by
    cases c <;> first | exact h.elim | exact ⟨rfl, rfl⟩
  rw [next_eq, hsame.1, hsame.2, ite_self]

/-- No mount is for writing to the partition of a card that is gone. -/
def GoneRo (p : Platform K B) (lvmdev : String) (s : Card B) : Prop :=
  Gone p lvmdev s ∧ ∀ dir, s.mountedOn dir ≠ some (.part lvmdev, false)

variable (lvmdev) in
/-- `pvcreate` wipes the partition, unless it does nothing. -/
theorem readable_pvcreate :
    (r.ok = true → (s.part lvmdev).isSome →
      ((card p z).next (.pvcreate lvmdev) r s).readable p lvmdev = none) ∧
    ((card p z).next (.pvcreate lvmdev) r s = s ∨
      ((card p z).next (.pvcreate lvmdev) r s).readable p lvmdev = none) := by
  have hwiped : ∀ t : Card B, t.part lvmdev = none ∨ t.part lvmdev = some p.blank →
      t.readable p lvmdev = none := by
    rintro t (ht | ht)
    · rw [Card.readable, ht]
      rfl
    · rw [Card.readable, ht]
      exact p.read_blank
  rw [next_eq]
  split_ifs with hok
  · have hnone : (s.success p z r (.pvcreate lvmdev)).readable p lvmdev = none :=
      hwiped _ (.inr (Function.update_self ..))
    exact ⟨fun _ _ => hnone, .inr hnone⟩
  · refine ⟨fun hr hpart => absurd ?_ hok, ?_⟩
    · rw [hr, Card.possible, hpart]
      rfl
    · rw [Card.failure]
      split_ifs
      · refine .inr (hwiped _ ?_)
        show Function.update s.part lvmdev _ lvmdev = none ∨
          Function.update s.part lvmdev _ lvmdev = some p.blank
        rw [Function.update_self]
        cases s.part lvmdev
        exacts [.inl rfl, .inr rfl]
      · exact .inl rfl

variable (lvmdev) in
/-- Apart from that, `pvcreate` only registers the partition. -/
theorem pvcreate_same : ((card p z).next (.pvcreate lvmdev) r s).vg = s.vg ∧
    ((card p z).next (.pvcreate lvmdev) r s).lv = s.lv ∧
    ((card p z).next (.pvcreate lvmdev) r s).mountedOn = s.mountedOn := by
  rw [next_eq]
  split_ifs
  · exact ⟨rfl, rfl, rfl⟩
  · rw [Card.failure]
    split_ifs <;> exact ⟨rfl, rfl, rfl⟩

theorem GoneRo.pvcreate (h : GoneRo p lvmdev s) :
    GoneRo p lvmdev ((card p z).next (.pvcreate lvmdev) r s) := by
  obtain ⟨hvg, hlv, hmount⟩ := pvcreate_same lvmdev (p := p) (z := z) (r := r) (s := s)
  refine ⟨⟨?_, ?_⟩, ?_⟩
  · rcases (readable_pvcreate lvmdev (p := p) (z := z) (r := r)).2 with hsame | hnone
    · rw [hsame]
      exact h.1.artifacts
    · exact hnone
  · rw [hvg, hlv]
    exact h.1.lv
  · rw [hmount]
    exact h.2

theorem GoneRo.next (h : GoneRo p lvmdev s) (hc : Setup lvmdev c) :
    GoneRo p lvmdev ((card p z).next c r s) := by
  rcases hc with hc | rfl | rfl | ⟨name, size, rfl⟩
  · have hkeeps := (Keeps.refl h.2).next (p := p) (z := z) (r := r) hc
    exact ⟨hkeeps.gone h.1, hkeeps.ro⟩
  · exact h.pvcreate
  · rw [next_eq]
    split_ifs
    · exact ⟨⟨h.1.artifacts, .inr rfl⟩, h.2⟩
    · exact h
  · rw [next_eq]
    split_ifs with hok
    · rw [Card.possible, Bool.and_eq_true, Bool.and_eq_true, Bool.and_eq_true] at hok
      exact ⟨⟨h.1.artifacts, .inr (of_decide_eq_true hok.2.1.1)⟩, h.2⟩
    · exact h

end

/-! ## The script -/

section
variable {P : ProvCmd → Prop} {dev lvmdev rootfsDir : String}

theorem calls_run {c : ProvCmd} (h : P c) : (run c).Calls P :=
  (Proc.Calls.ask h).bind fun _ => trivial

theorem only_run {c : ProvCmd} (h : P c) : (run c).Only P := (calls_run h).only

theorem calls_runAll {cmds : List ProvCmd} (h : ∀ c ∈ cmds, P c) : (runAll cmds).Calls P := by
  rw [runAll]
  induction cmds with
  | nil => trivial
  | cons c cmds ih =>
    exact (calls_run (h c List.mem_cons_self)).bind fun _ =>
      ih fun d hd => h d (List.mem_cons_of_mem c hd)

theorem only_runAll {cmds : List ProvCmd} (h : ∀ c ∈ cmds, P c) : (runAll cmds).Only P :=
  (calls_runAll h).only

/-- The commands of `copy_artifacts`, … -/
def copyCmds (dev : String) : List ProvCmd :=
  [.mount true (.part (dev ++ "p4")) "/tmp/mnt", .cpAll "/tmp/mnt" "/tmp/provisioning",
    .umount "/tmp/mnt"]

/-- … those of `copy_fitimage` for a partition, … -/
def fitimageCmds (partition : String) : List ProvCmd :=
  [.mount false (.part partition) "/tmp/boot",
    .cp (artifact fileFitimage) ⟨"/tmp/boot", "fitImage.signed.deploy"⟩, .umount "/tmp/boot"]

/-- … and those that fill the volumes. -/
def fillCmds (dev : String) : List ProvCmd :=
  [.mkfsExt4 (.lv "keystore"), .mount false (.lv "keystore") mntKeystore,
    .mkdir [mntKeystore ++ "/caam", mntKeystore ++ "/verity"],
    .cp (artifact fileRootfsHashdevice) (verityFile "rootfs_a" ".hashdevice"),
    .cp (artifact fileRootfsRoothash) (verityFile "rootfs_a" ".roothash"),
    .cp (artifact fileRootfsRoothashSignature) (verityFile "rootfs_a" ".roothash.signature"),
    .umount mntKeystore, .zcat (artifact fileRootfsGz) (.lv pvsnRootfs), .sync,
    .mkfsExt4 (.lv pvsnUserdata), .mkfsExt4 (.lv pvsnProvisioning),
    .mkfsExt4 (.lv pvsnDatastore)] ++
  fitimageCmds (dev ++ "p2") ++ fitimageCmds (dev ++ "p1")

theorem copyArtifacts_cmds : copyArtifacts dev = runAll (copyCmds dev) := rfl

theorem fillVolumes_cmds : fillVolumes dev = runAll (fillCmds dev) := rfl

theorem only_copyArtifacts : (copyArtifacts dev).Only (Harmless lvmdev) := by
  rw [copyArtifacts_cmds]
  exact only_runAll (by simp [copyCmds, Harmless])

theorem part_ne (dev : String) : dev ++ "p2" ≠ dev ++ "p4" ∧ dev ++ "p1" ≠ dev ++ "p4" := by
  constructor <;> exact fun h => absurd ((String.append_right_inj dev).1 h) (by decide)

theorem only_fillVolumes (hdev : dev ++ "p4" = lvmdev) :
    (fillVolumes dev).Only (Harmless lvmdev) := by
  obtain ⟨hp2, hp1⟩ := part_ne dev
  rw [hdev] at hp2 hp1
  rw [fillVolumes_cmds]
  exact only_runAll (by simp [fillCmds, fitimageCmds, Harmless, hp2, hp1])

/-- What `prepare_sdcard` does once `pvcreate` is done, up to the volumes. -/
def createVolumes (lvmdev : String) : Script Unit := do
  run (.vgcreate lvmdev)
  let rootfs_bytes ← Proc.ask (.tail (artifact fileRootfsGz))
  runAll ((volumes rootfs_bytes.out).map fun v => .lvcreate lvmdev v.1 v.2)
  run (.vgchange lvmdev)
  run (.vgmknodes lvmdev)

theorem createLvm_eq : createLvm dev lvmdev = (do
    run (.parted dev)
    run (.partprobe dev)
    run (.pvcreate lvmdev)
    createVolumes lvmdev) := rfl

theorem only_createVolumes : (createVolumes lvmdev).Only (Setup lvmdev) := by
  refine (only_run (.inr (.inr (.inl rfl)))).bind fun _ => (Proc.Only.ask (.inl trivial)).bind
    fun bytes => Proc.Only.bind ?_ fun _ => (only_run (.inl trivial)).bind fun _ =>
      only_run (.inl trivial)
  refine only_runAll fun c hc => ?_
  obtain ⟨v, -, rfl⟩ := List.mem_map.1 hc
  exact .inr (.inr (.inr ⟨_, _, rfl⟩))

/-- `hiposprovisioning_run` before it looks for the volume group. -/
def prepareMounts : Script Unit := do
  run (.mountTmpfs "/tmp")
  run (.mkdir ["/tmp/mnt", "/tmp/provisioning", "/tmp/boot"])
  run (.mkdir [mntKeystore, mntDatastore, mntProvisioning])

/-- `hiposprovisioning_run` when the volume group is there. -/
def mountAll (rootfsDir : String) : Script Unit := do
  run (.mount false (.lv "keystore") mntKeystore)
  verifyMountRootfs pvsnRootfs "rootfs_a" rootfsDir
  mountVolumes rootfsDir

theorem hiposprovisioningRun_eq (rootfsDir root : String) :
    hiposprovisioningRun rootfsDir root = (do
      prepareMounts
      let found ← Proc.ask (.vgs root)
      prepareUnless (devOf root) root found.ok
      mountAll rootfsDir) := rfl

/-- The commands of `mount_volumes`. -/
def mountCmds (rootfsDir : String) : List ProvCmd :=
  [.mount false (.lv pvsnUserdata) mntUserdata, .mount false (.lv pvsnProvisioning) mntProvisioning,
    .mount false (.lv pvsnDatastore) mntDatastore,
    .cp ⟨rootfsDir, "etc/shadow"⟩ ⟨"/tmp", "etc_shadow"⟩, .sed ⟨"/tmp", "etc_shadow"⟩,
    .mountBind ⟨"/tmp", "etc_shadow"⟩ ⟨rootfsDir, "etc/shadow"⟩,
    .mountMove mntUserdata (rootfsDir ++ mntUserdata),
    .mountMove mntKeystore (rootfsDir ++ mntKeystore),
    .mountMove mntDatastore (rootfsDir ++ mntDatastore),
    .mountMove mntProvisioning (rootfsDir ++ mntProvisioning)]

theorem mountVolumes_cmds : mountVolumes rootfsDir = runAll (mountCmds rootfsDir) := rfl

theorem calls_prepareMounts (h : P (.mountTmpfs "/tmp")) (h' : ∀ dirs, P (.mkdir dirs)) :
    prepareMounts.Calls P :=
  (calls_run h).bind fun _ => (calls_run (h' _)).bind fun _ => calls_run (h' _)

theorem only_mountAll : (mountAll rootfsDir).Only (Harmless lvmdev) := by
  refine (only_run (.inr fun he => by cases he)).bind fun _ => Proc.Only.bind ?_ fun _ => ?_
  · refine (Proc.Only.ask trivial).bind fun valid => ?_
    split_ifs
    · exact trivial
    · exact (only_run trivial).bind fun _ => only_run (.inl rfl)
  · rw [mountVolumes_cmds]
    exact only_runAll (by simp [mountCmds, Harmless])

theorem only_script (hdev : devOf lvmdev ++ "p4" = lvmdev) :
    (hiposprovisioningRun rootfsDir lvmdev).Only (Setup lvmdev) := by
  have hharmless : ∀ {q : Script Unit}, q.Only (Harmless lvmdev) → q.Only (Setup lvmdev) :=
    fun h => h.mono fun _ => .inl
  rw [hiposprovisioningRun_eq]
  refine (hharmless (calls_prepareMounts trivial fun _ => trivial).only).bind fun _ =>
    (Proc.Only.ask (.inl trivial)).bind fun found => Proc.Only.bind ?_ fun _ =>
    hharmless only_mountAll
  rw [prepareUnless]
  split_ifs
  · trivial
  refine (hharmless only_copyArtifacts).bind fun _ => Proc.Only.bind ?_ fun _ =>
    hharmless (only_fillVolumes hdev)
  rw [createLvm_eq]
  exact (only_run (.inl trivial)).bind fun _ => (only_run (.inl trivial)).bind fun _ =>
    (only_run (.inr (.inl rfl))).bind fun _ => only_createVolumes

end

/-! ## Boots -/

section
variable {K B : Type} {p : Platform K B} {z : Tools B} {s s' s₀ : Card B} {a : Files}
  {rootfsDir lvmdev : String}

/-- What a boot may find: a card with the artifacts, or one without. -/
def AtBoot (p : Platform K B) (lvmdev : String) (a : Files) (s : Card B) : Prop :=
  Off s ∧ (Fresh p lvmdev a s ∨ Gone p lvmdev s)

theorem GoneRo.loss (h : GoneRo p lvmdev s) (hloss : Loss s s') : Gone p lvmdev s' :=
  ((Keeps.refl h.2).loss hloss).gone h.1

/-- The judgement of a boot: every command that is not cut succeeds if it can,
    `I` holds after a power loss, and `S` where the script stops. -/
def bootJudge (I S : Card B → Prop) : Judge ProvCmd (fun _ => Resp B) ℕ (Card B) where
  ok := allOk
  inv t := ∀ s', Loss t s' → I s'
  stop _ t := S t

/-- Wherever a boot is cut, the next one finds a card with the artifacts, or one
    without. -/
def atBootJudge (p : Platform K B) (lvmdev : String) (a : Files) :
    Judge ProvCmd (fun _ => Resp B) ℕ (Card B) :=
  bootJudge (AtBoot p lvmdev a) fun _ => True

theorem wpCut_run {J : Judge ProvCmd (fun _ => Resp B) ℕ (Card B)} {c : ProvCmd}
    {Q : Unit → Card B → Prop} : wpCut (card p z) J anyResp (run c) Q s ↔
      (∀ r, J.inv ((card p z).next c r s)) ∧
      ∀ r, J.ok c r → Q () ((card p z).next c r s) :=
  ⟨fun h => ⟨fun r => h.1 r trivial, h.2⟩, fun h => ⟨fun r _ => h.1 r, h.2⟩⟩

/-- `pvcreate` on a card with the artifacts. -/
theorem Fresh.pvcreate {r : Resp B} (h : Fresh p lvmdev a s) :
    (Fresh p lvmdev a ((card p z).next (.pvcreate lvmdev) r s) ∨
      Gone p lvmdev ((card p z).next (.pvcreate lvmdev) r s)) ∧
    (r.ok = true → Gone p lvmdev ((card p z).next (.pvcreate lvmdev) r s)) := by
  obtain ⟨hvg, hlv, -⟩ := pvcreate_same lvmdev (p := p) (z := z) (r := r) (s := s)
  obtain ⟨hok, hcases⟩ := readable_pvcreate lvmdev (p := p) (z := z) (r := r) (s := s)
  have hgone : ((card p z).next (.pvcreate lvmdev) r s).readable p lvmdev = none →
      Gone p lvmdev ((card p z).next (.pvcreate lvmdev) r s) := fun hr =>
    ⟨hr, .inl ⟨hvg.trans h.vg, fun v => by rw [hlv, h.lv]⟩⟩
  have hsome : (s.part lvmdev).isSome = true := by
    cases hpart : s.part lvmdev with
    | none =>
      have := h.artifacts
      rw [Card.readable, hpart] at this
      cases this
    | some c => rfl
  refine ⟨?_, fun hr => hgone (hok hr hsome)⟩
  rcases hcases with hsame | hnone
  · rw [hsame]
    exact .inl h
  · exact .inr (hgone hnone)

/-- A boot of a card without the artifacts. -/
theorem wpCut_gone (hdev : devOf lvmdev ++ "p4" = lvmdev) (h : GoneRo p lvmdev s) :
    wpCut (card p z) (atBootJudge p lvmdev a) anyResp
      (hiposprovisioningRun rootfsDir lvmdev) (fun _ => GoneRo p lvmdev) s :=
  wpCut_only (only_script hdev) (fun _ _ _ hc h => h.next hc)
    (fun _ h _ hloss => ⟨hloss.off, .inr (h.loss hloss)⟩)
    (fun _ _ _ => trivial) h

/-- A boot of a card with the artifacts. -/
theorem wpCut_fresh (hdev : devOf lvmdev ++ "p4" = lvmdev) (hoff : Off s₀)
    (hfresh : Fresh p lvmdev a s₀) :
    wpCut (card p z) (atBootJudge p lvmdev a) anyResp
      (hiposprovisioningRun rootfsDir lvmdev) (fun _ => GoneRo p lvmdev) s₀ := by
  have hkeep : ∀ t, Keeps lvmdev s₀ t → ∀ s', Loss t s' → AtBoot p lvmdev a s' :=
    fun t h s' hloss => ⟨hloss.off, .inl ((h.loss hloss).fresh hfresh)⟩
  have hgone : ∀ t, GoneRo p lvmdev t → ∀ s', Loss t s' → AtBoot p lvmdev a s' :=
    fun t h s' hloss => ⟨hloss.off, .inr (h.loss hloss)⟩
  have hharmless : ∀ {q : Script Unit} {t}, q.Only (Harmless lvmdev) → Keeps lvmdev s₀ t →
      wpCut (card p z) (atBootJudge p lvmdev a) anyResp q
        (fun _ => Keeps lvmdev s₀) t :=
    fun hq ht => wpCut_only hq (fun _ _ _ hc h => h.next hc) hkeep (fun _ _ _ => trivial) ht
  have hsetup : ∀ {q : Script Unit} {t}, q.Only (Setup lvmdev) → GoneRo p lvmdev t →
      wpCut (card p z) (atBootJudge p lvmdev a) anyResp q
        (fun _ => GoneRo p lvmdev) t :=
    fun hq ht => wpCut_only hq (fun _ _ _ hc h => h.next hc) hgone (fun _ _ _ => trivial) ht
  rw [hiposprovisioningRun_eq, wpCut_bind]
  have hmounts := hharmless (calls_prepareMounts trivial fun _ => trivial).only (.refl hoff.ro)
  refine wpCut_mono hmounts fun _ s h => ?_
  have hvgs : ∀ r, (card p z).reply (.vgs lvmdev) r s = ⟨false, ""⟩ := by
    intro r
    have hvg : s.vg = none := h.vg.trans hfresh.vg
    simp [card, Card.possible, hvg]
  refine ⟨fun r _ => hkeep _ (h.next trivial), fun r _ => ?_⟩
  rw [hvgs]
  have h := h.next (p := p) (z := z) (r := r) (c := .vgs lvmdev) trivial
  generalize (card p z).next (.vgs lvmdev) r s = s at h
  show wpCut _ _ _ (prepareSdcard (devOf lvmdev) lvmdev >>= fun _ => mountAll rootfsDir) _ s
  rw [wpCut_bind, prepareSdcard, createLvm_eq]
  simp only [wpCut_bind]
  refine wpCut_mono (hharmless only_copyArtifacts h) fun _ s h => ?_
  refine wpCut_mono (hharmless (only_run trivial) h) fun _ s h => ?_
  refine wpCut_mono (hharmless (only_run trivial) h) fun _ s h => ?_
  have hro : ∀ r, ∀ dir,
      ((card p z).next (.pvcreate lvmdev) r s).mountedOn dir ≠ some (.part lvmdev, false) := by
    intro r
    rw [(pvcreate_same lvmdev).2.2]
    exact h.ro
  refine wpCut_run.2 ⟨fun r s' hloss => ⟨hloss.off, ?_⟩, fun r hr => ?_⟩
  · have hkeeps := (Keeps.refl (hro r)).loss hloss
    exact (h.fresh hfresh).pvcreate.1.imp hkeeps.fresh hkeeps.gone
  · have hnext : GoneRo p lvmdev ((card p z).next (.pvcreate lvmdev) r s) :=
      ⟨(h.fresh hfresh).pvcreate.2 hr, hro r⟩
    refine wpCut_mono (hsetup only_createVolumes hnext) fun _ s h => ?_
    refine wpCut_mono (hsetup ((only_fillVolumes hdev).mono fun _ => .inl) h) fun _ s h => ?_
    exact hsetup (only_mountAll.mono fun _ => .inl) h

/-- The states in which a boot starts, after any number of power losses. -/
abbrev Boots (p : Platform K B) (z : Tools B) (rootfsDir lvmdev : String) (s₀ s : Card B) : Prop :=
  Outages (card p z) allOk anyResp Loss (hiposprovisioningRun rootfsDir lvmdev) s₀ s

theorem Boots.atBoot (h : Boots p z rootfsDir lvmdev s₀ s) (hdev : devOf lvmdev ++ "p4" = lvmdev)
    (hs₀ : AtBoot p lvmdev a s₀) : AtBoot p lvmdev a s := by
  have hboot : ∀ s, AtBoot p lvmdev a s → wpCut (card p z)
      (atBootJudge p lvmdev a) anyResp (hiposprovisioningRun rootfsDir lvmdev)
      (fun _ => GoneRo p lvmdev) s := by
    rintro s ⟨hoff, hfresh | hgone⟩
    · exact wpCut_fresh hdev hoff hfresh
    · exact wpCut_gone hdev ⟨hgone, hoff.ro⟩
  refine Outages.invariant h (AtBoot p lvmdev a) hs₀ ?_ hboot
  rintro s s' ⟨hoff, hs⟩ hloss
  have hkeeps : Keeps lvmdev s s' := (Keeps.refl hoff.ro).loss hloss
  exact ⟨hloss.off, hs.imp hkeeps.fresh hkeeps.gone⟩

/-! ## A card -/

/-- What remains if nothing is damaged. -/
def Card.powerOff (s : Card B) : Card B :=
  { s with
    verity := fun _ => none
    mountedOn := fun _ => none
    bound := []
    tmpfs := fun _ => Files.none
    accepted := [] }

theorem loss_powerOff : Loss s s.powerOff where
  off := ⟨fun _ => rfl, fun _ => rfl, fun _ => rfl, rfl, rfl⟩
  pv := rfl
  vg := rfl
  lv _ := rfl
  part _ _ := rfl

end

/-- The blocks of the small platform that hold these files. -/
def disk (f : Files) : ℕ → Option Files × Bool := fun _ => (some f, false)

/-- A compressed image, and what is read from it. -/
def smallTools : Tools (Option Files × Bool) where
  zcat gz := if gz = "gz" then some (disk (single "etc/shadow" "root:*:")) else none
  size _ := "4096"
  sed _ := "root:secret:"
  size_ne _ _ _ := by decide

/-- The artifacts of this image. -/
def smallArtifacts : Files := fun path =>
  ([(fileFitimage, "fitImage"), (fileRootfsGz, "gz"), (fileRootfsHashdevice, "tree"),
    (fileRootfsRoothash, "hash"), (fileRootfsRoothashSignature, "signature")] :
    List (String × String)).lookup path

def smallRoot : String := "/dev/mmcblk2p4"

theorem devOf_smallRoot : devOf smallRoot ++ "p4" = smallRoot := by decide

/-- A card with the artifacts and two boot partitions. -/
def smallCard : Card (Option Files × Bool) where
  part d := if d = smallRoot then some (disk smallArtifacts)
    else if d = "/dev/mmcblk2p1" ∨ d = "/dev/mmcblk2p2" then some (disk Files.none) else none
  pv _ := false
  vg := none
  lv _ := none
  verity _ := none
  mountedOn _ := none
  bound := []
  tmpfs _ := Files.none
  accepted := []

theorem smallCard_off : Off smallCard := ⟨fun _ => rfl, fun _ => rfl, fun _ => rfl, rfl, rfl⟩

theorem smallCard_fresh : Fresh smallPlatform smallRoot smallArtifacts smallCard :=
  ⟨rfl, rfl, fun _ => rfl⟩

end MetaHipos.Initrd.Provision
