/-
  Provisioning a card: the init script `hiposprovisioning`.

  A card comes with the artifacts on its fourth partition.  They are copied to
  memory, then the partition becomes the volume group that `hiposencrypt` finds
  at the first boot.  The script is a process whose calls are its external
  commands; but for `vgs` and `openssl` none is checked.

  * `Card`, `card`: the partitions, volumes and mounts, and what the commands do;
  * `prepareSdcard`, `verifyMountRootfs`, `hiposprovisioningRun`: the script.
-/
import MetaHipos.Initrd.Hiposencrypt

namespace MetaHipos.Initrd.Provision

open Process Encrypt

/-! ## Commands -/

/-- A block device. -/
inductive Dev where
  /-- a partition, by its path -/
  | part (path : String)
  /-- the volume `/dev/mapper/hydralvm-<name>` -/
  | lv (name : String)
  /-- the verity mapping `/dev/mapper/<label>` -/
  | verity (label : String)
deriving DecidableEq, Repr

/-- A file: a directory where something may be mounted, and the path below. -/
structure FilePath where
  dir : String
  path : String
deriving DecidableEq, Repr

/-- The external commands of `hiposprovisioning`. -/
inductive ProvCmd where
  /-- `mount -t tmpfs tmp <dir>` -/
  | mountTmpfs (dir : String)
  /-- `mkdir [-p] <dir>...` -/
  | mkdir (dirs : List String)
  /-- `mount [-t ext4] [-o ro|rw] <dev> <dir>` -/
  | mount (ro : Bool) (dev : Dev) (dir : String)
  /-- `umount <dir>` -/
  | umount (dir : String)
  /-- `cp -avx <src>/. <dst>` -/
  | cpAll (src dst : String)
  /-- `cp <file> <file'>` -/
  | cp (file file' : FilePath)
  /-- `parted -s <dev> resizepart 4 100%` -/
  | parted (dev : String)
  /-- `partprobe <dev>` -/
  | partprobe (dev : String)
  /-- `vgs --devices <dev> hydralvm` -/
  | vgs (dev : String)
  /-- `pvcreate -ff -y <dev>` -/
  | pvcreate (dev : String)
  /-- `vgcreate --devices <dev> hydralvm <dev>` -/
  | vgcreate (dev : String)
  /-- `tail -c 4 <file> | od -An -tu4 | xargs` -/
  | tail (file : FilePath)
  /-- `lvcreate -y --devices <dev> -n <name> -L <size> hydralvm` -/
  | lvcreate (dev name size : String)
  /-- `vgchange -a y --devices <dev>` -/
  | vgchange (dev : String)
  /-- `vgmknodes --devices <dev>` -/
  | vgmknodes (dev : String)
  /-- `mkfs.ext4 -qF <dev>` -/
  | mkfsExt4 (dev : Dev)
  /-- `zcat <file> > <dev>` -/
  | zcat (file : FilePath) (dev : Dev)
  /-- `sync` -/
  | sync
  /-- `openssl dgst -sha256 -verify <pubkey> -signature <signature> <file>` -/
  | opensslVerify (pubkey : String) (signature file : FilePath)
  /-- `veritysetup open --root-hash-file=<file> <dev> <label> <hashDevice>` -/
  | veritysetupOpen (file : FilePath) (dev : Dev) (label : String) (hashDevice : FilePath)
  /-- `sed -e "s%^root:[^:]*:%root:<password>:%" -i <file>` -/
  | sed (file : FilePath)
  /-- `mount --bind <file> <file'>` -/
  | mountBind (file file' : FilePath)
  /-- `mount --move <dir> <dir'>` -/
  | mountMove (dir dir' : String)
deriving DecidableEq, Repr

/-- A script; it may exit. -/
abbrev Script := Proc ProvCmd (fun _ => Result) ℕ

/-! ## The card -/

/-- What the script makes of files. -/
structure Tools (B : Type) where
  /-- what is unpacked from a compressed file -/
  zcat : String → Option (ℕ → B)
  /-- the number in its last four bytes -/
  size : String → String
  /-- the file with the password of root replaced -/
  sed : String → String
  size_ne : ∀ gz c, zcat gz = some c → size gz ≠ ""

/-- A verity mapping shows `data` as far as it matches the root hash. -/
structure Verity where
  data : Dev
  file : FilePath
  rootHash : String
  hashDevice : FilePath
deriving DecidableEq, Repr

/-- A file whose signature was accepted. -/
structure Signed where
  pubkey : String
  signature : String
  file : FilePath
  content : String
deriving DecidableEq, Repr

/-- The partitions and volumes with the blocks they hold, and the partition of
    the volume group; the verity mappings by their labels, the mounts by their
    directories (and whether they are read-only), the files that are bound over
    others, the files in directories of the init file system, and what `openssl`
    has accepted. -/
structure Card (B : Type) where
  part : String → Option (ℕ → B)
  pv : String → Bool
  vg : Option String
  lv : String → Option (ℕ → B)
  verity : String → Option Verity
  mountedOn : String → Option (Dev × Bool)
  bound : List (FilePath × FilePath)
  tmpfs : String → Files
  accepted : List Signed

/-- What the outside responds: whether the command succeeds, what a new volume
    holds or a command that fails leaves on the device, and whether a `pvcreate`
    that fails has wiped the partition. -/
structure Resp (B : Type) where
  ok : Bool
  content : ℕ → B
  wiped : Bool

section
variable {K B : Type} (p : Platform K B) (z : Tools B) (s : Card B)

/-- What a block device shows. -/
def Card.content : Dev → Option (ℕ → B)
  | .part path => s.part path
  | .lv name => s.lv name
  | .verity label => match s.verity label with
    | some ⟨.lv name, _, _, _⟩ => s.lv name
    | _ => none

/-- Blocks written to a block device, if it exists. -/
def Card.write (dev : Dev) (c : ℕ → B) : Card B :=
  match dev with
  | .part path => { s with part := Function.update s.part path ((s.part path).map fun _ => c) }
  | .lv name => { s with lv := Function.update s.lv name ((s.lv name).map fun _ => c) }
  | .verity _ => s

/-- The files in a directory. -/
def Card.files (dir : String) : Option Files :=
  match s.mountedOn dir with
  | some (dev, _) => (s.content dev).bind p.read
  | none => some (s.tmpfs dir)

/-- The content of a file. -/
def Card.file (f : FilePath) : Option String := (s.files p f.dir).bind fun fs => fs f.path

/-- A directory with a single file. -/
def single (path content : String) : Files := fun q => if q = path then some content else none

/-- Files copied to a directory. -/
def Card.put (dir : String) (f : Files) : Card B :=
  match s.mountedOn dir with
  | some (dev, false) => match s.content dev with
    | some c => s.write dev (p.write f c)
    | none => s
  | some (_, true) => s
  | none => { s with tmpfs := Function.update s.tmpfs dir (f.onto (s.tmpfs dir)) }

/-- Files can be written to a directory. -/
def Card.writable (dir : String) : Bool :=
  match s.mountedOn dir with
  | some (_, ro) => !ro
  | none => true

/-- What a writing command leaves behind that fails. -/
def Card.spoil (dir : String) (c : ℕ → B) : Card B :=
  match s.mountedOn dir with
  | some (dev, false) => s.write dev c
  | _ => s

/-- The card with a mount that came or went. -/
def Card.remount (dir : String) (m : Option (Dev × Bool)) : Card B :=
  { s with mountedOn := Function.update s.mountedOn dir m }

/-- Whether a command can succeed at all. -/
def Card.possible : ProvCmd → Bool
  | .mount _ dev _ => ((s.content dev).bind p.read).isSome
  | .cpAll src dst => (s.files p src).isSome && s.writable dst
  | .cp file file' => (s.file p file).isSome && s.writable file'.dir
  | .vgs dev => decide (s.vg = some dev)
  | .pvcreate dev => (s.part dev).isSome
  | .vgcreate dev => s.pv dev && s.vg.isNone
  | .tail file => (s.file p file).isSome
  | .lvcreate dev name size => decide (s.vg = some dev) && (s.lv name).isNone && decide (size ≠ "B")
  | .mkfsExt4 dev => (s.content dev).isSome
  | .zcat file dev => ((s.file p file).bind z.zcat).isSome && (s.content dev).isSome
  | .opensslVerify _ signature file => (s.file p signature).isSome && (s.file p file).isSome
  | .veritysetupOpen file dev label hashDevice => (s.file p file).isSome &&
    (s.content dev).isSome && (s.verity label).isNone && (s.file p hashDevice).isSome
  | .sed file => (s.file p file).isSome && s.writable file.dir
  | .mountBind file file' => (s.file p file).isSome && (s.file p file').isSome
  | .mountMove dir _ => (s.mountedOn dir).isSome
  | _ => true

/-- What a command does if it succeeds. -/
def Card.success (r : Resp B) : ProvCmd → Card B
  | .mount ro dev dir => s.remount dir (some (dev, ro))
  | .umount dir => s.remount dir none
  | .cpAll src dst => match s.files p src with
    | some f => s.put p dst f
    | none => s
  | .cp file file' => match s.file p file with
    | some c => s.put p file'.dir (single file'.path c)
    | none => s
  | .pvcreate dev =>
    { s with
      part := Function.update s.part dev (some p.blank)
      pv := Function.update s.pv dev true }
  | .vgcreate dev => { s with vg := some dev }
  | .lvcreate _ name _ => { s with lv := Function.update s.lv name (some r.content) }
  | .mkfsExt4 dev => match s.content dev with
    | some c => s.write dev (p.format c)
    | none => s
  | .zcat file dev => match (s.file p file).bind z.zcat with
    | some c => s.write dev c
    | none => s
  | .opensslVerify pubkey signature file => match s.file p signature, s.file p file with
    | some sig, some c => { s with accepted := ⟨pubkey, sig, file, c⟩ :: s.accepted }
    | _, _ => s
  | .veritysetupOpen file dev label hashDevice => match s.file p file with
    | some c =>
      { s with verity := Function.update s.verity label (some ⟨dev, file, c, hashDevice⟩) }
    | none => s
  | .sed file => match s.file p file with
    | some c => s.put p file.dir (single file.path (z.sed c))
    | none => s
  | .mountBind file file' => { s with bound := (file, file') :: s.bound }
  | .mountMove dir dir' => (s.remount dir none).remount dir' (s.mountedOn dir)
  | _ => s

/-- What a command does if it fails. -/
def Card.failure (r : Resp B) : ProvCmd → Card B
  | .cpAll _ dst => s.spoil dst r.content
  | .cp _ file' => s.spoil file'.dir r.content
  | .pvcreate dev => if r.wiped then
      { s with part := Function.update s.part dev ((s.part dev).map fun _ => p.blank) }
    else s
  | .mkfsExt4 dev => s.write dev r.content
  | .zcat _ dev => s.write dev r.content
  | .sed file => s.spoil file.dir r.content
  | _ => s

/-- What a command prints. -/
def Card.output : ProvCmd → String
  | .tail file => match s.file p file with
    | some gz => z.size gz
    | none => ""
  | _ => ""

/-- The card as an environment. -/
def card : Env ProvCmd (fun _ => Result) (fun _ => Resp B) (Card B) where
  reply c r s := if r.ok && s.possible p z c then ⟨true, s.output p z c⟩ else ⟨false, ""⟩
  next c r s := if r.ok && s.possible p z c then s.success p z r c else s.failure p r c

end

/-! ## The script -/

def fileFitimage : String := "fitImage.signed"
def fileRootfsGz : String := "rootfs.ext4.verity.gz"
def fileRootfsHashdevice : String := "rootfs.ext4.hashdevice"
def fileRootfsRoothash : String := "rootfs.ext4.roothash"
def fileRootfsRoothashSignature : String := "rootfs.ext4.roothash.signature"

/-- Files in `/tmp/provisioning`. -/
def artifact (file : String) : FilePath := ⟨"/tmp/provisioning", file⟩

/-- Issue a command that is not checked. -/
def run (cmd : ProvCmd) : Script Unit := do
  let _ ← Proc.ask cmd
  pure ()

/-- Issue a command for each element. -/
def runAll (cmds : List ProvCmd) : Script Unit := forEach (fun cmd _ => run cmd) cmds ()

/-- The message is printed only. -/
def fail : Script Unit := .stop 1

/-- Copy the image to a boot partition. -/
def copyFitimage (partition : String) (fitimage : FilePath) : Script Unit := do
  run (.mount false (.part partition) "/tmp/boot")
  run (.cp fitimage ⟨"/tmp/boot", "fitImage.signed.deploy"⟩)
  run (.umount "/tmp/boot")

/-- A file below `verity` on the keystore volume. -/
def verityFile (label suffix : String) : FilePath := ⟨mntKeystore, "verity/" ++ label ++ suffix⟩

/-- Copy the artifacts of the root file system to the keystore volume. -/
def writeVerityArtifacts (label : String) : Script Unit := do
  run (.cp (artifact fileRootfsHashdevice) (verityFile label ".hashdevice"))
  run (.cp (artifact fileRootfsRoothash) (verityFile label ".roothash"))
  run (.cp (artifact fileRootfsRoothashSignature) (verityFile label ".roothash.signature"))

/-- The volumes and their sizes, in the order of their creation. -/
def volumes (rootfsBytes : String) : List (String × String) :=
  [("rootfs_a", rootfsBytes ++ "B"), ("rootfs_b", rootfsBytes ++ "B"), ("userdata_a", "512MB"),
    ("userdata_b", "512MB"), ("keystore", "128MB"), ("provisioning", "128MB"),
    ("datastore", "128MB"), ("pvsn_rootfs", rootfsBytes ++ "B"), ("pvsn_userdata", "512MB"),
    ("pvsn_provisioning", "128MB"), ("pvsn_datastore", "128MB")]

section
variable (dev lvmdev : String)

/-- Copy all artifacts from p4 into tmpfs. -/
def copyArtifacts : Script Unit := do
  run (.mount true (.part (dev ++ "p4")) "/tmp/mnt")
  run (.cpAll "/tmp/mnt" "/tmp/provisioning")
  run (.umount "/tmp/mnt")

/-- Extend p4, create LVM. -/
def createLvm : Script Unit := do
  run (.parted dev)
  run (.partprobe dev)
  run (.pvcreate lvmdev)
  run (.vgcreate lvmdev)
  let rootfs_bytes ← Proc.ask (.tail (artifact fileRootfsGz))
  runAll ((volumes rootfs_bytes.out).map fun v => .lvcreate lvmdev v.1 v.2)
  run (.vgchange lvmdev)
  run (.vgmknodes lvmdev)

/-- Write to the volumes and to the boot partitions. -/
def fillVolumes : Script Unit := do
  -- Format and mount keystore volume
  run (.mkfsExt4 (.lv "keystore"))
  run (.mount false (.lv "keystore") mntKeystore)
  run (.mkdir [mntKeystore ++ "/caam", mntKeystore ++ "/verity"])
  -- Copy rootfs artifacts to keystore (skip rootfs_b)
  writeVerityArtifacts "rootfs_a"
  run (.umount mntKeystore)
  -- write un-encrypted rootfs_a
  run (.zcat (artifact fileRootfsGz) (.lv pvsnRootfs))
  run .sync
  -- prepare ext4 volumes
  run (.mkfsExt4 (.lv pvsnUserdata))
  run (.mkfsExt4 (.lv pvsnProvisioning))
  run (.mkfsExt4 (.lv pvsnDatastore))
  -- Put signed fitimage into boot_a and boot_b
  copyFitimage (dev ++ "p2") (artifact fileFitimage)
  copyFitimage (dev ++ "p1") (artifact fileFitimage)

/-- Create and fill the volumes from the artifacts on the card. -/
def prepareSdcard : Script Unit := do
  copyArtifacts dev
  createLvm dev lvmdev
  fillVolumes dev

/-- `if ! vgs ...; then prepare_sdcard; fi` -/
def prepareUnless (found : Bool) : Script Unit :=
  if found then pure () else prepareSdcard dev lvmdev

end

/-- Mount a root file system through its verity mapping, if its root hash is signed. -/
def verifyMountRootfs (label verity target : String) : Script Unit := do
  let volume := Dev.lv label
  let verity_label := "verity-" ++ lvmLabel ++ "-" ++ verity
  let verity_roothash := verityFile verity ".roothash"
  let verity_signature := verityFile verity ".roothash.signature"
  let verity_hashdevice := verityFile verity ".hashdevice"
  let valid ← Proc.ask (.opensslVerify roothashPubkey verity_signature verity_roothash)
  if valid.ok = false then fail
  else do
    run (.veritysetupOpen verity_roothash volume verity_label verity_hashdevice)
    run (.mount true (.verity verity_label) target)

/-- What is left of a text when its shortest end of the form `p[0-9]*` is
    removed, if there is one. -/
def stripPart : List Char → Option (List Char)
  | [] => none
  | c :: cs =>
    match stripPart cs with
    | some r => some (c :: r)
    | none => if c = 'p' && (cs.head?.map Char.isDigit).getD false then some [] else none

/-- `${root%p[0-9]*}` -/
def devOf (root : String) : String :=
  match stripPart root.toList with
  | some r => String.ofList r
  | none => root

/-- `modify runtime for production need` -/
def injectPassword (rootfsDir : String) : Script Unit := do
  run (.cp ⟨rootfsDir, "etc/shadow"⟩ ⟨"/tmp", "etc_shadow"⟩)
  run (.sed ⟨"/tmp", "etc_shadow"⟩)
  run (.mountBind ⟨"/tmp", "etc_shadow"⟩ ⟨rootfsDir, "etc/shadow"⟩)

/-- The volumes below the root file system. -/
def mountVolumes (rootfsDir : String) : Script Unit := do
  run (.mount false (.lv pvsnUserdata) mntUserdata)
  run (.mount false (.lv pvsnProvisioning) mntProvisioning)
  run (.mount false (.lv pvsnDatastore) mntDatastore)
  injectPassword rootfsDir
  run (.mountMove mntUserdata (rootfsDir ++ mntUserdata))
  run (.mountMove mntKeystore (rootfsDir ++ mntKeystore))
  run (.mountMove mntDatastore (rootfsDir ++ mntDatastore))
  run (.mountMove mntProvisioning (rootfsDir ++ mntProvisioning))

/-- The script: prepare the card unless it has the volume group, and mount. -/
def hiposprovisioningRun (rootfsDir bootparamRoot : String) : Script Unit := do
  let lvmdev := bootparamRoot
  let dev := devOf lvmdev
  run (.mountTmpfs "/tmp")
  run (.mkdir ["/tmp/mnt", "/tmp/provisioning", "/tmp/boot"])
  run (.mkdir [mntKeystore, mntDatastore, mntProvisioning])
  let found ← Proc.ask (.vgs lvmdev)
  prepareUnless dev lvmdev found.ok
  -- Mount prep-volumes
  run (.mount false (.lv "keystore") mntKeystore)
  verifyMountRootfs pvsnRootfs "rootfs_a" rootfsDir
  mountVolumes rootfsDir

end MetaHipos.Initrd.Provision
