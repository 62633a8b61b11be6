/-
  Mounting the root file system: the init script `hiposmount`.

  The script is a process whose calls are its external commands.  A command
  that is not checked does not stop it.  Whether a command succeeds is up to the
  outside, but for what it cannot do without: a mount needs its device, and
  `veritysetup open` its data device, its files and a label that is free.

  * `MountCmd`, `Machine`, `machine`: the commands, and what they do to the
    block devices and mounts;
  * `hiposmountPrepare`, `hiposmountRun`: the script, without and with its last
    line.
-/
import Mathlib.Data.List.Basic
import Mathlib.Logic.Function.Basic
import MetaHipos.Process.Wp

namespace MetaHipos.Initrd

open Process

/-! ## Commands -/

/-- The table of a dm-crypt target:
    `0 <sectors> crypt <cipher> <key> <iv offset> <device> <offset> 1 <option>`. -/
structure CryptTable where
  sectors : String
  cipher : String
  key : String
  ivOffset : ℕ
  device : String
  offset : ℕ
  option : String
deriving DecidableEq, Repr

/-- The table both scripts use. -/
def cryptTable (sectors device : String) : CryptTable where
  sectors := sectors
  cipher := "capi:tk(cbc(aes))-eboiv"
  key := ":64:logon:dmcrypt:"
  ivOffset := 0
  device := device
  offset := 0
  option := "sector_size:4096"

/-- The external commands of `hiposmount`. -/
inductive MountCmd where
  /-- `mount -t tmpfs tmp <dir>` -/
  | mountTmpfs (dir : String)
  /-- `mkdir -p <dir>` -/
  | mkdir (dir : String)
  /-- `mount -t ext4 [-o ro] <dev> <dir>` -/
  | mount (ro : Bool) (dev dir : String)
  /-- `openssl dgst -sha256 -verify <pubkey> -signature <signature> <file>` -/
  | opensslVerify (pubkey signature file : String)
  /-- `caam-keygen import <blob> <key>` -/
  | caamKeygenImport (blob key : String)
  /-- `keyctl padd logon dmcrypt: @us < <file>` -/
  | keyctlPadd (file : String)
  /-- `rm -f <file>` -/
  | rm (file : String)
  /-- `blockdev --getsz <dev>` -/
  | blockdevGetsz (dev : String)
  /-- `dmsetup -v create <label> --table <table>` -/
  | dmsetupCreate (label : String) (table : CryptTable)
  /-- `veritysetup open --root-hash-file=<file> <dev> <label> <hashDevice>` -/
  | veritysetupOpen (file dev label hashDevice : String)
  /-- `mount --move <dir> <dir'>` -/
  | mountMove (dir dir' : String)
deriving DecidableEq, Repr

/-- What a command returns: whether it succeeded, and its output. -/
structure Result where
  ok : Bool
  out : String
deriving DecidableEq, Repr

/-- A script; it may exit. -/
abbrev Script := Proc MountCmd (fun _ => Result) ℕ

/-! ## The machine -/

/-- A block device: a volume, or a device-mapper mapping.  A verity mapping
    shows `data` as far as it matches the root hash, which was read from
    `file`. -/
inductive Device (α : Type) where
  | volume
  | crypt (dev : String)
  | verity (data : String) (file : String) (rootHash : α) (hashDevice : String)

/-- A mounted file system. -/
structure Mount where
  dir : String
  dev : String
  ro : Bool
deriving DecidableEq, Repr

/-- A file whose signature was accepted. -/
structure Accepted (α : Type) where
  pubkey : String
  signature : α
  file : String
  content : α

/-- The block devices by their paths, the mounts (the latest first), and what
    `openssl` has accepted. -/
structure Machine (α : Type) where
  device : String → Option (Device α)
  mounts : List Mount
  accepted : List (Accepted α)

/-- The device node of a mapping. -/
def mapper (label : String) : String := "/dev/mapper/" ++ label

section
variable {α : Type}

/-- The device that is mounted on a directory. -/
def Machine.mountedOn (s : Machine α) (dir : String) : Option String :=
  (s.mounts.find? fun m => m.dir = dir).map Mount.dev

variable (read : List Mount → String → Option α)

/-- Whether a command succeeds, if the outside lets it (`r`).  `read` is the
    content of the files, depending on what is mounted. -/
def Machine.succeeds (s : Machine α) : MountCmd → Bool → Bool
  | .mount _ dev _, r => r && (s.device dev).isSome
  | .opensslVerify _ signature file, r =>
    r && (read s.mounts signature).isSome && (read s.mounts file).isSome
  | .dmsetupCreate label _, r => r && (s.device (mapper label)).isNone
  | .veritysetupOpen file dev label hashDevice, r => r && (s.device dev).isSome &&
    (s.device (mapper label)).isNone && (read s.mounts file).isSome &&
    (read s.mounts hashDevice).isSome
  | .mountMove dir _, r => r && (s.mountedOn dir).isSome
  | _, r => r

/-- The machine with one more block device. -/
def Machine.map (s : Machine α) (label : String) (d : Device α) : Machine α :=
  { s with device := Function.update s.device (mapper label) (some d) }

/-- What a command does if it succeeds. -/
def Machine.effect (s : Machine α) : MountCmd → Machine α
  | .mountTmpfs dir => { s with mounts := ⟨dir, "tmp", false⟩ :: s.mounts }
  | .mount ro dev dir => { s with mounts := ⟨dir, dev, ro⟩ :: s.mounts }
  | .opensslVerify pubkey signature file =>
    match read s.mounts signature, read s.mounts file with
    | some sig, some content => { s with accepted := ⟨pubkey, sig, file, content⟩ :: s.accepted }
    | _, _ => s
  | .dmsetupCreate label table => s.map label (.crypt table.device)
  | .veritysetupOpen file dev label hashDevice =>
    match read s.mounts file with
    | some rootHash => s.map label (.verity dev file rootHash hashDevice)
    | none => s
  | .mountMove dir dir' =>
    match s.mounts.find? fun m => m.dir = dir with
    | some m => { s with mounts := ⟨dir', m.dev, m.ro⟩ :: s.mounts.erase m }
    | none => s
  | _ => s

/-- The machine as an environment. -/
def machine : Env MountCmd (fun _ => Result) (fun _ => Result) (Machine α) where
  reply c r s := { r with ok := s.succeeds read c r.ok }
  next c r s := if s.succeeds read c r.ok then s.effect read c else s

end

/-! ## The script -/

/-- `_LVM_KEYSTORE` -/
def lvmKeystore : String := "/dev/mapper/hydralvm-keystore"

/-- `_LVM_DATASTORE` -/
def lvmDatastore : String := "/dev/mapper/hydralvm-datastore"

/-- `_LVM_PROVISIONING` -/
def lvmProvisioning : String := "/dev/mapper/hydralvm-provisioning"

/-- `_LVM_ROOTFS` -/
def lvmRootfs : String := "/dev/mapper/hydralvm-rootfs_"

/-- `_LVM_USERDATA` -/
def lvmUserdata : String := "/dev/mapper/hydralvm-userdata_"

/-- `_MNT_KEYSTORE` -/
def mntKeystore : String := "/mnt/keystore"

/-- `_MNT_USERDATA` -/
def mntUserdata : String := "/mnt/hydra"

/-- `_MNT_DATASTORE` -/
def mntDatastore : String := "/mnt/datastore"

/-- `_MNT_PROVISIONING` -/
def mntProvisioning : String := "/mnt/provisioning"

/-- `_LABEL_DECRYPT_DATASTORE` -/
def labelDecryptDatastore : String := "decrypted-hydralvm-datastore"

/-- `_LABEL_DECRYPT_PROVISIONING` -/
def labelDecryptProvisioning : String := "decrypted-hydralvm-provisioning"

/-- `_LABEL_DECRYPT_ROOTFS` -/
def labelDecryptRootfs : String := "decrypted-hydralvm-rootfs_"

/-- `_LABEL_DECRYPT_USERDATA` -/
def labelDecryptUserdata : String := "decrypted-hydralvm-userdata_"

/-- `_LABEL_VERITY_ROOTFS` -/
def labelVerityRootfs : String := "verity-rootfs_"

/-- `_ROOTHASH_PUBKEY` -/
def roothashPubkey : String := "/etc/iris/signing/roothash-public-key.pem"

/-- The message is printed only. -/
def fail : Script Unit := .stop 1

/-- `dmsetup -v create "$label" --table "0 $(blockdev --getsz $lvm) crypt ..."` -/
def dmsetupCreate (label lvm : String) : Script Unit := do
  let sectors ← Proc.ask (.blockdevGetsz lvm)
  let _ ← Proc.ask (.dmsetupCreate label (cryptTable sectors.out lvm))
  pure ()

/-- The booted slot. -/
def firmwareslotOf (bootparamFirmwareslot : String) : String :=
  if bootparamFirmwareslot = "a" then "a" else "b"

/-- `hiposmount_run` up to its last line. -/
def hiposmountPrepare (rootfsDir bootparamFirmwareslot : String) : Script Unit := do
  let firmwareslot := firmwareslotOf bootparamFirmwareslot
  let _ ← Proc.ask (.mountTmpfs "/tmp")
  let lvm_rootfs := lvmRootfs ++ firmwareslot
  let label_decrypt_rootfs := labelDecryptRootfs ++ firmwareslot
  let label_verity_rootfs := labelVerityRootfs ++ firmwareslot
  let lvm_userdata := lvmUserdata ++ firmwareslot
  let label_decrypt_userdata := labelDecryptUserdata ++ firmwareslot
  let hash_device := mntKeystore ++ "/verity/rootfs_" ++ firmwareslot ++ ".hashdevice"
  let root_hash_file := mntKeystore ++ "/verity/rootfs_" ++ firmwareslot ++ ".roothash"
  let root_hash_signature :=
    mntKeystore ++ "/verity/rootfs_" ++ firmwareslot ++ ".roothash.signature"
  -- mount keystore volume
  let _ ← Proc.ask (.mkdir mntKeystore)
  let keystore ← Proc.ask (.mount true lvmKeystore mntKeystore)
  if keystore.ok = false then .stop 1
  else do
    -- validate roothash signature against public signing key
    let valid ← Proc.ask (.opensslVerify roothashPubkey root_hash_signature root_hash_file)
    if valid.ok = false then fail
    else do
      -- unpack CAAM black key blob and add to kernel keyring
      let importKey := "/tmp/blackkey"
      let _ ← Proc.ask (.caamKeygenImport (mntKeystore ++ "/caam/volumeKey.bb") importKey)
      let _ ← Proc.ask (.keyctlPadd importKey)
      let _ ← Proc.ask (.rm importKey)
      -- decrypt and verify
      dmsetupCreate label_decrypt_rootfs lvm_rootfs
      let _ ← Proc.ask (.veritysetupOpen root_hash_file ("/dev/mapper/" ++ label_decrypt_rootfs)
        label_verity_rootfs hash_device)
      -- mount dm-verity mapper as rootfs
      let rootfs ← Proc.ask (.mount true ("/dev/mapper/" ++ label_verity_rootfs) rootfsDir)
      if rootfs.ok = false then fail
      else do
        -- decrypt and mount userdata, datastore and provisioning volumes
        dmsetupCreate label_decrypt_userdata lvm_userdata
        dmsetupCreate labelDecryptDatastore lvmDatastore
        dmsetupCreate labelDecryptProvisioning lvmProvisioning
        let _ ← Proc.ask (.mount false ("/dev/mapper/" ++ label_decrypt_userdata)
          (rootfsDir ++ mntUserdata))
        let _ ← Proc.ask (.mount false ("/dev/mapper/" ++ labelDecryptDatastore)
          (rootfsDir ++ mntDatastore))
        let _ ← Proc.ask (.mount true ("/dev/mapper/" ++ labelDecryptProvisioning)
          (rootfsDir ++ mntProvisioning))
        pure ()

/-- `hiposmount_run` -/
def hiposmountRun (rootfsDir bootparamFirmwareslot : String) : Script Unit := do
  hiposmountPrepare rootfsDir bootparamFirmwareslot
  -- move keystore mount into new
  let _ ← Proc.ask (.mountMove mntKeystore (rootfsDir ++ mntKeystore))
  pure ()

end MetaHipos.Initrd
