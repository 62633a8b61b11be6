/-
  Encrypting the volumes at the first boot: the init script `hiposencrypt`.

  The script is a process whose calls are its external commands, each with the
  step of the script that issues it.  The outside decides which commands fail,
  and what a failed one leaves behind; some cannot succeed at all, since an
  earlier one failed.

  * `Platform`: the cipher of dm-crypt and the file system, as far as the script
    relies on them;
  * `Host`, `host`: the volumes, mappings and mounts, and what the commands do;
  * `hiposencryptEnabled`, `hiposencryptRun`: the script.
-/
import Mathlib.Logic.Equiv.Defs
import MetaHipos.Initrd.Hiposmount

namespace MetaHipos.Initrd.Encrypt

open Process

/-! ## Commands -/

/-- The external commands of `hiposencrypt`. -/
inductive EncryptCmd where
  /-- `mkdir -p <dir>` -/
  | mkdir (dir : String)
  /-- `mount [-o ro] <dev> <dir>` -/
  | mount (ro : Bool) (dev dir : String)
  /-- `umount <dir>...` -/
  | umount (dirs : List String)
  /-- `caam-keygen create <key> ccm -s 32`; the blob is `<key>.bb` -/
  | caamKeygenCreate (key : String)
  /-- `keyctl padd logon dmcrypt: @us < <file>` -/
  | keyctlPadd (file : String)
  /-- `rm <file>` -/
  | rm (file : String)
  /-- `blockdev --getsz <dev>` -/
  | blockdevGetsz (dev : String)
  /-- `dmsetup -v create <label> --table <table>` -/
  | dmsetupCreate (label : String) (table : CryptTable)
  /-- `dmsetup remove <label>` -/
  | dmsetupRemove (label : String)
  /-- `mkfs.ext4 -qF <dev>` -/
  | mkfsExt4 (dev : String)
  /-- `cp -a <src>/. <dst>/` -/
  | cp (src dst : String)
  /-- `dd if=<src> of=<dst> bs=4k conv=fsync status=progress` -/
  | dd (src dst : String)
  /-- `sleep 1` -/
  | sleep
  /-- `lvs --devices <devices> <lv>` -/
  | lvs (devices lv : String)
  /-- `lvremove --devices <devices> -An -y <lv>...` -/
  | lvremove (devices : String) (lvs : List String)
deriving DecidableEq, Repr

/-- A command and the step that issues it: the label of the volume that is
    encrypted, or the script itself. -/
structure Issued where
  step : String
  cmd : EncryptCmd
deriving DecidableEq, Repr

/-- A script: commands with their outcomes, and an exit status where it ends early. -/
abbrev Script := Proc Issued (fun _ => Result) ℕ

/-- Whether a command succeeds, as far as it can.  One that fails may have
    handled a part of its arguments. -/
inductive Outcome where
  | success
  | failure (part : String → Bool)

/-- The exit status of a command is 0. -/
def Outcome.ok : Outcome → Bool
  | .success => true
  | .failure _ => false

/-- The arguments that are handled in spite of the failure. -/
def Outcome.part : Outcome → String → Bool
  | .success => fun _ => true
  | .failure part => part

/-! ## The platform -/

/-- The files of a file system by their paths: content and attributes. -/
abbrev Files := String → Option String

/-- `cp -a`: the files of the source replace those of the target. -/
def Files.onto (f g : Files) : Files := fun path => (f path).or (g path)

/-- An empty directory. -/
def Files.none : Files := fun _ => Option.none

/-- What the script uses: dm-crypt, with keys `K` and blocks `B`, and ext4.
    A device shows its blocks. -/
structure Platform (K B : Type) where
  /-- the cipher, block by block -/
  cipher : K → ℕ → Equiv.Perm B
  /-- `blockdev --getsz` -/
  getsz : String → ℕ
  /-- the files that a mount shows, if there is a file system on the device -/
  read : (ℕ → B) → Option Files
  /-- the files of a new file system -/
  fresh : Files
  /-- `mkfs.ext4` -/
  format : (ℕ → B) → (ℕ → B)
  /-- files copied to a mounted device -/
  write : Files → (ℕ → B) → (ℕ → B)
  /-- a device without a file system -/
  blank : ℕ → B
  read_format : ∀ c, read (format c) = some fresh
  read_write : ∀ f c g, read c = some g → read (write f c) = some (f.onto g)
  read_blank : read blank = Option.none

section
variable {K B : Type}

/-- The contents of a device, for decrypted contents. -/
def Platform.encrypt (p : Platform K B) (k : K) (c : ℕ → B) : ℕ → B := fun i => p.cipher k i (c i)

/-- The contents a mapping shows of a device. -/
def Platform.decrypt (p : Platform K B) (k : K) (c : ℕ → B) : ℕ → B :=
  fun i => (p.cipher k i).symm (c i)

@[simp] theorem Platform.decrypt_encrypt (p : Platform K B) (k : K) (c : ℕ → B) :
    p.decrypt k (p.encrypt k c) = c := by
  funext i
  simp [decrypt, encrypt]

/-! ## The host -/

/-- The volumes by the paths of their devices, with the blocks they hold, and
    what is in the directory `caam` of the keystore; the kernel keyring, the
    mappings by the paths of their devices, each with the device below and the
    key, the mounts by their directories, and the files in directories of the
    init file system. -/
structure Host (K B : Type) where
  volume : String → Option (ℕ → B)
  blob : Option K
  keyFile : Option K
  keyring : Option K
  mapping : String → Option (String × K)
  mountedOn : String → Option String
  tmpfs : String → Files

/-- What the outside responds: the outcome, the key that is created, and what
    a failed command leaves in the keystore or on the device. -/
structure Resp (K B : Type) where
  outcome : Outcome
  key : K
  blob : Option K
  keyFile : Option K
  content : ℕ → B

/-- The device of the keystore. -/
def keystoreDev : String := "/dev/hydralvm/keystore"

/-- `_MNT_KEYSTORE` -/
def mntKeystore : String := "/tmp/keystore"

/-- The file with the blob of the key. -/
def volumeKey : String := mntKeystore ++ "/caam/volumeKey"

variable (p : Platform K B) (s : Host K B)

/-- What a block device shows. -/
def Host.content (dev : String) : Option (ℕ → B) :=
  match s.mapping dev with
  | some (lower, k) => (s.volume lower).map (p.decrypt k)
  | none => s.volume dev

/-- Blocks written to a volume, if it exists. -/
def Host.fill (dev : String) (c : ℕ → B) : Host K B :=
  { s with volume := Function.update s.volume dev ((s.volume dev).map fun _ => c) }

/-- Blocks written to a block device.  Where there is none, this is a plain file. -/
def Host.write (dev : String) (c : ℕ → B) : Host K B :=
  match s.mapping dev with
  | some (lower, k) => s.fill lower (p.encrypt k c)
  | none => s.fill dev c

/-- The files in a directory. -/
def Host.files (dir : String) : Option Files :=
  match s.mountedOn dir with
  | some dev => (s.content p dev).bind p.read
  | none => some (s.tmpfs dir)

/-- The volume with the keys is mounted. -/
def Host.keystoreMounted : Bool := decide (s.mountedOn mntKeystore = some keystoreDev)

/-- Whether a command can succeed at all. -/
def Host.possible : EncryptCmd → Bool
  | .mount _ dev _ => ((s.content p dev).bind p.read).isSome
  | .caamKeygenCreate _ => s.keystoreMounted
  | .keyctlPadd _ => s.keystoreMounted && s.keyFile.isSome
  | .blockdevGetsz dev => (s.content p dev).isSome
  | .dmsetupCreate label table => decide (table.sectors ≠ "") && (s.volume table.device).isSome &&
    (s.mapping (mapper label)).isNone && s.keyring.isSome
  | .mkfsExt4 dev => (s.content p dev).isSome
  | .cp src _ => (s.files p src).isSome
  | .dd src _ => (s.content p src).isSome
  | .lvs _ lv => (s.volume lv).isSome
  | _ => true

/-- The host with one more mount. -/
def Host.mount (dir dev : String) : Host K B :=
  { s with mountedOn := Function.update s.mountedOn dir (some dev) }

/-- The host with a mapping that came or went. -/
def Host.remap (dev : String) (target : Option (String × K)) : Host K B :=
  { s with mapping := Function.update s.mapping dev target }

/-- The host without some mounts. -/
def Host.umount (dirs : List String) : Host K B :=
  { s with mountedOn := fun dir => if dir ∈ dirs then none else s.mountedOn dir }

/-- The host without some volumes. -/
def Host.remove (lvs : List String) : Host K B :=
  { s with volume := fun dev => if dev ∈ lvs.map ("/dev/" ++ ·) then none else s.volume dev }

/-- What a command does if it succeeds. -/
def Host.success (r : Resp K B) : EncryptCmd → Host K B
  | .mount _ dev dir => s.mount dir dev
  | .umount dirs => s.umount dirs
  | .caamKeygenCreate _ => { s with blob := some r.key, keyFile := some r.key }
  | .keyctlPadd _ => { s with keyring := s.keyFile }
  | .rm _ => if s.keystoreMounted then { s with keyFile := none } else s
  | .dmsetupCreate label table =>
    s.remap (mapper label) (s.keyring.map fun k => (table.device, k))
  | .dmsetupRemove label => s.remap (mapper label) none
  | .mkfsExt4 dev => match s.content p dev with
    | some c => s.write p dev (p.format c)
    | none => s
  | .cp src dst => match s.files p src, s.mountedOn dst with
    | some f, some dev => match s.content p dev with
      | some c => s.write p dev (p.write f c)
      | none => s
    | some f, none =>
      { s with tmpfs := Function.update s.tmpfs dst (f.onto (s.tmpfs dst)) }
    | none, _ => s
  | .dd src dst => match s.content p src with
    | some c => s.write p dst c
    | none => s
  | .lvremove _ lvs => s.remove lvs
  | _ => s

/-- What a command does if it fails. -/
def Host.failure (r : Resp K B) : EncryptCmd → Host K B
  | .umount dirs => s.umount (dirs.filter r.outcome.part)
  | .caamKeygenCreate _ =>
    if s.keystoreMounted then { s with blob := r.blob, keyFile := r.keyFile } else s
  | .mkfsExt4 dev => s.write p dev r.content
  | .cp _ dst => match s.mountedOn dst with
    | some dev => s.write p dev r.content
    | none => s
  | .dd _ dst => s.write p dst r.content
  | .lvremove _ lvs => s.remove (lvs.filter r.outcome.part)
  | _ => s

/-- What a command prints. -/
def Host.output : EncryptCmd → String
  | .blockdevGetsz dev => (p.getsz dev).repr
  | _ => ""

/-- The host as an environment. -/
def host : Env Issued (fun _ => Result) (fun _ => Resp K B) (Host K B) where
  reply c r s := if r.outcome.ok && s.possible p c.cmd then ⟨true, Host.output p c.cmd⟩
    else ⟨false, ""⟩
  next c r s := if r.outcome.ok && s.possible p c.cmd then s.success p r c.cmd
    else s.failure p r c.cmd

end

/-! ## The script -/

/-- `_PVSN_ROOTFS` -/
def pvsnRootfs : String := "pvsn_rootfs"

/-- `_PVSN_USERDATA` -/
def pvsnUserdata : String := "pvsn_userdata"

/-- `_PVSN_PROVISIONING` -/
def pvsnProvisioning : String := "pvsn_provisioning"

/-- `_PVSN_DATASTORE` -/
def pvsnDatastore : String := "pvsn_datastore"

/-- `_LVM_LABEL` -/
def lvmLabel : String := "hydralvm"

/-- Issue a command. -/
def run (step : String) (cmd : EncryptCmd) : Script Result := Proc.ask ⟨step, cmd⟩

/-- The step of what is issued by `hiposencrypt_enabled` and `hiposencrypt_run`. -/
def main : String := "hiposencrypt"

/-- `mkdir -p "$dir" && mount [-o ro] "$dev" "$dir"` -/
def mkdirMount (step : String) (ro : Bool) (dev dir : String) : Script Unit := do
  let made ← run step (.mkdir dir)
  if made.ok then do
    let _ ← run step (.mount ro dev dir)
    pure ()
  else pure ()

/-- `dmsetup -v create "$decrypt_label" --table "0 $(blockdev --getsz "$target_dev") crypt ..."` -/
def dmsetupCreate (step decrypt_label target_dev : String) : Script Unit := do
  let sectors ← run step (.blockdevGetsz target_dev)
  let _ ← run step (.dmsetupCreate decrypt_label (cryptTable sectors.out target_dev))
  pure ()

/-- `encrypt_and_populate` -/
def encryptAndPopulate (label source : String) : Script Unit := do
  let target_dev := "/dev/" ++ lvmLabel ++ "/" ++ label
  let decrypt_label := "decrypted-" ++ lvmLabel ++ "-" ++ label
  let decrypt_dev := "/dev/mapper/" ++ decrypt_label
  let source_dev := "/dev/" ++ lvmLabel ++ "/" ++ source
  dmsetupCreate label decrypt_label target_dev
  let _ ← run label (.mkfsExt4 decrypt_dev)
  mkdirMount label false decrypt_dev ("/tmp/" ++ label)
  mkdirMount label true source_dev ("/tmp/" ++ source)
  let _ ← run label (.cp ("/tmp/" ++ source) ("/tmp/" ++ label))
  let _ ← run label (.umount ["/tmp/" ++ label, "/tmp/" ++ source])
  let _ ← run label .sleep
  let _ ← run label (.dmsetupRemove decrypt_label)
  pure ()

/-- `encrypt_and_clone` -/
def encryptAndClone (label source : String) : Script Unit := do
  let target_dev := "/dev/" ++ lvmLabel ++ "/" ++ label
  let decrypt_label := "decrypted-" ++ lvmLabel ++ "-" ++ label
  let decrypt_dev := "/dev/mapper/" ++ decrypt_label
  let source_dev := "/dev/" ++ lvmLabel ++ "/" ++ source
  dmsetupCreate label decrypt_label target_dev
  -- simple block-level clone
  let _ ← run label (.dd source_dev decrypt_dev)
  let _ ← run label .sleep
  let _ ← run label (.dmsetupRemove decrypt_label)
  pure ()

/-- Returns `true` for 0. -/
def hiposencryptEnabled (bootparamRoot : String) : Script Bool := do
  let found ← run main (.lvs bootparamRoot ("/dev/" ++ lvmLabel ++ "/" ++ pvsnRootfs))
  pure found.ok

/-- The key for the encryption, in the keystore and in the keyring. -/
def createKey : Script Unit := do
  mkdirMount main false keystoreDev mntKeystore
  -- Create CAAM key for encryption
  let _ ← run main (.caamKeygenCreate volumeKey)
  let _ ← run main (.keyctlPadd volumeKey)
  let _ ← run main (.rm volumeKey)
  let _ ← run main (.umount [mntKeystore])
  pure ()

/-- `hiposencrypt_run` up to its last command. -/
def hiposencryptCopy : Script Unit := do
  createKey
  -- Populate provisioning and datastore volumes
  encryptAndPopulate "provisioning" pvsnProvisioning
  encryptAndPopulate "datastore" pvsnDatastore
  -- Populate both userdata volumes
  encryptAndPopulate "userdata_a" pvsnUserdata
  encryptAndPopulate "userdata_b" pvsnUserdata
  -- Clone rootfs volumes
  encryptAndClone "rootfs_a" pvsnRootfs

/-- The volumes that are removed, in the order of the command. -/
def pvsnVolumes : List String :=
  [lvmLabel ++ "/" ++ pvsnRootfs, lvmLabel ++ "/" ++ pvsnUserdata,
    lvmLabel ++ "/" ++ pvsnProvisioning, lvmLabel ++ "/" ++ pvsnDatastore]

/-- `hiposencrypt_run` -/
def hiposencryptRun (bootparamRoot : String) : Script Unit := do
  hiposencryptCopy
  -- Remove all preparation volumes
  let _ ← run main (.lvremove bootparamRoot pvsnVolumes)
  pure ()

/-- The init framework runs the script only if it is enabled. -/
def boot (bootparamRoot : String) : Script Bool := do
  let enabled ← hiposencryptEnabled bootparamRoot
  if enabled then hiposencryptRun bootparamRoot else pure ()
  pure enabled

end MetaHipos.Initrd.Encrypt
