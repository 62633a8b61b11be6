/-
  The `bootconfig` command (`main.c`).

  The functions of the source that print are left out, but for the check of
  `bc_ll_get_current` in `_print_config`.
-/
import MetaHipos.Bootconfig.Lowlevel

namespace MetaHipos

open Process

/-! ## `sscanf( s, "mtd%u", &part )` -/

/-- `isspace`, in the C locale. -/
def isspace (c : Char) : Bool := c.toNat == 32 || (9 ≤ c.toNat && c.toNat ≤ 13)

/-- The value of decimal digits. -/
def decimal (ds : List Char) : ℕ := ds.foldl (fun v c => 10 * v + (c.toNat - 48)) 0

/-- The number of values of an `unsigned long`, which has the size of a
    pointer. -/
def Target.ulongs (tgt : Target) : ℕ := 2 ^ (8 * tgt.ptrSize)

/-- `strtoul`, base 10: white space, a sign, and digits; `none` if there are no
    digits, the greatest value if there are too many. -/
def strtoul (tgt : Target) (cs : List Char) : Option ℕ :=
  let cs := cs.dropWhile isspace
  let neg := cs.head? = some '-'
  let cs := if cs.head? = some '-' ∨ cs.head? = some '+' then cs.tail else cs
  let ds := cs.takeWhile Char.isDigit
  if ds = [] then none
  else if tgt.ulongs ≤ decimal ds then some (tgt.ulongs - 1)
  else some (if neg then (tgt.ulongs - decimal ds) % tgt.ulongs else decimal ds)

/-- The `unsigned int` that is read, `none` unless the result of `sscanf` is
    `1`. -/
def sscanfMtd (tgt : Target) (partString : String) : Option (BitVec 32) :=
  match partString.toList with
  | 'm' :: 't' :: 'd' :: cs => (strtoul tgt cs).map (BitVec.ofNat 32)
  | _ => none

/-! ## Private functions -/

/-- `_print_config`: the texts depend on the current config only. -/
def printConfig (bc : Bootconfig) : Mtd Unit := do
  let _ ← bcLlGetCurrent bc
  pure ()

/-- `_set_kernel_healthy` and `_set_rootfs_healthy`, which differ in the image.
    The result of the library is dropped. -/
def mainSetHealthyOf (which : BtLlParttype) (bc : Bootconfig) : Mtd Bootconfig := do
  let bt ← bcLlGetCurrent bc
  match bt with
  | none => pure bc
  | some blockIdx =>
    if ((bc.blocks blockIdx).info which).nHealthy = 1 then do
      let (_, bc) ← setHealthyOf which bc blockIdx
      pure bc
    else pure bc

/-- `_set_kernel_healthy` -/
def mainSetKernelHealthy : Bootconfig → Mtd Bootconfig := mainSetHealthyOf .kernel

/-- `_set_rootfs_healthy` -/
def mainSetRootfsHealthy : Bootconfig → Mtd Bootconfig := mainSetHealthyOf .rootfs

/-- `_set`: the results of the library are dropped. -/
def mainSet (tgt : Target) (bc : Bootconfig) (partString : String) (partMod : ℤ)
    (what : BtLlParttype) : Mtd ℤ :=
  match sscanfMtd tgt partString with
  | none => .stop (.exit 1)
  | some part =>
    let part := part + BitVec.ofInt 32 partMod
    if 1 < part then .stop (.exit 1)
    else do
      let (_, bc) ← bcLlSetPartition tgt bc what part.toNat
      let (_, bc) ← bcLlReread tgt bc
      printConfig bc
      .stop (.exit 0)

/-! ## The command -/

/-- `main`, with the arguments from `argv[1]` on. -/
def main (tgt : Target) (argv : List String) : Mtd ℤ := do
  let bc ← bcLlInit false "/dev/mtd1"
  match argv with
  | [] => do
    printConfig bc
    .stop (.exit 0)
  | cmd :: args =>
    if cmd = "info" then .stop (.exit 0)
    else if cmd = "set-kernel-healthy" then do
      let bc ← mainSetKernelHealthy bc
      printConfig bc
      .stop (.exit 0)
    else if cmd = "set-rootfs-healthy" then do
      let bc ← mainSetRootfsHealthy bc
      printConfig bc
      .stop (.exit 0)
    else
      -- `help` does not exit, but prints the help text below
      let ret := if cmd = "help" then 0 else -1
      match args with
      | [arg] =>
        if cmd = "set-kernel" then mainSet tgt bc arg (-2) .kernel
        else if cmd = "set-rootfs" then mainSet tgt bc arg (-4) .rootfs
        else pure ret
      | _ => pure ret

/-- The exit status of a process, `none` if it does not exit. -/
def exitStatus : End Stop ℤ → Option ℕ
  | .done ret => some (ret % 256).toNat
  | .stopped (.exit status) => some (status % 256).toNat
  | .stopped _ => none

end MetaHipos
