/-
  The board code of `himx0294.c` that prepares a boot.

  Each function of the source is a definition of the same name.  A function
  that sets variables returns the changed environment in memory.  Reading a
  `NULL` pointer and writing outside of a buffer are faults.
-/
import MetaHipos.Uboot.Environment

namespace MetaHipos.Uboot

open Process

/-! ## C strings -/

/-- `strrchr( s, c )`: the end of `s` from its last `c` on. -/
def strrchr : List Char → Char → Option (List Char)
  | [], _ => none
  | x :: s, c =>
    match strrchr s c with
    | some r => some r
    | none => if x = c then some (x :: s) else none

/-- The terminating character. -/
def nul : Char := Char.ofNat 0

/-- `char buf[ n ] = s` -/
def charArray (n : ℕ) (s : List Char) : List Char := s ++ List.replicate (n - s.length) nul

/-- The string at the start of a buffer. -/
def cstring (buf : List Char) : List Char := buf.takeWhile (· ≠ nul)

/-- `strncpy( buf + off, src, n )`, `none` if it writes outside of `buf`. -/
def strncpy (buf : List Char) (off : ℕ) (src : List Char) (n : ℕ) : Option (List Char) :=
  if off + n ≤ buf.length then
    some (buf.take off ++ (charArray n (src.take n) ++ buf.drop (off + n)))
  else none

/-- The string that `snprintf` leaves in a buffer of `size` bytes. -/
def snprintf (size : ℕ) (s : String) : String := String.ofList (s.toList.take (size - 1))

/-- The conversion of an `unsigned long` to `int`. -/
def cInt (v : ℕ) : ℤ := (BitVec.ofNat 32 v).toInt

/-! ## The boards -/

/-- The boards with a detection of their own. -/
inductive Variant where
  | ivap
  | dvmon
  | other
deriving DecidableEq, Repr

/-- A board and its `CONFIG_DEFAULT_FDT_FILE`. -/
structure Board where
  variant : Variant
  defaultFdtFile : String

def HIMX_DEFAULT_FDT_FILE_DVREC : String := "/boot/imx6q-himx0294-dvrec.dtb"

def HIMX_DEFAULT_FDT_FILE_DVREC_P : String := "/boot/imx6qp-himx0294-dvrec.dtb"

def HIMX_DEFAULT_FDT_FILE_DVMON_2 : String := "/boot/imx6q-himx0294-dvmon-2.dtb"

variable {ε : Type} [UbootEnv ε]

/-! ## The state of the HAB -/

/-- The answers of the HAB. -/
structure Hab where
  enabled : Bool
  status : HabStatus
  config : HabConfig
  state : HabState
deriving DecidableEq, Repr

/-- What `get_hab_state` returns for these answers: `0` if everything says open,
    `1` if everything says closed. -/
def Hab.value (hab : Hab) : ℤ :=
  if hab.enabled = false ∧ hab.status = .success ∧ hab.config = .opened ∧
      hab.state = .nonsecure then
    0
  else if hab.enabled = true ∧ hab.status = .success ∧ hab.config = .closed ∧
      hab.state = .trusted then
    1
  else -1

/-- `get_hab_state`: ask the HAB. -/
def getHabState : UBoot ε ℤ := do
  let enabled ← Proc.ask BoardOp.imxHabIsEnabled
  let (status, config, state) ← Proc.ask BoardOp.habRvtReportStatus
  pure (Hab.value ⟨enabled, status, config, state⟩)

/-! ## The boot commands -/

/-- The buffer `fit_conf`, from the last `/` of `fdt_file` on. -/
def fitConfBuffer (basename : List Char) : Option (List Char) :=
  let fitConf := charArray 32 "conf-".toList
  let len := (cstring fitConf).length
  strncpy fitConf len basename.tail (32 - len - 1)

/-- `board_generate_fit_conf`: the configuration for the device tree file. -/
def boardGenerateFitConf (env : ε) : UBoot ε ε :=
  match envGet env "fdt_file" with
  | none => .stop .nullPointer
  | some fdtFile =>
    match strrchr fdtFile.toList '/' with
    | none => pure (envSet env "fit_conf" fdtFile)
    | some basename =>
      match fitConfBuffer basename with
      | none => .stop .overrun
      | some fitConf => pure (envSet env "fit_conf" (String.ofList (cstring fitConf)))

/-- The boot command for a slot … -/
def fitbootText (firmware : Char) : String :=
  "run setup_part_" ++ String.ofList [firmware] ++ "; run do_fitboot; reset;"

/-- … and the one that falls back to an image without a signature. -/
def legacybootText (firmware : Char) : String :=
  "run setup_part_" ++ String.ofList [firmware] ++ "; run do_fitboot; run do_legacyboot; reset;"

/-- Write a switched slot to the environment and save it. -/
def saveSwitch (env : ε) (firmwareEnv : ℕ) : UBoot ε ε := do
  let env := envSetUlong env "firmware" firmwareEnv
  let env := envSetUlong env "ustate" 2
  let _ ← Proc.ask (BoardOp.envSave env)
  pure env

/-- The part of `board_generate_bootcmd` that finds out the slot, and the
    alternative. -/
def selectFirmware (env : ε) (firmwareEnv upgradeAvailable ustate : ℤ) :
    UBoot ε (Char × Char × ε) :=
  if upgradeAvailable = 1 ∧ ustate = 1 then
    if firmwareEnv = 1 then do
      let env ← saveSwitch env 0
      pure ('a', 'b', env)
    else do
      let env ← saveSwitch env 1
      pure ('b', 'a', env)
  else if firmwareEnv = 1 then pure ('b', 'a', env)
  else pure ('a', 'b', env)

/-- `board_generate_bootcmd`: the boot commands for the slot and its alternative. -/
def boardGenerateBootcmd (cachedHabState : ℤ) (env : ε) : UBoot ε ε := do
  let firmwareEnv := cInt (envGetUlong env "firmware" 10 0)
  let upgradeAvailable := cInt (envGetUlong env "upgrade_available" 10 0)
  let ustate := cInt (envGetUlong env "ustate" 10 0)
  let (firmware, altfirmware, env) ← selectFirmware env firmwareEnv upgradeAvailable ustate
  let bootcmd := snprintf 64 (fitbootText firmware)
  let altbootcmd :=
    if upgradeAvailable ≠ 0 ∧ cachedHabState = 0 then snprintf 64 (legacybootText altfirmware)
    else snprintf 64 (fitbootText altfirmware)
  let env := envSet env "bootcmd" bootcmd
  pure (envSet env "altbootcmd" altbootcmd)

/-! ## `board_late_init` -/

/-- Up to `n` more probes of the device. -/
def i2cProbeLoop : ℕ → UBoot ε Bool
  | 0 => pure false
  | n + 1 => do
    let ret ← Proc.ask BoardOp.dmI2cProbe
    if ret = (0 : ℤ) then pure true else i2cProbeLoop n

/-- `has_i2c_device`: up to five probes. -/
def hasI2cDevice : UBoot ε Bool := do
  let ret ← Proc.ask BoardOp.uclassGetDevice
  if ret ≠ (0 : ℤ) then pure false else i2cProbeLoop 5

/-- `!strcmp( env_get( "fdt_file" ), CONFIG_DEFAULT_FDT_FILE )` -/
def isDefaultFdt (board : Board) (env : ε) : UBoot ε Bool :=
  match envGet env "fdt_file" with
  | none => .stop .nullPointer
  | some fdtFile => pure (fdtFile = board.defaultFdtFile)

/-- The part of `board_late_init` that depends on the board. -/
def boardDetect (board : Board) (env : ε) : UBoot ε ε :=
  match board.variant with
  | .ivap => do
    let gpio ← Proc.ask BoardOp.gpioGetValue
    if gpio ≠ (0 : ℤ) then pure env
    else do
      let isDefault ← isDefaultFdt board env
      if isDefault = false then pure env
      else do
        let mx6qp ← Proc.ask BoardOp.isCpuTypeMx6qp
        pure (envSet env "fdt_file"
          (if mx6qp then HIMX_DEFAULT_FDT_FILE_DVREC_P else HIMX_DEFAULT_FDT_FILE_DVREC))
  | .dvmon => do
    let touch ← hasI2cDevice
    if touch = false then pure env
    else do
      let isDefault ← isDefaultFdt board env
      if isDefault = false then pure env
      else pure (envSet env "fdt_file" HIMX_DEFAULT_FDT_FILE_DVMON_2)
  | .other => pure env

/-- `board_late_init` -/
def boardLateInit (board : Board) (env : ε) : UBoot ε ε := do
  let env ← boardDetect board env
  let cachedHabState ← getHabState
  let env ← boardGenerateFitConf env
  boardGenerateBootcmd cachedHabState env

/-- A boot, from the environment on flash. -/
def boot (board : Board) (stored : ε) : UBoot ε ε :=
  boardLateInit board (envLoad board.defaultFdtFile stored)

end MetaHipos.Uboot
