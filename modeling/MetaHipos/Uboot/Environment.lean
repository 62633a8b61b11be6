/-
  U-Boot under the board code of `himx0294.c`.

  The environment of U-Boot, the HAB library and the drivers are not modelled.
  The environment is a type with the operations the board code uses and the
  laws it relies on; everything else is asked from the outside.
-/
import Mathlib.Algebra.Group.Nat.Defs
import Mathlib.Data.Int.Notation
import Mathlib.Data.Nat.Notation
import Mathlib.Logic.Function.Basic
import MetaHipos.Process.Basic

namespace MetaHipos.Uboot

open Process

/-! ## Environment variables -/

/-- `CFG_ENV_FLAGS_LIST_STATIC`: the variables that are loaded from flash. -/
def envFlagsList : List String := ["upgrade_available", "bootcount", "ustate", "firmware"]

/-- Environments `ε`, in memory and on flash. -/
class UbootEnv (ε : Type) where
  envGet : ε → String → Option String
  envSet : ε → String → String → ε
  /-- the value of a variable in the given base, or a default if it is absent -/
  envGetUlong : ε → String → ℕ → ℕ → ℕ
  envSetUlong : ε → String → ℕ → ε
  /-- the environment a boot starts with, from the one on flash and the default
      `fdt_file` -/
  envLoad : String → ε → ε
  /-- an empty value would delete the variable -/
  envGet_envSet : ∀ e n v, v ≠ "" → envGet (envSet e n v) n = some v
  envGet_envSet_of_ne : ∀ e n v m, m ≠ n → envGet (envSet e n v) m = envGet e m
  envGet_envSetUlong_of_ne : ∀ e n v m, m ≠ n → envGet (envSetUlong e n v) m = envGet e m
  envGetUlong_absent : ∀ e n d, envGet e n = none → envGetUlong e n 10 d = d
  /-- the value is read from the text of the variable -/
  envGetUlong_congr : ∀ e e' n d, envGet e n = envGet e' n →
    envGetUlong e n 10 d = envGetUlong e' n 10 d
  /-- a value that was set is read back -/
  envGetUlong_envSetUlong : ∀ e n v d, v < 2 ^ 32 → envGetUlong (envSetUlong e n v) n 10 d = v
  envGet_envLoad : ∀ fdt e n, n ∈ envFlagsList → envGet (envLoad fdt e) n = envGet e n
  envLoad_fdtFile : ∀ fdt e, envGet (envLoad fdt e) "fdt_file" = some fdt

export UbootEnv (envGet envSet envGetUlong envSetUlong envLoad)

/-- Variables as functions, with values in decimal. -/
instance : UbootEnv (String → Option String) where
  envGet e n := e n
  envSet e n v := Function.update e n (if v = "" then none else some v)
  envGetUlong e n b d := match e n with
    | some s => Nat.ofDigitChars b s.toList 0
    | none => d
  envSetUlong e n v := Function.update e n (some (toString v))
  envLoad fdt e n := if n ∈ envFlagsList then e n else if n = "fdt_file" then some fdt else none
  envGet_envSet e n v h := by simp [h]
  envGet_envSet_of_ne e n v m h := by simp [h]
  envGet_envSetUlong_of_ne e n v m h := by simp [h]
  envGetUlong_absent e n d h := by simp [h]
  envGetUlong_congr e e' n d h := by simp [h]
  envGetUlong_envSetUlong e n v d _ := by simp
  envGet_envLoad fdt e n h := by simp [h]
  envLoad_fdtFile fdt e := by simp [envFlagsList]

/-! ## Calls -/

/-- `enum hab_status`, `enum hab_config` and `enum hab_state`, as far as the
    board code knows their values. -/
inductive HabStatus where
  | success
  | other (code : ℕ)
deriving DecidableEq, Repr

/-- The configuration the HAB reports. -/
inductive HabConfig where
  | opened
  | closed
  | other (code : ℕ)
deriving DecidableEq, Repr

/-- The state the HAB reports. -/
inductive HabState where
  | nonsecure
  | trusted
  | other (code : ℕ)
deriving DecidableEq, Repr

/-- The calls of the board code. -/
inductive BoardOp (ε : Type) where
  | gpioGetValue
  | isCpuTypeMx6qp
  | uclassGetDevice
  | dmI2cProbe
  | imxHabIsEnabled
  | habRvtReportStatus
  | envSave (env : ε)

/-- What a call returns, and what the outside decides about it: for
    `env_save`, whether the environment is stored. -/
@[reducible] def BoardAns {ε : Type} : BoardOp ε → Type
  | .gpioGetValue => ℤ
  | .isCpuTypeMx6qp => Bool
  | .uclassGetDevice => ℤ
  | .dmI2cProbe => ℤ
  | .imxHabIsEnabled => Bool
  | .habRvtReportStatus => HabStatus × HabConfig × HabState
  | .envSave _ => Bool

/-- The environment on flash, as the outside of the board code. -/
def envFlash (ε : Type) : Env (BoardOp ε) BoardAns BoardAns ε where
  reply _ r _ := r
  next
    | .envSave env, r, stored => if r then env else stored
    | _, _, stored => stored

/-- How a boot ends without a result: a `NULL` pointer is read, or a buffer
    overrun. -/
inductive Fault where
  | nullPointer
  | overrun
deriving DecidableEq, Repr

/-- The board code. -/
abbrev UBoot (ε : Type) := Proc (BoardOp ε) BoardAns Fault

end MetaHipos.Uboot
