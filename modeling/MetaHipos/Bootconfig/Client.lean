/-
  Programs that use the low level routines.

  They read the config, set partitions and mark the images of the current
  block as healthy, in any order.
-/
import MetaHipos.Process.Session
import MetaHipos.Bootconfig.Lowlevel

namespace MetaHipos

open Process

/-- A call of `bc_ll_set_partition`. -/
structure SetCall where
  which : BtLlParttype
  partition : ℕ
  le : partition ≤ 1

/-- A call of the library.  Images are marked as healthy in the block that
    `bc_ll_get_current` returns. -/
inductive LibCall where
  | init (dev : String)
  | reread
  | setPartition (c : SetCall)
  | setHealthy (which : BtLlParttype)

/-- `bc_ll_set_*_healthy` on the current block, if there is one. -/
def setCurrentHealthy (which : BtLlParttype) (bc : Bootconfig) : Mtd (ℤ × Bootconfig) := do
  let curr ← bcLlGetCurrent bc
  match curr with
  | some block => setHealthyOf which bc block
  | none => pure (0, bc)

/-- The process of a call. -/
def LibCall.run (tgt : Target) : LibCall → Bootconfig → Mtd (ℤ × Bootconfig)
  | .init dev, bc => do
    let bc ← bcLlInit bc.initialised dev
    pure (0, bc)
  | .reread, bc => bcLlReread tgt bc
  | .setPartition c, bc => bcLlSetPartition tgt bc c.which c.partition
  | .setHealthy which, bc => setCurrentHealthy which bc

/-- The call sets a partition. -/
def LibCall.isSet : LibCall → Bool
  | .setPartition _ => true
  | _ => false

/-- A client that makes the given calls, whatever they return. -/
def client (tgt : Target) : List LibCall → Bootconfig → Mtd Bootconfig
  | [], bc => pure bc
  | c :: cs, bc => do
    let (_, bc) ← c.run tgt bc
    client tgt cs bc

end MetaHipos
