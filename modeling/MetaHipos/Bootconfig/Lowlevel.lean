/-
  The low level routines of `bootconfig` (`lowlevel.c`).

  Each function of the source is a definition of the same name.  A function
  that changes `*bc` returns the changed structure.  Where the source would
  access `bc->blocks` outside of its `eb_cnt` elements, copy a header past the
  end of a page buffer or divide by zero, the model stops with `fault`.
-/
import MetaHipos.Bootconfig.Mtd

namespace MetaHipos

open LittleEndian Process

/-- `struct bootconfig`, with the file-scope flag `initialised`.  The memory
    `bc->blocks` points to has `info.ebCnt` elements. -/
structure Bootconfig where
  initialised : Bool
  blocks : ℕ → Btblock
  info : MtdDevInfo

/-- The target the tool is compiled for: 32 or 64 bits. -/
structure Target where
  /-- `sizeof(void *)` -/
  ptrSize : ℕ
  ptrSize_eq : ptrSize = 4 ∨ ptrSize = 8

namespace Bootconfig

/-- `bc->blocks[ i ] = b` -/
def setBlock (bc : Bootconfig) (i : ℕ) (b : Btblock) : Bootconfig :=
  { bc with blocks := Function.update bc.blocks i b }

section
variable (bc : Bootconfig) (i : ℕ) (b : Btblock)

@[simp] theorem setBlock_info : (bc.setBlock i b).info = bc.info := rfl
@[simp] theorem setBlock_initialised : (bc.setBlock i b).initialised = bc.initialised := rfl
@[simp] theorem setBlock_blocks : (bc.setBlock i b).blocks = Function.update bc.blocks i b := rfl

end

end Bootconfig

/-- Access `bc->blocks[ i ]`. -/
def access (bc : Bootconfig) (i : ℕ) : Mtd Unit :=
  if i < bc.info.ebCnt then .ret () else .stop .fault

/-! ## Private functions -/

/-- `-1` upon failure, `0` if the block is OK, and `1` if it is bad. -/
def checkBlock (bc : Bootconfig) (i : ℕ) : Mtd (ℤ × Bootconfig) := do
  let err ← Proc.ask (.mtdIsBad i)
  if err < 0 then pure (-1, bc)
  else if 0 < err then do
    access bc i
    pure (1, bc.setBlock i { bc.blocks i with magic := .bad })
  else pure (0, bc)

/-- `-1` upon failure, `0` if successful, and `1` if the block is bad. -/
def readBootblock (bc : Bootconfig) (i : ℕ) : Mtd (ℤ × Bootconfig) := do
  let (err, bc) ← checkBlock bc i
  if err ≠ 0 then pure (err, bc)
  else do
    access bc i
    let (err, data) ← Proc.ask (Op.mtdRead i)
    let bc := match data with
      | some b => bc.setBlock i b
      | none => bc
    if err * -1 = EUCLEAN then pure (0, bc)
    else if err ≠ 0 then pure (-1, bc)
    else pure (0, bc)

/-- A page of `n` bytes `0xFF` with the block `b` copied to its start. -/
def pageOf (n : ℕ) (b : Btblock) : List Byte := b.bytes ++ List.replicate (n - Btblock.size) 0xFF

/-- The page of `min_io_size` bytes to be written for `bc->blocks[ i ]`. -/
def pageBuffer (bc : Bootconfig) (i : ℕ) : Mtd (List Byte) := do
  access bc i
  if bc.info.minIoSize < Btblock.size then .stop .fault
  else pure (pageOf bc.info.minIoSize (bc.blocks i))

/-- `0` if successful, `1` if erasing or writing failed, `-1` if there is no
    memory for the page. -/
def doWriteBootblock (bc : Bootconfig) (i : ℕ) : Mtd ℤ := do
  let err ← Proc.ask (.mtdErase i)
  if err < 0 then pure 1
  else do
    let page ← Proc.ask (.malloc bc.info.minIoSize)
    if page = false then pure (-1)
    else do
      let buf ← pageBuffer bc i
      let err ← Proc.ask (.mtdWrite i buf)
      if err < 0 then pure 1 else pure 0

/-- `_write_errorcheck_bootblock`: write a block that is not bad, and check it
    again if that fails. -/
def writeErrorcheckBootblock (bc : Bootconfig) (i : ℕ) : Mtd (ℤ × Bootconfig) := do
  let (err, bc) ← checkBlock bc i
  if err ≠ 0 then pure (err, bc)
  else do
    let err ← doWriteBootblock bc i
    if err = 1 then do
      -- did the block go bad while it was erased / written?
      let (bad, bc) ← checkBlock bc i
      if bad = 1 then pure (1, bc) else pure (err, bc)
    else pure (err, bc)

/-- The block written by `_update_bootblock` for partition `p` of `which`,
    made from the block `bOld`. -/
def updated (bOld : Btblock) (which : BtLlParttype) (p : ℕ) (now : BitVec 32) : Btblock :=
  let b := { bOld with magic := .boot, epoch := bOld.epoch + 1, timestamp := now }
  b.setInfo which
    { b.info which with partition := BitVec.ofNat 1 p, nBooted := 1, nHealthy := 1 }

/-- `_update_bootblock`: a new config for the block `idx`, from the one in `prevIdx`. -/
def updateBootblock (bc : Bootconfig) (which : BtLlParttype) (p prevIdx idx : ℕ) :
    Mtd (ℤ × Bootconfig) := do
  access bc idx
  if (bc.blocks idx).magic = .bad then pure (-1, bc)
  else do
    access bc prevIdx
    let now ← Proc.ask .time
    writeErrorcheckBootblock (bc.setBlock idx (updated (bc.blocks prevIdx) which p now)) idx

/-- Read all blocks; `-1` if none of them could be read. -/
def readBootconfig (bc : Bootconfig) : Mtd (ℤ × Bootconfig) := do
  let (broken, bc) ← forEach (fun block (t : ℕ × Bootconfig) => do
    let (err, bc) ← readBootblock t.2 block
    pure (if err ≠ 0 then t.1 + 1 else t.1, bc)) (List.range bc.info.ebCnt) (0, bc)
  pure (if broken = bc.info.ebCnt then -1 else 0, bc)

/-! ## Public functions -/

/-- The zeroed structure `bc_ll_init` starts with. -/
def Bootconfig.zeroed (initialised : Bool) : Bootconfig :=
  ⟨initialised, fun _ => .zero, ⟨0, 0⟩⟩

/-- `bc_ll_init`: open the device and read all blocks. -/
def bcLlInit (initialised : Bool) (dev : String) : Mtd Bootconfig := do
  let bc := Bootconfig.zeroed initialised
  let fd ← Proc.ask (.openDev dev)
  if fd < 0 then .stop (.exit 1)
  else do
    let lib ← Proc.ask .libmtdOpen
    if lib = false then .stop (.exit 1)
    else do
      let (err, info) ← Proc.ask (Op.mtdGetDevInfo dev)
      if err < 0 then .stop (.exit 1)
      else do
        let mem ← Proc.ask (.malloc (info.ebCnt * Btblock.size))
        if mem = false then .stop (.exit 1)
        else do
          let (err, bc) ← readBootconfig { bc with blocks := fun _ => .zero, info := info }
          if err < 0 then .stop (.exit 1)
          else pure { bc with initialised := true }

/-- The block after its first `n` bytes were set to `0x00`. -/
def Btblock.clear (b : Btblock) (n : ℕ) : Btblock :=
  .ofBytes fun k => if k < n then 0 else b.byte k

/-- `memset( bc->blocks, 0x00, n )`: block `i` starts at byte `16 * i`. -/
def Bootconfig.memset (bc : Bootconfig) (n : ℕ) : Bootconfig :=
  { bc with blocks := fun i => (bc.blocks i).clear (n - Btblock.size * i) }

/-- The number of bytes cleared is `eb_cnt * sizeof( bc->blocks )`, the size
    of a pointer. -/
def bcLlReread (tgt : Target) (bc : Bootconfig) : Mtd (ℤ × Bootconfig) :=
  if bc.initialised = false then .stop (.exit 1)
  else readBootconfig (bc.memset (bc.info.ebCnt * tgt.ptrSize))

/-- The loop of `bc_ll_get_current` over the blocks `0`, …, `n - 1`: the
    index of the newest block so far and its epoch. -/
def currentLoop (blocks : ℕ → Btblock) : ℕ → ℕ × BitVec 32
  | 0 => (0, 0)
  | block + 1 =>
    let (idx, epochMax) := currentLoop blocks block
    let b := blocks block
    if b.magic ≠ .boot then (idx, epochMax)
    else if epochMax < b.epoch then (block, b.epoch)
    else (idx, epochMax)

/-- The index of the current block, `none` for `NULL`. -/
def currentIdx (blocks : ℕ → Btblock) (n : ℕ) : Option ℕ :=
  let (idx, epochMax) := currentLoop blocks n
  if epochMax ≠ 0 then some idx else none

/-- `bc_ll_get_current`: the block with the newest config. -/
def bcLlGetCurrent (bc : Bootconfig) : Mtd (Option ℕ) :=
  if bc.initialised = false then .stop (.exit 1)
  else pure (currentIdx bc.blocks bc.info.ebCnt)

/-- The same with the second parameter: `blockIndex` is the value of
    `*block_index`, or `none` for a `NULL` pointer. -/
def bcLlGetCurrentAt (bc : Bootconfig) (blockIndex : Option ℕ) : Mtd (Option ℕ × Option ℕ) :=
  if bc.initialised = false then .stop (.exit 1)
  else
    let (idx, epochMax) := currentLoop bc.blocks bc.info.ebCnt
    if epochMax ≠ 0 then pure (some idx, blockIndex.map fun _ => idx)
    else pure (none, blockIndex)

/-- The dummy block `bc_ll_set_partition` starts from without a current
    config: zeroed, with all flags set. -/
def dummyBlock : Btblock :=
  { Btblock.zero with
    kernel := { Btblock.zero.kernel with nBooted := 1, nHealthy := 1 }
    rootfs := { Btblock.zero.rootfs with nBooted := 1, nHealthy := 1 } }

/-- The loop of `bc_ll_set_partition`, started at the block `new`: where it
    ends, for `fuel` iterations at most. -/
def setPartitionLoop (which : BtLlParttype) (p curr : ℕ) :
    ℕ → ℕ → Bootconfig → Mtd (ℕ × Bootconfig)
  | 0, _, _ => .stop .hang
  | fuel + 1, new, bc =>
    if new = curr then pure (new, bc)
    else do
      let (err, bc) ← updateBootblock bc which p curr new
      if err = 0 then pure (new, bc)
      else setPartitionLoop which p curr fuel ((new + 1) % bc.info.ebCnt) bc

/-- The block to start from, and its index: the current one, or a dummy in
    place of the last block.  `eb_cnt - 1` is unsigned. -/
def startBlock (bc : Bootconfig) : Mtd (ℕ × Bootconfig) := do
  let curr ← bcLlGetCurrent bc
  match curr with
  | some idx => pure (idx, bc)
  | none => do
    let idx := if bc.info.ebCnt = 0 then 2 ^ 32 - 1 else bc.info.ebCnt - 1
    access bc idx
    pure (idx, bc.setBlock idx dummyBlock)

/-- `bc_ll_set_partition`: store a new config in the first block after the current
    one that works. -/
def bcLlSetPartition (tgt : Target) (bc : Bootconfig) (which : BtLlParttype) (partition : ℕ) :
    Mtd (ℤ × Bootconfig) :=
  if bc.initialised = false then .stop (.exit 1)
  else if 1 < partition then .stop (.exit 1)
  else do
    let (curr, bc) ← startBlock bc
    let (new, bc) ← setPartitionLoop which partition curr bc.info.ebCnt
      ((curr + 1) % bc.info.ebCnt) bc
    if new = curr then pure (-1, bc)
    else do
      let (_, bc) ← bcLlReread tgt bc
      pure (0, bc)

/-- The two `bc_ll_set_*_healthy` functions, which differ in the image. -/
def setHealthyOf (which : BtLlParttype) (bc : Bootconfig) (block : ℕ) : Mtd (ℤ × Bootconfig) :=
  if bc.initialised = false then .stop (.exit 1)
  else do
    access bc block
    if ((bc.blocks block).info which).nHealthy = 1 then do
      let bc := bc.setBlock block ((bc.blocks block).markHealthy which)
      let page ← Proc.ask (.malloc bc.info.minIoSize)
      if page = false then pure (-1, bc)
      else do
        let buf ← pageBuffer bc block
        let err ← Proc.ask (.mtdWrite block buf)
        if err < 0 then pure (1, bc) else pure (0, bc)
    else pure (0, bc)

/-- `bc_ll_set_kernel_healthy` -/
def bcLlSetKernelHealthy : Bootconfig → ℕ → Mtd (ℤ × Bootconfig) := setHealthyOf .kernel

/-- `bc_ll_set_rootfs_healthy` -/
def bcLlSetRootfsHealthy : Bootconfig → ℕ → Mtd (ℤ × Bootconfig) := setHealthyOf .rootfs

end MetaHipos
