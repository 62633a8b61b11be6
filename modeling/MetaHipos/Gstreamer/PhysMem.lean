/-
  Physical memory blocks of the IPU allocator of gstreamer-imx, as patched.

  A block counts its maps and is mapped once for all of them.  The outcome of
  `mmap` is up to the outside: an address, or `none` for `MAP_FAILED`.  An
  operation may stop for good: its thread waits for a mutex it holds itself,
  fails an assertion, or writes through `NULL`.

  * `mapPhysMem`, `unmapPhysMem`: `gst_imx_ipu_map_phys_mem` and
    `gst_imx_ipu_unmap_phys_mem`;
  * `allocatorCopy`, `allocatorFree`: `gst_imx_phys_mem_allocator_copy` and
    `gst_imx_phys_mem_allocator_free`.
-/
import Mathlib.Data.Nat.Notation
import MetaHipos.Ledger
import MetaHipos.Process.Trace

namespace MetaHipos.Gstreamer

/-- `GstMapFlags`, of which the allocator reads two. -/
structure MapFlags where
  read : Bool
  write : Bool
deriving DecidableEq, Repr

/-- `GstImxPhysMemory`.  The mutex is not recursive; `mmaps` are the mappings
    the process made of the block and took away again. -/
structure PhysMemory where
  maxsize : ℕ
  mappedVirtAddr : Option ℕ
  mappingFlags : MapFlags
  mutex : Bool
  mappingRefcount : BitVec 32
  mmaps : Ledger ℕ

/-- Why an operation does not return. -/
inductive Stop where
  /-- `g_mutex_lock` of a mutex the thread holds -/
  | relock
  /-- `g_assert` -/
  | assertion
  /-- a write through `NULL` -/
  | nullPointer
  /-- there is no such block -/
  | noBlock
  /-- a loop has not ended yet -/
  | running
deriving DecidableEq, Repr

/-- `gst_imx_phys_mem_new_internal` -/
def newInternal (maxsize : ℕ) : PhysMemory where
  maxsize := maxsize
  mappedVirtAddr := none
  mappingFlags := ⟨false, false⟩
  mutex := false
  mappingRefcount := 0
  mmaps := .empty

namespace PhysMemory

/-- `g_mutex_lock`: it never returns if the mutex is held. -/
def lock (m : PhysMemory) : Except Stop PhysMemory :=
  if m.mutex then .error .relock else .ok { m with mutex := true }

/-- `g_mutex_unlock` -/
def unlock (m : PhysMemory) : PhysMemory := { m with mutex := false }

/-- `mmap`, and what is made of its result: `NULL` for `MAP_FAILED`. -/
def mmap (m : PhysMemory) : Option ℕ → PhysMemory
  | some addr => { m with mappedVirtAddr := some addr, mmaps := m.mmaps.acquire addr }
  | none => { m with mappedVirtAddr := none }

/-- `munmap` of the address `addr`, which is forgotten. -/
def munmap (m : PhysMemory) (addr : ℕ) : PhysMemory :=
  { m with mappedVirtAddr := none, mmaps := m.mmaps.release addr }

/-- `g_atomic_int_dec_and_test`, less the test. -/
def dec (m : PhysMemory) : PhysMemory := { m with mappingRefcount := m.mappingRefcount - 1 }

/-- `g_atomic_int_add (…, 1)`, less the old value. -/
def inc (m : PhysMemory) : PhysMemory := { m with mappingRefcount := m.mappingRefcount + 1 }

/-- `gst_imx_ipu_map_phys_mem`, with the outcome of `mmap` should it be called. -/
def mapPhysMem (m : PhysMemory) (flags : MapFlags) (outcome : Option ℕ) :
    Except Stop (Option ℕ × PhysMemory) := do
  let m ← m.lock
  if m.mappingRefcount = 0 then
    let m := { m.inc with mappingFlags := flags }
    match outcome with
    | none => return (none, (m.mmap none).unlock)
    | some addr => return (some addr, (m.mmap (some addr)).unlock)
  else if m.mappingFlags.write || !flags.write then
    return (m.mappedVirtAddr, m.inc.unlock)
  else
    throw .assertion

/-- `gst_imx_ipu_unmap_phys_mem` -/
def unmapPhysMem (m : PhysMemory) : Except Stop PhysMemory := do
  let m ← m.lock
  match m.mappedVirtAddr with
  | none => return m.unlock
  | some addr =>
    if m.dec.mappingRefcount = 0 then return (m.dec.munmap addr).unlock
    else return m.dec.unlock

/-- The loop of `gst_imx_phys_mem_allocator_free`, for as many rounds as there
    is fuel. -/
def freeLoop : ℕ → PhysMemory → Except Stop PhysMemory
  | 0, _ => .error .running
  | fuel + 1, m =>
    if m.dec.mappingRefcount = 0 then do
      let m ← m.dec.unmapPhysMem
      freeLoop fuel m
    else .ok m.dec

/-- `gst_imx_phys_mem_allocator_free`: the block `free_phys_mem` is called with.
    The mutex is unlocked and the block is given back after that. -/
def allocatorFree (fuel : ℕ) (m : PhysMemory) : Except Stop PhysMemory := do
  let m ← m.lock
  freeLoop fuel m

end PhysMemory

/-- `memset` and `memcpy` of `n` bytes. -/
def fill (dest : Option ℕ) (n : ℕ) : Except Stop Unit :=
  if dest = none ∧ n ≠ 0 then .error .nullPointer else .ok ()

/-- `gst_imx_phys_mem_allocator_copy`: the source and the copy after it, if
    there is `room` for one.  `fromSource` and `toCopy` are the outcomes of the
    two `mmap`s. -/
def allocatorCopy (m : PhysMemory) (room : Bool) (fromSource toCopy : Option ℕ) :
    Except Stop (PhysMemory × Option PhysMemory) := do
  if !room then
    return (m, none)
  let (srcptr, m) ← m.mapPhysMem ⟨true, false⟩ fromSource
  let (destptr, copy) ← (newInternal m.maxsize).mapPhysMem ⟨false, true⟩ toCopy
  fill destptr m.maxsize
  if srcptr = none then
    return (m, some copy)
  else
    let m ← m.unmapPhysMem
    return (m, some copy)

/-! ## What the operations do to a block that is not locked -/

namespace PhysMemory

variable {m m' : PhysMemory} {flags : MapFlags} {outcome p : Option ℕ}

theorem lock_of_unlocked (hm : m.mutex = false) : m.lock = .ok { m with mutex := true } := by
  simp [lock, hm]

theorem lock_of_locked (hm : m.mutex = true) : m.lock = .error .relock := by
  simp [lock, hm]

theorem mapPhysMem_cases (hm : m.mutex = false) (h : m.mapPhysMem flags outcome = .ok (p, m')) :
    (m.mappingRefcount = 0 ∧ p = outcome ∧
        m' = { m.inc with mappingFlags := flags }.mmap outcome) ∨
      (m.mappingRefcount ≠ 0 ∧ p = m.mappedVirtAddr ∧ m' = m.inc) := by
  obtain ⟨size, addr, mf, mutex, count, mmaps⟩ := m
  obtain rfl : mutex = false := hm
  simp only [mapPhysMem, lock_of_unlocked, bind, Except.bind, pure, Except.pure, throw,
    throwThe, MonadExceptOf.throw] at h
  split at h
  · rename_i hc
    refine Or.inl ⟨hc, ?_⟩
    cases outcome with
    | none => cases h; exact ⟨rfl, rfl⟩
    | some a => cases h; exact ⟨rfl, rfl⟩
  · rename_i hc
    split at h
    · cases h
      exact Or.inr ⟨hc, rfl, rfl⟩
    · cases h

theorem unmapPhysMem_cases (hm : m.mutex = false) (h : m.unmapPhysMem = .ok m') :
    (m.mappedVirtAddr = none ∧ m' = m) ∨
      ∃ addr, m.mappedVirtAddr = some addr ∧
        ((m.mappingRefcount - 1 = 0 ∧ m' = m.dec.munmap addr) ∨
          (m.mappingRefcount - 1 ≠ 0 ∧ m' = m.dec)) := by
  obtain ⟨size, addr, mf, mutex, count, mmaps⟩ := m
  obtain rfl : mutex = false := hm
  simp only [unmapPhysMem, lock_of_unlocked, bind, Except.bind, pure, Except.pure] at h
  cases addr with
  | none => cases h; exact Or.inl ⟨rfl, rfl⟩
  | some a =>
    refine Or.inr ⟨a, rfl, ?_⟩
    dsimp only at h
    split at h
    · rename_i hc
      cases h
      exact Or.inl ⟨hc, rfl⟩
    · rename_i hc
      cases h
      exact Or.inr ⟨hc, rfl⟩

/-- An operation unlocks what it has locked. -/
theorem mutex_of_map (hm : m.mutex = false) (h : m.mapPhysMem flags outcome = .ok (p, m')) :
    m'.mutex = false := by
  rcases mapPhysMem_cases hm h with ⟨-, -, rfl⟩ | ⟨-, -, rfl⟩
  · cases outcome <;> exact hm
  · exact hm

theorem mutex_of_unmap (hm : m.mutex = false) (h : m.unmapPhysMem = .ok m') :
    m'.mutex = false := by
  rcases unmapPhysMem_cases hm h with ⟨-, rfl⟩ | ⟨a, -, ⟨-, rfl⟩ | ⟨-, rfl⟩⟩ <;> exact hm

end PhysMemory

/-- A copy that is made maps the source for reading and the copy for writing;
    the source is unmapped again unless it could not be mapped. -/
theorem allocatorCopy_cases {m m' : PhysMemory} {fromSource toCopy : Option ℕ}
    {c : Option PhysMemory} (h : allocatorCopy m true fromSource toCopy = .ok (m', c)) :
    ∃ src dest m₁ copy, m.mapPhysMem ⟨true, false⟩ fromSource = .ok (src, m₁) ∧
      (newInternal m₁.maxsize).mapPhysMem ⟨false, true⟩ toCopy = .ok (dest, copy) ∧
      c = some copy ∧ (src = none ∧ m' = m₁ ∨ m₁.unmapPhysMem = .ok m') := by
  obtain ⟨⟨src, m₁⟩, hsrc, h⟩ := Process.ok_of_bind h
  obtain ⟨⟨dest, copy⟩, hdest, h⟩ := Process.ok_of_bind h
  obtain ⟨-, -, h⟩ := Process.ok_of_bind h
  refine ⟨src, dest, m₁, copy, hsrc, hdest, ?_⟩
  split at h
  · rename_i hnone
    cases h
    exact ⟨rfl, Or.inl ⟨hnone, rfl⟩⟩
  · obtain ⟨m₂, hunmap, h⟩ := Process.ok_of_bind h
    cases h
    exact ⟨rfl, Or.inr hunmap⟩

end MetaHipos.Gstreamer
