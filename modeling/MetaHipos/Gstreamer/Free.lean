/-
  Freeing a physical memory block.

  `gst_imx_phys_mem_allocator_free` lowers the count in its loop condition,
  under the mutex that its loop body locks again, and the body runs only if the
  count was 1.

  * `Blocks.step`: the calls on the blocks of an allocator;
  * `freesCleanly_iff`: what a free makes of the block it finds;
  * `uses`, `fits_of_trace`: what the calls so far add up to, and that the
    counts and mappings of the blocks show it;
  * `free_clean_iff`: a free ends and leaves no mapping exactly if the calls
    have released the block;
  * `free_copy_relocks`: so a free of a copy never ends.
-/
import Mathlib.Algebra.Group.Nat.Defs
import MetaHipos.Gstreamer.PhysMem
import MetaHipos.Process.Trace

namespace MetaHipos.Gstreamer

open Process PhysMemory

/-! ## The blocks of an allocator -/

/-- The blocks; a copy is put at the end. -/
abbrev Blocks := List PhysMemory

/-- A call on a block, with the outcomes of `mmap` and whether there is room for
    a copy. -/
inductive BlockCall where
  | map (flags : MapFlags) (outcome : Option ℕ)
  | unmap
  | copy (room : Bool) (fromSource toCopy : Option ℕ)

/-- The block after the call, and a copy of it. -/
def BlockCall.run (m : PhysMemory) : BlockCall → Except Stop (PhysMemory × Option PhysMemory)
  | .map flags outcome => do
    let (_, m) ← m.mapPhysMem flags outcome
    return (m, none)
  | .unmap => do
    let m ← m.unmapPhysMem
    return (m, none)
  | .copy room fromSource toCopy => allocatorCopy m room fromSource toCopy

/-- A call on the block with this number. -/
structure BlockOp where
  block : ℕ
  call : BlockCall

/-- The blocks after a call. -/
def Blocks.step (w : Blocks) (o : BlockOp) : Except Stop Blocks :=
  match w[o.block]? with
  | none => .error .noBlock
  | some m => do
    let (m, copy) ← o.call.run m
    return w.set o.block m ++ copy.toList

/-- A free of the block calls `free_phys_mem`, and by then each mapping that was
    made of it was taken away, once. -/
def FreesCleanly (m : PhysMemory) : Prop :=
  ∃ fuel m', m.allocatorFree fuel = .ok m' ∧ m'.mmaps.Accounts []

/-! ## What the calls add up to -/

/-- The use of a block, by the calls that were made on it and the outcomes of
    their `mmap`s. -/
inductive Use where
  /-- so many maps are open -/
  | openMaps (n : ℕ)
  /-- the `mmap` of a first map failed: so many maps from this one on -/
  | failed (n : ℕ)
  /-- more than `2 ^ 32` maps were open -/
  | overrun
deriving DecidableEq, Repr

namespace Use

/-- A map, by the outcome of its `mmap`, should it be called. -/
def map (outcome : Option ℕ) : Use → Use
  | openMaps n =>
    if n = 0 then (if outcome = none then failed 1 else openMaps 1)
    else if n < 2 ^ 32 then openMaps (n + 1) else overrun
  | failed n => if n + 1 = 2 ^ 32 then openMaps 0 else failed (n + 1)
  | overrun => overrun

/-- An unmap without an open map has no effect. -/
def unmap : Use → Use
  | openMaps n => openMaps (n - 1)
  | u => u

/-- A copy maps and unmaps its source. -/
def call (u : Use) : BlockCall → Use
  | .map _ outcome => u.map outcome
  | .unmap => u.unmap
  | .copy room fromSource _ => if room then (u.map fromSource).unmap else u

/-- No map is open; or the first map failed, and was not the last one. -/
def Released : Use → Prop
  | openMaps n => n = 0
  | failed n => n ≠ 1
  | overrun => False

instance : DecidablePred Released
  | openMaps _ => inferInstanceAs (Decidable (_ = _))
  | failed _ => inferInstanceAs (Decidable (_ ≠ _))
  | overrun => inferInstanceAs (Decidable False)

end Use

/-- A copy starts with one map, its own. -/
def BlockCall.copyUse : BlockCall → Option Use
  | .copy true _ toCopy => some ((Use.openMaps 0).map toCopy)
  | _ => none

/-- The uses of the blocks after a call. -/
def useStep (us : List Use) (o : BlockOp) : List Use :=
  match us[o.block]? with
  | none => us
  | some u => us.set o.block (u.call o.call) ++ o.call.copyUse.toList

/-- The uses of `k` new blocks and their copies after some calls. -/
def uses (k : ℕ) (ops : List BlockOp) : List Use :=
  ops.foldl useStep (List.replicate k (.openMaps 0))

/-! ## One free -/

section
variable {m m' : PhysMemory}

/-- The loop body waits for the mutex the free holds. -/
theorem free_relocks (hm : m.mutex = false) (hc : m.mappingRefcount = 1) (fuel : ℕ) :
    m.allocatorFree (fuel + 1) = .error .relock := by
  simp [allocatorFree, lock_of_unlocked hm, bind, Except.bind, freeLoop, dec, hc, unmapPhysMem,
    lock_of_locked]

theorem free_of_ne_one (hm : m.mutex = false) (hc : m.mappingRefcount ≠ 1) (fuel : ℕ) :
    m.allocatorFree (fuel + 1) = .ok { m.dec with mutex := true } := by
  have hdec : m.mappingRefcount - 1#32 ≠ 0#32 := fun h0 => hc (BitVec.sub_eq_iff_eq_add.1 h0)
  simp [allocatorFree, lock_of_unlocked hm, bind, Except.bind, freeLoop, dec, hdec]

/-- **What a free makes of the block it finds.** -/
theorem freesCleanly_iff (hm : m.mutex = false) :
    FreesCleanly m ↔ m.mappingRefcount ≠ 1 ∧ m.mmaps.Accounts [] := by
  constructor
  · rintro ⟨fuel, m', hf, ha⟩
    cases fuel with
    | zero => simp [allocatorFree, lock_of_unlocked hm, bind, Except.bind, freeLoop] at hf
    | succ fuel =>
      by_cases hc : m.mappingRefcount = 1
      · rw [free_relocks hm hc] at hf
        cases hf
      · rw [free_of_ne_one hm hc] at hf
        cases hf
        exact ⟨hc, ha⟩
  · rintro ⟨hc, ha⟩
    exact ⟨1, _, free_of_ne_one hm hc 0, ha⟩

/-! ## What the calls leave mapped -/

/-- What the use of a block says about its count and its mappings. -/
def Use.Shows (m : PhysMemory) : Use → Prop
  | openMaps n => n ≤ 2 ^ 32 ∧ m.mappingRefcount = BitVec.ofNat 32 n ∧
      (m.mappedVirtAddr = none ↔ n = 0) ∧ m.mmaps.Accounts m.mappedVirtAddr.toList
  | failed n => 0 < n ∧ n < 2 ^ 32 ∧ m.mappingRefcount = BitVec.ofNat 32 n ∧
      m.mappedVirtAddr = none ∧ m.mmaps.Accounts []
  | overrun => ∃ lost ≠ [], m.mmaps.Accounts (m.mappedVirtAddr.toList ++ lost)

/-- Between calls, a block is not locked, and its use shows. -/
structure Fits (u : Use) (m : PhysMemory) : Prop where
  unlocked : m.mutex = false
  shows : u.Shows m

theorem fits_new (maxsize : ℕ) : Fits (.openMaps 0) (newInternal maxsize) where
  unlocked := rfl
  shows := ⟨by decide, rfl, by simp [newInternal], Ledger.accounts_empty⟩

/-! ### Counts -/

theorem ofNat_eq_zero {n : ℕ} (h : n ≤ 2 ^ 32) :
    BitVec.ofNat 32 n = 0 ↔ n = 0 ∨ n = 2 ^ 32 := by
  rw [← BitVec.toNat_inj, BitVec.toNat_ofNat]
  simp only [BitVec.ofNat_eq_ofNat, BitVec.toNat_ofNat]
  omega

theorem ofNat_add_one (n : ℕ) : BitVec.ofNat 32 n + 1 = BitVec.ofNat 32 (n + 1) :=
  (BitVec.ofNat_add n 1).symm

theorem ofNat_sub_one {n : ℕ} (h : n ≠ 0) : BitVec.ofNat 32 n - 1 = BitVec.ofNat 32 (n - 1) := by
  obtain ⟨k, rfl⟩ := Nat.exists_eq_succ_of_ne_zero h
  rw [Nat.succ_eq_add_one, ← ofNat_add_one, BitVec.add_sub_cancel, Nat.add_sub_cancel]

/-! ### Maps and unmaps -/

theorem Fits.map {flags : MapFlags} {outcome p : Option ℕ} {u : Use} (h : Fits u m)
    (hs : m.mapPhysMem flags outcome = .ok (p, m')) :
    Fits (u.map outcome) m' ∧ p = m'.mappedVirtAddr := by
  have hlock := mutex_of_map h.unlocked hs
  have hshows := h.shows
  rcases mapPhysMem_cases h.unlocked hs with ⟨hc, rfl, rfl⟩ | ⟨hc, rfl, rfl⟩
  · -- the count is zero: `mmap` is called
    refine ⟨⟨hlock, ?_⟩, by cases p <;> rfl⟩
    cases u with
    | openMaps n =>
      obtain ⟨hn, hcount, hmapped, hacc⟩ := hshows
      rcases (ofNat_eq_zero hn).1 (hcount.symm.trans hc) with rfl | rfl
      · rw [hmapped.2 rfl] at hacc
        have hinc : m.mappingRefcount + 1 = BitVec.ofNat 32 1 := by rw [hc]; rfl
        cases p with
        | none => exact ⟨by decide, by decide, hinc, rfl, hacc⟩
        | some addr => exact ⟨by decide, hinc, by simp [mmap], hacc.acquire addr⟩
      · -- mapped over the mapping it has
        obtain ⟨addr, haddr⟩ := Option.ne_none_iff_exists'.1 fun hn => by simpa using hmapped.1 hn
        rw [haddr] at hacc
        cases p with
        | none => exact ⟨[addr], by simp, hacc⟩
        | some a => exact ⟨[addr], by simp, hacc.acquire a⟩
    | failed n =>
      obtain ⟨hpos, hlt, hcount, -⟩ := hshows
      rcases (ofNat_eq_zero (Nat.le_of_lt hlt)).1 (hcount.symm.trans hc) with rfl | rfl <;> omega
    | overrun =>
      obtain ⟨lost, hne, hacc⟩ := hshows
      refine ⟨m.mappedVirtAddr.toList ++ lost, by simp [hne], ?_⟩
      cases p with
      | none => exact hacc
      | some a => exact hacc.acquire a
  · -- one more of the maps counted
    refine ⟨⟨hlock, ?_⟩, rfl⟩
    cases u with
    | openMaps n =>
      obtain ⟨hn, hcount, hmapped, hacc⟩ := hshows
      have hne : ¬ (n = 0 ∨ n = 2 ^ 32) := fun h0 => hc (hcount.trans ((ofNat_eq_zero hn).2 h0))
      rw [Use.map, if_neg (by omega), if_pos (by omega)]
      refine ⟨by omega, ?_, ⟨fun h0 => ?_, fun h0 => by omega⟩, hacc⟩
      · rw [← ofNat_add_one, ← hcount]
        rfl
      · have := hmapped.1 h0
        omega
    | failed n =>
      obtain ⟨hpos, hlt, hcount, hmapped, hacc⟩ := hshows
      have hcount' : m.inc.mappingRefcount = BitVec.ofNat 32 (n + 1) := by
        rw [← ofNat_add_one, ← hcount]
        rfl
      rw [Use.map]
      split_ifs with hmax
      · refine ⟨by decide, hcount'.trans (by rw [hmax]; decide), by simp [inc, hmapped], ?_⟩
        exact hmapped ▸ hacc
      · exact ⟨by omega, by omega, hcount', hmapped, hacc⟩
    | overrun => exact hshows

/-- Where nothing is mapped, there is nothing to unmap. -/
theorem Fits.unmapped {u : Use} (h : Fits u m) (hm : m.mappedVirtAddr = none) :
    Fits u.unmap m := by
  cases u with
  | openMaps n =>
    obtain rfl := h.shows.2.2.1.1 hm
    exact h
  | failed n => exact h
  | overrun => exact h

theorem Fits.unmap {u : Use} (h : Fits u m) (hs : m.unmapPhysMem = .ok m') : Fits u.unmap m' := by
  have hlock := mutex_of_unmap h.unlocked hs
  have hshows := h.shows
  rcases unmapPhysMem_cases h.unlocked hs with ⟨hn, rfl⟩ | ⟨addr, ha, hcase⟩
  · exact h.unmapped hn
  refine ⟨hlock, ?_⟩
  cases u with
  | openMaps n =>
    obtain ⟨hn, hcount, hmapped, hacc⟩ := hshows
    have hpos : n ≠ 0 := fun h0 => by rw [hmapped.2 h0] at ha; cases ha
    have hdec : m.mappingRefcount - 1 = BitVec.ofNat 32 (n - 1) := by
      rw [hcount, ofNat_sub_one hpos]
    have hzero := ofNat_eq_zero (n := n - 1) (by omega)
    rw [← hdec] at hzero
    rw [ha] at hacc
    rcases hcase with ⟨h1, rfl⟩ | ⟨h1, rfl⟩
    · have hn1 : n - 1 = 0 := by
        have := hzero.1 h1
        omega
      exact ⟨by omega, hdec, by simp [munmap, hn1], hacc.release⟩
    · have hn1 : n - 1 ≠ 0 := fun h0 => h1 (hzero.2 (Or.inl h0))
      have haddr : m.dec.mappedVirtAddr = some addr := ha
      exact ⟨by omega, hdec, by simp [haddr, hn1], by rw [haddr]; exact hacc⟩
  | failed n =>
    rw [hshows.2.2.2.1] at ha
    cases ha
  | overrun =>
    obtain ⟨lost, hne, hacc⟩ := hshows
    rw [ha] at hacc
    rcases hcase with ⟨-, rfl⟩ | ⟨-, rfl⟩
    · exact ⟨lost, hne, hacc.release⟩
    · exact ⟨lost, hne, by rw [show m.dec.mappedVirtAddr = some addr from ha]; exact hacc⟩

/-- A call, and the copy it makes. -/
theorem Fits.run {call : BlockCall} {copy : Option PhysMemory} {u : Use} (h : Fits u m)
    (hs : call.run m = .ok (m', copy)) :
    Fits (u.call call) m' ∧ List.Forall₂ Fits call.copyUse.toList copy.toList := by
  cases call with
  | map flags outcome =>
    obtain ⟨⟨p, m₁⟩, hmap, hs⟩ := ok_of_bind hs
    cases hs
    exact ⟨(h.map hmap).1, .nil⟩
  | unmap =>
    obtain ⟨m₁, hunmap, hs⟩ := ok_of_bind hs
    cases hs
    exact ⟨h.unmap hunmap, .nil⟩
  | copy room fromSource toCopy =>
    cases room with
    | false =>
      cases hs
      exact ⟨h, .nil⟩
    | true =>
      obtain ⟨src, dest, m₁, cp, hsrc, hdest, rfl, hm'⟩ := allocatorCopy_cases hs
      obtain ⟨h₁, hp⟩ := h.map hsrc
      refine ⟨?_, .cons ((fits_new _).map hdest).1 .nil⟩
      rcases hm' with ⟨hnone, rfl⟩ | hunmap
      · exact h₁.unmapped (hp.symm.trans hnone)
      · exact h₁.unmap hunmap

/-- **A free is clean exactly if the calls released the block.** -/
theorem Fits.freesCleanly_iff {u : Use} (h : Fits u m) : FreesCleanly m ↔ u.Released := by
  rw [Gstreamer.freesCleanly_iff h.unlocked]
  have hshows := h.shows
  cases u with
  | openMaps n =>
    obtain ⟨hn, hcount, hmapped, hacc⟩ := hshows
    rw [hacc.iff_nil, Option.toList_eq_nil_iff, hmapped]
    refine ⟨fun hcl => hcl.2, fun h0 => ⟨?_, h0⟩⟩
    obtain rfl : n = 0 := h0
    rw [hcount]
    decide
  | failed n =>
    obtain ⟨hpos, hlt, hcount, -, hacc⟩ := hshows
    rw [and_iff_left hacc, hcount, Use.Released, ne_eq, ne_eq, ← BitVec.toNat_inj,
      BitVec.toNat_ofNat, Nat.mod_eq_of_lt hlt]
    rfl
  | overrun =>
    obtain ⟨lost, hne, hacc⟩ := hshows
    rw [hacc.iff_nil, List.append_eq_nil_iff]
    exact ⟨fun hcl => hne hcl.2.2, False.elim⟩

end

/-! ## Calls on all blocks -/

section
variable {w w' w₀ : Blocks} {o : BlockOp} {b : ℕ} {m m' : PhysMemory} {us : List Use}
  {tr : List (Taken Blocks BlockOp)}

theorem step_cases (hs : w.step o = .ok w') : ∃ m m' copy, w[o.block]? = some m ∧
    o.call.run m = .ok (m', copy) ∧ w' = w.set o.block m' ++ copy.toList := by
  unfold Blocks.step at hs
  split at hs
  · cases hs
  · rename_i m hb
    obtain ⟨⟨m₁, copy⟩, hrun, hs⟩ := ok_of_bind hs
    cases hs
    exact ⟨m, m₁, copy, hb, hrun, rfl⟩

/-- A block of one list, and its use in the other one. -/
theorem use_of_block (h : List.Forall₂ Fits us w) (hb : w[b]? = some m) :
    ∃ u, us[b]? = some u ∧ Fits u m := by
  induction h generalizing b with
  | nil => cases hb
  | cons hum _ ih =>
    cases b with
    | zero =>
      cases hb
      exact ⟨_, rfl, hum⟩
    | succ b => exact ih hb

theorem fits_set (h : List.Forall₂ Fits us w) {u : Use} (hu : Fits u m) :
    List.Forall₂ Fits (us.set b u) (w.set b m) := by
  induction h generalizing b with
  | nil => exact .nil
  | cons hum hrest ih =>
    cases b with
    | zero => exact .cons hu hrest
    | succ b => exact .cons hum ih

theorem fits_step (h : List.Forall₂ Fits us w) (hs : w.step o = .ok w') :
    List.Forall₂ Fits (useStep us o) w' := by
  obtain ⟨m, m', copy, hb, hrun, rfl⟩ := step_cases hs
  obtain ⟨u, hu, hfits⟩ := use_of_block h hb
  obtain ⟨hm', hcopy⟩ := hfits.run hrun
  rw [useStep, hu]
  exact List.rel_append (fits_set h hm') hcopy

theorem fits_new_blocks (h₀ : ∀ m ∈ w₀, ∃ n, m = newInternal n) :
    List.Forall₂ Fits (List.replicate w₀.length (.openMaps 0)) w₀ := by
  induction w₀ with
  | nil => exact .nil
  | cons m w₀ ih =>
    obtain ⟨n, rfl⟩ := h₀ m (List.mem_cons_self ..)
    exact .cons (fits_new n) (ih fun m hm => h₀ m (List.mem_cons_of_mem _ hm))

/-- **The blocks show the calls made on them**, after any run. -/
theorem fits_of_trace (h : Trace Blocks.step w₀ tr w) (h₀ : ∀ m ∈ w₀, ∃ n, m = newInternal n) :
    List.Forall₂ Fits (uses w₀.length (tr.map Taken.op)) w := by
  refine h.history (fun tr w => List.Forall₂ Fits (uses w₀.length (tr.map Taken.op)) w)
    (fits_new_blocks h₀) fun tr w o w' hw hs => ?_
  rw [uses, List.map_append, List.foldl_append]
  exact fits_step hw hs

/-- **A free ends and leaves no mapping exactly if** the calls on the block leave
    no map open, a copy starting with one; or the `mmap` of a first map failed,
    and the block was mapped again since then. -/
theorem free_clean_iff (h : Trace Blocks.step w₀ tr w) (h₀ : ∀ m ∈ w₀, ∃ n, m = newInternal n)
    (hb : w[b]? = some m) :
    FreesCleanly m ↔ ∃ u, (uses w₀.length (tr.map Taken.op))[b]? = some u ∧ u.Released := by
  obtain ⟨u, hu, hfits⟩ := use_of_block (fits_of_trace h h₀) hb
  rw [hfits.freesCleanly_iff, hu]
  exact ⟨fun hr => ⟨u, rfl, hr⟩, fun ⟨u', hu', hr⟩ => Option.some.inj hu' ▸ hr⟩

/-- A block and its copy, where both are unmapped in the end. -/
theorem free_clean_unmapped : ∃ tr, ∃ w : Blocks, Trace Blocks.step [newInternal 1] tr w ∧
    tr.length = 4 ∧ w.length = 2 ∧ ∀ m ∈ w, FreesCleanly m := by
  have h : Trace Blocks.step [newInternal 1] _ _ :=
    .snoc ⟨0, .unmap⟩ (.snoc ⟨1, .unmap⟩ (.snoc ⟨0, .copy true none (some 8192)⟩
      (.snoc ⟨0, .map ⟨true, false⟩ (some 4096)⟩ .nil rfl) rfl) rfl) rfl
  refine ⟨_, _, h, rfl, rfl, fun m hm => ?_⟩
  obtain ⟨b, hb⟩ := List.mem_iff_getElem?.1 hm
  refine (free_clean_iff h (fun m hm => ⟨1, List.mem_singleton.1 hm⟩) hb).2 ⟨.openMaps 0, ?_, rfl⟩
  match b, hb with
  | 0, _ => rfl
  | 1, _ => rfl

/-- The copy of a block that was never used is not freed. -/
theorem free_not_clean : ¬ ∀ w₀ tr (w : Blocks) (b : ℕ) m, Trace Blocks.step w₀ tr w →
    (∀ m ∈ w₀, ∃ n, m = newInternal n) → w[b]? = some m → FreesCleanly m := by
  intro h
  have hrun : Trace Blocks.step [newInternal 1] _ _ :=
    .snoc ⟨0, .copy true (some 4096) (some 8192)⟩ .nil rfl
  have hfree := h _ _ _ 1 _ hrun (fun m hm => ⟨1, List.mem_singleton.1 hm⟩) rfl
  exact ((freesCleanly_iff rfl).1 hfree).1 rfl

/-- A free of a copy never ends: the copy is still mapped once. -/
theorem free_copy_relocks {fromSource toCopy : Option ℕ} {copy : PhysMemory}
    (h : allocatorCopy m true fromSource toCopy = .ok (m', some copy)) (fuel : ℕ) :
    copy.allocatorFree (fuel + 1) = .error .relock := by
  obtain ⟨src, dest, m₁, cp, -, hdest, hcp, -⟩ := allocatorCopy_cases h
  obtain rfl : copy = cp := Option.some.inj hcp
  refine free_relocks (mutex_of_map rfl hdest) ?_ fuel
  rcases mapPhysMem_cases rfl hdest with ⟨-, -, rfl⟩ | ⟨hc, -, -⟩
  · cases toCopy <;> rfl
  · exact absurd rfl hc

end

end MetaHipos.Gstreamer
