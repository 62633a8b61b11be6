/-
  The reference count of a physical memory block.

  `gst_imx_ipu_map_phys_mem` raises the count before it knows whether `mmap`
  works, and does not lower it again.

  * `Users`, `Users.step`: a block with the number of the maps that returned an
    address and of the unmaps so far;
  * `counted_step_iff`: what one call does to the count;
  * `refcount_counts_iff`: the count is the number of open maps in every state
    of a run exactly if no `mmap` of the run fails (and the 32 bits suffice).
-/
import Mathlib.Algebra.Group.Int.Defs
import Mathlib.Data.Int.Notation
import Mathlib.Tactic.SplitIfs
import MetaHipos.Gstreamer.PhysMem
import MetaHipos.Process.Trace

namespace MetaHipos.Gstreamer

open Process PhysMemory

/-! ## Counting in 32 bits -/

section
variable {c : BitVec 32}

theorem toInt_inc (h : c.toInt < 2 ^ 31 - 1) : (c + 1).toInt = c.toInt + 1 := by
  have hc := c.isLt
  simp only [BitVec.toInt_eq_toNat_cond, BitVec.toNat_add, BitVec.ofNat_eq_ofNat,
    BitVec.toNat_ofNat] at h ⊢
  split_ifs at h ⊢ <;> omega

/-- The largest number is followed by the smallest one. -/
theorem toInt_inc_max (h : c.toInt = 2 ^ 31 - 1) : (c + 1).toInt = -2 ^ 31 := by
  have hc := c.isLt
  simp only [BitVec.toInt_eq_toNat_cond, BitVec.toNat_add, BitVec.ofNat_eq_ofNat,
    BitVec.toNat_ofNat] at h ⊢
  split_ifs at h ⊢ <;> omega

theorem toInt_dec (h : 0 < c.toInt) : (c - 1).toInt = c.toInt - 1 := by
  have hc := c.isLt
  simp only [BitVec.toInt_eq_toNat_cond, BitVec.toNat_sub, BitVec.ofNat_eq_ofNat,
    BitVec.toNat_ofNat] at h ⊢
  split_ifs at h ⊢ <;> omega

theorem toInt_eq_zero : c.toInt = 0 ↔ c = 0 := by
  rw [← BitVec.toInt_inj]
  simp

end

/-! ## The calls on one block -/

/-- A call on the block, with the outcome of `mmap` should it be called. -/
inductive Call where
  | map (flags : MapFlags) (outcome : Option ℕ)
  | unmap

/-- A block, the number of maps that returned an address, and of unmaps. -/
structure Users where
  block : PhysMemory
  maps : ℕ
  unmaps : ℕ

namespace Users

/-- A new block of the given size. -/
def start (maxsize : ℕ) : Users := ⟨newInternal maxsize, 0, 0⟩

/-- The maps that are open. -/
def openMaps (s : Users) : ℤ := s.maps - s.unmaps

/-- The users after a call. -/
def step (s : Users) : Call → Except Stop Users
  | .map flags outcome => do
    let (addr, m) ← s.block.mapPhysMem flags outcome
    return { s with block := m, maps := if addr.isSome then s.maps + 1 else s.maps }
  | .unmap => do
    let m ← s.block.unmapPhysMem
    return { s with block := m, unmaps := s.unmaps + 1 }

/-- The count is the number of open maps, and the block is mapped as long as
    there is one. -/
structure Counted (s : Users) : Prop where
  count : s.block.mappingRefcount.toInt = s.openMaps
  mapped : s.block.mappedVirtAddr ≠ none ↔ 0 < s.openMaps

end Users

/-- An unmap is called for a map that returned an address. -/
def Matched (x : Taken Users Call) : Prop := x.op = .unmap → x.pre.unmaps < x.pre.maps

/-- A map that fails because `mmap` failed leaves the block as it was. -/
def FailsClean (x : Taken Users Call) : Prop :=
  ∀ flags, x.op = .map flags none → x.pre.block.mappingRefcount = 0 → x.post.block = x.pre.block

/-- The call does not have `mmap` fail, and there is room for one more map. -/
def MmapWorks (x : Taken Users Call) : Prop :=
  ∀ flags outcome, x.op = .map flags outcome →
    (x.pre.block.mappingRefcount = 0 → outcome ≠ none) ∧ x.pre.openMaps < 2 ^ 31 - 1

/-! ## One call -/

namespace Users

variable {s s' : Users} {o : Call} {flags : MapFlags} {outcome : Option ℕ}

/-- What is kept between the calls. -/
structure Ready (s : Users) : Prop extends Counted s where
  unlocked : s.block.mutex = false
  unmaps_le : s.unmaps ≤ s.maps

theorem ready_start (maxsize : ℕ) : (start maxsize).Ready where
  count := rfl
  mapped := by simp [start, newInternal, openMaps]
  unlocked := rfl
  unmaps_le := Nat.le_refl 0

/-- A block is mapped while its count is not zero. -/
theorem Ready.open_of_count (h : s.Ready) (hc : s.block.mappingRefcount ≠ 0) :
    0 < s.openMaps := by
  have hne : s.openMaps ≠ 0 := fun h0 => hc (toInt_eq_zero.1 (h.count.trans h0))
  have hle := h.unmaps_le
  unfold openMaps at hne ⊢
  omega

theorem step_map (hs : s.step (.map flags outcome) = .ok s') :
    ∃ addr m, s.block.mapPhysMem flags outcome = .ok (addr, m) ∧
      s' = { s with block := m, maps := if addr.isSome then s.maps + 1 else s.maps } := by
  obtain ⟨⟨addr, m⟩, hmap, hs⟩ := ok_of_bind hs
  cases hs
  exact ⟨addr, m, hmap, rfl⟩

theorem step_unmap (hs : s.step .unmap = .ok s') :
    ∃ m, s.block.unmapPhysMem = .ok m ∧ s' = { s with block := m, unmaps := s.unmaps + 1 } := by
  obtain ⟨m, hunmap, hs⟩ := ok_of_bind hs
  cases hs
  exact ⟨m, hunmap, rfl⟩

/-- The first map: it is counted whether or not `mmap` works. -/
theorem counted_first_map (h : s.Ready) (hc : s.block.mappingRefcount = 0)
    (hs : s' = { s with block := { s.block.inc with mappingFlags := flags }.mmap outcome,
                        maps := if outcome.isSome then s.maps + 1 else s.maps }) :
    s'.Counted ∧ FailsClean ⟨s, .map flags outcome, s'⟩ ↔
      MmapWorks ⟨s, .map flags outcome, s'⟩ := by
  have hzero : s.openMaps = 0 := h.count.symm.trans (toInt_eq_zero.2 hc)
  have hone : s'.block.mappingRefcount.toInt = 1 := by
    have hinc : s'.block.mappingRefcount = s.block.mappingRefcount + 1 := by
      rw [hs]
      cases outcome <;> rfl
    rw [hinc, hc]
    rfl
  cases outcome with
  | none =>
    have hopen : s'.openMaps = 0 := by rw [hs]; exact hzero
    constructor
    · rintro ⟨hC, -⟩
      have hpost := hC.count
      omega
    · intro hw
      exact absurd rfl ((hw flags none rfl).1 hc)
  | some addr =>
    have hopen : s'.openMaps = 1 := by
      have hmore : s'.openMaps = s.openMaps + 1 := by
        simp only [hs, openMaps, Option.isSome_some, if_true]
        omega
      rw [hmore, hzero]
      rfl
    constructor
    · rintro - f o' ho
      cases ho
      refine ⟨fun _ => Option.some_ne_none addr, ?_⟩
      simp only
      omega
    · intro _
      refine ⟨⟨hone.trans hopen.symm, ?_⟩, fun f ho => by cases ho⟩
      rw [hopen, hs]
      simp [mmap]

/-- Another map: one more, if the count does not overflow. -/
theorem counted_map_again (h : s.Ready) (hc : s.block.mappingRefcount ≠ 0)
    (hs : s' = { s with block := s.block.inc,
                        maps := if s.block.mappedVirtAddr.isSome then s.maps + 1 else s.maps }) :
    s'.Counted ∧ FailsClean ⟨s, .map flags outcome, s'⟩ ↔
      MmapWorks ⟨s, .map flags outcome, s'⟩ := by
  have hopen := h.open_of_count hc
  have hmapped : s.block.mappedVirtAddr ≠ none := h.mapped.2 hopen
  rw [if_pos (Option.isSome_iff_ne_none.2 hmapped)] at hs
  have hopen' : s'.openMaps = s.openMaps + 1 := by
    simp only [hs, openMaps]
    omega
  have hblock : s'.block = s.block.inc := by rw [hs]
  constructor
  · rintro ⟨hC, -⟩ f o' -
    refine ⟨fun h0 => absurd h0 hc, ?_⟩
    by_contra hmax
    have hlt : s.block.mappingRefcount.toInt < 2 ^ 31 := BitVec.toInt_lt
    have hcount := h.count
    have hwrap : s'.block.mappingRefcount.toInt = -2 ^ 31 := by
      rw [hblock]
      refine toInt_inc_max ?_
      simp only at hmax
      omega
    have hpost := hC.count
    omega
  · intro hw
    refine ⟨⟨?_, ?_⟩, fun _ _ h0 => absurd h0 hc⟩
    · have hroom := (hw flags outcome rfl).2
      rw [hblock, hopen', ← h.count]
      refine toInt_inc ?_
      rw [h.count]
      exact hroom
    · rw [hblock, hopen']
      exact ⟨fun _ => by omega, fun _ => hmapped⟩

/-- An unmap: one less, and the last one takes the mapping away. -/
theorem counted_unmap (h : s.Ready) (hs : s.step .unmap = .ok s') (hlt : s.unmaps < s.maps) :
    s'.Counted := by
  obtain ⟨m, hunmap, rfl⟩ := step_unmap hs
  have hopen : 0 < s.openMaps := by
    unfold openMaps
    omega
  have hopen' : (Users.mk m s.maps (s.unmaps + 1)).openMaps = s.openMaps - 1 := by
    simp only [openMaps]
    omega
  have hdec : (s.block.mappingRefcount - 1).toInt = s.openMaps - 1 := by
    rw [← h.count]
    exact toInt_dec (h.count ▸ hopen)
  rcases unmapPhysMem_cases h.unlocked hunmap with ⟨hn, -⟩ | ⟨addr, -, ⟨h1, rfl⟩ | ⟨h1, rfl⟩⟩
  · exact absurd hn (h.mapped.2 hopen)
  · have hlast : s.openMaps - 1 = 0 := hdec.symm.trans (toInt_eq_zero.2 h1)
    refine ⟨hdec.trans hopen'.symm, ?_⟩
    rw [hopen', hlast]
    simp [munmap]
  · have hmore : s.openMaps - 1 ≠ 0 := fun h0 => h1 (toInt_eq_zero.1 (hdec.trans h0))
    have hmapped : s.block.mappedVirtAddr ≠ none := h.mapped.2 hopen
    refine ⟨hdec.trans hopen'.symm, ?_⟩
    rw [hopen']
    exact ⟨fun _ => by omega, fun _ => hmapped⟩

/-- **What one call does to the count.** -/
theorem counted_step_iff (h : s.Ready) (hs : s.step o = .ok s') (hm : Matched ⟨s, o, s'⟩) :
    s'.Counted ∧ FailsClean ⟨s, o, s'⟩ ↔ MmapWorks ⟨s, o, s'⟩ := by
  cases o with
  | map flags outcome =>
    obtain ⟨addr, m, hmap, hs'⟩ := step_map hs
    rcases mapPhysMem_cases h.unlocked hmap with ⟨hc, rfl, rfl⟩ | ⟨hc, rfl, rfl⟩
    · exact counted_first_map h hc hs'
    · exact counted_map_again h hc hs'
  | unmap =>
    constructor
    · rintro - f o' ho
      cases ho
    · intro _
      exact ⟨counted_unmap h hs (hm rfl), fun f ho => by cases ho⟩

theorem Ready.step (h : s.Ready) (hs : s.step o = .ok s') (hm : Matched ⟨s, o, s'⟩)
    (hC : s'.Counted) : s'.Ready where
  toCounted := hC
  unlocked := by
    cases o with
    | map flags outcome =>
      obtain ⟨addr, m, hmap, rfl⟩ := step_map hs
      exact mutex_of_map h.unlocked hmap
    | unmap =>
      obtain ⟨m, hunmap, rfl⟩ := step_unmap hs
      exact mutex_of_unmap h.unlocked hunmap
  unmaps_le := by
    have hle := h.unmaps_le
    cases o with
    | map flags outcome =>
      obtain ⟨addr, m, -, rfl⟩ := step_map hs
      simp only
      split <;> omega
    | unmap =>
      obtain ⟨m, -, rfl⟩ := step_unmap hs
      exact hm rfl

end Users

/-! ## Runs -/

section
variable {maxsize : ℕ} {tr : List (Taken Users Call)} {s : Users}

/-- **The count is right in every state of a run exactly if `mmap` never
    fails.** -/
theorem refcount_counts_iff (h : Trace Users.step (.start maxsize) tr s)
    (hm : ∀ x ∈ tr, Matched x) :
    (∀ x ∈ tr, x.post.Counted ∧ FailsClean x) ↔ ∀ x ∈ tr, MmapWorks x := by
  constructor
  · intro hC x hx
    obtain ⟨-, hinv⟩ := h.invariant Users.Ready (fun x => Matched x ∧ x.post.Counted)
      (Users.ready_start maxsize) (fun x hx => ⟨hm x hx, (hC x hx).1⟩)
      fun s o s' hR hs hx => hR.step hs hx.1 hx.2
    obtain ⟨hR, -, hs⟩ := hinv x hx
    exact (Users.counted_step_iff hR hs (hm x hx)).1 (hC x hx)
  · intro hw x hx
    obtain ⟨-, hinv⟩ := h.invariant Users.Ready (fun x => Matched x ∧ MmapWorks x)
      (Users.ready_start maxsize) (fun x hx => ⟨hm x hx, hw x hx⟩)
      fun s o s' hR hs hx =>
        hR.step hs hx.1 ((Users.counted_step_iff hR hs hx.1).2 hx.2).1
    obtain ⟨hR, -, hs⟩ := hinv x hx
    exact (Users.counted_step_iff hR hs (hm x hx)).2 (hw x hx)

/-- Two users of a block, one after the other. -/
theorem refcount_counts_two_users : ∃ tr s, Trace Users.step (.start 1) tr s ∧ s.maps = 2 ∧
    ∀ x ∈ tr, x.post.Counted ∧ FailsClean x := by
  have h : Trace Users.step (.start 1) _ _ :=
    .snoc (.map ⟨true, false⟩ (some 4096)) (.snoc (.map ⟨true, true⟩ (some 4096)) .nil rfl) rfl
  refine ⟨_, _, h, rfl, (refcount_counts_iff h ?_).2 ?_⟩
  · intro x hx
    simp only [List.nil_append, List.cons_append, List.mem_cons, List.not_mem_nil, or_false] at hx
    rcases hx with rfl | rfl <;> intro ho <;> cases ho
  · intro x hx
    simp only [List.nil_append, List.cons_append, List.mem_cons, List.not_mem_nil, or_false] at hx
    rcases hx with rfl | rfl <;> intro f o ho <;> cases ho <;>
      exact ⟨fun _ => Option.some_ne_none 4096, by decide⟩

/-- A map whose `mmap` fails stays counted. -/
theorem refcount_miscounted : ¬ ∀ maxsize tr s, Trace Users.step (.start maxsize) tr s →
    (∀ x ∈ tr, Matched x) → ∀ x ∈ tr, x.post.Counted ∧ FailsClean x := by
  intro h
  have hrun : Trace Users.step (.start 1) _ _ := .snoc (.map ⟨true, false⟩ none) .nil rfl
  have hC := h 1 _ _ hrun (by
    intro x hx ho
    rw [List.mem_singleton.1 hx] at ho
    cases ho) _ (List.mem_singleton_self _)
  exact absurd hC.1.count (by decide)

end

end MetaHipos.Gstreamer
