/-
  Stores of versioned records: the newest record wins.

  A store has slots `0`, …, `n - 1`; the slot `j` holds a record of the version
  `key j`, or no valid record.  The newest slot is the one with the highest
  version, the first one if several have it.

  * `IsNewest.skip`, `keep`, `take`: one more slot, for programs that search;
  * `IsNewest.write`: a record of a higher version becomes the newest one;
  * `IsNewest.lose`: the newest record remains when others are lost;
  * `IsNewest.survives`: when other slots are overwritten by records of one
    higher version or are destroyed, in whatever way, the newest record is the
    old one or one of that version.
-/
import Mathlib.Order.Lattice
import Mathlib.Order.Nat
import Mathlib.Tactic.Common

namespace Newest

variable {κ : Type} [LinearOrder κ]

/-- The slot `i` holds the newest record, of version `v`. -/
structure IsNewest (key : ℕ → Option κ) (n i : ℕ) (v : κ) : Prop where
  lt : i < n
  key_eq : key i = some v
  le : ∀ j < n, ∀ u, key j = some u → u ≤ v
  first : ∀ j < i, ∀ u, key j = some u → u < v

variable {key key' : ℕ → Option κ} {n i j c : ℕ} {u v : κ}

namespace IsNewest

theorem unique (h : IsNewest key n i v) (h' : IsNewest key n j u) : i = j ∧ v = u := by
  have hv : v = u := le_antisymm (h'.le i h.lt v h.key_eq) (h.le j h'.lt u h'.key_eq)
  subst hv
  rcases Nat.lt_trichotomy i j with hij | rfl | hij
  · exact absurd (h'.first i hij v h.key_eq) (lt_irrefl v)
  · exact ⟨rfl, rfl⟩
  · exact absurd (h.first j hij v h'.key_eq) (lt_irrefl v)

theorem congr (h : IsNewest key n i v) (hk : ∀ j < n, key' j = key j) : IsNewest key' n i v where
  lt := h.lt
  key_eq := (hk i h.lt).trans h.key_eq
  le j hj u hu := h.le j hj u ((hk j hj).symm.trans hu)
  first j hj u hu := h.first j hj u ((hk j (hj.trans h.lt)).symm.trans hu)

/-- The newest version does not depend on the order of the slots. -/
theorem reorder (h : IsNewest key n i v) {f g : ℕ → ℕ} (hf : ∀ j < n, f j < n)
    (hg : ∀ j < n, g j < n ∧ f (g j) = j) (h' : IsNewest (key ∘ f) n j u) : u = v := by
  apply le_antisymm
  · exact h.le (f j) (hf j h'.lt) u h'.key_eq
  · obtain ⟨hlt, hfg⟩ := hg i h.lt
    exact h'.le (g i) hlt v (by rw [Function.comp_apply, hfg]; exact h.key_eq)

/-! ### One more slot -/

theorem skip (h : IsNewest key n i v) (hn : key n = none) : IsNewest key (n + 1) i v where
  lt := h.lt.trans (Nat.lt_succ_self n)
  key_eq := h.key_eq
  le j hj u hu := by
    rcases Nat.lt_succ_iff_lt_or_eq.1 hj with hj | rfl
    · exact h.le j hj u hu
    · rw [hn] at hu; cases hu
  first := h.first

theorem keep (h : IsNewest key n i v) (hn : key n = some u) (hu : u ≤ v) :
    IsNewest key (n + 1) i v where
  lt := h.lt.trans (Nat.lt_succ_self n)
  key_eq := h.key_eq
  le j hj u' hu' := by
    rcases Nat.lt_succ_iff_lt_or_eq.1 hj with hj | rfl
    · exact h.le j hj u' hu'
    · rw [hn] at hu'; cases hu'; exact hu
  first := h.first

theorem take (hn : key n = some v) (h : ∀ j < n, ∀ u, key j = some u → u < v) :
    IsNewest key (n + 1) n v where
  lt := Nat.lt_succ_self n
  key_eq := hn
  le j hj u hu := by
    rcases Nat.lt_succ_iff_lt_or_eq.1 hj with hj | rfl
    · exact (h j hj u hu).le
    · rw [hn] at hu; cases hu; exact le_rfl
  first := h

end IsNewest

/-- There is a newest record as soon as there is a record. -/
theorem exists_isNewest (key : ℕ → Option κ) : ∀ n, (∃ j < n, ∃ u, key j = some u) →
    ∃ i v, IsNewest key n i v
  | 0, ⟨_, hj, _⟩ => absurd hj (Nat.not_lt_zero _)
  | n + 1, ⟨j, hj, u, hu⟩ => by
    by_cases hex : ∃ j < n, ∃ u, key j = some u
    · obtain ⟨i, v, h⟩ := exists_isNewest key n hex
      rcases hn : key n with _ | w
      · exact ⟨i, v, h.skip hn⟩
      rcases le_or_gt w v with hw | hw
      · exact ⟨i, v, h.keep hn hw⟩
      · exact ⟨n, w, .take hn fun j hj u hu => (h.le j hj u hu).trans_lt hw⟩
    · rcases Nat.lt_succ_iff_lt_or_eq.1 hj with hj | rfl
      · exact absurd ⟨j, hj, u, hu⟩ hex
      · exact ⟨j, u, .take hu fun j hj u hu => absurd ⟨j, hj, u, hu⟩ hex⟩

/-! ### Updates -/

namespace IsNewest

/-- **A record of a higher version becomes the newest one.**  Other slots may
    lose their record. -/
theorem write (h : IsNewest key n c v) (hj : j < n) (hkj : key' j = some u) (hu : v < u)
    (hk : ∀ k < n, k ≠ j → key' k = key k ∨ key' k = none) : IsNewest key' n j u := by
  have hlt : ∀ k < n, k ≠ j → ∀ u', key' k = some u' → u' < u := by
    intro k hkn hne u' hu'
    rcases hk k hkn hne with hk | hk
    · exact (h.le k hkn u' (hk.symm.trans hu')).trans_lt hu
    · rw [hk] at hu'; cases hu'
  refine ⟨hj, hkj, fun k hkn u' hu' => ?_, fun k hkj' u' hu' =>
    hlt k (hkj'.trans hj) hkj'.ne u' hu'⟩
  by_cases hne : k = j
  · subst hne; rw [hkj] at hu'; cases hu'; exact le_rfl
  · exact (hlt k hkn hne u' hu').le

/-- The first record of all becomes the newest one. -/
theorem write_first (hj : j < n) (hkj : key' j = some u)
    (hk : ∀ k < n, k ≠ j → key' k = none) : IsNewest key' n j u where
  lt := hj
  key_eq := hkj
  le k hkn u' hu' := by
    by_cases hne : k = j
    · subst hne; rw [hkj] at hu'; cases hu'; exact le_rfl
    · rw [hk k hkn hne] at hu'; cases hu'
  first k hkj' u' hu' := by rw [hk k (hkj'.trans hj) hkj'.ne] at hu'; cases hu'

/-- The newest record remains when other slots lose their record. -/
theorem lose (h : IsNewest key n c v) (hkc : key' c = key c)
    (hk : ∀ k < n, k ≠ c → key' k = key k ∨ key' k = none) : IsNewest key' n c v := by
  have hold : ∀ k < n, ∀ u, key' k = some u → key k = some u := by
    intro k hkn u hu
    by_cases hkc' : k = c
    · subst hkc'; rw [← hkc]; exact hu
    · rcases hk k hkn hkc' with h' | h'
      · rw [← h']; exact hu
      · rw [h'] at hu; cases hu
  exact ⟨h.lt, hkc.trans h.key_eq, fun j hj u hu => h.le j hj u (hold j hj u hu),
    fun j hj u hu => h.first j hj u (hold j (hj.trans h.lt) u hu)⟩

/-- **The newest record survives**: when the slots other than `c` keep their
    record, lose it, or get one of the version `u`, the newest record is that
    of `c`, or one of the version `u`. -/
theorem survives (h : IsNewest key n c v) (hkc : key' c = key c)
    (hk : ∀ k < n, k ≠ c → key' k = key k ∨ key' k = none ∨ key' k = some u) {i : ℕ} {w : κ}
    (h' : IsNewest key' n i w) : (i = c ∧ w = v) ∨ (i ≠ c ∧ w = u ∧ key' i = some u) := by
  have hc' : key' c = some v := hkc.trans h.key_eq
  have hvw : v ≤ w := h'.le c h.lt v hc'
  by_cases hic : i = c
  · subst hic
    refine Or.inl ⟨rfl, ?_⟩
    have := h'.key_eq
    rw [hc'] at this; cases this; rfl
  · rcases hk i h'.lt hic with hki | hki | hki
    · -- an old record is not newer than that of `c`, nor as new and before it
      exfalso
      have hi : key i = some w := hki.symm.trans h'.key_eq
      have hwv : w ≤ v := h.le i h'.lt w hi
      have : v = w := le_antisymm hvw hwv
      subst this
      rcases Nat.lt_or_gt_of_ne hic with hlt | hgt
      · exact lt_irrefl v (h.first i hlt v hi)
      · exact lt_irrefl v (h'.first c hgt v hc')
    · exact absurd (hki.symm.trans h'.key_eq) (by simp)
    · have := h'.key_eq
      rw [hki] at this; cases this
      exact Or.inr ⟨hic, rfl, hki⟩

end IsNewest

end Newest
