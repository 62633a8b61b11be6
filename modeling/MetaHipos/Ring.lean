/-
  Walks around a ring of `n` positions.

  `ring n c` lists the positions other than `c` in cyclic order, starting
  after `c`; `turn l` are the elements of a list, over and over again.

  * `next_turn`, `first_turn`: who always goes on to the next good position
    takes turns on the good positions;
  * `count_turns_le`: no position has more than one turn more than another.
-/
import Mathlib.Tactic.Common
import Mathlib.Data.List.GetD
import Mathlib.Data.List.Range
import Mathlib.Data.Int.CardIntervalMod

namespace Ring

/-- The `m` positions before `c`, in cyclic order. -/
def before (n c : ℕ) : ℕ → List ℕ
  | 0 => []
  | m + 1 => (c + n - (m + 1)) % n :: before n c m

/-- The positions other than `c`, in cyclic order, starting after `c`. -/
def ring (n c : ℕ) : List ℕ := before n c (n - 1)

variable {n c i : ℕ}

/-- The walk starts at the successor of `c`. -/
theorem first_eq (hc : c < n) : (c + n - (n - 1)) % n = (c + 1) % n := by
  rw [show c + n - (n - 1) = c + 1 by omega]

/-- It goes on with the successor of the last position. -/
theorem succ_eq {m : ℕ} (hm : m + 1 < n) :
    ((c + n - (m + 1)) % n + 1) % n = (c + n - m) % n := by
  rw [Nat.mod_add_mod, show c + n - (m + 1) + 1 = c + n - m by omega]

/-- It reaches `c` after all other positions, and not before. -/
theorem reach_iff {m : ℕ} (hc : c < n) (hm : m < n) : (c + n - m) % n = c ↔ m = 0 := by
  rcases Nat.lt_or_ge c m with h | h
  · rw [Nat.mod_eq_of_lt (by omega)]; omega
  · rw [show c + n - m = c - m + n by omega, Nat.add_mod_right, Nat.mod_eq_of_lt (by omega)]; omega

theorem before_eq (hc : c < n) : ∀ m, m < n →
    before n c m = if m ≤ c then List.range' (c - m) m
      else List.range' (c + n - m) (m - c) ++ List.range c
  | 0, _ => by simp [before]
  | m + 1, hm => by
    rw [before, before_eq hc m (by omega)]
    rcases Nat.lt_trichotomy m c with h | rfl | h
    · rw [if_pos h.le, if_pos (Nat.succ_le_of_lt h),
        show c + n - (m + 1) = c - (m + 1) + n by omega, Nat.add_mod_right,
        Nat.mod_eq_of_lt (by omega), List.range'_succ, show c - (m + 1) + 1 = c - m by omega]
    · rw [if_pos le_rfl, if_neg (by omega), Nat.mod_eq_of_lt (by omega), Nat.sub_self,
        show m + 1 - m = 1 by omega, List.range'_one, List.range_eq_range']
      rfl
    · rw [if_neg (by omega), if_neg (by omega), Nat.mod_eq_of_lt (by omega),
        show m + 1 - c = m - c + 1 by omega, List.range'_succ,
        show c + n - (m + 1) + 1 = c + n - m by omega]
      rfl

/-- **The walk around the ring**: up to the end, then from `0` up to `c`. -/
theorem ring_eq (hc : c < n) : ring n c = List.range' (c + 1) (n - 1 - c) ++ List.range c := by
  rw [ring, before_eq hc _ (by omega)]
  split_ifs with h
  · obtain rfl : c = n - 1 := by omega
    simp [List.range_eq_range']
  · rw [show c + n - (n - 1) = c + 1 by omega]

theorem mem_ring (hc : c < n) : i ∈ ring n c ↔ i < n ∧ i ≠ c := by
  rw [ring_eq hc]
  simp only [List.mem_append, List.mem_range'_1, List.mem_range]
  omega

theorem nodup_ring (hc : c < n) : (ring n c).Nodup := by
  rw [ring_eq hc, List.nodup_append]
  refine ⟨List.nodup_range', List.nodup_range, fun a ha b hb => ?_⟩
  simp only [List.mem_range'_1, List.mem_range] at ha hb
  omega

/-! ## Turns -/

/-- The elements of a list, over and over again. -/
def turn (l : List ℕ) (m : ℕ) : ℕ := l.getD (m % l.length) 0

section
variable {l : List ℕ} {a b m : ℕ}

theorem turn_of_lt (h : m < l.length) : turn l m = l[m] := by
  rw [turn, Nat.mod_eq_of_lt h, List.getD_eq_getElem _ _ h]

theorem turn_add_length : turn l (m + l.length) = turn l m := by
  rw [turn, turn, Nat.add_mod_right]

theorem turn_mem (h : 0 < l.length) : turn l m ∈ l := by
  rw [turn, List.getD_eq_getElem _ _ (Nat.mod_lt m h)]
  exact List.getElem_mem _

theorem turn_inj (hl : l.Nodup) (h : 0 < l.length) :
    turn l a = turn l b ↔ a ≡ b [MOD l.length] := by
  rw [turn, turn, List.getD_eq_getElem _ _ (Nat.mod_lt a h),
    List.getD_eq_getElem _ _ (Nat.mod_lt b h), hl.getElem_inj_iff]
  rfl

/-- Within a round, all turns are different. -/
theorem turn_inj_of_lt (hl : l.Nodup) (hab : a ≤ b) (h : b < a + l.length)
    (he : turn l a = turn l b) : a = b := by
  have hmod := (Nat.modEq_iff_dvd' hab).1 ((turn_inj hl (by omega)).1 he)
  have := Nat.eq_zero_of_dvd_of_lt hmod (by omega)
  omega

/-- The number of turns an element had. -/
theorem count_turns (hl : l.Nodup) {j : ℕ} (hj : j < l.length) (k : ℕ) :
    ((List.range k).map (turn l)).count l[j] =
      k / l.length + if j < k % l.length then 1 else 0 := by
  have h0 : 0 < l.length := by omega
  have hcount : ((List.range k).map (turn l)).count l[j] = k.count (· ≡ j [MOD l.length]) := by
    induction k with
    | zero => rfl
    | succ k ih =>
      rw [List.range_succ, List.map_append, List.count_append, ih, Nat.count_succ,
        ← turn_of_lt hj]
      simp only [List.map_cons, List.map_nil, List.count_singleton, beq_iff_eq, turn_inj hl h0]
  rw [hcount, Nat.count_modEq_card _ h0, Nat.mod_eq_of_lt hj]

/-- **No element has more than one turn more than another.** -/
theorem count_turns_le (hl : l.Nodup) (ha : a ∈ l) (hb : b ∈ l) (k : ℕ) :
    ((List.range k).map (turn l)).count a ≤ ((List.range k).map (turn l)).count b + 1 := by
  obtain ⟨i, hi, rfl⟩ := List.getElem_of_mem ha
  obtain ⟨j, hj, rfl⟩ := List.getElem_of_mem hb
  rw [count_turns hl hi, count_turns hl hj]
  split_ifs <;> omega

end

/-! ## Good positions -/

section
variable {good : ℕ → Bool}

/-- The good positions. -/
def goods (n : ℕ) (good : ℕ → Bool) : List ℕ := (List.range n).filter good

theorem mem_goods : i ∈ goods n good ↔ i < n ∧ good i = true := by
  rw [goods, List.mem_filter, List.mem_range]

theorem nodup_goods : (goods n good).Nodup := List.nodup_range.filter _

/-- The good positions before and after `c`. -/
theorem goods_eq (hc : c < n) : goods n good = goods c good ++
    ((if good c then [c] else []) ++ (List.range' (c + 1) (n - 1 - c)).filter good) := by
  have hn : List.range n = List.range c ++ (c :: List.range' (c + 1) (n - 1 - c)) := by
    rw [List.range_eq_range', List.range_eq_range', show n = c + (n - 1 - c + 1) by omega,
      ← List.range'_append_1, List.range'_succ]
    simp
  rw [goods, hn, List.filter_append, List.filter_cons, goods]
  split_ifs <;> rfl

/-- The good positions on the way around the ring. -/
theorem filter_ring (hc : c < n) : (ring n c).filter good =
    (List.range' (c + 1) (n - 1 - c)).filter good ++ goods c good := by
  rw [ring_eq hc, List.filter_append, goods]

/-- The first good position on a way. -/
theorem head_filter {l pre post : List ℕ} (h : l = pre ++ i :: post)
    (hpre : ∀ j ∈ pre, good j = false) (hi : good i = true) :
    (l.filter good).head? = some i := by
  rw [h, List.filter_append, List.filter_eq_nil_iff.2 (by simpa using hpre), List.nil_append,
    List.filter_cons_of_pos hi, List.head?_cons]

/-- **After the turn `m` comes the turn `m + 1`.** -/
theorem next_turn {m : ℕ} (hg : 2 ≤ (goods n good).length) (hc : turn (goods n good) m = c) :
    ((ring n c).filter good).head? = some (turn (goods n good) (m + 1)) := by
  have hmem : c ∈ goods n good := hc ▸ turn_mem (by omega)
  obtain ⟨hcn, hcg⟩ := mem_goods.1 hmem
  have heq : goods n good = _ := goods_eq hcn
  rw [if_pos hcg, List.singleton_append] at heq
  set A := goods c good
  set B := (List.range' (c + 1) (n - 1 - c)).filter good with hB
  -- `c` is at the position `A.length`
  have hlen : (goods n good).length = A.length + B.length + 1 := by rw [heq]; simp; omega
  have hA : A.length < (goods n good).length := by omega
  have hcA : turn (goods n good) A.length = c := by
    rw [turn_of_lt hA]; simp only [heq, List.getElem_append_right le_rfl]; simp
  have hm : m + 1 ≡ A.length + 1 [MOD (goods n good).length] :=
    ((turn_inj nodup_goods (by omega)).1 (hc.trans hcA.symm)).add_right 1
  rw [(turn_inj nodup_goods (by omega)).2 hm, filter_ring hcn, ← hB]
  cases hBe : B with
  | nil =>
    -- `c` is the last good position
    have h0 : A.length + 1 = 0 + (goods n good).length := by rw [hlen, hBe]; simp
    have hA0 : 0 < A.length := by rw [hBe] at hlen; simp at hlen; omega
    rw [h0, turn_add_length, turn_of_lt (by omega)]
    simp only [heq, List.nil_append, List.getElem_append_left hA0]
    rw [List.head?_eq_getElem?, List.getElem?_eq_getElem hA0]
  | cons b B' =>
    have h1 : A.length + 1 < (goods n good).length := by rw [hlen, hBe]; simp
    rw [turn_of_lt h1, List.cons_append, List.head?_cons]
    simp only [heq, hBe, List.getElem_append_right (Nat.le_succ _)]
    simp

/-- **From the last position on, the turns start.** -/
theorem first_turn (hg : 2 ≤ (goods n good).length) :
    ((ring n (n - 1)).filter good).head? = some (turn (goods n good) 0) := by
  have hn : 0 < n := by
    by_contra h
    obtain rfl : n = 0 := by omega
    simp [goods] at hg
  have heq : goods n good = _ := goods_eq (show n - 1 < n by omega)
  have hB : (List.range' (n - 1 + 1) (n - 1 - (n - 1))).filter good = [] := by simp
  rw [hB, List.append_nil] at heq
  have hA : 0 < (goods (n - 1) good).length := by
    rw [heq, List.length_append] at hg
    split_ifs at hg <;> simp at hg <;> omega
  rw [filter_ring (by omega), hB, List.nil_append, turn_of_lt (by omega)]
  simp only [heq, List.getElem_append_left hA]
  rw [List.head?_eq_getElem?, List.getElem?_eq_getElem hA]

end

end Ring
