/-
  Cyclic redundancy checks.

  The check value of a message is what a shift register of `w` bits holds after
  the message has gone in, least significant bit first.  The register is linear
  in its contents and the message, so whether an error is noticed depends on the
  pattern of the flipped bits only.

  * `run_bits`: a message is followed by its check value exactly if the register
    is 0 in the end;
  * `run_eq_iff`: two messages have the same check value iff their difference
    leaves the register at 0;
  * `burst_detected`, `few_detected`: the errors that are always noticed.
-/
import Mathlib.Data.List.GetD
import Mathlib.Data.Nat.Notation

namespace Crc

variable {w : ℕ} {p c : BitVec w}

/-- The register after one more bit of the message. -/
def shift (p c : BitVec w) (bit : Bool) : BitVec w :=
  if (c.getLsbD 0 ^^ bit) = true then (c >>> 1) ^^^ p else c >>> 1

/-- The register after a message. -/
def run (p c : BitVec w) (bits : List Bool) : BitVec w := bits.foldl (shift p) c

/-- The bits of a register, in the order in which they leave it. -/
def bits (c : BitVec w) : List Bool := (List.range w).map c.getLsbD

/-- The bits in which two messages differ. -/
def diff (xs ys : List Bool) : List Bool := List.zipWith xor xs ys

@[simp] theorem run_nil : run p c [] = c := rfl

@[simp] theorem run_cons (x : Bool) (xs : List Bool) : run p c (x :: xs) = run p (shift p c x) xs :=
  rfl

theorem run_append (xs ys : List Bool) : run p c (xs ++ ys) = run p (run p c xs) ys :=
  List.foldl_append

/-! ## Linearity -/

theorem shift_xor (a b : BitVec w) (x y : Bool) :
    shift p (a ^^^ b) (x ^^ y) = shift p a x ^^^ shift p b y := by
  have hcancel : ∀ u v : BitVec w, u ^^^ v = u ^^^ p ^^^ (v ^^^ p) := by
    intro u v
    rw [BitVec.xor_assoc, BitVec.xor_comm p, BitVec.xor_assoc v, BitVec.xor_self, BitVec.xor_zero]
  simp only [shift, BitVec.getLsbD_xor, BitVec.ushiftRight_xor_distrib]
  cases a.getLsbD 0 <;> cases b.getLsbD 0 <;> cases x <;> cases y <;>
    simp <;> first | exact hcancel _ _ | ac_rfl

theorem run_xor (a b : BitVec w) {xs ys : List Bool} (h : xs.length = ys.length) :
    run p (a ^^^ b) (diff xs ys) = run p a xs ^^^ run p b ys := by
  induction xs generalizing a b ys with
  | nil =>
    cases ys with
    | nil => rfl
    | cons y ys => cases h
  | cons x xs ih =>
    cases ys with
    | nil => cases h
    | cons y ys =>
      have hlen : xs.length = ys.length := Nat.succ.inj h
      simp only [diff, List.zipWith_cons_cons, run_cons, shift_xor]
      exact ih _ _ hlen

/-- **Errors are noticed by their pattern.** -/
theorem run_eq_iff {xs ys : List Bool} (h : xs.length = ys.length) :
    run p c xs = run p c ys ↔ run p 0 (diff xs ys) = 0 := by
  have hx := run_xor (p := p) c c h
  rw [BitVec.xor_self] at hx
  rw [show (0 : BitVec w) = 0#w from rfl, hx, BitVec.xor_eq_zero_iff]

/-! ## The check value -/

theorem run_range (n : ℕ) : run p c ((List.range n).map c.getLsbD) = c >>> n := by
  induction n with
  | zero => simp
  | succ n ih =>
    rw [List.range_succ, List.map_append, run_append, ih]
    simp [shift, BitVec.shiftRight_add]

/-- **The register takes its own contents back**: a message that is followed by
    its check value leaves 0. -/
theorem run_bits : run p c (bits c) = 0 := by
  rw [bits, run_range]
  refine BitVec.eq_of_getLsbD_eq fun i hi => ?_
  simp

/-! ## Bursts -/

/-- Only one message of at most `w` bits takes the register to 0: the bits that
    it holds.  The top bit of the polynomial stands where a shift moves in a 0. -/
theorem bits_of_run_eq_zero (hp : p.msb = true) (xs : List Bool) (hlen : xs.length ≤ w)
    (h : run p c xs = 0) (i : ℕ) : c.getLsbD i = xs.getD i false := by
  induction xs generalizing c i with
  | nil =>
    rw [run_nil] at h
    simp [h]
  | cons x xs ih =>
    rw [List.length_cons] at hlen
    have hbits := ih (by omega) h
    have htop : (shift p c x).getLsbD (w - 1) = false := by
      rw [hbits, List.getD_eq_default _ _ (by omega)]
    have hfb : (c.getLsbD 0 ^^ x) = false := by
      cases hfb : c.getLsbD 0 ^^ x with
      | false => rfl
      | true =>
        rw [BitVec.msb_eq_getLsbD_last] at hp
        rw [shift, if_pos hfb, BitVec.getLsbD_xor, hp, BitVec.getLsbD_ushiftRight,
          BitVec.getLsbD_of_ge _ _ (by omega)] at htop
        cases htop
    have hshift : shift p c x = c >>> 1 := by rw [shift, hfb]; rfl
    cases i with
    | zero => simpa using hfb
    | succ i =>
      have := hbits i
      rw [hshift, BitVec.getLsbD_ushiftRight, Nat.add_comm] at this
      rw [this, List.getD_cons_succ]

theorem eq_zero_of_shift (hp : p.msb = true) (h : shift p c false = 0) : c = 0 := by
  have hw : 1 ≤ w := by
    cases w with
    | zero => cases p.eq_nil; cases hp
    | succ w => omega
  refine BitVec.eq_of_getLsbD_eq fun i _ => ?_
  rw [bits_of_run_eq_zero hp [false] hw h]
  cases i <;> simp

/-- Zeros keep an error in the register … -/
theorem eq_zero_of_run_zeros (hp : p.msb = true) {n : ℕ}
    (h : run p c (List.replicate n false) = 0) : c = 0 := by
  induction n generalizing c with
  | zero => exact h
  | succ n ih => exact eq_zero_of_shift hp (ih h)

/-- … and do nothing before it. -/
theorem run_zeros (n : ℕ) : run p 0 (List.replicate n false) = 0 := by
  induction n with
  | zero => rfl
  | succ n ih =>
    rw [List.replicate_succ, run_cons]
    simpa [shift] using ih

/-- **A burst of errors within `w` bits is noticed**, wherever it is. -/
theorem burst_detected (hp : p.msb = true) {e : List Bool} (hlen : e.length ≤ w)
    (he : true ∈ e) (m n : ℕ) :
    run p 0 (List.replicate m false ++ (e ++ List.replicate n false)) ≠ 0 := by
  intro h
  rw [run_append, run_zeros, run_append] at h
  have hbits := bits_of_run_eq_zero hp _ hlen (eq_zero_of_run_zeros hp h)
  obtain ⟨i, hi, hei⟩ := List.getElem_of_mem he
  have := hbits i
  rw [List.getD_eq_getElem _ _ hi, hei] at this
  simp at this

/-! ## Parity -/

/-- Whether the number of ones is odd. -/
def odd (xs : List Bool) : Bool := xs.foldr xor false

@[simp] theorem odd_nil : odd [] = false := rfl

@[simp] theorem odd_cons (x : Bool) (xs : List Bool) : odd (x :: xs) = (x ^^ odd xs) := rfl

theorem odd_append (xs ys : List Bool) : odd (xs ++ ys) = (odd xs ^^ odd ys) := by
  induction xs with
  | nil => simp
  | cons x xs ih => simp [ih]

theorem odd_diff {xs ys : List Bool} (h : xs.length = ys.length) :
    odd (diff xs ys) = (odd xs ^^ odd ys) := by
  induction xs generalizing ys with
  | nil =>
    cases ys with
    | nil => rfl
    | cons y ys => cases h
  | cons x xs ih =>
    cases ys with
    | nil => cases h
    | cons y ys =>
      have := ih (Nat.succ.inj h)
      simp only [diff, List.zipWith_cons_cons, odd_cons] at this ⊢
      rw [this, Bool.xor_assoc, Bool.xor_assoc, Bool.xor_left_comm y]

theorem odd_eq_count (xs : List Bool) : odd xs = decide (xs.count true % 2 = 1) := by
  induction xs with
  | nil => rfl
  | cons x xs ih =>
    rw [odd_cons, ih]
    cases x with
    | false => simp
    | true =>
      have := Nat.mod_two_eq_zero_or_one (xs.count true)
      rw [List.count_cons_self, Bool.true_xor, ← decide_not, decide_eq_decide]
      omega

theorem bits_xor (a b : BitVec w) : bits (a ^^^ b) = diff (bits a) (bits b) := by
  rw [bits, bits, bits, diff, List.zipWith_map, List.zipWith_self]
  exact List.map_congr_left fun i _ => BitVec.getLsbD_xor

theorem length_bits (c : BitVec w) : (bits c).length = w := by simp [bits]

/-- The bit that leaves the register is the one it loses. -/
theorem odd_bits_shiftRight (c : BitVec w) : odd (bits (c >>> 1)) = (odd (bits c) ^^ c.getLsbD 0) := by
  cases w with
  | zero => simp [bits]
  | succ w =>
    have hlast : (c >>> 1).getLsbD w = false := by
      rw [BitVec.getLsbD_ushiftRight, BitVec.getLsbD_of_ge _ _ (by omega)]
    have hmap : (List.range w).map (c >>> 1).getLsbD =
        (List.range w).map fun i => c.getLsbD (i + 1) := by
      refine List.map_congr_left fun i _ => ?_
      rw [BitVec.getLsbD_ushiftRight, Nat.add_comm i]
    have hc : bits c = c.getLsbD 0 :: (List.range w).map fun i => c.getLsbD (i + 1) := by
      rw [bits, List.range_succ_eq_map, List.map_cons, List.map_map]
      rfl
    rw [hc, bits, List.range_succ, List.map_append, odd_append, hmap]
    simp only [List.map_cons, List.map_nil, odd_cons, odd_nil, hlast, Bool.xor_false]
    cases c.getLsbD 0 <;> simp

theorem odd_bits_shift (hp : odd (bits p) = true) (x : Bool) :
    odd (bits (shift p c x)) = (odd (bits c) ^^ x) := by
  have hlen : ∀ a b : BitVec w, (bits a).length = (bits b).length := by simp [length_bits]
  cases hfb : c.getLsbD 0 ^^ x with
  | false =>
    rw [shift, hfb, if_neg Bool.false_ne_true, odd_bits_shiftRight]
    rw [show c.getLsbD 0 = x by simpa using hfb]
  | true =>
    rw [shift, hfb, if_pos rfl, bits_xor, odd_diff (hlen _ _), odd_bits_shiftRight, hp]
    cases hc : c.getLsbD 0 <;> cases x <;> simp_all

/-- A polynomial with an odd number of ones keeps the parity of the message. -/
theorem odd_bits_run (hp : odd (bits p) = true) (xs : List Bool) :
    odd (bits (run p c xs)) = (odd (bits c) ^^ odd xs) := by
  induction xs generalizing c with
  | nil => simp
  | cons x xs ih =>
    rw [run_cons, ih, odd_bits_shift hp, odd_cons, Bool.xor_assoc]

/-! ## Few errors -/

/-- What stands before the first one. -/
theorem exists_first {xs : List Bool} (h : true ∈ xs) :
    ∃ m ys, xs = List.replicate m false ++ true :: ys := by
  induction xs with
  | nil => cases h
  | cons x xs ih =>
    cases x with
    | true => exact ⟨0, xs, rfl⟩
    | false =>
      obtain ⟨m, ys, rfl⟩ := ih (by simpa using h)
      exact ⟨m + 1, ys, rfl⟩

theorem eq_zeros {xs : List Bool} (h : xs.count true = 0) : xs = List.replicate xs.length false := by
  refine List.eq_replicate_of_mem fun x hx => ?_
  cases x with
  | false => rfl
  | true => exact absurd hx (List.count_eq_zero.1 h)

/-- Two ones at any distance less than `n` are noticed if no fewer shifts take
    the polynomial to 1. -/
theorem two_detected (hp : p.msb = true) {n : ℕ}
    (hord : ∀ d < n, run p p (List.replicate d false) ≠ 1) {xs : List Bool}
    (hlen : xs.length ≤ n) (h2 : xs.count true = 2) : run p 0 xs ≠ 0 := by
  have hfirst : true ∈ xs := List.count_pos_iff.1 (by omega)
  obtain ⟨m, ys, rfl⟩ := exists_first hfirst
  have h1 : ys.count true = 1 := by simpa [List.count_replicate] using h2
  obtain ⟨d, zs, rfl⟩ := exists_first (List.count_pos_iff.1 (by omega : 0 < ys.count true))
  have h0 : zs.count true = 0 := by simpa [List.count_replicate] using h1
  have hd : d < n := by
    simp only [List.length_append, List.length_replicate, List.length_cons] at hlen
    omega
  have hw : 1 ≤ w := by
    cases w with
    | zero => cases p.eq_nil; cases hp
    | succ w => omega
  intro h
  have hstart : shift p 0 true = p := by simp [shift]
  rw [run_append, run_zeros, run_cons, hstart, run_append, run_cons, eq_zeros h0] at h
  have hlast := eq_zero_of_run_zeros hp h
  refine hord d hd (BitVec.eq_of_getLsbD_eq fun i hi => ?_)
  rw [bits_of_run_eq_zero hp [true] hw hlast]
  cases i with
  | zero => simp [hi]
  | succ i => simp

/-- **An odd number of errors is noticed.** -/
theorem odd_detected (hodd : odd (bits p) = true) {xs : List Bool} (h1 : xs.count true % 2 = 1) :
    run p 0 xs ≠ 0 := by
  intro h
  have hpar := odd_bits_run (c := 0) hodd xs
  rw [h, odd_eq_count xs] at hpar
  cases odd (bits (0 : BitVec w)) <;> simp [h1] at hpar

/-- **Up to three errors are noticed**, in a message of at most `n` bits. -/
theorem few_detected (hp : p.msb = true) (hodd : odd (bits p) = true) {n : ℕ}
    (hord : ∀ d < n, run p p (List.replicate d false) ≠ 1) {xs : List Bool}
    (hlen : xs.length ≤ n) (h0 : 0 < xs.count true) (h3 : xs.count true ≤ 3) : run p 0 xs ≠ 0 := by
  by_cases h2 : xs.count true = 2
  · exact two_detected hp hord hlen h2
  · exact odd_detected hodd (by omega)

end Crc
