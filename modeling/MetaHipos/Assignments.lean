/-
  Assignments in order: the last one of a variable wins.

  * `assign_apply`: what a variable is after a list of assignments;
  * `assign_assign`: assigning the same list again changes nothing.
-/
import Mathlib.Logic.Function.Basic

namespace Assignments

variable {κ α : Type} [DecidableEq κ]

/-- The variables after the assignments `l`, from the first to the last. -/
def assign (v : κ → α) (l : List (κ × α)) : κ → α :=
  l.foldl (fun v x => Function.update v x.1 x.2) v

/-- The last value that is assigned to `k`. -/
def lastValue : List (κ × α) → κ → Option α
  | [], _ => none
  | x :: l, k => (lastValue l k).or (if x.1 = k then some x.2 else none)

variable {v v' : κ → α} {l : List (κ × α)} {k : κ} {a : α}

theorem assign_apply (v : κ → α) (l : List (κ × α)) (k : κ) :
    assign v l k = (lastValue l k).getD (v k) := by
  induction l generalizing v with
  | nil => rfl
  | cons x l ih =>
    have hcons : assign v (x :: l) = assign (Function.update v x.1 x.2) l := rfl
    rw [hcons, ih, lastValue]
    cases lastValue l k with
    | some a => rfl
    | none =>
      by_cases hx : x.1 = k
      · subst hx
        simp
      · simp [hx, Ne.symm hx]

theorem assign_of_some (h : lastValue l k = some a) : assign v l k = a := by
  rw [assign_apply, h]
  rfl

theorem assign_of_none (h : lastValue l k = none) : assign v l k = v k := by
  rw [assign_apply, h]
  rfl

theorem assign_assign (v : κ → α) (l : List (κ × α)) (k : κ) :
    assign (assign v l) l k = assign v l k := by
  cases h : lastValue l k with
  | none => rw [assign_of_none h]
  | some a => rw [assign_of_some h, assign_of_some h]

theorem lastValue_eq_none : lastValue l k = none ↔ ∀ x ∈ l, x.1 ≠ k := by
  induction l with
  | nil => simp [lastValue]
  | cons x l ih =>
    simp only [lastValue, Option.or_eq_none_iff, ih, List.forall_mem_cons]
    rw [and_comm]
    refine and_congr_left fun _ => ?_
    split
    · rename_i hx
      simp [hx]
    · rename_i hx
      simp [hx]

end Assignments
