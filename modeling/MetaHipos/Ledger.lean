/-
  Ledgers of resources: what was acquired, what was released.

  A ledger accounts for the resources that are kept if every acquisition was
  released once or is one of them, and nothing else was released.

  * `Accounts.acquire`, `Accounts.release`: what one entry changes;
  * `Accounts.kept_perm`: a ledger accounts for one collection only, hence
    what is kept can be read off from either side.
-/
import Mathlib.Data.List.Perm.Basic

/-- The acquisitions and the releases so far. -/
structure Ledger (α : Type) where
  acquired : List α
  released : List α

variable {α : Type} {l : Ledger α} {a : α} {kept kept' : List α}

namespace Ledger

/-- Nothing was acquired. -/
def empty : Ledger α := ⟨[], []⟩

/-- One more was acquired. -/
def acquire (l : Ledger α) (a : α) : Ledger α := { l with acquired := a :: l.acquired }

/-- One was released. -/
def release (l : Ledger α) (a : α) : Ledger α := { l with released := a :: l.released }

/-- Every acquisition was released once or is kept, and nothing else was
    released. -/
def Accounts (l : Ledger α) (kept : List α) : Prop := l.acquired.Perm (l.released ++ kept)

theorem accounts_empty : (empty : Ledger α).Accounts [] := List.Perm.refl _

namespace Accounts

theorem acquire (h : l.Accounts kept) (a : α) : (l.acquire a).Accounts (a :: kept) := by
  have hp : (a :: l.acquired).Perm (a :: (l.released ++ kept)) := h.cons a
  exact hp.trans List.perm_middle.symm

theorem release (h : l.Accounts (a :: kept)) : (l.release a).Accounts kept :=
  h.trans List.perm_middle

theorem perm (h : l.Accounts kept) (hp : kept.Perm kept') : l.Accounts kept' :=
  h.trans (hp.append_left _)

/-- **A ledger accounts for one collection only.** -/
theorem kept_perm (h : l.Accounts kept) (h' : l.Accounts kept') : kept.Perm kept' :=
  (List.perm_append_left_iff _).1 (h.symm.trans h')

theorem iff_perm (h : l.Accounts kept) : l.Accounts kept' ↔ kept.Perm kept' :=
  ⟨h.kept_perm, h.perm⟩

theorem iff_nil (h : l.Accounts kept) : l.Accounts [] ↔ kept = [] := by
  rw [h.iff_perm, List.perm_nil]

end Accounts

end Ledger
