/-
  Sessions: the calls a program makes to a library, one after the other.

  `lib c t` is the process of the call `c` from the memory `t`; it returns a
  result and the new memory.  A session is the list of the calls made so far,
  with what was before and after each of them.

  * `Session.invariant`: what every call preserves holds after every session.
-/
import Mathlib.Data.List.Basic
import MetaHipos.Process.Wp

namespace Process

variable {Op : Type} {Ans Resp : Op → Type} {ε σ κ τ ρ : Type}

/-- A call that returned. -/
structure Step (κ τ σ ρ : Type) where
  call : κ
  pre : τ × σ
  ret : ρ
  post : τ × σ

/-- The sessions that start in `s₀`, and where they end.  `ok c` are the
    responses the environment may give while `c` runs. -/
inductive Session (E : Env Op Ans Resp σ) (ok : κ → (o : Op) → Resp o → Prop)
    (lib : κ → τ → Proc Op Ans ε (ρ × τ)) (s₀ : τ × σ) : List (Step κ τ σ ρ) → τ × σ → Prop
  | nil : Session E ok lib s₀ [] s₀
  | snoc {steps : List (Step κ τ σ ρ)} {s : τ × σ} {t : τ} {w : σ} (c : κ) {r : ρ}
      {ω ω' : Oracle Resp} :
      Session E ok lib s₀ steps s → (∀ n o, ok c o (ω n o)) →
      exec E (lib c s.1) s.2 ω = (.done (r, t), w, ω') →
      Session E ok lib s₀ (steps ++ [⟨c, s, r, (t, w)⟩]) (t, w)

variable {E : Env Op Ans Resp σ} {ok : κ → (o : Op) → Resp o → Prop}
  {lib : κ → τ → Proc Op Ans ε (ρ × τ)} {s₀ s : τ × σ} {steps : List (Step κ τ σ ρ)}

/-- What is known of the calls: they run within `J c`, and relate the state
    before to the result and the state after by `R c`. -/
def LibSpec (E : Env Op Ans Resp σ) (J : κ → Judge Op Resp ε σ)
    (lib : κ → τ → Proc Op Ans ε (ρ × τ)) (c : κ) (s : τ × σ) (Q : ρ → τ × σ → Prop) : Prop :=
  wp E (J c) (lib c s.1) (fun rt s' => Q rt.1 (rt.2, s')) s.2

theorem LibSpec.mono {J : κ → Judge Op Resp ε σ} {c : κ} {Q Q' : ρ → τ × σ → Prop}
    (h : LibSpec E J lib c s Q) (hQ : ∀ r s', Q r s' → Q' r s') : LibSpec E J lib c s Q' :=
  wp_mono h fun rt s' => hQ rt.1 (rt.2, s')

/-- **The invariant rule.**  `I` may speak of the calls made so far. -/
theorem Session.invariant (h : Session E ok lib s₀ steps s)
    (I : List (Step κ τ σ ρ) → τ × σ → Prop) (J : κ → Judge Op Resp ε σ) (h₀ : I [] s₀)
    (hok : ∀ c o r, ok c o r → (J c).ok o r)
    (hstep : ∀ steps s c, I steps s → LibSpec E J lib c s fun r s' =>
      I (steps ++ [⟨c, s, r, s'⟩]) s') : I steps s := by
  induction h with
  | nil => exact h₀
  | snoc c _ hω he ih =>
    have hwp := hstep _ _ c ih
    have hI := wp_done hwp (fun n o => hok _ _ _ (hω n o)) he
    exact hI

/-! ## Positions in a session -/

/-- A list is split at its last element or before. -/
theorem snoc_eq_split {α : Type} {l l₁ l₂ : List α} {a b : α} (h : l ++ [a] = l₁ ++ b :: l₂) :
    (l = l₁ ∧ a = b ∧ l₂ = []) ∨ ∃ l₃, l₂ = l₃ ++ [a] ∧ l = l₁ ++ b :: l₃ := by
  rcases List.eq_nil_or_concat' l₂ with rfl | ⟨l₃, a', rfl⟩
  · obtain ⟨hl, hab⟩ := List.append_inj' h rfl
    exact Or.inl ⟨hl, (List.cons.inj hab).1, rfl⟩
  · rw [← List.cons_append, ← List.append_assoc] at h
    obtain ⟨hl, haa⟩ := List.append_inj' h rfl
    exact Or.inr ⟨l₃, by rw [haa], hl⟩

end Process
