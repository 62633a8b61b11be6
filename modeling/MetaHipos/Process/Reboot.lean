/-
  Devices that are booted again and again.

  A boot runs a process, which depends on the state an earlier boot left
  behind.  It returns, or it is cut anywhere: the power fails.

  * `Reboots.invariant`: what holds after every call of a boot holds of the
    state after any number of boots, and so does the postcondition of those
    that returned.
-/
import MetaHipos.Process.Wp

namespace Process

variable {Op : Type} {Ans Resp : Op → Type} {ε α σ κ : Type}

/-- The boots that returned, with their results, and the state left behind.
    `ok c` are the responses the environment may give under the conditions `c`. -/
inductive Reboots (E : Env Op Ans Resp σ) (ok : κ → (o : Op) → Resp o → Prop)
    (boot : σ → Proc Op Ans ε α) (s₀ : σ) : List (κ × α) → σ → Prop
  | nil : Reboots E ok boot s₀ [] s₀
  | done {boots : List (κ × α)} {s s' : σ} {a : α} {ω ω' : Oracle Resp} (c : κ) :
      Reboots E ok boot s₀ boots s → (∀ n o, ok c o (ω n o)) →
      exec E (boot s) s ω = (.done a, s', ω') → Reboots E ok boot s₀ (boots ++ [(c, a)]) s'
  | lost {boots : List (κ × α)} {s : σ} {ω : Oracle Resp} (c : κ) (n : ℕ) :
      Reboots E ok boot s₀ boots s → (∀ n o, ok c o (ω n o)) →
      Reboots E ok boot s₀ boots (cut E n (boot s) s ω)

variable {E : Env Op Ans Resp σ} {ok : κ → (o : Op) → Resp o → Prop}
  {boot : σ → Proc Op Ans ε α} {s₀ s : σ} {boots : List (κ × α)}

/-- **The invariant rule.** -/
theorem Reboots.invariant (h : Reboots E ok boot s₀ boots s) (I : σ → Prop) (Q : κ → α → Prop)
    (stop : ε → σ → Prop) (h₀ : I s₀)
    (hboot : ∀ c s, I s → wp E ⟨ok c, I, stop⟩ (boot s) (fun a s' => I s' ∧ Q c a) s) :
    I s ∧ ∀ x ∈ boots, Q x.1 x.2 := by
  induction h with
  | nil => exact ⟨h₀, by simp⟩
  | done c _ hω he ih =>
    obtain ⟨hI, hQ⟩ := wp_done (hboot c _ ih.1) hω he
    refine ⟨hI, fun x hx => ?_⟩
    rcases List.mem_append.1 hx with hx | hx
    · exact ih.2 x hx
    · rw [List.mem_singleton.1 hx]; exact hQ
  | lost c n _ hω ih => exact ⟨wp_cut (hboot c _ ih.1) ih.1 hω n, ih.2⟩

end Process
