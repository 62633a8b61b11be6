/-
  Runs of a step function that may stop, with the steps they took.

  * `ok_of_bind`: a sequence of operations that returns, one at a time;
  * `Trace.history`, `Trace.invariant`: what the steps preserve, under a
    condition they all meet, holds before and after each of them;
  * `Trace.split_at`: a run up to one of its steps, and from there on.
-/
import Mathlib.Data.List.Basic
import Mathlib.Data.List.Induction

namespace Process

/-- A step that was taken: the operation, the states before and after. -/
structure Taken (σ κ : Type) where
  pre : σ
  op : κ
  post : σ

/-- The runs from `s₀`, and where they end. -/
inductive Trace {ε σ κ : Type} (step : σ → κ → Except ε σ) (s₀ : σ) :
    List (Taken σ κ) → σ → Prop
  | nil : Trace step s₀ [] s₀
  | snoc {tr : List (Taken σ κ)} {s s' : σ} (o : κ) :
      Trace step s₀ tr s → step s o = .ok s' → Trace step s₀ (tr ++ [⟨s, o, s'⟩]) s'

theorem ok_of_bind {ε α β : Type} {x : Except ε α} {f : α → Except ε β} {r : β}
    (h : x >>= f = .ok r) : ∃ a, x = .ok a ∧ f a = .ok r := by
  cases x with
  | error e => cases h
  | ok a => exact ⟨a, rfl, h⟩

variable {ε σ κ : Type} {step : σ → κ → Except ε σ} {s₀ s : σ} {tr : List (Taken σ κ)}

/-- **The invariant rule.**  `I` may speak of the steps taken so far. -/
theorem Trace.history (h : Trace step s₀ tr s) (I : List (Taken σ κ) → σ → Prop) (h₀ : I [] s₀)
    (hstep : ∀ tr s o s', I tr s → step s o = .ok s' → I (tr ++ [⟨s, o, s'⟩]) s') : I tr s := by
  induction h with
  | nil => exact h₀
  | snoc o _ hs ih => exact hstep _ _ o _ ih hs

/-- What every step that meets `C` preserves holds before and after each step of
    a run of such steps. -/
theorem Trace.invariant (h : Trace step s₀ tr s) (I : σ → Prop) (C : Taken σ κ → Prop)
    (h₀ : I s₀) (hC : ∀ x ∈ tr, C x)
    (hstep : ∀ s o s', I s → step s o = .ok s' → C ⟨s, o, s'⟩ → I s') :
    I s ∧ ∀ x ∈ tr, I x.pre ∧ I x.post ∧ step x.pre x.op = .ok x.post := by
  refine h.history (fun tr s => (∀ x ∈ tr, C x) →
    I s ∧ ∀ x ∈ tr, I x.pre ∧ I x.post ∧ step x.pre x.op = .ok x.post)
    (fun _ => ⟨h₀, by simp⟩) ?_ hC
  intro tr s o s' ih hs hC
  obtain ⟨hI, hx⟩ := ih fun x hx => hC x (List.mem_append_left _ hx)
  have hI' := hstep _ _ _ hI hs (hC _ (List.mem_append_right _ (List.mem_singleton_self _)))
  refine ⟨hI', fun x hmem => ?_⟩
  rcases List.mem_append.1 hmem with hmem | hmem
  · exact hx x hmem
  · rw [List.mem_singleton.1 hmem]
    exact ⟨hI, hI', hs⟩

/-- The last step of a run. -/
theorem Trace.last {x : Taken σ κ} (h : Trace step s₀ (tr ++ [x]) s) :
    Trace step s₀ tr x.pre ∧ step x.pre x.op = .ok x.post ∧ x.post = s := by
  generalize htr : tr ++ [x] = l at h
  cases h with
  | nil => simp at htr
  | snoc o h hs =>
    obtain ⟨rfl, hx⟩ := List.append_inj' htr rfl
    cases hx
    exact ⟨h, hs, rfl⟩

/-- A run in two parts. -/
theorem Trace.split {tr₁ tr₂ : List (Taken σ κ)} (h : Trace step s₀ (tr₁ ++ tr₂) s) :
    ∃ s₁, Trace step s₀ tr₁ s₁ ∧ Trace step s₁ tr₂ s := by
  induction tr₂ using List.reverseRecOn generalizing s with
  | nil =>
    rw [List.append_nil] at h
    exact ⟨s, h, .nil⟩
  | append_singleton tr₂ x ih =>
    rw [← List.append_assoc] at h
    obtain ⟨hpre, hs, rfl⟩ := h.last
    obtain ⟨s₁, h₁, h₂⟩ := ih hpre
    exact ⟨s₁, h₁, h₂.snoc x.op hs⟩

/-- A run up to one of its steps, and from there on. -/
theorem Trace.split_at {tr₁ tr₂ : List (Taken σ κ)} {x : Taken σ κ}
    (h : Trace step s₀ (tr₁ ++ x :: tr₂) s) : Trace step s₀ tr₁ x.pre ∧
      step x.pre x.op = .ok x.post ∧ Trace step x.post tr₂ s := by
  have hsplit : tr₁ ++ x :: tr₂ = (tr₁ ++ [x]) ++ tr₂ := by simp
  rw [hsplit] at h
  obtain ⟨s₁, h₁, h₂⟩ := h.split
  obtain ⟨hpre, hs, rfl⟩ := h₁.last
  exact ⟨hpre, hs, h₂⟩

end Process
