/-
  Processes that run at the same time on one environment.

  The state of the environment is shared; `E t` is the environment as the
  process `t` reaches it.  Any process may issue its next call at any time, so
  that the calls interleave in every possible order.

  * `Interleaving`: the processes and states that are reached;
  * `within`: the weakest precondition of a process in terms of its view of
    the shared state, which the other processes do not change;
  * `Interleaving.sound`: what holds of each process alone holds in every
    interleaving;
  * `Interleaving.alone`: a process may run for a while on its own.
-/
import MetaHipos.Process.Wp

namespace Process

variable {Op : Type} {Ans Resp : Op → Type} {ε α β σ τ V : Type}

/-- What is reached from the processes and the state `c₀`, in any order of
    calls with responses within `ok`. -/
inductive Interleaving [DecidableEq τ] (E : τ → Env Op Ans Resp σ) (ok : (o : Op) → Resp o → Prop)
    (c₀ : (τ → Proc Op Ans ε α) × σ) : (τ → Proc Op Ans ε α) × σ → Prop
  | start : Interleaving E ok c₀ c₀
  | call {procs : τ → Proc Op Ans ε α} {s : σ} (t : τ) {o : Op} {k : Ans o → Proc Op Ans ε α}
      (r : Resp o) : Interleaving E ok c₀ (procs, s) → procs t = .call o k → ok o r →
      Interleaving E ok c₀
        (Function.update procs t (k ((E t).reply o r s)), (E t).next o r s)

/-- The process does not go on. -/
def Proc.Ended : Proc Op Ans ε α → Prop
  | .call _ _ => False
  | _ => True

/-! ## Views -/

/-- How processes share a state: an invariant, the view that each process has
    of the state, and what holds of this view when a process stops. -/
structure Sharing (Op : Type) (Resp : Op → Type) (ε τ V σ : Type) where
  ok : (o : Op) → Resp o → Prop
  inv : σ → Prop
  view : τ → σ → V
  stop : ε → V → Prop

/-- A call of `t` keeps the invariant and the views of the other processes. -/
def Sharing.Keeps (S : Sharing Op Resp ε τ V σ) (t : τ) (s s' : σ) : Prop :=
  S.inv s' ∧ ∀ t' ≠ t, S.view t' s' = S.view t' s

/-- From the view `v` the process of `t` keeps the invariant and the other
    views at every call, and ends within `Q` or `S.stop`. -/
def within (S : Sharing Op Resp ε τ V σ) (E : Env Op Ans Resp σ) (t : τ) :
    Proc Op Ans ε α → (α → V → Prop) → V → Prop
  | .ret a, Q, v => Q a v
  | .stop e, _, v => S.stop e v
  | .call o k, Q, v => ∀ s, S.inv s → S.view t s = v → ∀ r, S.ok o r →
      S.Keeps t s (E.next o r s) ∧
        within S E t (k (E.reply o r s)) Q (S.view t (E.next o r s))

section
variable {S : Sharing Op Resp ε τ V σ} {E : Env Op Ans Resp σ} {t : τ} {v : V}

@[simp] theorem within_pure (a : α) (Q : α → V → Prop) :
    within S E t (pure a : Proc Op Ans ε α) Q v ↔ Q a v := Iff.rfl

@[simp] theorem within_stop (e : ε) (Q : α → V → Prop) :
    within S E t (.stop e) Q v ↔ S.stop e v := Iff.rfl

@[simp] theorem within_bind (p : Proc Op Ans ε α) (f : α → Proc Op Ans ε β) (Q : β → V → Prop) :
    within S E t (p >>= f) Q v ↔ within S E t p (fun a v => within S E t (f a) Q v) v := by
  rw [Proc.bind_eq]
  induction p generalizing v with
  | ret a => rfl
  | stop e => rfl
  | call o k ih => simp only [Proc.bind, within, ih]

/-- Postconditions can be weakened. -/
theorem within_mono {p : Proc Op Ans ε α} {Q Q' : α → V → Prop} (h : within S E t p Q v)
    (hQ : ∀ a v', Q a v' → Q' a v') : within S E t p Q' v := by
  induction p generalizing v with
  | ret a => exact hQ a v h
  | stop e => exact h
  | call o k ih =>
    intro s hs hv r hr
    obtain ⟨hkeeps, hk⟩ := h s hs hv r hr
    exact ⟨hkeeps, ih _ hk⟩

/-- The rule for `forEach`. -/
theorem within_forEach {ι θ : Type} {body : ι → θ → Proc Op Ans ε θ} {Q : θ → V → Prop}
    (Inv : List ι → θ → V → Prop) (hnil : ∀ x v, Inv [] x v → Q x v)
    (hbody : ∀ i is x v, Inv (i :: is) x v → within S E t (body i x) (Inv is) v) :
    ∀ is x v, Inv is x v → within S E t (forEach body is x) Q v
  | [], x, v, h => hnil x v h
  | i :: is, x, v, h => by
    rw [forEach, within_bind]
    exact within_mono (hbody i is x v h) fun x' v' h' =>
      within_forEach Inv hnil hbody is x' v' h'

end

/-! ## Soundness -/

section
variable [DecidableEq τ] {S : Sharing Op Resp ε τ V σ} {E : τ → Env Op Ans Resp σ}
  {Q : τ → α → V → Prop} {procs₀ procs : τ → Proc Op Ans ε α} {s₀ s : σ}

/-- **Soundness**: where each process is within its bounds, the invariant holds
    in every interleaving, and each process remains within its bounds. -/
theorem Interleaving.sound (hs : S.inv s₀)
    (hprocs : ∀ t, within S (E t) t (procs₀ t) (Q t) (S.view t s₀))
    (hrun : Interleaving E S.ok (procs₀, s₀) (procs, s)) :
    S.inv s ∧ ∀ t, within S (E t) t (procs t) (Q t) (S.view t s) := by
  generalize hc : (procs, s) = c at hrun
  induction hrun generalizing procs s with
  | start => cases hc; exact ⟨hs, hprocs⟩
  | @call procs' s' t o k r _ hcall hok ih =>
    cases hc
    obtain ⟨hs', hprocs'⟩ := ih rfl
    have ht := hprocs' t
    rw [hcall] at ht
    obtain ⟨⟨hinv, hviews⟩, hk⟩ := ht s' hs' rfl r hok
    refine ⟨hinv, fun t' => ?_⟩
    by_cases htt : t' = t
    · subst htt
      rwa [Function.update_self]
    · rw [Function.update_of_ne htt, hviews t' htt]
      exact hprocs' t'

/-! ## Schedules -/

/-- What is left of a process after `n` calls, and the state then. -/
def runFor (E : Env Op Ans Resp σ) :
    ℕ → Proc Op Ans ε α → σ → Oracle Resp → Proc Op Ans ε α × σ
  | n + 1, .call o k, s, ω => runFor E n (k (E.reply o (ω 0 o) s)) (E.next o (ω 0 o) s) ω.tail
  | _, p, s, _ => (p, s)

/-- A process may issue some calls in a row. -/
theorem Interleaving.alone {c₀ : (τ → Proc Op Ans ε α) × σ} {ok : (o : Op) → Resp o → Prop}
    (h : Interleaving E ok c₀ (procs, s)) (t : τ) (n : ℕ) {ω : Oracle Resp}
    (hω : ∀ n o, ok o (ω n o)) :
    Interleaving E ok c₀ (Function.update procs t (runFor (E t) n (procs t) s ω).1,
      (runFor (E t) n (procs t) s ω).2) := by
  induction n generalizing procs s ω with
  | zero => simpa [runFor] using h
  | succ n ih =>
    cases hp : procs t with
    | ret a => simpa [runFor, ← hp] using h
    | stop e => simpa [runFor, ← hp] using h
    | call o k =>
      have hnext := ih (.call t (ω 0 o) h hp (hω 0 o)) fun n => hω (n + 1)
      rwa [Function.update_self, Function.update_idem] at hnext

end

end Process
