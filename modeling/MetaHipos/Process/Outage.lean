/-
  Boots that are cut by power losses, between calls or within one.

  The calls that are not cut are answered within `ok`; the one that is cut may
  have any response in `torn`, and what it did is there.  Then the power is
  lost: `loss` relates the state to what the next boot may find.

  * `Outages`: the states in which a boot may start;
  * `wpCut`: the weakest precondition, with the invariant wherever it is cut;
  * `Proc.Only`, `wpCut_only`: what all calls of a process keep;
  * `wpCut_of_wp`: what the calls do when they are answered, and what they keep
    when they are cut, can be shown apart;
  * `Outages.invariant`: the invariant rule.
-/
import MetaHipos.Process.Wp

namespace Process

variable {Op : Type} {Ans Resp : Op → Type} {ε α β σ : Type}

/-- The states in which the boot may start, after any number of boots that were
    cut. -/
inductive Outages (E : Env Op Ans Resp σ) (ok torn : (o : Op) → Resp o → Prop)
    (loss : σ → σ → Prop) (boot : Proc Op Ans ε α) (s₀ : σ) : σ → Prop
  | first : Outages E ok torn loss boot s₀ s₀
  | cut {s s' : σ} {ω : Oracle Resp} (n : ℕ) : Outages E ok torn loss boot s₀ s →
      (∀ m, m + 1 < n → ∀ o, ok o (ω m o)) → (∀ m o, torn o (ω m o)) →
      loss (cut E n boot s ω) s' → Outages E ok torn loss boot s₀ s'

/-- Like `wp`, but the invariant also holds where a call is cut. -/
def wpCut (E : Env Op Ans Resp σ) (J : Judge Op Resp ε σ) (torn : (o : Op) → Resp o → Prop) :
    Proc Op Ans ε α → (α → σ → Prop) → σ → Prop
  | .ret a, Q, s => Q a s
  | .stop e, _, s => J.stop e s
  | .call o k, Q, s => (∀ r, torn o r → J.inv (E.next o r s)) ∧
      ∀ r, J.ok o r → wpCut E J torn (k (E.reply o r s)) Q (E.next o r s)

variable {E : Env Op Ans Resp σ} {J J' : Judge Op Resp ε σ} {torn : (o : Op) → Resp o → Prop}

@[simp] theorem wpCut_pure (a : α) (Q : α → σ → Prop) (s : σ) :
    wpCut E J torn (pure a : Proc Op Ans ε α) Q s ↔ Q a s := Iff.rfl

@[simp] theorem wpCut_bind (p : Proc Op Ans ε α) (f : α → Proc Op Ans ε β) (Q : β → σ → Prop)
    (s : σ) : wpCut E J torn (p >>= f) Q s ↔
      wpCut E J torn p (fun a s => wpCut E J torn (f a) Q s) s := by
  rw [Proc.bind_eq]
  induction p generalizing s with
  | ret a => rfl
  | stop e => rfl
  | call o k ih => simp only [Proc.bind, wpCut, ih]

/-- Postconditions can be weakened. -/
theorem wpCut_mono {p : Proc Op Ans ε α} {Q Q' : α → σ → Prop} {s : σ}
    (h : wpCut E J torn p Q s) (hQ : ∀ a s', Q a s' → Q' a s') : wpCut E J torn p Q' s := by
  induction p generalizing s with
  | ret a => exact hQ a s h
  | stop e => exact h
  | call o k ih => exact ⟨h.1, fun r hr => ih _ (h.2 r hr)⟩

/-- `J` is about the calls that are answered, `J'` about what they keep when
    they are cut. -/
theorem wpCut_of_wp {p : Proc Op Ans ε α} {Q Q' : α → σ → Prop} {I : σ → Prop} {s : σ}
    (h : wp E J p Q s) (hcut : wp E J' p Q' s) (htorn : ∀ o r, torn o r → J'.ok o r)
    (hok : ∀ o r, J.ok o r → torn o r) (hinv : ∀ s, J'.inv s → I s) :
    wpCut E ⟨J.ok, I, J.stop⟩ torn p Q s := by
  induction p generalizing s with
  | ret a => exact h
  | stop e => exact h
  | call o k ih =>
    refine ⟨fun r hr => hinv _ (hcut r (htorn o r hr)).1, fun r hr => ?_⟩
    exact ih _ (h r hr).2 (hcut r (htorn o r (hok o r hr))).2

/-- Where no call is cut, the postcondition holds. -/
theorem wp_of_wpCut {p : Proc Op Ans ε α} {Q : α → σ → Prop} {s : σ} (h : wpCut E J torn p Q s) :
    wp E ⟨J.ok, fun _ => True, J.stop⟩ p Q s := by
  induction p generalizing s with
  | ret a => exact h
  | stop e => exact h
  | call o k ih => exact fun r hr => ⟨trivial, ih _ (h.2 r hr)⟩

/-- **Soundness**: wherever a run is cut, the invariant holds. -/
theorem wpCut_cut {p : Proc Op Ans ε α} {Q : α → σ → Prop} {s : σ} {n : ℕ} {ω : Oracle Resp}
    (h : wpCut E J torn p Q s) (hs : J.inv s) (hok : ∀ m, m + 1 < n → ∀ o, J.ok o (ω m o))
    (htorn : ∀ m o, torn o (ω m o)) : J.inv (cut E n p s ω) := by
  induction p generalizing s ω n with
  | ret a => cases n <;> exact hs
  | stop e => cases n <;> exact hs
  | call o k ih =>
    cases n with
    | zero => exact hs
    | succ n =>
      have hnext := h.1 (ω 0 o) (htorn 0 o)
      cases n with
      | zero =>
        rw [cut]
        generalize k _ = q
        cases q <;> exact hnext
      | succ n =>
        refine ih _ (h.2 _ (hok 0 (by omega) o)) hnext (fun m hm => hok (m + 1) (by omega))
          fun m => htorn (m + 1)

/-! ## Calls -/

/-- Every call of the process is in `P`, whatever is answered; it may stop. -/
def Proc.Only (P : Op → Prop) : Proc Op Ans ε α → Prop
  | .ret _ => True
  | .stop _ => True
  | .call o k => P o ∧ ∀ x, (k x).Only P

theorem Proc.Only.bind {P : Op → Prop} {p : Proc Op Ans ε α} {f : α → Proc Op Ans ε β}
    (hp : p.Only P) (hf : ∀ a, (f a).Only P) : (p >>= f).Only P := by
  rw [Proc.bind_eq]
  induction p with
  | ret a => exact hf a
  | stop e => trivial
  | call o k ih => exact ⟨hp.1, fun x => ih x (hp.2 x)⟩

theorem Proc.Only.ask {P : Op → Prop} {o : Op} (h : P o) :
    (Proc.ask o : Proc Op Ans ε (Ans o)).Only P := ⟨h, fun _ => trivial⟩

theorem Proc.Only.mono {P P' : Op → Prop} {p : Proc Op Ans ε α} (h : p.Only P)
    (hP : ∀ o, P o → P' o) : p.Only P' := by
  induction p with
  | ret a => trivial
  | stop e => trivial
  | call o k ih => exact ⟨hP o h.1, fun x => ih x (h.2 x)⟩

theorem Proc.Calls.only {P : Op → Prop} {p : Proc Op Ans ε α} (h : p.Calls P) : p.Only P := by
  induction p with
  | ret a => trivial
  | stop e => trivial
  | call o k ih => exact ⟨h.1, fun x => ih x (h.2 x)⟩

/-- What these calls keep, whatever is responded, holds wherever they are cut. -/
theorem wpCut_only {P : Op → Prop} {p : Proc Op Ans ε α} {I : σ → Prop} {s : σ} (h : p.Only P)
    (hstep : ∀ o r s, P o → I s → I (E.next o r s)) (hinv : ∀ s, I s → J.inv s)
    (hstop : ∀ e s, I s → J.stop e s) (hs : I s) : wpCut E J torn p (fun _ => I) s := by
  induction p generalizing s with
  | ret a => exact hs
  | stop e => exact hstop e s hs
  | call o k ih =>
    exact ⟨fun r _ => hinv _ (hstep o r s h.1 hs), fun r _ => ih _ (h.2 _) (hstep o r s h.1 hs)⟩

/-- **The invariant rule.** -/
theorem Outages.invariant {ok : (o : Op) → Resp o → Prop} {loss : σ → σ → Prop}
    {stop : ε → σ → Prop} {boot : Proc Op Ans ε α} {Q : α → σ → Prop} {s₀ s : σ}
    (h : Outages E ok torn loss boot s₀ s) (I : σ → Prop) (h₀ : I s₀)
    (hloss : ∀ s s', I s → loss s s' → I s')
    (hboot : ∀ s, I s → wpCut E ⟨ok, fun t => ∀ s', loss t s' → I s', stop⟩ torn boot Q s) :
    I s := by
  induction h with
  | first => exact h₀
  | cut n _ hok htorn hlost ih =>
    exact wpCut_cut (hboot _ ih) (hloss _ · ih) hok htorn _ hlost

end Process
