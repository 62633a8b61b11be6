/-
  Weakest preconditions of processes, with an invariant at every call.

  A judgement fixes the responses that the environment may give (`ok`), an
  invariant of the states between any two calls (`inv`), and what holds when
  the process stops (`stop`).  `wp J p Q s` says: from `s`, whatever is
  responded within `ok`, the invariant holds after every call of `p`, and `Q`
  (or `stop`) holds where `p` ends.

  * `wp_bind`, `wp_mono`, `wp_command`, `wp_forEach`: the rules a proof follows
    through a program;
  * `wp_exec`, `wp_cut`: what `wp` says about the runs of `p`, whole or cut.
-/
import MetaHipos.Process.Basic

namespace Process

variable {Op : Type} {Ans Resp : Op → Type} {ε α β σ : Type}

/-- What a process relies on and what it has to keep. -/
structure Judge (Op : Type) (Resp : Op → Type) (ε σ : Type) where
  /-- the responses the environment may give -/
  ok : (o : Op) → Resp o → Prop
  /-- holds in the state after every call -/
  inv : σ → Prop
  /-- holds when the process stops -/
  stop : ε → σ → Prop

section
variable (E : Env Op Ans Resp σ) (J : Judge Op Resp ε σ)

/-- The weakest precondition of a process for the postcondition `Q`. -/
def wp : Proc Op Ans ε α → (α → σ → Prop) → σ → Prop
  | .ret a, Q, s => Q a s
  | .stop e, _, s => J.stop e s
  | .call o k, Q, s => ∀ r, J.ok o r →
      J.inv (E.next o r s) ∧ wp (k (E.reply o r s)) Q (E.next o r s)

end

variable {E : Env Op Ans Resp σ} {J : Judge Op Resp ε σ}

@[simp] theorem wp_ret (a : α) (Q : α → σ → Prop) (s : σ) : wp E J (.ret a) Q s ↔ Q a s := Iff.rfl

@[simp] theorem wp_pure (a : α) (Q : α → σ → Prop) (s : σ) :
    wp E J (pure a : Proc Op Ans ε α) Q s ↔ Q a s := Iff.rfl

@[simp] theorem wp_stop (e : ε) (Q : α → σ → Prop) (s : σ) :
    wp E J (.stop e) Q s ↔ J.stop e s := Iff.rfl


@[simp] theorem wp_bind (p : Proc Op Ans ε α) (f : α → Proc Op Ans ε β) (Q : β → σ → Prop) (s : σ) :
    wp E J (p >>= f) Q s ↔ wp E J p (fun a s => wp E J (f a) Q s) s := by
  rw [Proc.bind_eq]
  induction p generalizing s with
  | ret a => rfl
  | stop e => rfl
  | call o k ih => simp only [Proc.bind, wp, ih]

theorem wp_ite (c : Prop) [Decidable c] (p q : Proc Op Ans ε α) (Q : α → σ → Prop) (s : σ) :
    wp E J (if c then p else q) Q s ↔ (c → wp E J p Q s) ∧ (¬ c → wp E J q Q s) := by
  split_ifs with h <;> simp [h]

/-- Postconditions can be weakened. -/
theorem wp_mono {p : Proc Op Ans ε α} {Q Q' : α → σ → Prop} {s : σ} (h : wp E J p Q s)
    (hQ : ∀ a s', Q a s' → Q' a s') : wp E J p Q' s := by
  induction p generalizing s with
  | ret a => exact hQ a s h
  | stop e => exact h
  | call o k ih => exact fun r hr => ⟨(h r hr).1, ih _ (h r hr).2⟩

/-- Where nothing is asked for, everything holds. -/
theorem wp_true {p : Proc Op Ans ε α} {Q : α → σ → Prop} {s : σ} (hinv : ∀ s, J.inv s)
    (hstop : ∀ e s, J.stop e s) (hQ : ∀ a s, Q a s) : wp E J p Q s := by
  induction p generalizing s with
  | ret a => exact hQ a s
  | stop e => exact hstop e s
  | call o k ih => exact fun r _ => ⟨hinv _, ih _⟩

/-- Fewer responses, a weaker invariant, a weaker stop condition. -/
theorem wp_judge {J' : Judge Op Resp ε σ} {p : Proc Op Ans ε α} {Q : α → σ → Prop} {s : σ}
    (h : wp E J p Q s) (hok : ∀ o r, J'.ok o r → J.ok o r) (hinv : ∀ s, J.inv s → J'.inv s)
    (hstop : ∀ e s, J.stop e s → J'.stop e s) : wp E J' p Q s := by
  induction p generalizing s with
  | ret a => exact h
  | stop e => exact hstop e s h
  | call o k ih =>
    exact fun r hr => ⟨hinv _ (h r (hok o r hr)).1, ih _ (h r (hok o r hr)).2⟩

/-- What is known where a run ends. -/
def Judge.ends (J : Judge Op Resp ε σ) (Q : α → σ → Prop) (s : σ) : End ε α → Prop
  | .done a => Q a s
  | .stopped e => J.stop e s

/-- **Soundness for whole runs.** -/
theorem wp_exec {p : Proc Op Ans ε α} {Q : α → σ → Prop} {s : σ} (h : wp E J p Q s)
    {ω : Oracle Resp} (hω : ∀ n o, J.ok o (ω n o)) :
    J.ends Q (exec E p s ω).2.1 (exec E p s ω).1 := by
  induction p generalizing s ω with
  | ret a => exact h
  | stop e => exact h
  | call o k ih => exact ih _ (h _ (hω 0 o)).2 fun n => hω (n + 1)

/-- **Soundness for cut runs**: wherever a run is cut, the invariant holds. -/
theorem wp_cut {p : Proc Op Ans ε α} {Q : α → σ → Prop} {s : σ} (h : wp E J p Q s) (hs : J.inv s)
    {ω : Oracle Resp} (hω : ∀ n o, J.ok o (ω n o)) (n : ℕ) : J.inv (cut E n p s ω) := by
  induction p generalizing s ω n with
  | ret a => cases n <;> exact hs
  | stop e => cases n <;> exact hs
  | call o k ih =>
    cases n with
    | zero => exact hs
    | succ n =>
      obtain ⟨hi, hk⟩ := h _ (hω 0 o)
      exact ih _ hk hi (fun n => hω (n + 1)) n

/-- A run that returns does so with the postcondition. -/
theorem wp_done {p : Proc Op Ans ε α} {Q : α → σ → Prop} {s s' : σ} {ω ω' : Oracle Resp} {a : α}
    (h : wp E J p Q s) (hω : ∀ n o, J.ok o (ω n o)) (he : exec E p s ω = (.done a, s', ω')) :
    Q a s' := by
  have := wp_exec h hω
  rwa [he] at this

/-- Two postconditions, shown with their own responses. -/
theorem wp_and {J J' : Judge Op Resp ε σ} {p : Proc Op Ans ε α} {Q Q' : α → σ → Prop} {s : σ}
    (h : wp E J p Q s) (h' : wp E J' p Q' s) (hok : ∀ o r, J.ok o r → J'.ok o r) :
    wp E J p (fun a s => Q a s ∧ Q' a s) s := by
  induction p generalizing s with
  | ret a => exact ⟨h, h'⟩
  | stop e => exact h
  | call o k ih => exact fun r hr => ⟨(h r hr).1, ih _ (h r hr).2 (h' r (hok o r hr)).2⟩

/-! ## Calls -/

/-- Every call of the process is in `P`, whatever is answered, and it does not
    stop. -/
def Proc.Calls (P : Op → Prop) : Proc Op Ans ε α → Prop
  | .ret _ => True
  | .stop _ => False
  | .call o k => P o ∧ ∀ x, (k x).Calls P

section
variable {P P' : Op → Prop}

theorem Proc.Calls.bind {p : Proc Op Ans ε α} {f : α → Proc Op Ans ε β} (hp : p.Calls P)
    (hf : ∀ a, (f a).Calls P) : (p >>= f).Calls P := by
  rw [Proc.bind_eq]
  induction p with
  | ret a => exact hf a
  | stop e => exact hp
  | call o k ih => exact ⟨hp.1, fun x => ih x (hp.2 x)⟩

theorem Proc.Calls.ask {o : Op} (h : P o) : (Proc.ask o : Proc Op Ans ε (Ans o)).Calls P :=
  ⟨h, fun _ => trivial⟩

theorem Proc.Calls.ite {c : Prop} [Decidable c] {p q : Proc Op Ans ε α} (hp : p.Calls P)
    (hq : q.Calls P) : (if c then p else q).Calls P := by
  split_ifs
  exacts [hp, hq]

theorem Proc.Calls.mono {p : Proc Op Ans ε α} (h : p.Calls P) (hP : ∀ o, P o → P' o) :
    p.Calls P' := by
  induction p with
  | ret a => trivial
  | stop e => exact h
  | call o k ih => exact ⟨hP o h.1, fun x => ih x (h.2 x)⟩

/-- What every call keeps, whatever is responded, holds throughout. -/
theorem wp_calls (J : Judge Op Resp ε σ) {p : Proc Op Ans ε α} {I : σ → Prop} {s : σ}
    (h : p.Calls P) (hstep : ∀ o r s, P o → I s → I (E.next o r s)) (hs : I s) :
    wp E ⟨J.ok, I, J.stop⟩ p (fun _ => I) s := by
  induction p generalizing s with
  | ret a => exact hs
  | stop e => exact h.elim
  | call o k ih => exact fun r _ => ⟨hstep o r s h.1 hs, ih _ (h.2 _) (hstep o r s h.1 hs)⟩

end

/-- The rule for a command: it succeeds or fails, and the response tells which. -/
theorem wp_command {o : Op} {k : Ans o → Proc Op Ans ε α} {Q : α → σ → Prop} {s : σ}
    (c : Resp o → Bool) {a a' : Resp o → Ans o} {t t' : Resp o → σ}
    (hreply : ∀ r, E.reply o r s = if c r then a r else a' r)
    (hnext : ∀ r, E.next o r s = if c r then t r else t' r) (hinv : ∀ s, J.inv s)
    (hok : ∀ r, J.ok o r → c r = true → wp E J (k (a r)) Q (t r))
    (hfail : ∀ r, J.ok o r → c r = false → wp E J (k (a' r)) Q (t' r)) :
    wp E J (.call o k) Q s := by
  intro r hr
  refine ⟨hinv _, ?_⟩
  rw [hreply, hnext]
  cases hc : c r with
  | true => exact hok r hr hc
  | false => exact hfail r hr hc

/-! ## Loops -/

variable {ι τ : Type}

/-- Run `body` on the elements of a list, in order, threading a state. -/
def forEach (body : ι → τ → Proc Op Ans ε τ) : List ι → τ → Proc Op Ans ε τ
  | [], t => .ret t
  | i :: is, t => do
    let t ← body i t
    forEach body is t

theorem forEach_congr {body body' : ι → τ → Proc Op Ans ε τ} {is : List ι}
    (h : ∀ i ∈ is, ∀ t, body i t = body' i t) (t : τ) : forEach body is t = forEach body' is t := by
  induction is generalizing t with
  | nil => rfl
  | cons i is ih =>
    rw [forEach, forEach, h i (List.mem_cons_self ..)]
    congr 1
    funext t'
    exact ih (fun j hj => h j (List.mem_cons_of_mem i hj)) t'

/-- The rule for `forEach`. -/
theorem wp_forEach {body : ι → τ → Proc Op Ans ε τ} {Q : τ → σ → Prop}
    (Inv : List ι → τ → σ → Prop) (hnil : ∀ t s, Inv [] t s → Q t s)
    (hbody : ∀ i is t s, Inv (i :: is) t s → wp E J (body i t) (Inv is) s) :
    ∀ is t s, Inv is t s → wp E J (forEach body is t) Q s
  | [], t, s, h => hnil t s h
  | i :: is, t, s, h => by
    rw [forEach, wp_bind]
    exact wp_mono (hbody i is t s h) fun t' s' h' => wp_forEach Inv hnil hbody is t' s' h'

end Process
