/-
  Processes as trees of calls to their environment.

  A process returns a value, stops for good (it exits or faults), or issues a
  call `o` and goes on with the answer to it.  What happens outside of the
  process is an environment: from its state and from its response to a call
  (did the call fail? how?) it computes the answer and its next state.

  The responses of the environment are given by an oracle, one for each call:
  `exec` runs a process to its end, `cut n` is the state after its first `n`
  calls, where the power may be switched off.
-/
import Mathlib.Tactic.Common

namespace Process

/-- A process whose calls `o : Op` are answered in `Ans o`. -/
inductive Proc (Op : Type) (Ans : Op → Type) (ε α : Type) where
  /-- return to the caller -/
  | ret (a : α)
  /-- end the whole process -/
  | stop (e : ε)
  /-- issue a call and go on with its answer -/
  | call (o : Op) (k : Ans o → Proc Op Ans ε α)

variable {Op : Type} {Ans Resp : Op → Type} {ε α β σ : Type}

namespace Proc

def bind : Proc Op Ans ε α → (α → Proc Op Ans ε β) → Proc Op Ans ε β
  | .ret a, f => f a
  | .stop e, _ => .stop e
  | .call o k, f => .call o fun x => (k x).bind f

instance : Monad (Proc Op Ans ε) where
  pure := .ret
  bind := .bind

/-- The process that issues the call `o` and returns its answer. -/
def ask (o : Op) : Proc Op Ans ε (Ans o) := .call o .ret

theorem bind_eq (p : Proc Op Ans ε α) (f : α → Proc Op Ans ε β) : p >>= f = p.bind f := rfl

end Proc

/-! ## Runs -/

/-- An environment with states `σ`: the answer to a call and the state after
    it, for each response `Resp o` it may give. -/
structure Env (Op : Type) (Ans Resp : Op → Type) (σ : Type) where
  reply : (o : Op) → Resp o → σ → Ans o
  next : (o : Op) → Resp o → σ → σ

/-- What the environment responds, to whatever is called next. -/
abbrev Response (Resp : Op → Type) : Type := (o : Op) → Resp o

/-- The responses to the first, second, … call. -/
abbrev Oracle (Resp : Op → Type) : Type := ℕ → Response Resp

/-- The oracle after one call. -/
def Oracle.tail (ω : Oracle Resp) : Oracle Resp := fun n => ω (n + 1)

/-- How a run ends. -/
inductive End (ε α : Type) where
  | done (a : α)
  | stopped (e : ε)
deriving DecidableEq

/-- The run of a process from the state `s`: how it ends, the state it leaves
    behind, and the responses it did not use.  There are no infinite runs. -/
def exec (E : Env Op Ans Resp σ) :
    Proc Op Ans ε α → σ → Oracle Resp → End ε α × σ × Oracle Resp
  | .ret a, s, ω => (.done a, s, ω)
  | .stop e, s, ω => (.stopped e, s, ω)
  | .call o k, s, ω => exec E (k (E.reply o (ω 0 o) s)) (E.next o (ω 0 o) s) ω.tail

/-- The state a process leaves behind when it is cut after `n` calls (or
    ends before). -/
def cut (E : Env Op Ans Resp σ) : ℕ → Proc Op Ans ε α → σ → Oracle Resp → σ
  | n + 1, .call o k, s, ω => cut E n (k (E.reply o (ω 0 o) s)) (E.next o (ω 0 o) s) ω.tail
  | _, _, s, _ => s

variable {E : Env Op Ans Resp σ}

/-- A run of `p` followed by `f` is a run of `p` and, if `p` returns, a run of
    `f` on the responses left. -/
theorem exec_bind (p : Proc Op Ans ε α) (f : α → Proc Op Ans ε β) (s : σ) (ω : Oracle Resp) :
    exec E (p >>= f) s ω = match exec E p s ω with
      | (.done a, s', ω') => exec E (f a) s' ω'
      | (.stopped e, s', ω') => (.stopped e, s', ω') := by
  rw [Proc.bind_eq]
  induction p generalizing s ω with
  | ret a => rfl
  | stop e => rfl
  | call o k ih => simp only [Proc.bind, exec, ih]

theorem exec_bind_done {p : Proc Op Ans ε α} {s s' : σ} {ω ω' : Oracle Resp} {a : α}
    (h : exec E p s ω = (.done a, s', ω')) (f : α → Proc Op Ans ε β) :
    exec E (p >>= f) s ω = exec E (f a) s' ω' := by
  rw [exec_bind, h]

end Process
