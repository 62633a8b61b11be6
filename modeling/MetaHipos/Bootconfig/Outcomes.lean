/-
  The outcomes of the calls of a run, given in advance.

  A run asks for a response at each of its calls.  Here the responses are given
  by function, and by block where the function is about one: the outcome of the
  first, second, … call.  A page is allocated for the block that was erased
  last, if any.

  * `exists_outcomes`: each run gets its responses from some outcomes;
  * `exists_run`: all outcomes occur;
  * `wp_answered`: what may be assumed about the responses so far.
-/
import MetaHipos.Bootconfig.Reading

namespace MetaHipos

open LittleEndian Process

/-! ## Calls -/

/-- A function, and the block it is called for. -/
inductive Call where
  | openDev
  | libmtdOpen
  | mtdGetDevInfo
  | malloc (erased : Option ℕ)
  | time
  | mtdIsBad (eb : ℕ)
  | mtdRead (eb : ℕ)
  | mtdErase (eb : ℕ)
  | mtdWrite (eb : ℕ)
deriving DecidableEq, Repr

/-- What the environment decides about a call. -/
@[reducible] def Call.Resp : Call → Type
  | .openDev => ℤ
  | .libmtdOpen => Bool
  | .mtdGetDevInfo => ℤ × MtdDevInfo
  | .malloc _ => Bool
  | .time => BitVec 32
  | .mtdIsBad _ => ℤ
  | .mtdRead _ => ℤ
  | .mtdErase _ => Outcome
  | .mtdWrite _ => Outcome

/-- The call, where `erased` was erased last. -/
def Op.toCall (erased : Option ℕ) : Op → Call
  | .openDev _ => .openDev
  | .libmtdOpen => .libmtdOpen
  | .mtdGetDevInfo _ => .mtdGetDevInfo
  | .malloc _ => .malloc erased
  | .time => .time
  | .mtdIsBad i => .mtdIsBad i
  | .mtdRead i => .mtdRead i
  | .mtdErase i => .mtdErase i
  | .mtdWrite i _ => .mtdWrite i

theorem Op.resp_toCall (erased : Option ℕ) (o : Op) : (o.toCall erased).Resp = MetaHipos.Resp o := by
  cases o <;> rfl

/-- The calls made so far, the latest first. -/
def made : List Event → List Call
  | [] => []
  | ⟨o, _⟩ :: log => o.toCall (erases log).head? :: made log

/-- How often a call was made. -/
def times (c : Call) (log : List Event) : ℕ := (made log).count c

theorem times_cons (c : Call) (o : Op) (r : Resp o) (log : List Event) :
    times c (⟨o, r⟩ :: log) = times c log + if o.toCall (erases log).head? = c then 1 else 0 := by
  rw [times, made, List.count_cons, times]
  simp only [beq_iff_eq]

theorem times_self {c : Call} {o : Op} {r : Resp o} {log : List Event}
    (h : o.toCall (erases log).head? = c) : times c (⟨o, r⟩ :: log) = times c log + 1 := by
  rw [times_cons, if_pos h]

theorem times_other {c : Call} {o : Op} {r : Resp o} {log : List Event}
    (h : o.toCall (erases log).head? ≠ c) : times c (⟨o, r⟩ :: log) = times c log := by
  rw [times_cons, if_neg h, Nat.add_zero]

/-! ## Outcomes -/

/-- The outcome of the first, second, … time that a call is made. -/
abbrev Outcomes := (c : Call) → ℕ → c.Resp

/-- The response to the next call. -/
def Outcomes.answer (D : Outcomes) (log : List Event) : Response Resp
  | .openDev _ => D .openDev (times .openDev log)
  | .libmtdOpen => D .libmtdOpen (times .libmtdOpen log)
  | .mtdGetDevInfo _ => D .mtdGetDevInfo (times .mtdGetDevInfo log)
  | .malloc _ => D (.malloc (erases log).head?) (times (.malloc (erases log).head?) log)
  | .time => D .time (times .time log)
  | .mtdIsBad i => D (.mtdIsBad i) (times (.mtdIsBad i) log)
  | .mtdRead i => D (.mtdRead i) (times (.mtdRead i) log)
  | .mtdErase i => D (.mtdErase i) (times (.mtdErase i) log)
  | .mtdWrite i _ => D (.mtdWrite i) (times (.mtdWrite i) log)

/-- All responses so far were these outcomes. -/
def Answered (D : Outcomes) : List Event → Prop
  | [] => True
  | ⟨o, r⟩ :: log => r = D.answer log o ∧ Answered D log

section
variable {D D' : Outcomes} {log : List Event} {o : Op} {w : World} {i k : ℕ}

theorem answer_eq (D : Outcomes) (log : List Event) (o : Op) : D.answer log o =
    cast (o.resp_toCall (erases log).head?)
      (D (o.toCall (erases log).head?) (times (o.toCall (erases log).head?) log)) := by
  cases o <;> rfl

theorem Answered.head {r : Resp o} (h : Answered D (⟨o, r⟩ :: log)) : r = D.answer log o := h.1

theorem Answered.tail {r : Resp o} (h : Answered D (⟨o, r⟩ :: log)) : Answered D log := h.2

theorem answered_of_exec {α : Type} {p : Mtd α} {ω : Oracle Resp}
    (h : Answered D (exec mtd p w ω).2.1.log) : Answered D w.log := by
  induction p generalizing w ω with
  | ret a => exact h
  | stop e => exact h
  | call o k ih => exact (ih _ h).tail

/-! ### A response, by the calls before it -/

theorem Answered.isBad {r : ℤ} (h : Answered D (⟨.mtdIsBad i, r⟩ :: log))
    (ht : times (.mtdIsBad i) log = k) : r = D (.mtdIsBad i) k := by
  subst ht
  exact h.head

theorem Answered.read {r : ℤ} (h : Answered D (⟨.mtdRead i, r⟩ :: log))
    (ht : times (.mtdRead i) log = k) : r = D (.mtdRead i) k := by
  subst ht
  exact h.head

theorem Answered.erase {r : Outcome} (h : Answered D (⟨.mtdErase i, r⟩ :: log))
    (ht : times (.mtdErase i) log = k) : r = D (.mtdErase i) k := by
  subst ht
  exact h.head

theorem Answered.write {page : List Byte} {r : Outcome}
    (h : Answered D (⟨.mtdWrite i page, r⟩ :: log)) (ht : times (.mtdWrite i) log = k) :
    r = D (.mtdWrite i) k := by
  subst ht
  exact h.head

theorem Answered.malloc {n : ℕ} {m : Bool} {eb : Option ℕ}
    (h : Answered D (⟨.malloc n, m⟩ :: log)) (he : (erases log).head? = eb)
    (ht : times (.malloc eb) log = k) : m = D (.malloc eb) k := by
  subst he ht
  exact h.head

/-! ### Runs and outcomes -/

/-- Only the outcomes of the calls made matter. -/
theorem Answered.congr (h : Answered D log) (hD : ∀ c n, n < times c log → D' c n = D c n) :
    Answered D' log := by
  induction log with
  | nil => trivial
  | cons e log ih =>
    obtain ⟨o, r⟩ := e
    refine ⟨?_, ih h.tail fun c n hn => hD c n (hn.trans_le ?_)⟩
    · rw [h.head, answer_eq, answer_eq, hD _ _ (by rw [times_self rfl]; exact Nat.lt_succ_self _)]
    · rw [times_cons]
      exact Nat.le_add_right ..

instance (c : Call) : Inhabited c.Resp :=
  match c with
  | .openDev => ⟨(0 : ℤ)⟩
  | .libmtdOpen => ⟨true⟩
  | .mtdGetDevInfo => ⟨((0 : ℤ), ⟨0, 0⟩)⟩
  | .malloc _ => ⟨true⟩
  | .time => ⟨(0 : BitVec 32)⟩
  | .mtdIsBad _ => ⟨(0 : ℤ)⟩
  | .mtdRead _ => ⟨(0 : ℤ)⟩
  | .mtdErase _ => ⟨(⟨0, .kept⟩ : Outcome)⟩
  | .mtdWrite _ => ⟨(⟨0, .kept⟩ : Outcome)⟩

/-- **Each run gets its responses from some outcomes.** -/
theorem exists_outcomes (log : List Event) : ∃ D, Answered D log := by
  induction log with
  | nil => exact ⟨fun _ _ => default, trivial⟩
  | cons e log ih =>
    obtain ⟨o, r⟩ := e
    obtain ⟨D, hD⟩ := ih
    -- the outcome of the last call is put where the call is answered from
    let c := o.toCall (erases log).head?
    let D' : Outcomes :=
      Function.update D c (Function.update (D c) (times c log) (cast (o.resp_toCall _).symm r))
    refine ⟨D', ?_, hD.congr fun c' n hn => ?_⟩
    · rw [answer_eq]
      simp [D', c]
    · by_cases hc : c' = c
      · subst hc
        simp [D', Function.update_of_ne (Nat.ne_of_lt hn)]
      · simp [D', Function.update_of_ne hc]

/-- **All outcomes occur.** -/
theorem exists_run {α : Type} (D : Outcomes) (p : Mtd α) (w : World) (h : Answered D w.log) :
    ∃ ω, Answered D (exec mtd p w ω).2.1.log := by
  induction p generalizing w with
  | ret a => exact ⟨fun _ => D.answer [], h⟩
  | stop e => exact ⟨fun _ => D.answer [], h⟩
  | call o k ih =>
    obtain ⟨ω, hω⟩ := ih (mtd.reply o (D.answer w.log o) w) (w.after o (D.answer w.log o)) ⟨rfl, h⟩
    exact ⟨fun n => Nat.casesOn (motive := fun _ => Response Resp) n (D.answer w.log) ω, hω⟩

/-- Where the responses depend on the call only, they are outcomes that do. -/
theorem answered_exec {α : Type} {ω : Oracle Resp} (hω : ∀ n log o, ω n o = D.answer log o)
    (p : Mtd α) (w : World) (h : Answered D w.log) : Answered D (exec mtd p w ω).2.1.log := by
  induction p generalizing w ω with
  | ret a => exact h
  | stop e => exact h
  | call o k ih => exact ih _ (fun n => hω (n + 1)) _ ⟨hω 0 w.log o, h⟩

end

/-! ## Assuming the responses so far -/

/-- **Where only runs with the outcomes `D` matter**, the responses so far may be
    assumed to be these outcomes. -/
theorem wp_answered {α : Type} {D : Outcomes} {J : Judge Op Resp Stop World}
    {Q : α → World → Prop} {p : Mtd α} {w : World} (hinv : ∀ w, ¬ Answered D w.log → J.inv w)
    (hstop : ∀ e w, ¬ Answered D w.log → J.stop e w) (hQ : ∀ a w, ¬ Answered D w.log → Q a w)
    (h : Answered D w.log → wp mtd J p Q w) : wp mtd J p Q w := by
  by_cases hw : Answered D w.log
  · exact h hw
  clear h
  induction p generalizing w with
  | ret a => exact hQ a w hw
  | stop e => exact hstop e w hw
  | call o k ih =>
    intro r _
    have hw' : ¬ Answered D (w.after o r).log := fun ha => hw ha.tail
    exact ⟨hinv _ hw', ih _ hw'⟩

end MetaHipos
