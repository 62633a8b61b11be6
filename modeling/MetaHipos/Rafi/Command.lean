/-
  Commands to the touch controller, and their answers.

  `send_command` sends a frame and waits until `work_fn` has handed over a
  report; the caller then reads it under `report_lock`.  Callers and the work
  queue take their steps in any order.

  * `answers`: what a command reads is the last report that was handed over, and
    it was handed over after the command was sent, unless `report_delivered` was
    still set then; a command that succeeds has read its answer;
  * `wrong_version_deadlock`: `send_command_sw_version` returns with the lock
    taken if it reads another report.  This is the end of all answers.
-/
import Mathlib.Logic.Function.Basic
import MetaHipos.Process.Trace
import MetaHipos.Rafi.Frame

namespace MetaHipos.Rafi

open Process LittleEndian

/-- The commands that wait for a report. -/
inductive Command where
  | selectTouchConfiguration
  | swVersion
deriving DecidableEq, Repr

/-- Where a caller is: not in a command, in `wait_event_timeout`, or after it. -/
inductive Pc where
  | idle
  | waiting (cmd : Command)
  | woken (cmd : Command)
deriving DecidableEq, Repr

/-- The fields of `struct rafi_gs_device` the callers `ι` and the work queue
    share.  There is no report after `memset`. -/
structure Commands (ι : Type) where
  reportLock : Bool
  reportDelivered : Bool
  report : Option Payload
  pc : ι → Pc

/-- The steps: a caller has sent a command, its wait ends with or without
    `report_delivered`, it reads the report and returns; `work_fn` calls
    `handle_report`. -/
inductive CommandOp (ι : Type) where
  | send (i : ι) (cmd : Command)
  | wake (i : ι)
  | timeout (i : ι)
  | finish (i : ι)
  | handleReport (p : Payload)

/-- What a command returns for a report. -/
def Command.result : Command → Option Payload → Except Errno (Option SwVersion)
  | selectTouchConfiguration, some (.status d) =>
    if d.lastCmdId ≠ COMMAND_SELECT_TOUCH_CONFIGURATION.toNat then .error .EINVAL
    else if d.code = .error then .error Errno.EIO
    else .ok none
  | swVersion, some (.swVersion v) => .ok (some v)
  | _, _ => .error .EINVAL

/-- The report answers the command: a version, or a status without an error that
    refers to the command. -/
inductive Answered : Command → Option SwVersion → Option Payload → Prop
  | swVersion (v : SwVersion) : Answered .swVersion (some v) (some (.swVersion v))
  | selectTouchConfiguration (d : Status)
    (hcmd : d.lastCmdId = COMMAND_SELECT_TOUCH_CONFIGURATION.toNat) (hcode : d.code ≠ .error) :
    Answered .selectTouchConfiguration none (some (.status d))

/-- What succeeds has an answer. -/
theorem Command.answered {cmd : Command} {r : Option Payload} {v : Option SwVersion}
    (h : cmd.result r = .ok v) : Answered cmd v r := by
  revert h
  fun_cases Command.result cmd r with
  | case1 d hcmd => simp
  | case2 d hcmd hcode => simp
  | case3 d hcmd hcode =>
    intro h
    cases h
    exact .selectTouchConfiguration d (not_not.1 hcmd) hcode
  | case4 v =>
    intro h
    cases h
    exact .swVersion v
  | case5 => simp

/-- Whether the lock is still taken when it returns. -/
def Command.keepsLock : Command → Option Payload → Bool
  | selectTouchConfiguration, _ => false
  | swVersion, some (.swVersion _) => false
  | swVersion, _ => true

namespace Commands

variable {ι : Type}

/-- `rafi_gs_device_create` -/
def create : Commands ι := ⟨false, false, none, fun _ => .idle⟩

variable [DecidableEq ι]

/-- The caller `i` goes on. -/
def setPc (s : Commands ι) (i : ι) (pc : Pc) : Commands ι := { s with pc := Function.update s.pc i pc }

/-- One step, an error if it cannot be taken. -/
def step (s : Commands ι) : CommandOp ι → Except Unit (Commands ι)
  | .send i cmd => if s.pc i = .idle then .ok (s.setPc i (.waiting cmd)) else .error ()
  | .wake i =>
    match s.pc i with
    | .waiting cmd => if s.reportDelivered then .ok (s.setPc i (.woken cmd)) else .error ()
    | _ => .error ()
  | .timeout i =>
    match s.pc i with
    | .waiting _ => if s.reportDelivered then .error () else .ok (s.setPc i .idle)
    | _ => .error ()
  | .finish i =>
    match s.pc i with
    | .woken cmd =>
      if s.reportLock then .error ()
      else
        .ok ({ s with
          reportDelivered := false
          reportLock := cmd.keepsLock s.report }.setPc i .idle)
    | _ => .error ()
  | .handleReport p =>
    if s.reportLock then .error ()
    else .ok { s with report := some p, reportDelivered := true }

/-! ## What a step can do -/

section
variable {s s' : Commands ι} {i : ι} {cmd : Command} {p : Payload}

@[simp] theorem pc_setPc_self (pc : Pc) : (s.setPc i pc).pc i = pc := Function.update_self ..

theorem pc_setPc_of_ne {j : ι} (h : j ≠ i) (pc : Pc) : (s.setPc i pc).pc j = s.pc j :=
  Function.update_of_ne h ..

/-- Who is woken was woken before. -/
theorem woken_of_setPc {j : ι} {pc : Pc} (hne : ∀ cmd, pc ≠ .woken cmd)
    (h : (s.setPc i pc).pc j = .woken cmd) : s.pc j = .woken cmd := by
  by_cases hji : j = i
  · subst hji
    rw [pc_setPc_self] at h
    exact absurd h (hne cmd)
  · rwa [pc_setPc_of_ne hji] at h

theorem step_send (h : s.step (.send i cmd) = .ok s') :
    s.pc i = .idle ∧ s' = s.setPc i (.waiting cmd) := by
  rw [step] at h
  split_ifs at h with hpc
  exact ⟨hpc, by cases h; rfl⟩

theorem step_wake (h : s.step (.wake i) = .ok s') :
    ∃ cmd, s.pc i = .waiting cmd ∧ s.reportDelivered = true ∧ s' = s.setPc i (.woken cmd) := by
  cases hpc : s.pc i with
  | waiting cmd =>
    simp only [step, hpc] at h
    split_ifs at h with hd
    exact ⟨cmd, rfl, hd, by cases h; rfl⟩
  | idle => simp only [step, hpc] at h; cases h
  | woken cmd => simp only [step, hpc] at h; cases h

theorem step_timeout (h : s.step (.timeout i) = .ok s') :
    s.reportDelivered = false ∧ s' = s.setPc i .idle := by
  cases hpc : s.pc i with
  | waiting cmd =>
    simp only [step, hpc] at h
    split_ifs at h with hd
    exact ⟨Bool.eq_false_iff.2 hd, by cases h; rfl⟩
  | idle => simp only [step, hpc] at h; cases h
  | woken cmd => simp only [step, hpc] at h; cases h

theorem step_finish (h : s.step (.finish i) = .ok s') :
    ∃ cmd, s.pc i = .woken cmd ∧ s.reportLock = false ∧
      s' = ({ s with
        reportDelivered := false
        reportLock := cmd.keepsLock s.report }.setPc i .idle) := by
  cases hpc : s.pc i with
  | woken cmd =>
    simp only [step, hpc] at h
    split_ifs at h with hl
    exact ⟨cmd, rfl, Bool.eq_false_iff.2 hl, by cases h; rfl⟩
  | idle => simp only [step, hpc] at h; cases h
  | waiting cmd => simp only [step, hpc] at h; cases h

theorem step_handleReport (h : s.step (.handleReport p) = .ok s') :
    s.reportLock = false ∧ s' = { s with report := some p, reportDelivered := true } := by
  rw [step] at h
  split_ifs at h with hl
  exact ⟨Bool.eq_false_iff.2 hl, by cases h; rfl⟩

end

/-! ## Answers -/

/-- The report that was handed over last. -/
def lastReport (tr : List (Taken (Commands ι) (CommandOp ι))) : Option Payload :=
  tr.foldl (fun r x => match x.op with
    | .handleReport p => some p
    | _ => r) none

/-- A report is handed over. -/
def Delivers (x : Taken (Commands ι) (CommandOp ι)) : Prop := ∃ p, x.op = .handleReport p

section
variable {s s' : Commands ι} {i : ι} {tr tr₁ tr₂ : List (Taken (Commands ι) (CommandOp ι))}

omit [DecidableEq ι] in
theorem lastReport_snoc (x : Taken (Commands ι) (CommandOp ι)) :
    lastReport (tr ++ [x]) = match x.op with
      | .handleReport p => some p
      | _ => lastReport tr := by
  rw [lastReport, List.foldl_append]
  rfl

omit [DecidableEq ι] in
theorem lastReport_append (h : ∀ x ∈ tr₂, ¬ Delivers x) :
    lastReport (tr₁ ++ tr₂) = lastReport tr₁ := by
  induction tr₂ using List.reverseRecOn with
  | nil => rw [List.append_nil]
  | append_singleton tr₂ x ih =>
    have hx : ∀ p, x.op ≠ .handleReport p := fun p hp => h x (by simp) ⟨p, hp⟩
    rw [← List.append_assoc, lastReport_snoc, ← ih fun y hy => h y (List.mem_append_left _ hy)]
    cases hop : x.op with
    | handleReport p => exact absurd hop (hx p)
    | _ => rfl

/-- The report that is kept is the last one, and nobody is woken before there is
    one. -/
theorem report_eq (h : Trace step create tr s) : s.report = lastReport tr ∧
    (s.reportDelivered = true → s.report ≠ none) ∧
      ∀ i cmd, s.pc i = .woken cmd → s.report ≠ none := by
  refine h.history (fun tr s => s.report = lastReport tr ∧
    (s.reportDelivered = true → s.report ≠ none) ∧
      ∀ i cmd, s.pc i = .woken cmd → s.report ≠ none) ⟨rfl, by simp [create], by simp [create]⟩ ?_
  rintro tr s o s' ⟨hlast, hdel, hwoken⟩ hs
  rw [lastReport_snoc]
  cases o with
  | send i cmd =>
    obtain ⟨-, rfl⟩ := step_send hs
    exact ⟨hlast, hdel, fun j cmd hj => hwoken j cmd (woken_of_setPc (by simp) hj)⟩
  | wake i =>
    obtain ⟨cmd, -, hd, rfl⟩ := step_wake hs
    exact ⟨hlast, hdel, fun _ _ _ => hdel hd⟩
  | timeout i =>
    obtain ⟨-, rfl⟩ := step_timeout hs
    exact ⟨hlast, hdel, fun j cmd hj => hwoken j cmd (woken_of_setPc (by simp) hj)⟩
  | finish i =>
    obtain ⟨cmd, hi, -, rfl⟩ := step_finish hs
    exact ⟨hlast, fun hd => absurd hd Bool.false_ne_true, fun _ _ _ => hwoken i cmd hi⟩
  | handleReport p =>
    obtain ⟨-, rfl⟩ := step_handleReport hs
    exact ⟨rfl, fun _ => by simp, fun _ _ _ => by simp⟩

/-- A caller is not woken before a report is handed over. -/
theorem not_woken (h : Trace step s tr s') (hd : s.reportDelivered = false)
    (hi : ∀ cmd, s.pc i ≠ .woken cmd) (hno : ∀ x ∈ tr, ¬ Delivers x) :
    ∀ cmd, s'.pc i ≠ .woken cmd := by
  have hinv := h.invariant (fun s => s.reportDelivered = false ∧ ∀ cmd, s.pc i ≠ .woken cmd)
    (fun x => ¬ Delivers x) ⟨hd, hi⟩ hno ?_
  · exact hinv.1.2
  rintro s o s' ⟨hd, hi⟩ hs hno
  cases o with
  | send j cmd =>
    obtain ⟨-, rfl⟩ := step_send hs
    exact ⟨hd, fun cmd h => hi cmd (woken_of_setPc (by simp) h)⟩
  | wake j =>
    obtain ⟨cmd, -, hd', -⟩ := step_wake hs
    rw [hd] at hd'
    cases hd'
  | timeout j =>
    obtain ⟨-, rfl⟩ := step_timeout hs
    exact ⟨hd, fun cmd h => hi cmd (woken_of_setPc (by simp) h)⟩
  | finish j =>
    obtain ⟨cmd, -, -, rfl⟩ := step_finish hs
    exact ⟨rfl, fun cmd h => hi cmd (woken_of_setPc (by simp) h)⟩
  | handleReport p => exact absurd ⟨p, rfl⟩ hno

/-- The caller of a command is in it, or has left it, until it sends the next
    one. -/
theorem pc_after_send {cmd : Command} (h : Trace step s tr s') (hi : s.pc i = .waiting cmd)
    (hno : ∀ x ∈ tr, ∀ cmd', x.op ≠ .send i cmd') :
    s'.pc i = .idle ∨ s'.pc i = .waiting cmd ∨ s'.pc i = .woken cmd := by
  refine (h.invariant (fun s => s.pc i = .idle ∨ s.pc i = .waiting cmd ∨ s.pc i = .woken cmd)
    (fun x => ∀ cmd', x.op ≠ .send i cmd') (.inr (.inl hi)) hno ?_).1
  rintro s o s' hpc hs hno
  have hother : ∀ {j}, j ≠ i → ∀ pc, (s.setPc j pc).pc i = .idle ∨
      (s.setPc j pc).pc i = .waiting cmd ∨ (s.setPc j pc).pc i = .woken cmd := by
    intro j hj pc
    rwa [pc_setPc_of_ne (Ne.symm hj)]
  cases o with
  | send j cmd' =>
    obtain ⟨-, rfl⟩ := step_send hs
    by_cases hj : j = i
    · subst hj
      exact absurd rfl (hno cmd')
    · exact hother hj _
  | wake j =>
    obtain ⟨cmd', hj', -, rfl⟩ := step_wake hs
    by_cases hj : j = i
    · subst hj
      rw [hj'] at hpc
      obtain h | h | h := hpc <;> cases h
      exact .inr (.inr (pc_setPc_self _))
    · exact hother hj _
  | timeout j =>
    obtain ⟨-, rfl⟩ := step_timeout hs
    by_cases hj : j = i
    · subst hj
      exact .inl (pc_setPc_self _)
    · exact hother hj _
  | finish j =>
    obtain ⟨cmd', -, -, rfl⟩ := step_finish hs
    by_cases hj : j = i
    · subst hj
      exact .inl (pc_setPc_self _)
    · exact hother hj _
  | handleReport p =>
    obtain ⟨-, rfl⟩ := step_handleReport hs
    exact hpc

/-- **Answers.**  A command reads the last report that was handed over.  This
    was after the command was sent, or `report_delivered` was set then from a
    report that nobody had read; no report answers two commands of the same
    caller; and where a command succeeds, this report is its answer. -/
theorem answers {x y : Taken (Commands ι) (CommandOp ι)}
    (h : Trace step create (tr₁ ++ x :: (tr₂ ++ [y])) s) (hy : y.op = .finish i) :
    (∀ cmd, x.op = .send i cmd → (∀ z ∈ tr₂, ∀ cmd', z.op ≠ .send i cmd') →
      y.pre.pc i = .woken cmd ∧ ∃ p, y.pre.report = some p ∧
        lastReport (tr₁ ++ x :: tr₂) = some p ∧
        ((∃ z ∈ tr₂, Delivers z) ∨ x.pre.reportDelivered = true ∧ lastReport tr₁ = some p)) ∧
    (x.op = .finish i → ∃ z ∈ tr₂, Delivers z) ∧
    ∀ cmd v, y.pre.pc i = .woken cmd → cmd.result y.pre.report = .ok v →
      Answered cmd v (lastReport (tr₁ ++ x :: tr₂)) := by
  have hsplit : tr₁ ++ x :: (tr₂ ++ [y]) = (tr₁ ++ x :: tr₂) ++ [y] := by simp
  rw [hsplit] at h
  obtain ⟨hpre, hfinish, -⟩ := h.last
  rw [hy] at hfinish
  obtain ⟨cmd₀, hwoken, -, -⟩ := step_finish hfinish
  obtain ⟨hx, hstep, hmid⟩ := hpre.split_at
  refine ⟨?_, ?_, ?_⟩
  · intro cmd hsend hno
    rw [hsend] at hstep
    obtain ⟨-, hpost⟩ := step_send hstep
    have hpc := pc_after_send hmid (by rw [hpost, pc_setPc_self]) hno
    rw [hwoken] at hpc
    have hcmd : cmd₀ = cmd := by
      obtain h | h | h := hpc <;> cases h
      rfl
    subst hcmd
    obtain ⟨hlast, -, hsome⟩ := report_eq hpre
    obtain ⟨p, hp⟩ := Option.ne_none_iff_exists'.1 (hsome i cmd₀ hwoken)
    refine ⟨hwoken, p, hp, hlast.symm.trans hp, ?_⟩
    by_cases hdel : ∃ z ∈ tr₂, Delivers z
    · exact .inl hdel
    · refine .inr ⟨?_, ?_⟩
      · by_contra hflag
        refine not_woken hmid ?_ ?_ (fun z hz hd => hdel ⟨z, hz, hd⟩) cmd₀ hwoken
        · rw [hpost]
          exact Bool.eq_false_iff.2 hflag
        · intro cmd'
          rw [hpost, pc_setPc_self]
          simp
      · rw [← hp, hlast]
        refine (lastReport_append fun z hz hd => ?_).symm
        rcases List.mem_cons.1 hz with rfl | hz
        · obtain ⟨q, hq⟩ := hd
          rw [hsend] at hq
          cases hq
        · exact hdel ⟨z, hz, hd⟩
  · intro hfin
    rw [hfin] at hstep
    obtain ⟨cmd, -, -, hpost⟩ := step_finish hstep
    by_contra hdel
    refine not_woken hmid ?_ ?_ (fun z hz hd => hdel ⟨z, hz, hd⟩) cmd₀ hwoken
    · rw [hpost]
      rfl
    · intro cmd'
      rw [hpost, pc_setPc_self]
      simp
  · intro cmd v _ hok
    rw [← (report_eq hpre).1]
    exact Command.answered hok

/-- A caller asks for the version, and reads it. -/
theorem answers_version : ∃ y : Taken (Commands Unit) (CommandOp Unit),
    y.op = .finish () ∧ y.pre.pc () = .woken .swVersion ∧
      y.pre.report = some (.swVersion ⟨1, 2, 3⟩) ∧
      Answered .swVersion (some ⟨1, 2, 3⟩) (some (.swVersion ⟨1, 2, 3⟩)) := by
  have h₁ : Trace step (create : Commands Unit) _ _ := Trace.nil.snoc (.send () .swVersion) rfl
  have h₂ := h₁.snoc (.handleReport (.swVersion ⟨1, 2, 3⟩)) rfl
  have h₃ := h₂.snoc (.wake ()) rfl
  have h₄ := h₃.snoc (.finish ()) rfl
  obtain ⟨hread, -, hok⟩ := @answers _ _ _ _ [] [_, _] _ _ h₄ rfl
  have hwoken := (hread _ rfl (by simp)).1
  exact ⟨_, rfl, hwoken, rfl, hok _ _ hwoken rfl⟩

/-! ## The lock that is not released -/

/-- A request for the version reads another report. -/
def WrongVersion (x : Taken (Commands ι) (CommandOp ι)) : Prop :=
  ∃ i, x.op = .finish i ∧ x.pre.pc i = .woken .swVersion ∧ ∀ v, x.pre.report ≠ some (.swVersion v)

/-- A step that waits for the lock. -/
def NeedsLock (x : Taken (Commands ι) (CommandOp ι)) : Prop := Delivers x ∨ ∃ i, x.op = .finish i

theorem keepsLock_iff {cmd : Command} {r : Option Payload} : cmd.keepsLock r = true ↔
    cmd = .swVersion ∧ ∀ v, r ≠ some (.swVersion v) := by
  cases cmd with
  | selectTouchConfiguration => simp [Command.keepsLock]
  | swVersion =>
    cases r with
    | none => simp [Command.keepsLock]
    | some p => cases p <;> simp [Command.keepsLock]

/-- A step that does not need the lock leaves it alone, and the others find it
    free; it is left taken by the wrong version only. -/
theorem lock_step {o : CommandOp ι} (h : s.step o = .ok s') :
    (¬ NeedsLock ⟨s, o, s'⟩ ∧ ¬ WrongVersion ⟨s, o, s'⟩ ∧ s'.reportLock = s.reportLock) ∨
      (NeedsLock ⟨s, o, s'⟩ ∧ s.reportLock = false ∧
        (s'.reportLock = true ↔ WrongVersion ⟨s, o, s'⟩)) := by
  cases o with
  | send i cmd =>
    obtain ⟨-, rfl⟩ := step_send h
    exact .inl ⟨by simp [NeedsLock, Delivers], by simp [WrongVersion], rfl⟩
  | wake i =>
    obtain ⟨cmd, -, -, rfl⟩ := step_wake h
    exact .inl ⟨by simp [NeedsLock, Delivers], by simp [WrongVersion], rfl⟩
  | timeout i =>
    obtain ⟨-, rfl⟩ := step_timeout h
    exact .inl ⟨by simp [NeedsLock, Delivers], by simp [WrongVersion], rfl⟩
  | finish i =>
    obtain ⟨cmd, hpc, hl, rfl⟩ := step_finish h
    refine .inr ⟨.inr ⟨i, rfl⟩, hl, keepsLock_iff.trans ⟨?_, ?_⟩⟩
    · rintro ⟨rfl, hv⟩
      exact ⟨i, rfl, hpc, hv⟩
    · rintro ⟨j, hj, hpc', hv⟩
      cases hj
      cases hpc.symm.trans hpc'
      exact ⟨rfl, hv⟩
  | handleReport p =>
    obtain ⟨hl, rfl⟩ := step_handleReport h
    refine .inr ⟨.inl ⟨p, rfl⟩, hl, iff_of_false (by simp [hl]) ?_⟩
    rintro ⟨j, hj, -⟩
    cases hj

/-- While the lock is taken, nothing gets it. -/
theorem stuck (h : Trace step s tr s') (hl : s.reportLock = true) :
    s'.reportLock = true ∧ ∀ x ∈ tr, ¬ NeedsLock x := by
  refine h.history (fun tr s => s.reportLock = true ∧ ∀ x ∈ tr, ¬ NeedsLock x) ⟨hl, by simp⟩ ?_
  rintro tr s o s' ⟨hl, hno⟩ hs
  obtain ⟨hneed, -, hl'⟩ | ⟨-, hfree, -⟩ := lock_step hs
  · refine ⟨hl'.trans hl, fun x hx => ?_⟩
    rcases List.mem_append.1 hx with hx | hx
    · exact hno x hx
    · rwa [List.mem_singleton.1 hx]
  · rw [hl] at hfree
    cases hfree

/-- **The wrong report is the end of all answers.**  The lock is taken exactly
    if a request for the version has read another report; from then on no report
    is handed over, and no command gets an answer. -/
theorem wrong_version_deadlock (h : Trace step create tr s) :
    (s.reportLock = true ↔ ∃ x ∈ tr, WrongVersion x) ∧
      ∀ tr₁ x tr₂, tr = tr₁ ++ x :: tr₂ → WrongVersion x → ∀ y ∈ tr₂, ¬ NeedsLock y := by
  constructor
  · refine h.history (fun tr s => s.reportLock = true ↔ ∃ x ∈ tr, WrongVersion x) (by simp [create]) ?_
    intro tr s o s' hiff hs
    have hsnoc : (∃ x ∈ tr ++ [⟨s, o, s'⟩], WrongVersion x) ↔
        (∃ x ∈ tr, WrongVersion x) ∨ WrongVersion ⟨s, o, s'⟩ := by
      simp only [List.mem_append, List.mem_singleton, or_and_right, exists_or, exists_eq_left]
    rw [hsnoc, ← hiff]
    obtain ⟨-, hno, hl⟩ | ⟨-, hfree, hl⟩ := lock_step hs
    · rw [hl, or_iff_left hno]
    · rw [hl, hfree, or_iff_right Bool.false_ne_true]
  · rintro tr₁ x tr₂ rfl hx
    obtain ⟨-, hstep, hrest⟩ := h.split_at
    obtain ⟨-, hno, -⟩ | ⟨-, -, hl⟩ := lock_step hstep
    · exact absurd hx hno
    · exact (stuck hrest (hl.2 hx)).2

/-- A caller asks for the version and reads a status. -/
theorem wrong_version_deadlock_status : ∃ tr s, Trace step (create : Commands Unit) tr s ∧
    s.reportLock = true := by
  have h₁ : Trace step (create : Commands Unit) _ _ := Trace.nil.snoc (.send () .swVersion) rfl
  have h₂ := h₁.snoc (.handleReport (.status ⟨.normalOperation, .noErr, 78⟩)) rfl
  have h₃ := h₂.snoc (.wake ()) rfl
  have h₄ := h₃.snoc (.finish ()) rfl
  exact ⟨_, _, h₄, (wrong_version_deadlock h₄).1.2 ⟨_, List.mem_append_right _ (.head _), (), rfl, rfl,
    fun v hv => by cases hv⟩⟩

end

end Commands

end MetaHipos.Rafi
