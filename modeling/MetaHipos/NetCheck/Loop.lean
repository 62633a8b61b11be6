/-
  The loop over the parameters.

  `update` is the value that the script gives to a parameter, if any; the loop
  writes these values, one line each.  `wanted` is the value the parameter should
  get, from its first line.

  * `syncParam_eq`: the body of the loop writes `update`;
  * `wrote`: a loop whose lines are read as their calls;
  * `calls_of_own`: in a loop that runs nothing else, all of them are.
-/
import MetaHipos.NetCheck.Lines

namespace MetaHipos.NetCheck

open Words PosixShell Process

/-- The text of the device identity, if it can be read. -/
def Board.devid (b : Board) : Option Text :=
  match b.files devidfile with
  | .ok text => some (rstrip (universalNewlines text))
  | .error _ => none

/-- The value in the first line of the parameter that has one. -/
def firstValue (param content : Text) : Option Text :=
  (pieces isNewline content).findSome? (lineValue (param ++ ['=']))

/-- The value that the script gives to the parameter: the one of the device
    identity in lower case, if the one in the environment differs from it in more than case. -/
def update (L : Lower) (content : Text) (env : UbootEnv) (param : Text) : Option Text :=
  (firstValue param content).bind fun value =>
    if (getenv env param).map L.lower = some (L.lower value) then none else some (L.lower value)

/-- The value the script writes for a parameter, if it writes one. -/
def Board.update (L : Lower) (b : Board) (param : Text) : Option Text :=
  b.devid.bind fun content => NetCheck.update L content b.env param

/-- The value in the first line of the parameter, unless that is empty. -/
def firstLine (param content : Text) : Option Text :=
  ((pieces isNewline content).find? fun line => (param ++ ['=']).isPrefixOf line).bind
    (lineValue (param ++ ['=']))

/-- The value the parameter should get: as `update`, from its first line. -/
def Board.wanted (L : Lower) (b : Board) (param : Text) : Option Text :=
  b.devid.bind fun content => (firstLine param content).bind fun value =>
    if (getenv b.env param).map L.lower = some (L.lower value) then none else some (L.lower value)

variable {sh : Shell} {L : Lower} {b b' : Board} {ω : Oracle NetResp} {env : UbootEnv}
  {opt param value line content : Text} {args command : List Text}

/-! ## The value of a parameter -/

/-- A first line with a value is the first line with a value. -/
theorem firstValue_of_firstLine (h : firstLine param content = some value) :
    firstValue param content = some value := by
  unfold firstLine at h
  unfold firstValue
  generalize pieces isNewline content = lines at h ⊢
  induction lines with
  | nil => cases h
  | cons line lines ih =>
    rw [List.find?_cons] at h
    rw [List.findSome?_cons]
    cases hline : (param ++ ['=']).isPrefixOf line with
    | true =>
      rw [hline] at h
      simp only [Option.bind_some] at h
      rw [h]
    | false =>
      rw [hline] at h
      have hnone : lineValue (param ++ ['=']) line = none := by simp [lineValue, hline]
      rw [hnone]
      exact ih h

theorem update_of_wanted (h : b.wanted L param = some value) : b.update L param = some value := by
  obtain ⟨content, hdevid, h⟩ := Option.bind_eq_some_iff.1 h
  obtain ⟨v, hfirst, h⟩ := Option.bind_eq_some_iff.1 h
  rw [Board.update, hdevid, Option.bind_some, update, firstValue_of_firstLine hfirst]
  exact h

/-- A value to be written is that of the device identity. -/
theorem update_eq_some_iff : b.update L param = some value ↔ ∃ content v,
    b.devid = some content ∧ firstValue param content = some v ∧ L.lower v = value ∧
      (getenv b.env param).map L.lower ≠ some value := by
  constructor
  · intro h
    obtain ⟨content, hdevid, h⟩ := Option.bind_eq_some_iff.1 h
    obtain ⟨v, hv, h⟩ := Option.bind_eq_some_iff.1 h
    split at h
    · cases h
    · rename_i hne
      obtain rfl := Option.some.inj h
      exact ⟨content, v, hdevid, hv, rfl, hne⟩
  · rintro ⟨content, v, hdevid, hv, rfl, hne⟩
    rw [Board.update, hdevid, Option.bind_some, update, hv, Option.bind_some, if_neg hne]

/-! ## Writing -/

/-- The body of the loop, for a value that has to be written or not. -/
def write (opt param : Text) : Option Text → Net Unit
  | none => pure ()
  | some value => do
    print ("Update u-boot env: ".toList ++ param ++ ' ' :: value)
    let _ ← checkOutput (setenvLine opt param value)

theorem syncParam_eq (hp : param ∈ parameters) (h : WellFormed env) :
    syncParam L content (printenv env) opt param =
      write opt param (update L content env param) := by
  have hname := mem_parameters hp
  unfold syncParam update firstValue
  rw [← reSearch_eq fun c hc => (hname c hc).1, reSearch_printenv h hname]
  cases hfound : reSearch param content with
  | none => rfl
  | some value =>
    have hvalue := (reSearch_value (fun c hc => (hname c hc).1) hfound).1
    have hsame : ((getenv env param).filter fun v => !v.isEmpty).map L.lower =
        some (L.lower value) ↔ (getenv env param).map L.lower = some (L.lower value) := by
      cases getenv env param with
      | none => rfl
      | some stored =>
        cases stored with
        | nil =>
          have hne : L.lower [] ≠ L.lower value := by
            rw [(L.lower_eq_nil []).2 rfl]
            exact fun h0 => hvalue ((L.lower_eq_nil value).1 h0.symm)
          simp [Option.filter, hne]
        | cons c cs => simp [Option.filter]
    simp only [Option.bind_some, ne_eq, eq_comm (a := some (L.lower value)), hsame]
    by_cases hc : (getenv env param).map L.lower = some (L.lower value)
    · rw [if_neg (not_not.2 hc), if_pos hc]
      rfl
    · rw [if_pos hc, if_neg hc]
      rfl

/-- What a list of parameters writes, if anything. -/
def writes (opt : Text) (u : Text → Option Text) (params : List Text) : Net Unit :=
  forEach (fun param _ => write opt param (u param)) params ()

variable {u : Text → Option Text} {params : List Text}

/-- A line that is read as a call. -/
theorem exec_call {call : Call} (h : sh.commands line = [command])
    (hc : callOf b.opt command = some call) : exec (netEnv sh) (checkOutput line) b ω =
      (.done (call.output b),
        { b with env := call.effect b.env, ran := b.ran ++ [(line, [command])] }, ω.tail) := by
  have hcall : shellCall sh b.opt line = some call := by
    rw [shellCall, h]
    exact hc
  simp only [checkOutput, shell, Proc.bind_eq, Proc.ask, Proc.bind, exec, netEnv, hcall, h]
  rfl

theorem exec_writes_none (hu : u param = none) :
    exec (netEnv sh) (writes opt u (param :: params)) b ω =
      exec (netEnv sh) (writes opt u params) b ω := by
  rw [writes, forEach, hu]
  rfl

/-- The board after a line that is read as a call of `fw_setenv`. -/
def Board.set (b : Board) (param value : Text) (args : List Text) : Board :=
  { b with
    env := setenv b.env param (joinWith ' ' args)
    ran := b.ran ++ [(setenvLine b.opt param value, [(Call.setenv param args).command b.opt])] }

theorem exec_writes_some (hp : param ∈ parameters) (hu : u param = some value)
    (hread : sh.commands (setenvLine b.opt param value) =
      [(Call.setenv param args).command b.opt]) :
    exec (netEnv sh) (writes b.opt u (param :: params)) b ω =
      exec (netEnv sh) (writes b.opt u params) (b.set param value args) ω.tail.tail := by
  have hwrite : exec (netEnv sh) (write b.opt param (some value)) b ω =
      (.done (), b.set param value args, ω.tail.tail) := by
    have hprint : exec (netEnv sh) (print ("Update u-boot env: ".toList ++ param ++ ' ' :: value)) b
        ω = (.done (), b, ω.tail) := rfl
    rw [write, exec_bind_done hprint, exec_bind_done (exec_call hread (callOf_setenv hp))]
    rfl
  rw [writes, forEach, hu, exec_bind_done hwrite]
  rfl

/-- What was run stays recorded. -/
theorem ran_prefix {α : Type} (p : Net α) (b : Board) (ω : Oracle NetResp) :
    b.ran <+: (exec (netEnv sh) p b ω).2.1.ran := by
  induction p generalizing b ω with
  | ret a => exact List.prefix_rfl
  | stop e => exact List.prefix_rfl
  | call o k ih =>
    refine List.IsPrefix.trans ?_ (ih _ _ _)
    cases o with
    | read file => exact List.prefix_rfl
    | checkOutput line => exact List.prefix_append _ _
    | print text => exact List.prefix_rfl

theorem ran_prefix_bind {α β : Type} (p : Net α) (k : α → Net β) (b : Board) (ω : Oracle NetResp) :
    (exec (netEnv sh) p b ω).2.1.ran <+: (exec (netEnv sh) (p >>= k) b ω).2.1.ran := by
  rw [exec_bind]
  rcases exec (netEnv sh) p b ω with ⟨a | e, b', ω'⟩
  · exact ran_prefix _ _ _
  · exact List.prefix_rfl

theorem ran_checkOutput (sh : Shell) (line : Text) (b : Board) (ω : Oracle NetResp) :
    (line, sh.commands line) ∈ (exec (netEnv sh) (checkOutput line) b ω).2.1.ran := by
  have hline : (line, sh.commands line) ∈ (exec (netEnv sh) (shell line) b ω).2.1.ran :=
    List.mem_append_right b.ran (List.mem_singleton_self _)
  exact (ran_prefix_bind (shell line) _ b ω).subset hline

/-- A value that has to be written is given to the shell. -/
theorem ran_writes (hu : u param = some value) :
    (setenvLine opt param value, sh.commands (setenvLine opt param value)) ∈
      (exec (netEnv sh) (writes opt u (param :: params)) b ω).2.1.ran := by
  have hline := (ran_prefix_bind _ (fun _ => pure ()) b ω.tail).subset
    (ran_checkOutput sh (setenvLine opt param value) b ω.tail)
  rw [writes, forEach, hu]
  exact (ran_prefix_bind (write opt param (some value)) _ b ω).subset hline

/-- What a list of parameters wrote: nothing but their values, each with its
    call. -/
structure Wrote (sh : Shell) (u : Text → Option Text) (params : List Text) (b b' : Board) :
    Prop where
  files : b'.files = b.files
  machinfo : b'.machinfo = b.machinfo
  kept : ∀ name, (name ∈ params → u name = none) → getenv b'.env name = getenv b.env name
  stored : ∀ param ∈ params, ∀ value, u param = some value → ∀ args,
    sh.commands (setenvLine b.opt param value) = [(Call.setenv param args).command b.opt] →
      ∀ v, getenv b'.env param = some v ↔ joinWith ' ' args = v ∧ v ≠ []
  ran : ∀ x ∈ b'.ran, x ∈ b.ran ∨ ∃ param ∈ params, ∃ value args, u param = some value ∧
    x = (setenvLine b.opt param value, [(Call.setenv param args).command b.opt])
  made : ∀ param ∈ params, ∀ value, u param = some value →
    (setenvLine b.opt param value, sh.commands (setenvLine b.opt param value)) ∈ b'.ran
  wellFormed : WellFormed b.env → (∀ param ∈ params, param ∈ parameters) →
    (∀ param ∈ params, ∀ v, getenv b'.env param = some v → ∀ c ∈ v, isNewline c = false) →
      WellFormed b'.env

theorem Call.setenv_inj {args' : List Text}
    (h : (Call.setenv param args).command opt = (Call.setenv param args').command opt) :
    args = args' :=
  (List.cons.inj (List.append_cancel_left (List.cons.inj h).2)).2

theorem Wrote.skip (h : Wrote sh u params b b') (hu : u param = none) :
    Wrote sh u (param :: params) b b' := by
  refine ⟨h.files, h.machinfo, fun name hname => ?_, fun p hp value hv => ?_, fun x hx => ?_,
    fun p hp value hv => ?_, fun hw hparams hvalues => ?_⟩
  · exact h.kept name fun hmem => hname (List.mem_cons_of_mem param hmem)
  · rcases List.mem_cons.1 hp with rfl | hp
    · rw [hu] at hv
      cases hv
    · exact h.stored p hp value hv
  · rcases h.ran x hx with hx | ⟨p, hp, hx⟩
    · exact Or.inl hx
    · exact Or.inr ⟨p, List.mem_cons_of_mem param hp, hx⟩
  · rcases List.mem_cons.1 hp with rfl | hp
    · rw [hu] at hv
      cases hv
    · exact h.made p hp value hv
  · exact h.wellFormed hw (fun p hp => hparams p (List.mem_cons_of_mem param hp))
      fun p hp => hvalues p (List.mem_cons_of_mem param hp)

theorem Wrote.cons (h : Wrote sh u params (b.set param value args) b') (hnot : param ∉ params)
    (hu : u param = some value) (hargs : sh.commands (setenvLine b.opt param value) =
      [(Call.setenv param args).command b.opt])
    (hmade : (setenvLine b.opt param value, sh.commands (setenvLine b.opt param value)) ∈ b'.ran) :
    Wrote sh u (param :: params) b b' := by
  -- the parameters after it keep what was written
  have hkept : getenv b'.env param = getenv (setenv b.env param (joinWith ' ' args)) param :=
    h.kept param fun hmem => absurd hmem hnot
  refine ⟨h.files, h.machinfo, fun name hname => ?_, fun p hp value' hv args' hargs' v => ?_,
    fun x hx => ?_, fun p hp value' hv => ?_, fun hw hparams hvalues => ?_⟩
  · have hne : name ≠ param := by
      rintro rfl
      rw [hname (List.mem_cons_self ..)] at hu
      cases hu
    rw [h.kept name fun hmem => hname (List.mem_cons_of_mem param hmem)]
    exact getenv_setenv_of_ne hne
  · rcases List.mem_cons.1 hp with rfl | hp
    · obtain rfl : value = value' := Option.some.inj (hu.symm.trans hv)
      obtain rfl : args = args' := Call.setenv_inj (List.cons.inj (hargs.symm.trans hargs')).1
      rw [hkept]
      exact getenv_setenv_self_iff
    · exact h.stored p hp value' hv args' hargs' v
  · rcases h.ran x hx with hx | ⟨p, hp, hx⟩
    · rcases List.mem_append.1 hx with hx | hx
      · exact Or.inl hx
      · exact Or.inr ⟨param, List.mem_cons_self .., value, args, hu, List.mem_singleton.1 hx⟩
    · exact Or.inr ⟨p, List.mem_cons_of_mem param hp, hx⟩
  · rcases List.mem_cons.1 hp with rfl | hp
    · obtain rfl : value = value' := Option.some.inj (hu.symm.trans hv)
      exact hmade
    · exact h.made p hp value' hv
  · have hname := mem_parameters (hparams param (List.mem_cons_self ..))
    have hfree : ∀ c ∈ joinWith ' ' args, isNewline c = false := by
      by_cases hnil : joinWith ' ' args = []
      · simp [hnil]
      · exact hvalues param (List.mem_cons_self ..) _
          (hkept.trans (getenv_setenv_self_iff.2 ⟨rfl, hnil⟩))
    exact h.wellFormed (hw.setenv hname hfree)
      (fun p hp => hparams p (List.mem_cons_of_mem param hp))
      fun p hp => hvalues p (List.mem_cons_of_mem param hp)

/-- **Lines that are read as their calls** write their values, one after the
    other. -/
theorem wrote (hnodup : params.Nodup) (hparams : ∀ p ∈ params, p ∈ parameters)
    (hread : ∀ param ∈ params, ∀ value, u param = some value → ∃ args,
      sh.commands (setenvLine b.opt param value) = [(Call.setenv param args).command b.opt]) :
    Wrote sh u params b (exec (netEnv sh) (writes b.opt u params) b ω).2.1 := by
  induction params generalizing b ω with
  | nil =>
    exact ⟨rfl, rfl, fun _ _ => rfl, fun p hp => (List.not_mem_nil hp).elim, fun x hx => Or.inl hx,
      fun p hp => (List.not_mem_nil hp).elim, fun hw _ _ => hw⟩
  | cons param params ih =>
    obtain ⟨hnot, hnodup⟩ := List.nodup_cons.1 hnodup
    have hparam := hparams param (List.mem_cons_self ..)
    have hrest : ∀ p ∈ params, p ∈ parameters :=
      fun p hp => hparams p (List.mem_cons_of_mem param hp)
    have hread' : ∀ p ∈ params, ∀ value, u p = some value → ∃ args,
        sh.commands (setenvLine b.opt p value) = [(Call.setenv p args).command b.opt] :=
      fun p hp => hread p (List.mem_cons_of_mem param hp)
    cases hu : u param with
    | none =>
      rw [exec_writes_none hu]
      exact (ih hnodup hrest hread').skip hu
    | some value =>
      obtain ⟨args, hargs⟩ := hread param (List.mem_cons_self ..) value hu
      have hmade : (setenvLine b.opt param value, sh.commands (setenvLine b.opt param value)) ∈
          (exec (netEnv sh) (writes b.opt u (param :: params)) b ω).2.1.ran := ran_writes hu
      rw [exec_writes_some hparam hu hargs] at hmade ⊢
      have hw := ih (b := b.set param value args) (ω := ω.tail.tail) hnodup hrest hread'
      exact hw.cons hnot hu hargs hmade

/-- Where nothing but the own calls is run, every line is read as its call. -/
theorem calls_of_own (hparams : ∀ p ∈ params, p ∈ parameters)
    (hown : ∀ x ∈ (exec (netEnv sh) (writes b.opt u params) b ω).2.1.ran,
      ∃ command, x.2 = [command] ∧ Own b.opt x.1 command) :
    ∀ param ∈ params, ∀ value, u param = some value → ∃ args,
      sh.commands (setenvLine b.opt param value) = [(Call.setenv param args).command b.opt] := by
  induction params generalizing b ω with
  | nil =>
    intro p hp
    exact (List.not_mem_nil hp).elim
  | cons param params ih =>
    have hparam := hparams param (List.mem_cons_self ..)
    have hrest : ∀ p ∈ params, p ∈ parameters :=
      fun p hp => hparams p (List.mem_cons_of_mem param hp)
    cases hu : u param with
    | none =>
      rw [exec_writes_none hu] at hown
      intro p hp value hv
      rcases List.mem_cons.1 hp with rfl | hp
      · rw [hu] at hv
        cases hv
      · exact ih hrest hown p hp value hv
    | some value =>
      obtain ⟨command, hcommand, hline⟩ := hown _ (ran_writes hu)
      obtain ⟨args, rfl⟩ := own_setenvLine hparam hline
      rw [exec_writes_some hparam hu hcommand] at hown
      intro p hp value' hv
      rcases List.mem_cons.1 hp with rfl | hp
      · obtain rfl : value = value' := Option.some.inj (hu.symm.trans hv)
        exact ⟨args, hcommand⟩
      · exact ih (b := b.set param value args) hrest hown p hp value' hv

end MetaHipos.NetCheck
