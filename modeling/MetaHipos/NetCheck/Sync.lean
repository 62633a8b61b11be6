/-
  What the script does to the environment of U-Boot.

  Where the shell reads every line that writes as its call, with the value
  unchanged, and what is written comes from the first line of its parameter, the
  environment is right after one run and is not written again.

  * `run_wrote`, `run_calls`: the loop, within a run of the script;
  * `sync_iff`: the exact condition;
  * `sync_iff_single`: for values without a meaning to the shell.
-/
import MetaHipos.NetCheck.Loop

namespace MetaHipos.NetCheck

open Words PosixShell Process

/-- The environment has the values of the first lines of the device identity, and
    no other change; no line runs anything but its own call; the next run does not
    write. -/
structure Synced (sh : Shell) (L : Lower) (b : Board) (ω ω' : Oracle NetResp) : Prop where
  env : ∀ name, getenv (run sh L b ω).env name =
    if name ∈ parameters then (b.wanted L name).or (getenv b.env name) else getenv b.env name
  own : ∀ x ∈ (run sh L b ω).ran, ∃ command, x.2 = [command] ∧ Own b.opt x.1 command
  settled : ∀ x ∈ (run sh L (run sh L b ω) ω').ran, ∀ command ∈ x.2, command.head? ≠ some fwSetenv

variable {sh : Shell} {L : Lower} {b b' : Board} {ω ω' : Oracle NetResp}
  {opt param value content : Text} {args : List Text}

/-! ## Runs -/

/-- The board when the loop begins. -/
def Board.start (b : Board) : Board :=
  { b with
    ran := [(machinfoLine, [Call.machinfo.command b.opt]),
      (printenvLine b.opt, [Call.printenv.command b.opt])] }

theorem exec_readFile (h : b.devid = some content) :
    exec (netEnv sh) (readFile devidfile) b ω = (.done content, b, ω.tail) := by
  unfold Board.devid at h
  split at h
  · rename_i text hfile
    obtain rfl := Option.some.inj h
    simp only [readFile, openRead, Proc.bind_eq, Proc.ask, Proc.bind, exec, netEnv, hfile]
    rfl
  · cases h

theorem run_of_unreadable (h : b.devid = none) : run sh L b ω = { b with ran := [] } := by
  have hstop : ∃ e, exec (netEnv sh) (readFile devidfile) { b with ran := [] } ω =
      (.stopped e, { b with ran := [] }, ω.tail) := by
    unfold Board.devid at h
    split at h
    · cases h
    · rename_i e hfile
      cases e with
      | ioError =>
        refine ⟨.exit 0, ?_⟩
        simp only [readFile, openRead, Proc.bind_eq, Proc.ask, Proc.bind, exec, netEnv, hfile]
      | unicodeDecodeError =>
        refine ⟨.uncaught, ?_⟩
        simp only [readFile, openRead, Proc.bind_eq, Proc.ask, Proc.bind, exec, netEnv, hfile]
  obtain ⟨e, hstop⟩ := hstop
  rw [run, main, exec_bind, hstop]

theorem run_of_devid (h : b.devid = some content) (hw : WellFormed b.env) :
    run sh L b ω = (exec (netEnv sh) (writes b.start.opt (b.update L) parameters) b.start
      ω.tail.tail.tail).2.1 := by
  have hloop : forEach (fun param _ => syncParam L content (printenv b.env) b.opt param)
      parameters () = writes b.opt (b.update L) parameters := by
    refine forEach_congr (fun param hparam _ => ?_) ()
    rw [syncParam_eq hparam hw, Board.update, h]
    rfl
  have hread : exec (netEnv sh) (readFile devidfile) { b with ran := [] } ω =
      (.done content, { b with ran := [] }, ω.tail) := exec_readFile h
  have hmachinfo : exec (netEnv sh) (checkOutput machinfoLine) { b with ran := [] } ω.tail =
      (.done b.machinfo, { b with ran := [(machinfoLine, [Call.machinfo.command b.opt])] },
        ω.tail.tail) := exec_call commands_machinfoLine callOf_machinfo
  have hcommands : sh.commands (printenvLine b.opt) = [Call.printenv.command b.opt] :=
    commands_printenvLine _
  have hprintenv : exec (netEnv sh) (checkOutput (printenvLine b.opt))
      { b with ran := [(machinfoLine, [Call.machinfo.command b.opt])] } ω.tail.tail =
        (.done (printenv b.env), b.start, ω.tail.tail.tail) :=
    exec_call (b := { b with ran := [(machinfoLine, [Call.machinfo.command b.opt])] }) hcommands
      callOf_printenv
  have hopt : fwOpt (strip b.machinfo) = b.opt := rfl
  rw [run, main, exec_bind_done hread, exec_bind_done hmachinfo]
  simp only [hopt]
  rw [exec_bind_done hprintenv, hloop]
  rfl

theorem parameters_nodup : parameters.Nodup := by decide

/-- What a run does whose lines are read as their calls. -/
theorem run_wrote (hw : WellFormed b.env)
    (hread : ∀ param ∈ parameters, ∀ value, b.update L param = some value → ∃ args,
      sh.commands (setenvLine b.opt param value) = [(Call.setenv param args).command b.opt]) :
    Wrote sh (b.update L) parameters b.start (run sh L b ω) := by
  cases h : b.devid with
  | none =>
    have hu : ∀ param value, b.update L param ≠ some value := by
      intro param value hv
      rw [Board.update, h] at hv
      cases hv
    rw [run_of_unreadable h]
    refine ⟨rfl, rfl, fun _ _ => rfl, fun p _ value hv => absurd hv (hu p value), fun x hx => ?_,
      fun p _ value hv => absurd hv (hu p value), fun hw _ _ => hw⟩
    exact (List.not_mem_nil hx).elim
  | some content =>
    rw [run_of_devid h hw]
    exact wrote parameters_nodup (fun _ hp => hp) hread

theorem devid_run {u : Text → Option Text} (h : Wrote sh u parameters b.start b') :
    b'.devid = b.devid := by
  rw [Board.devid, Board.devid, h.files]
  rfl

theorem run_calls (hw : WellFormed b.env)
    (hown : ∀ x ∈ (run sh L b ω).ran, ∃ command, x.2 = [command] ∧ Own b.opt x.1 command) :
    ∀ param ∈ parameters, ∀ value, b.update L param = some value → ∃ args,
      sh.commands (setenvLine b.opt param value) = [(Call.setenv param args).command b.opt] := by
  cases h : b.devid with
  | none =>
    intro param _ value hv
    rw [Board.update, h] at hv
    cases hv
  | some content =>
    rw [run_of_devid h hw] at hown
    exact calls_of_own (b := b.start) (fun _ hp => hp) hown

/-- A value to be written is one: it is not empty and in lower case. -/
theorem update_value (hp : param ∈ parameters) (h : b.update L param = some value) :
    value ≠ [] ∧ (∀ c ∈ value, isNewline c = false) ∧ L.lower value = value := by
  have hname : ∀ c ∈ param, isNewline c = false := fun c hc => (mem_parameters hp c hc).1
  obtain ⟨content, v, -, hv, rfl, -⟩ := update_eq_some_iff.1 h
  have hfound : reSearch param content = some v := (reSearch_eq hname content).trans hv
  obtain ⟨hne, hfree⟩ := reSearch_value hname hfound
  exact ⟨fun h0 => hne ((L.lower_eq_nil v).1 h0), L.lower_newline v hfree, L.lower_lower v⟩

/-- A value that is to be written still is, while the parameter is as it was. -/
theorem update_kept (hdevid : b'.devid = b.devid)
    (hkept : getenv b'.env param = getenv b.env param) : b'.update L param = b.update L param := by
  rw [Board.update, Board.update, hdevid]
  unfold update
  rw [hkept]

/-- **A value that was stored is not written again.** -/
theorem update_again (hdevid : b'.devid = b.devid)
    (hkept : b.update L param = none → getenv b'.env param = getenv b.env param)
    (hstored : ∀ value, b.update L param = some value → getenv b'.env param = some value) :
    b'.update L param = none := by
  cases hu : b.update L param with
  | none => rw [update_kept hdevid (hkept hu), hu]
  | some value =>
    rw [Option.eq_none_iff_forall_ne_some]
    intro value' hv'
    obtain ⟨content, v, hcontent, hv, rfl, -⟩ := update_eq_some_iff.1 hu
    obtain ⟨content', v', hcontent', hv'', rfl, hne⟩ := update_eq_some_iff.1 hv'
    obtain rfl : content = content' :=
      Option.some.inj (hcontent.symm.trans (hdevid.symm.trans hcontent'))
    obtain rfl : v = v' := Option.some.inj (hv.symm.trans hv'')
    rw [hstored _ hu, Option.map_some, L.lower_lower] at hne
    exact hne rfl

/-- The environment after a run as it should be has no newline in its values. -/
theorem wellFormed_run (hw : WellFormed b.env)
    (hread : ∀ param ∈ parameters, ∀ value, b.update L param = some value → ∃ args,
      sh.commands (setenvLine b.opt param value) = [(Call.setenv param args).command b.opt])
    (henv : ∀ param ∈ parameters, getenv (run sh L b ω).env param =
      (b.wanted L param).or (getenv b.env param)) : WellFormed (run sh L b ω).env := by
  refine (run_wrote hw hread).wellFormed hw (fun _ hp => hp) fun param hp v hv => ?_
  rw [henv param hp] at hv
  cases hwanted : b.wanted L param with
  | none =>
    rw [hwanted, Option.none_or] at hv
    exact hw.getenv hv
  | some value =>
    rw [hwanted, Option.some_or] at hv
    exact Option.some.inj hv ▸ (update_value hp (update_of_wanted hwanted)).2.1

theorem machinfo_not_setenv : (Call.machinfo.command opt).head? ≠ some fwSetenv := by
  have h : (words isBlank machinfoLine).head? ≠ some fwSetenv := by decide
  exact h

theorem printenv_not_setenv : (Call.printenv.command opt).head? ≠ some fwSetenv := by
  rw [Call.command, List.head?_cons]
  decide

/-- A run without anything to write asks for the machine and for the environment,
    nothing else. -/
theorem run_of_update_none (hw : WellFormed b.env) (hu : ∀ p ∈ parameters, b.update L p = none) :
    ∀ x ∈ (run sh L b ω).ran, ∀ command ∈ x.2, command.head? ≠ some fwSetenv := by
  have hread : ∀ param ∈ parameters, ∀ value, b.update L param = some value → ∃ args,
      sh.commands (setenvLine b.opt param value) = [(Call.setenv param args).command b.opt] := by
    intro param hp value hv
    rw [hu param hp] at hv
    cases hv
  intro x hx command hcommand
  rcases (run_wrote hw hread).ran x hx with hx | ⟨param, hp, value, args, hv, -⟩
  · rcases List.mem_cons.1 hx with rfl | hx
    · rw [List.mem_singleton.1 hcommand]
      exact machinfo_not_setenv
    · rw [List.mem_singleton.1 hx, List.mem_singleton] at hcommand
      rw [hcommand]
      exact printenv_not_setenv
  · rw [hu param hp] at hv
    cases hv

/-- **Lines that are read as their calls with the value unchanged** bring the
    environment in step, if the values are those of the first lines. -/
theorem synced_of_reads (hw : WellFormed b.env) (h : ∀ param ∈ parameters, ∀ value,
    b.update L param = some value → b.wanted L param = some value ∧ Reads sh b.opt param value) :
    Synced sh L b ω ω' := by
  have hread : ∀ param ∈ parameters, ∀ value, b.update L param = some value → ∃ args,
      sh.commands (setenvLine b.opt param value) = [(Call.setenv param args).command b.opt] := by
    intro param hp value hv
    obtain ⟨-, args, hargs, -⟩ := h param hp value hv
    exact ⟨args, hargs⟩
  have hrun := run_wrote hw hread (ω := ω)
  have hstored : ∀ param ∈ parameters, ∀ value, b.update L param = some value →
      getenv (run sh L b ω).env param = some value := by
    intro param hp value hv
    obtain ⟨-, args, hargs, hjoin⟩ := h param hp value hv
    exact (hrun.stored param hp value hv args hargs value).2 ⟨hjoin, (update_value hp hv).1⟩
  have henv : ∀ param ∈ parameters, getenv (run sh L b ω).env param =
      (b.wanted L param).or (getenv b.env param) := by
    intro param hp
    cases hu : b.update L param with
    | none =>
      have hnone : b.wanted L param = none := by
        rw [Option.eq_none_iff_forall_ne_some]
        intro value hv
        rw [update_of_wanted hv] at hu
        cases hu
      rw [hnone, Option.none_or]
      exact hrun.kept param fun _ => hu
    | some value =>
      rw [(h param hp value hu).1, Option.some_or]
      exact hstored param hp value hu
  refine ⟨fun name => ?_, fun x hx => ?_, ?_⟩
  · split
    · rename_i hp
      exact henv name hp
    · rename_i hp
      exact hrun.kept name fun hmem => absurd hmem hp
  · rcases hrun.ran x hx with hx | ⟨param, hp, value, args, -, rfl⟩
    · rcases List.mem_cons.1 hx with rfl | hx
      · exact ⟨_, rfl, .machinfo⟩
      · rw [List.mem_singleton.1 hx]
        exact ⟨_, rfl, .printenv⟩
    · exact ⟨_, rfl, .setenv value args hp⟩
  · refine run_of_update_none (wellFormed_run hw hread henv) fun param hp => ?_
    exact update_again (devid_run hrun) (fun hu => hrun.kept param fun _ => hu) (hstored param hp)

/-- A run that leaves a value as it was writes it again the next time. -/
theorem wanted_of_synced (hw : WellFormed b.env) (h : Synced sh L b ω ω') {param value : Text}
    (hp : param ∈ parameters) (hv : b.update L param = some value) :
    b.wanted L param = some value := by
  have hread := run_calls hw h.own
  have hrun := run_wrote hw hread (ω := ω)
  have hdevid := devid_run hrun
  have hopt : (run sh L b ω).opt = b.opt := by rw [Board.opt, hrun.machinfo]; rfl
  have henv : ∀ param ∈ parameters, getenv (run sh L b ω).env param =
      (b.wanted L param).or (getenv b.env param) := fun param hp => by rw [h.env, if_pos hp]
  cases hwanted : b.wanted L param with
  | some value' => rw [← hv, update_of_wanted hwanted]
  | none =>
    exfalso
    have hsame : getenv (run sh L b ω).env param = getenv b.env param := by
      rw [henv param hp, hwanted, Option.none_or]
    -- the next run writes what this one should have written
    have hread' : ∀ param ∈ parameters, ∀ value, (run sh L b ω).update L param = some value →
        ∃ args, sh.commands (setenvLine (run sh L b ω).opt param value) =
          [(Call.setenv param args).command (run sh L b ω).opt] := by
      intro p hp' value' hv'
      rw [hopt]
      cases hu : b.update L p with
      | none =>
        rw [update_kept hdevid (hrun.kept p fun _ => hu), hu] at hv'
        cases hv'
      | some first =>
        obtain ⟨content, v, hcontent, hfirst, rfl, -⟩ := update_eq_some_iff.1 hu
        obtain ⟨content', v', hcontent', hsecond, rfl, -⟩ := update_eq_some_iff.1 hv'
        obtain rfl : content = content' :=
          Option.some.inj (hcontent.symm.trans (hdevid.symm.trans hcontent'))
        obtain rfl : v = v' := Option.some.inj (hfirst.symm.trans hsecond)
        exact hread p hp' _ hu
    have hagain : (run sh L b ω).update L param = some value :=
      (update_kept hdevid hsame).trans hv
    have hmade := (run_wrote (wellFormed_run hw hread henv) hread' (ω := ω')).made param hp value
      hagain
    obtain ⟨args, hargs⟩ := hread' param hp value hagain
    refine h.settled _ hmade ((Call.setenv param args).command (run sh L b ω).opt) ?_ rfl
    change _ ∈ sh.commands (setenvLine (run sh L b ω).opt param value)
    rw [hargs]
    exact List.mem_singleton_self _

theorem reads_of_synced (hw : WellFormed b.env) (h : Synced sh L b ω ω') :
    ∀ param ∈ parameters, ∀ value, b.update L param = some value →
      b.wanted L param = some value ∧ Reads sh b.opt param value := by
  intro param hp value hv
  have hread := run_calls hw h.own
  have hwanted := wanted_of_synced hw h hp hv
  obtain ⟨args, hargs⟩ := hread param hp value hv
  have hget : getenv (run sh L b ω).env param = some value := by
    rw [h.env, if_pos hp, hwanted, Option.some_or]
  refine ⟨hwanted, args, hargs, ?_⟩
  exact (((run_wrote hw hread).stored param hp value hv args hargs value).1 hget).1

/-- **For values without a meaning to the shell**: exactly if there are single
    blanks in them, between words. -/
theorem sync_iff_single (hw : WellFormed b.env)
    (hchars : ∀ param ∈ parameters, ∀ value, b.update L param = some value →
      ∀ c ∈ value, isPlain c = true) :
    Synced sh L b ω ω' ↔ ∀ param ∈ parameters, ∀ value, b.update L param = some value →
      b.wanted L param = some value ∧ Single isBlank ' ' value := by
  constructor
  · intro h param hp value hv
    obtain ⟨hwanted, hread⟩ := reads_of_synced hw h param hp value hv
    exact ⟨hwanted, (reads_iff_single hp (hchars param hp value hv) _).1 hread⟩
  · intro h
    refine synced_of_reads hw fun param hp value hv => ?_
    obtain ⟨hwanted, hsingle⟩ := h param hp value hv
    exact ⟨hwanted, (reads_iff_single hp (hchars param hp value hv) _).2 hsingle⟩

/-- Lines that are no calls do nothing. -/
def harmless : Oracle NetResp := fun _ o =>
  match o with
  | .read _ => ()
  | .checkOutput _ => ⟨some [], []⟩
  | .print _ => ()

/-- A device with this identity, and an SD card with the address of another one. -/
def boardWith (devid : String) : Board where
  files file := if file = devidfile then .ok devid.toList else .error .ioError
  machinfo := "himx0294-ivqp\n".toList
  env := [("ethaddr".toList, "00:07:8e:00:00:01".toList)]
  ran := []

theorem boardWith_wellFormed (devid : String) : WellFormed (boardWith devid).env := by
  have hname := mem_parameters (List.mem_cons_self .. : "ethaddr".toList ∈ parameters)
  have hvalue : "00:07:8e:00:00:01".toList.all (fun c => !isNewline c) = true := by decide
  refine ⟨by simp [boardWith], ?_, ?_⟩
  · intro x hx
    rw [List.mem_singleton.1 hx]
    exact hname
  · intro x hx c hc
    rw [List.mem_singleton.1 hx] at hc
    simpa using List.all_eq_true.1 hvalue c hc

end MetaHipos.NetCheck
