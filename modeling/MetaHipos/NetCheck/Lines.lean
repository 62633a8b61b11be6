/-
  The lines that the script gives to the shell.

  The values of the device identity go to the shell as they are.  The lines that
  ask for something are always read as the calls they are; a line that writes may
  be read as something else.

  * `Own`: what the shell has to run for a line;
  * `Reads`: a line that writes is read as its call, with the value unchanged;
  * `reads_iff_single`: when it is, for values without a meaning to the shell.
-/
import MetaHipos.NetCheck.Main

namespace MetaHipos.NetCheck

open Words PosixShell Process

/-- The lines of the script, and what the shell has to run for them. -/
inductive Own (opt : Text) : Text → List Text → Prop
  | machinfo : Own opt machinfoLine (Call.machinfo.command opt)
  | printenv : Own opt (printenvLine opt) (Call.printenv.command opt)
  | setenv {param : Text} (value : Text) (args : List Text) : param ∈ parameters →
      Own opt (setenvLine opt param value) ((Call.setenv param args).command opt)

/-- The shell reads the line as one call of `fw_setenv`, and its arguments with
    single blanks between them are the value. -/
def Reads (sh : Shell) (opt param value : Text) : Prop :=
  ∃ args, sh.commands (setenvLine opt param value) = [(Call.setenv param args).command opt] ∧
    joinWith ' ' args = value

variable {sh : Shell} {opt param value : Text} {args command : List Text}

/-! ## Commands -/

theorem ordinary_of_mem (h : param ∈ parameters) : ∀ c ∈ param, isOrdinary c = true := by
  have hall : parameters.all (fun p => p.all isOrdinary) = true := by decide
  exact List.all_eq_true.1 (List.all_eq_true.1 hall param h)

/-- The names of the parameters are names of variables. -/
theorem mem_parameters (h : param ∈ parameters) : ∀ c ∈ param, isNewline c = false ∧ c ≠ '=' := by
  intro c hc
  have hord := ordinary_of_mem h c hc
  refine ⟨beq_eq_false_iff_ne.2 ?_, ?_⟩ <;> rintro rfl <;> exact absurd hord (by decide)

theorem callOf_machinfo : callOf opt (Call.machinfo.command opt) = some .machinfo := if_pos rfl

theorem callOf_printenv : callOf opt (Call.printenv.command opt) = some .printenv := by
  have hne : Call.printenv.command opt ≠ Call.machinfo.command opt := by
    intro h
    exact absurd (List.cons.inj h).1 (by decide)
  rw [callOf, if_neg hne, if_pos rfl]

theorem callOf_setenv (h : param ∈ parameters) :
    callOf opt ((Call.setenv param args).command opt) = some (.setenv param args) := by
  have hne : (Call.setenv param args).command opt ≠ Call.machinfo.command opt := by
    intro h
    exact absurd (List.cons.inj h).1 (by decide)
  have hne' : (Call.setenv param args).command opt ≠ Call.printenv.command opt := by
    intro h
    exact absurd (List.cons.inj h).1 (by decide)
  have hdrop : ((Call.setenv param args).command opt).drop (words isBlank opt).length.succ =
      param :: args := by
    rw [Call.command, List.drop_succ_cons, List.drop_left]
  rw [callOf, if_neg hne, if_neg hne', hdrop]
  exact if_pos ⟨h, rfl⟩

theorem commands_machinfoLine : sh.commands machinfoLine = [Call.machinfo.command opt] := by
  have hchars : machinfoLine.all isPlain = true := by decide
  have hplain : Plain machinfoLine := ⟨List.all_eq_true.1 hchars, by decide, by decide⟩
  exact sh.plain _ hplain

theorem isWord_of_ordinary (hne : value ≠ []) (h : ∀ c ∈ value, isOrdinary c = true) :
    IsWord isBlank value := by
  exact ⟨hne, fun c hc => isBlank_of_ordinary (h c hc)⟩

theorem isBlank_blank : isBlank ' ' = true := rfl

theorem fwOpt_chars (machine : Text) :
    ∀ c ∈ fwOpt machine, isPlain c = true := by
  unfold fwOpt
  split
  · have hall : "-c /etc/fw_env-ipcam.config".toList.all isPlain = true := by decide
    exact List.all_eq_true.1 hall
  · simp

theorem words_printenvLine : words isBlank (printenvLine opt) = Call.printenv.command opt := by
  have hname : words isBlank fwPrintenv = [fwPrintenv] := by decide
  rw [printenvLine, words_append_sep isBlank_blank, hname, List.singleton_append]
  rfl

theorem words_setenvLine (h : param ∈ parameters) : words isBlank (setenvLine opt param value) =
    (Call.setenv param (words isBlank value)).command opt := by
  have hword : IsWord isBlank param :=
    isWord_of_ordinary (by revert h param; decide) (ordinary_of_mem h)
  have hline : setenvLine opt param value =
      fwSetenv ++ ' ' :: (opt ++ ' ' :: (param ++ ' ' :: value)) := by
    simp only [setenvLine, List.append_assoc, List.cons_append]
  have hname : words isBlank fwSetenv = [fwSetenv] := by decide
  rw [hline, words_append_sep isBlank_blank, words_append_sep isBlank_blank,
    words_append_sep isBlank_blank, hname, words_of_isWord hword, List.singleton_append,
    List.singleton_append]
  rfl

theorem commands_printenvLine (machine : Text) : sh.commands (printenvLine (fwOpt machine)) =
    [Call.printenv.command (fwOpt machine)] := by
  have hname : fwPrintenv.all isPlain = true := by decide
  have hres : fwPrintenv ∉ reservedWords := by decide
  have hplain : Plain (printenvLine (fwOpt machine)) := by
    refine ⟨chars_append (List.all_eq_true.1 hname) (fwOpt_chars machine), ?_, ?_⟩
    · rw [words_printenvLine]
      exact List.cons_ne_nil _ _
    · rw [words_printenvLine]
      exact hres
  rw [sh.plain _ hplain, words_printenvLine]

/-- A value of ordinary characters and blanks is split at the blanks. -/
theorem commands_setenvLine (h : param ∈ parameters)
    (hv : ∀ c ∈ value, isPlain c = true) (machine : Text) :
    sh.commands (setenvLine (fwOpt machine) param value) =
      [(Call.setenv param (words isBlank value)).command (fwOpt machine)] := by
  have hname : fwSetenv.all isPlain = true := by decide
  have hres : fwSetenv ∉ reservedWords := by decide
  have hparam : ∀ c ∈ param, isPlain c = true :=
    fun c hc => isPlain_of_ordinary (ordinary_of_mem h c hc)
  have hplain : Plain (setenvLine (fwOpt machine) param value) := by
    have hopt := chars_append (List.all_eq_true.1 hname) (fwOpt_chars machine)
    refine ⟨chars_append (chars_append hopt hparam) hv, ?_, ?_⟩
    · rw [words_setenvLine h]
      exact List.cons_ne_nil _ _
    · rw [words_setenvLine h]
      exact hres
  rw [sh.plain _ hplain, words_setenvLine h]

/-- For values without a meaning to the shell: single blanks, between words. -/
theorem reads_iff_single (h : param ∈ parameters)
    (hv : ∀ c ∈ value, isPlain c = true) (machine : Text) :
    Reads sh (fwOpt machine) param value ↔ Single isBlank ' ' value := by
  rw [← joinWith_words_iff isBlank_blank, Reads, commands_setenvLine h hv]
  constructor
  · rintro ⟨args, hargs, hjoin⟩
    have hsame := (List.cons.inj (List.cons.inj hargs).1).2
    rw [(List.cons.inj (List.append_cancel_left hsame)).2]
    exact hjoin
  · intro hjoin
    exact ⟨_, rfl, hjoin⟩

theorem own_setenvLine (h : param ∈ parameters)
    (hown : Own opt (setenvLine opt param value) command) :
    ∃ args, command = (Call.setenv param args).command opt := by
  generalize hline : setenvLine opt param value = line at hown
  cases hown with
  | machinfo => exact absurd (List.cons.inj hline).1 (by decide)
  | printenv =>
    have hname := (List.cons.inj (List.cons.inj (List.cons.inj (List.cons.inj hline).2).2).2).1
    exact absurd hname (by decide)
  | setenv value' args h' =>
    refine ⟨args, ?_⟩
    have hfree : ∀ p ∈ parameters, ∀ c ∈ p, isBlank c = false :=
      fun p hp c hc => isBlank_of_ordinary (ordinary_of_mem hp c hc)
    simp only [setenvLine, List.append_assoc, List.cons_append] at hline
    have hrest := (List.cons.inj (List.append_cancel_left
      (List.cons.inj (List.append_cancel_left hline)).2)).2
    have hpieces := congrArg (pieces isBlank) hrest
    rw [pieces_append (hfree _ h) isBlank_blank, pieces_append (hfree _ h') isBlank_blank]
      at hpieces
    rw [(List.cons.inj hpieces).1]

end MetaHipos.NetCheck
