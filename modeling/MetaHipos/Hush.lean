/-
  The shell of a boot loader, for scripts of the simple kind: commands with a
  `;` between them, whose words are ordinary characters and `${name}`.

  The shell itself knows `run`, which executes the text of a variable, and
  `setenv`; every other command is external.  It may return, with success or
  without, or not return at all.  A text of another kind is not executed.

  * `line`: the execution of a text, `depth` is how far `run`s may be nested;
  * `Issues`: the external commands a script issues in any case, with one rule
    for each construct;
  * `Issues.log`: a run issues them in this order until one does not return.
-/
import Mathlib.Logic.Function.Basic
import MetaHipos.Process.Basic
import MetaHipos.Words

namespace Hush

open Process Words

/-- Texts are lists of characters. -/
abbrev Text := List Char

/-- The variables. -/
abbrev Vars := String → Option String

/-! ## Syntax -/

/-- A character between words. -/
def isBlank (c : Char) : Bool := c == ' ' || c == '\t'

/-- A character of a name. -/
def isName (c : Char) : Bool := c.isAlphanum || c == '_'

/-- A character that stands for itself. -/
def isOrdinary (c : Char) : Bool :=
  c.isAlphanum || c ∈ ['_', '-', '.', '/', ':', '+', ',', '@', '%', '=', '#']

/-- A part of a word: a character, or the value of a variable. -/
inductive Piece where
  | lit (c : Char)
  | var (name : Text)
deriving DecidableEq, Repr

/-- A word, before its expansion. -/
abbrev Word := List Piece

/-- Simple commands. -/
abbrev Script := List (List Word)

/-- The pieces of a word, `name` is the part of a name that was read. -/
def parseWord : Option Text → Text → Option Word
  | none, [] => some []
  | none, '$' :: '{' :: cs => parseWord (some []) cs
  | none, c :: cs => if isOrdinary c then (parseWord none cs).map (.lit c :: ·) else none
  | some _, [] => none
  | some name, c :: cs =>
    if c = '}' then (parseWord none cs).map (.var name :: ·)
    else if isName c then parseWord (some (name ++ [c])) cs
    else none

/-- The commands of a text; there are none if it is not of the simple kind. -/
def parse (text : Text) : Option Script :=
  (((pieces (· == ';') text).map (words isBlank)).filter fun ws => !ws.isEmpty).mapM
    fun ws => ws.mapM (parseWord none)

/-- The word that is `s`. -/
def word (s : String) : Word := s.toList.map .lit

/-! ## Expansion -/

/-- The text of a piece. -/
def expandPiece (vars : Vars) : Piece → Text
  | .lit c => [c]
  | .var name => ((vars (String.ofList name)).getD "").toList

/-- The text of a word. -/
def expandWord (vars : Vars) (w : Word) : Text := w.flatMap (expandPiece vars)

/-- A word of ordinary characters, that does not begin a comment. -/
def plainWord (w : Text) : Bool := !w.isEmpty && w.head? != some '#' && w.all isOrdinary

/-- A command of such words, that does not begin with an assignment. -/
def plainCommand (ws : List Text) : Bool := ws.all plainWord && !(ws.headD []).contains '='

/-- The words of a command.  They are read again after the expansion: a value
    may be several words. -/
def expand (vars : Vars) (c : List Word) : Option (List Text) :=
  let ws := words isBlank (joinWith ' ' (c.map (expandWord vars)))
  if plainCommand ws then some ws else none

/-! ## Execution -/

/-- An external command, with what this command sees of the variables. -/
structure External (τ : Type) where
  words : List Text
  sees : τ

/-- What becomes of an external command: it does not return, or it does, with
    success or without. -/
inductive Outcome where
  | gone
  | returned (ok : Bool)
deriving DecidableEq, Repr

/-- Why an execution does not come to its end: an external command does not
    return, a text is not of the simple kind, or `run`s are nested too deep. -/
inductive Stop where
  | gone
  | unsupported
  | nested
deriving DecidableEq, Repr

/-- Executions. -/
abbrev Shell (τ : Type) := Proc (External τ) (fun _ => Outcome) Stop

section
variable {τ : Type} (see : List Text → Vars → τ) (line : String → Vars → Shell τ (Bool × Vars))

/-- An external command. -/
def external (ws : List Text) (vars : Vars) : Shell τ (Bool × Vars) :=
  .call ⟨ws, see ws vars⟩ fun
    | .gone => .stop .gone
    | .returned ok => pure (ok, vars)

/-- `setenv name value …`: without a value, the variable is deleted. -/
def setenv : List Text → Vars → Shell τ (Bool × Vars)
  | [], vars => pure (false, vars)
  | name :: value, vars =>
    if name.contains '=' then pure (false, vars)
    else
      pure (true, Function.update vars (String.ofList name)
        (if value = [] then none else some (String.ofList (joinWith ' ' value))))

/-- `run name …`, up to the first failure. -/
def runVars : List Text → Vars → Shell τ (Bool × Vars)
  | [], vars => pure (true, vars)
  | name :: names, vars =>
    match vars (String.ofList name) with
    | none => pure (false, vars)
    | some text => do
      let (ok, vars) ← line text vars
      if ok then runVars names vars else pure (false, vars)

/-- A simple command. -/
def simple : List Text → Vars → Shell τ (Bool × Vars)
  | [], vars => pure (true, vars)
  | cmd :: args, vars =>
    if cmd = "run".toList then runVars line args vars
    else if cmd = "setenv".toList then setenv args vars
    else external see (cmd :: args) vars

/-- A failure does not keep the next command from being executed. -/
def commands : Script → Bool → Vars → Shell τ (Bool × Vars)
  | [], ok, vars => pure (ok, vars)
  | c :: cs, _, vars =>
    match expand vars c with
    | none => .stop .unsupported
    | some ws => do
      let (ok, vars) ← simple see line ws vars
      commands cs ok vars

end

/-- The execution of a text. -/
def line {τ : Type} (see : List Text → Vars → τ) : (depth : ℕ) → String → Vars → Shell τ (Bool × Vars)
  | 0, _, _ => .stop .nested
  | depth + 1, text, vars =>
    match parse text.toList with
    | none => .stop .unsupported
    | some script => commands see (line see depth) script true vars

/-! ## What a script issues -/

variable {τ α β : Type}

/-- The execution issues `es`, whatever they return, unless one of them does not;
    `Q` holds of what it returns. -/
inductive Issues (Q : α → Prop) : List (External τ) → Shell τ α → Prop
  | ret {a : α} (h : Q a) : Issues Q [] (.ret a)
  | call {e : External τ} {es : List (External τ)} {k : Outcome → Shell τ α}
      (hgone : k .gone = .stop .gone) (hret : ∀ ok, Issues Q es (k (.returned ok))) :
      Issues Q (e :: es) (.call e k)

/-- The variables at the end. -/
def Leaves (vars : Vars) (r : Bool × Vars) : Prop := r.2 = vars

theorem Issues.bind {Q : α → Prop} {Q' : β → Prop} {es es' : List (External τ)} {p : Shell τ α}
    {f : α → Shell τ β} (hp : Issues Q es p) (hf : ∀ a, Q a → Issues Q' es' (f a)) :
    Issues Q' (es ++ es') (p >>= f) := by
  rw [Proc.bind_eq]
  induction hp with
  | ret h => exact hf _ h
  | call hgone _ ih => exact .call (congrArg (Proc.bind · f) hgone) ih

section
variable {see : List Text → Vars → τ} {vars vars₁ vars₂ : Vars} {es es₁ es₂ : List (External τ)}
  {exec : String → Vars → Shell τ (Bool × Vars)} {ok : Bool}

theorem issues_line {depth : ℕ} {text : String} {script : Script}
    (hparse : parse text.toList = some script)
    (h : Issues (Leaves vars₁) es (commands see (line see depth) script true vars)) :
    Issues (Leaves vars₁) es (line see (depth + 1) text vars) := by
  simpa only [line, hparse] using h

theorem issues_nil : Issues (Leaves vars) [] (commands see exec [] ok vars) := .ret rfl

theorem issues_cons {c : List Word} {cs : Script} {ws : List Text} (hexp : expand vars c = some ws)
    (hc : Issues (Leaves vars₁) es₁ (simple see exec ws vars))
    (hcs : ∀ ok, Issues (Leaves vars₂) es₂ (commands see exec cs ok vars₁)) :
    Issues (Leaves vars₂) (es₁ ++ es₂) (commands see exec (c :: cs) ok vars) := by
  simp only [commands, hexp]
  refine hc.bind ?_
  rintro ⟨ok, v⟩ hv
  obtain rfl : v = vars₁ := hv
  exact hcs ok

/-- `run name` -/
theorem issues_run {name : String} {text : String} (hvar : vars name = some text)
    (h : Issues (Leaves vars₁) es (exec text vars)) :
    Issues (Leaves vars₁) es (simple see exec ["run".toList, name.toList] vars) := by
  rw [simple, if_pos rfl, runVars]
  simp only [String.ofList_toList, hvar]
  rw [← List.append_nil es]
  refine h.bind ?_
  rintro ⟨ok, v⟩ hv
  obtain rfl : v = vars₁ := hv
  cases ok <;> exact .ret rfl

variable (see exec vars) in
/-- `setenv name value …` -/
theorem issues_setenv (name : String) (value : List Text) (hname : '=' ∉ name.toList)
    (hvalue : value ≠ []) :
    Issues (Leaves (Function.update vars name (some (String.ofList (joinWith ' ' value))))) []
      (simple see exec ("setenv".toList :: name.toList :: value) vars) := by
  rw [simple, if_neg (by decide), if_pos rfl, setenv, if_neg (by simpa using hname),
    String.ofList_toList, if_neg hvalue]
  exact .ret rfl

variable (see exec vars) in
theorem issues_external (cmd : Text) (args : List Text) (hrun : cmd ≠ "run".toList)
    (hsetenv : cmd ≠ "setenv".toList) :
    Issues (Leaves vars) [⟨cmd :: args, see (cmd :: args) vars⟩] (simple see exec (cmd :: args) vars) := by
  rw [simple, if_neg hrun, if_neg hsetenv]
  exact .call rfl fun ok => .ret rfl

end

/-! ## Expansion, word by word -/

theorem plainWord_append {a b : Text} (ha : plainWord a = true)
    (hb : ∀ c ∈ b, isOrdinary c = true) : plainWord (a ++ b) = true := by
  cases a with
  | nil => cases ha
  | cons c a =>
    have hb := List.all_eq_true.2 hb
    simp_all [plainWord]

theorem plainCommand_append {c : Text} (ws ws' : List Text) (h : plainCommand (c :: ws) = true)
    (h' : ∀ w ∈ ws', plainWord w = true) : plainCommand (c :: (ws ++ ws')) = true := by
  have h' := List.all_eq_true.2 h'
  simp_all [plainCommand]

section
variable {vars : Vars}

@[simp] theorem expandWord_nil : expandWord vars [] = [] := rfl

@[simp] theorem expandWord_lit (c : Char) (w : Word) :
    expandWord vars (.lit c :: w) = c :: expandWord vars w := rfl

@[simp] theorem expandWord_var (name : String) (w : Word) :
    expandWord vars (.var name.toList :: w) =
      ((vars name).getD "").toList ++ expandWord vars w := by
  rw [expandWord, List.flatMap_cons, expandPiece, String.ofList_toList, expandWord]

@[simp] theorem expandWord_word (s : String) : expandWord vars (word s) = s.toList := by
  simp only [word, expandWord, List.flatMap_map, expandPiece, List.flatMap_singleton']

@[simp] theorem expandWord_word_append (s : String) (w : Word) :
    expandWord vars (word s ++ w) = s.toList ++ expandWord vars w := by
  rw [expandWord, List.flatMap_append, ← expandWord, ← expandWord, expandWord_word]

end

/-- The words of a command whose expansions are words. -/
theorem expand_eq {vars : Vars} {c : List Word} {ws : List Text}
    (h : c.map (expandWord vars) = ws) (hplain : plainCommand ws = true) :
    expand vars c = some ws := by
  have hword : ∀ w ∈ ws, IsWord isBlank w := by
    intro w hw
    have hw := (List.all_eq_true.1 (Bool.and_eq_true_iff.1 hplain).1) w hw
    simp only [plainWord, Bool.and_eq_true, Bool.not_eq_true', List.all_eq_true] at hw
    refine ⟨by simpa using hw.1.1, fun x hx => ?_⟩
    have hx := hw.2 x hx
    cases hblank : isBlank x with
    | false => rfl
    | true =>
      rcases Bool.or_eq_true_iff.1 hblank with hb | hb
      · rw [beq_iff_eq.1 hb] at hx
        exact absurd hx (by decide)
      · rw [beq_iff_eq.1 hb] at hx
        exact absurd hx (by decide)
  rw [expand, h, words_joinWith (by decide) hword, if_pos hplain]

/-! ## Runs -/

/-- The commands that were issued so far. -/
def history (τ : Type) :
    Env (External τ) (fun _ => Outcome) (fun _ => Outcome) (List (External τ)) where
  reply _ r _ := r
  next e _ log := log ++ [e]

/-- **A run issues the commands of the script**, up to one that does not return. -/
theorem Issues.log {Q : α → Prop} {es : List (External τ)} {p : Shell τ α} (h : Issues Q es p)
    (log : List (External τ)) (ω : Oracle fun _ : External τ => Outcome) :
    ∃ issued rest, es = issued ++ rest ∧ (exec (history τ) p log ω).2.1 = log ++ issued ∧
      ((∃ a, (exec (history τ) p log ω).1 = .done a ∧ Q a ∧ rest = []) ∨
        (exec (history τ) p log ω).1 = .stopped .gone ∧ issued ≠ [] ∧ ∃ n e, ω n e = .gone) := by
  induction h generalizing log ω with
  | @ret a h => exact ⟨[], [], rfl, by simp [exec], .inl ⟨a, rfl, h, rfl⟩⟩
  | @call e es k hgone _ ih =>
    rw [exec]
    cases hω : ω 0 e with
    | gone =>
      refine ⟨[e], es, rfl, ?_, .inr ⟨?_, List.cons_ne_nil _ _, 0, e, hω⟩⟩
      · simp only [history, hgone, exec]
      · simp only [history, hgone, exec]
    | returned ok =>
      obtain ⟨issued, rest, hes, hlog, hend⟩ := ih ok (log ++ [e]) ω.tail
      refine ⟨e :: issued, rest, by rw [hes, List.cons_append], ?_, ?_⟩
      · exact hlog.trans (by rw [List.append_assoc]; rfl)
      · refine hend.imp_right ?_
        rintro ⟨hstop, -, n, e', hgone'⟩
        exact ⟨hstop, List.cons_ne_nil _ _, n + 1, e', hgone'⟩

end Hush
