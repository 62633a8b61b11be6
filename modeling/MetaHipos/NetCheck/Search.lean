/-
  The regular expressions of `hipos-net-check.py`.

  `re.search(f"^{param}=(.+)$", …, flags=re.MULTILINE)` looks for the pattern at
  the beginning of each line in turn.

  * `reSearch`: the search, from one position to the next;
  * `reSearch_eq`: it finds the first line of the parameter that has a value;
  * `reSearch_printenv`: in the output of `fw_printenv` that is the value of the
    variable, unless it is empty.
-/
import MetaHipos.PosixShell

namespace MetaHipos.NetCheck

open Words PosixShell

/-! ## Searching -/

/-- The end of a line. -/
def isNewline (c : Char) : Bool := c == '\n'

/-- What `.+` matches: the rest of the line. -/
def restOfLine (text : Text) : Text := text.takeWhile fun c => !isNewline c

/-- The group of the first match of `^<pattern>(.+)$` from here on; `bol` if this
    is the beginning of a line. -/
def searchFrom (pattern : Text) : Bool → Text → Option Text
  | _, [] => none
  | bol, c :: cs =>
    if bol && pattern.isPrefixOf (c :: cs) &&
        !(restOfLine ((c :: cs).drop pattern.length)).isEmpty then
      some (restOfLine ((c :: cs).drop pattern.length))
    else searchFrom pattern (isNewline c) cs

/-- `re.search(f"^{param}=(.+)$", text, flags=re.MULTILINE)`, and its group. -/
def reSearch (param text : Text) : Option Text := searchFrom (param ++ ['=']) true text

/-- The value a line gives to the parameter of the pattern. -/
def lineValue (pattern line : Text) : Option Text :=
  if pattern.isPrefixOf line && !(line.drop pattern.length).isEmpty then
    some (line.drop pattern.length)
  else none

section
variable {pattern text line : Text}

theorem restOfLine_eq (text : Text) : restOfLine text = (pieces isNewline text).headD [] :=
  (headD_pieces text).symm

/-- A match does not go beyond the line. -/
theorem match_line (hp : ∀ c ∈ pattern, isNewline c = false) (text : Text) :
    pattern.isPrefixOf text = pattern.isPrefixOf (restOfLine text) ∧
      (pattern.isPrefixOf text = true →
        restOfLine (text.drop pattern.length) = (restOfLine text).drop pattern.length) := by
  induction pattern generalizing text with
  | nil => exact ⟨rfl, fun _ => rfl⟩
  | cons p ps ih =>
    have hps := ih fun c hc => hp c (List.mem_cons_of_mem p hc)
    cases text with
    | nil => exact ⟨rfl, fun _ => rfl⟩
    | cons c cs =>
      cases hc : isNewline c with
      | true =>
        have hpc : (p == c) = false := by
          rw [beq_eq_false_iff_ne]
          rintro rfl
          rw [hp p (List.mem_cons_self ..)] at hc
          cases hc
        have hno : (p :: ps).isPrefixOf (c :: cs) = false := by
          rw [List.isPrefixOf_cons_cons, hpc, Bool.false_and]
        have hnil : restOfLine (c :: cs) = [] := by simp [restOfLine, hc]
        rw [hno, hnil]
        exact ⟨rfl, fun h => by cases h⟩
      | false =>
        have hline : restOfLine (c :: cs) = c :: restOfLine cs := by simp [restOfLine, hc]
        rw [hline]
        simp only [List.isPrefixOf_cons_cons, (hps cs).1, List.length_cons, List.drop_succ_cons,
          Bool.and_eq_true]
        refine ⟨trivial, fun h => (hps cs).2 ?_⟩
        rw [(hps cs).1]
        exact h.2

/-- The pattern is found at the beginning of a line exactly if the line has a
    value. -/
theorem searchFrom_true (hp : ∀ c ∈ pattern, isNewline c = false) (c : Char) (cs : Text) :
    searchFrom pattern true (c :: cs) = (lineValue pattern (restOfLine (c :: cs))).or
      (searchFrom pattern (isNewline c) cs) := by
  obtain ⟨hpre, hdrop⟩ := match_line hp (c :: cs)
  rw [searchFrom, Bool.true_and, lineValue, ← hpre]
  cases hm : pattern.isPrefixOf (c :: cs) with
  | false => simp
  | true =>
    rw [hdrop hm, Bool.true_and]
    split <;> rfl

theorem searchFrom_false (c : Char) (cs : Text) :
    searchFrom pattern false (c :: cs) = searchFrom pattern (isNewline c) cs := by
  rw [searchFrom]
  simp

/-- From the middle of a line, the lines after it are searched. -/
theorem searchFrom_eq (hp : ∀ c ∈ pattern, isNewline c = false) (hne : pattern ≠ [])
    (text : Text) :
    searchFrom pattern true text = (pieces isNewline text).findSome? (lineValue pattern) ∧
      searchFrom pattern false text =
        (pieces isNewline text).tail.findSome? (lineValue pattern) := by
  have hempty : lineValue pattern [] = none := by
    cases pattern with
    | nil => exact absurd rfl hne
    | cons p ps => rfl
  induction text with
  | nil => exact ⟨by simp [searchFrom, pieces, hempty], rfl⟩
  | cons c cs ih =>
    rw [searchFrom_true hp, searchFrom_false, restOfLine_eq, pieces]
    cases hc : isNewline c with
    | true =>
      simp only [if_true, List.headD_cons, List.tail_cons, List.findSome?_cons, hempty, ih.1,
        Option.none_or]
      exact ⟨trivial, trivial⟩
    | false =>
      simp only [Bool.false_eq_true, if_false, List.headD_cons, List.tail_cons,
        List.findSome?_cons, ih.2]
      refine ⟨?_, trivial⟩
      cases lineValue pattern (c :: (pieces isNewline cs).headD []) <;> rfl

/-- **The search finds the first line of the parameter that has a value.** -/
theorem reSearch_eq {param : Text} (hp : ∀ c ∈ param, isNewline c = false) (text : Text) :
    reSearch param text =
      (pieces isNewline text).findSome? (lineValue (param ++ ['='])) := by
  refine (searchFrom_eq (fun c hc => ?_) (by simp) text).1
  rcases List.mem_append.1 hc with hc | hc
  · exact hp c hc
  · rw [List.mem_singleton.1 hc]
    rfl

/-- A value that is found is not empty, and has no newline. -/
theorem reSearch_value {param value : Text} (hp : ∀ c ∈ param, isNewline c = false)
    (h : reSearch param text = some value) :
    value ≠ [] ∧ ∀ c ∈ value, isNewline c = false := by
  rw [reSearch_eq hp] at h
  obtain ⟨line, hmem, hv⟩ := List.exists_of_findSome?_eq_some h
  unfold lineValue at hv
  split at hv
  · rename_i hc
    obtain rfl : line.drop (param ++ ['=']).length = value := Option.some.inj hv
    refine ⟨by simpa using (Bool.and_eq_true_iff.1 hc).2, fun c hmemc => ?_⟩
    exact free_of_mem_pieces hmem c (List.mem_of_mem_drop hmemc)
  · cases hv

end

/-! ## The environment of U-Boot -/

/-- The variables of U-Boot, as `fw_printenv` prints them. -/
abbrev UbootEnv := List (Text × Text)

/-- Each variable has one value; there is no newline in it, and neither a newline
    nor an equals sign in a name. -/
structure WellFormed (env : UbootEnv) : Prop where
  nodup : (env.map Prod.fst).Nodup
  names : ∀ x ∈ env, ∀ c ∈ x.1, isNewline c = false ∧ c ≠ '='
  values : ∀ x ∈ env, ∀ c ∈ x.2, isNewline c = false

/-- The value of a variable. -/
def getenv (env : UbootEnv) (name : Text) : Option Text :=
  (env.find? fun x => x.1 = name).map Prod.snd

/-- `fw_setenv <name> <value>`: an empty value deletes the variable. -/
def setenv (env : UbootEnv) (name value : Text) : UbootEnv :=
  (env.filter fun x => x.1 ≠ name) ++ if value = [] then [] else [(name, value)]

/-- `fw_printenv` -/
def printenv (env : UbootEnv) : Text := env.flatMap fun x => x.1 ++ '=' :: x.2 ++ ['\n']

section
variable {env : UbootEnv} {name value other param : Text}

/-- A variable has the value that was set, and none if that was empty. -/
theorem getenv_setenv_self_iff {v : Text} :
    getenv (setenv env name value) name = some v ↔ value = v ∧ v ≠ [] := by
  have hnone : (env.filter fun x => x.1 ≠ name).find? (fun x => x.1 = name) = none := by
    refine List.find?_eq_none.2 fun x hx => ?_
    simpa using (List.mem_filter.1 hx).2
  rw [getenv, setenv, List.find?_append, hnone]
  by_cases h : value = []
  · subst h
    simp [eq_comm]
  · rw [if_neg h]
    constructor
    · intro hv
      obtain rfl : value = v := by simpa using hv
      exact ⟨rfl, h⟩
    · rintro ⟨rfl, -⟩
      simp

theorem getenv_setenv_of_ne (h : other ≠ name) :
    getenv (setenv env name value) other = getenv env other := by
  have hnew : List.find? (fun x : Text × Text => x.1 = other)
      (if value = [] then [] else [(name, value)]) = none := by
    split
    · rfl
    · simp [Ne.symm h]
  rw [getenv, setenv, List.find?_append, hnew, Option.or_none, List.find?_filter, getenv]
  congr 2
  funext x
  by_cases hx : x.1 = other
  · simp [hx, h]
  · simp [hx]

/-- There is no newline in a value. -/
theorem WellFormed.getenv (h : WellFormed env) {v : Text} (hv : getenv env name = some v) :
    ∀ c ∈ v, isNewline c = false := by
  obtain ⟨x, hx, rfl⟩ := Option.map_eq_some_iff.1 hv
  exact h.values x (List.mem_of_find?_eq_some hx)

theorem WellFormed.setenv (h : WellFormed env)
    (hname : ∀ c ∈ name, isNewline c = false ∧ c ≠ '=')
    (hvalue : ∀ c ∈ value, isNewline c = false) : WellFormed (setenv env name value) := by
  unfold NetCheck.setenv
  refine ⟨?_, fun x hx => ?_, fun x hx => ?_⟩
  · rw [List.map_append, List.nodup_append]
    refine ⟨h.nodup.sublist (List.filter_sublist.map _), ?_, ?_⟩
    · split <;> simp
    · intro a ha b hb
      obtain ⟨x, hx, rfl⟩ := List.mem_map.1 ha
      have hxn : x.1 ≠ name := by simpa using (List.mem_filter.1 hx).2
      split at hb
      · cases hb
      · rw [List.mem_singleton.1 hb]
        exact hxn
  · rcases List.mem_append.1 hx with hx | hx
    · exact h.names x (List.mem_filter.1 hx).1
    · split at hx
      · cases hx
      · rw [List.mem_singleton.1 hx]
        exact hname
  · rcases List.mem_append.1 hx with hx | hx
    · exact h.values x (List.mem_filter.1 hx).1
    · split at hx
      · cases hx
      · rw [List.mem_singleton.1 hx]
        exact hvalue

/-- A line gives a value to the variable before its first equals sign. -/
theorem lineValue_eq (hp : ∀ c ∈ param, c ≠ '=') (hn : ∀ c ∈ name, c ≠ '=') :
    lineValue (param ++ ['=']) (name ++ '=' :: value) =
      if name = param ∧ value ≠ [] then some value else none := by
  have hfree : ∀ l : Text, (∀ c ∈ l, c ≠ '=') → ∀ c ∈ l, (c == '=') = false :=
    fun l hl c hc => beq_eq_false_iff_ne.2 (hl c hc)
  unfold lineValue
  by_cases hname : name = param
  · subst hname
    have hline : name ++ '=' :: value = (name ++ ['=']) ++ value := List.append_cons ..
    have hdrop : (name ++ '=' :: value).drop (name ++ ['=']).length = value := by
      rw [hline, List.drop_left]
    have hpre : (name ++ ['=']).isPrefixOf (name ++ '=' :: value) = true := by
      rw [List.isPrefixOf_iff_prefix, hline]
      exact List.prefix_append _ _
    rw [hdrop, hpre]
    cases value <;> simp
  · have hpre : (param ++ ['=']).isPrefixOf (name ++ '=' :: value) = false := by
      rw [Bool.eq_false_iff]
      intro hpre
      obtain ⟨t, ht⟩ := List.isPrefixOf_iff_prefix.1 hpre
      rw [← List.append_cons] at ht
      have hpieces := congrArg (pieces (· == '=')) ht
      rw [pieces_append (hfree _ hp) rfl, pieces_append (hfree _ hn) rfl] at hpieces
      exact hname (List.cons.inj hpieces).1.symm
    rw [hpre]
    simp [hname]

theorem pieces_printenv (h : WellFormed env) : pieces isNewline (printenv env) =
    (env.map fun x => x.1 ++ '=' :: x.2) ++ [[]] := by
  obtain ⟨-, hnames, hvalues⟩ := h
  induction env with
  | nil => rfl
  | cons x env ih =>
    have hfree : ∀ c ∈ x.1 ++ '=' :: x.2, isNewline c = false := by
      intro c hc
      rcases List.mem_append.1 hc with hc | hc
      · exact (hnames x (List.mem_cons_self ..) c hc).1
      · rcases List.mem_cons.1 hc with rfl | hc
        · rfl
        · exact hvalues x (List.mem_cons_self ..) c hc
    have hline : printenv (x :: env) = (x.1 ++ '=' :: x.2) ++ '\n' :: printenv env := by
      simp [printenv]
    rw [hline, pieces_append hfree rfl,
      ih (fun y hy => hnames y (List.mem_cons_of_mem x hy))
        fun y hy => hvalues y (List.mem_cons_of_mem x hy)]
    rfl

/-- The first line of a variable is its only one. -/
theorem findSome?_lineValue (h : WellFormed env)
    (hp : ∀ c ∈ param, isNewline c = false ∧ c ≠ '=') :
    env.findSome? (fun x => lineValue (param ++ ['=']) (x.1 ++ '=' :: x.2)) =
      (getenv env param).filter fun v => !v.isEmpty := by
  obtain ⟨hnodup, hnames, -⟩ := h
  have hval : ∀ x ∈ env, lineValue (param ++ ['=']) (x.1 ++ '=' :: x.2) =
      if x.1 = param ∧ x.2 ≠ [] then some x.2 else none := fun x hx =>
    lineValue_eq (fun c hc => (hp c hc).2) fun c hc => (hnames x hx c hc).2
  clear hnames
  induction env with
  | nil => rfl
  | cons x env ih =>
    rw [List.map_cons, List.nodup_cons] at hnodup
    have hrest : ∀ y ∈ env, lineValue (param ++ ['=']) (y.1 ++ '=' :: y.2) =
        if y.1 = param ∧ y.2 ≠ [] then some y.2 else none :=
      fun y hy => hval y (List.mem_cons_of_mem x hy)
    have ih' := ih hnodup.2 hrest
    rw [List.findSome?_cons, hval x (List.mem_cons_self ..)]
    by_cases hx : x.1 = param
    · have hget : getenv (x :: env) param = some x.2 := by simp [getenv, hx]
      rw [hget]
      by_cases hempty : x.2 = []
      · -- the other lines are those of other variables
        have hnone : env.findSome? (fun y => lineValue (param ++ ['=']) (y.1 ++ '=' :: y.2)) =
            none := by
          refine List.findSome?_eq_none_iff.2 fun y hy => ?_
          rw [hrest y hy, if_neg]
          rintro ⟨hy', -⟩
          exact hnodup.1 (List.mem_map.2 ⟨y, hy, hy'.trans hx.symm⟩)
        simp [hempty, hnone, Option.filter]
      · simp [hx, hempty, Option.filter]
    · have hget : getenv (x :: env) param = getenv env param := by simp [getenv, hx]
      rw [hget, ← ih']
      simp [hx]

/-- **What the search finds in the output of `fw_printenv`**: the value of the
    variable, unless it is empty. -/
theorem reSearch_printenv (h : WellFormed env)
    (hp : ∀ c ∈ param, isNewline c = false ∧ c ≠ '=') :
    reSearch param (printenv env) = (getenv env param).filter fun v => !v.isEmpty := by
  have hempty : lineValue (param ++ ['=']) [] = none := by
    unfold lineValue
    cases param <;> rfl
  rw [reSearch_eq fun c hc => (hp c hc).1, pieces_printenv h, List.findSome?_append,
    List.findSome?_cons, hempty, List.findSome?_nil, Option.or_none, List.findSome?_map]
  exact findSome?_lineValue h hp

end

end MetaHipos.NetCheck
