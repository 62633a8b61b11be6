/-
  Sources of device trees, as far as they consist of nodes and of properties
  that are strings, cells or included files.

  * `render`: the text of a tree, one line for each property;
  * `lex`, `parse`: the tokens of a text, and the tree of the tokens;
  * `parse_render`: a tree whose texts are clean comes back from its text.
-/
import Mathlib.Data.List.Basic

namespace Dts

/-- Texts are lists of characters. -/
abbrev Text := List Char

/-! ## Trees -/

/-- A value: strings, a cell, or the contents of a file. -/
inductive Value where
  | strs (s : Text) (more : List Text)
  | cells (cell : Text)
  | incbin (path : Text)
deriving DecidableEq, Repr

/-- The contents of a node: its properties and nodes, in their order. -/
inductive Items where
  | nil
  | prop (name : Text) (value : Value) (rest : Items)
  | node (name : Text) (children rest : Items)
deriving DecidableEq, Repr

namespace Items

/-- The items of two nodes, one after the other. -/
def append : Items → Items → Items
  | nil, js => js
  | prop n v is, js => prop n v (append is js)
  | node n cs is, js => node n cs (append is js)

instance : Append Items := ⟨append⟩

/-- The nodes, with their contents. -/
def nodes : Items → List (Text × Items)
  | nil => []
  | prop _ _ is => nodes is
  | node n cs is => (n, cs) :: nodes is

/-- The names of the nodes. -/
def names (is : Items) : List Text := is.nodes.map Prod.fst

/-- The contents of the first node of a name. -/
def child (n : Text) : Items → Option Items
  | nil => none
  | prop _ _ is => child n is
  | node m cs is => if m = n then some cs else child n is

/-- The values of a property. -/
def values (n : Text) : Items → List Value
  | nil => []
  | prop m v is => if m = n then v :: values n is else values n is
  | node _ _ is => values n is

end Items

/-! ## Texts -/

/-- The indentation of a line. -/
def tabs (n : ℕ) : Text := List.replicate n '\t'

/-- A string between its quotes. -/
def quoted (s : Text) : Text := '"' :: (s ++ ['"'])

/-- The words that are not names of the tree. -/
def incbinWord : Text := "/incbin/".toList

/-- The word a source begins with. -/
def versionWord : Text := "/dts-v1/".toList

/-- The text of a value. -/
def renderValue : Value → Text
  | .strs s more => quoted s ++ more.flatMap fun s => ',' :: ' ' :: quoted s
  | .cells c => '<' :: (c ++ ['>'])
  | .incbin p => incbinWord ++ '(' :: (quoted p ++ [')'])

/-- The lines of a node, `n` is how deep it is. -/
def renderItems (n : ℕ) : Items → Text
  | .nil => []
  | .prop m v is =>
    tabs n ++ (m ++ ' ' :: '=' :: ' ' :: (renderValue v ++ ';' :: '\n' :: renderItems n is))
  | .node m cs is =>
    tabs n ++ (m ++ ' ' :: '\x7b' :: '\n' :: (renderItems (n + 1) cs ++
      (tabs n ++ '\x7d' :: ';' :: '\n' :: renderItems n is)))

/-- The text of a tree. -/
def render (root : Items) : Text :=
  versionWord ++ ';' :: '\n' :: '\n' :: renderItems 0 (.node ['/'] root .nil)

/-! ## Tokens -/

/-- Tokens; names are all words without quotes. -/
inductive Tok where
  | name (t : Text)
  | str (t : Text)
  | punct (c : Char)
deriving DecidableEq, Repr

/-- A character of a name. -/
def isName (c : Char) : Bool := c.isAlphanum || c ∈ ['/', '-', '_', '.', '+', '#', '@']

/-- A character that is a token. -/
def isPunct (c : Char) : Bool := c ∈ ['\x7b', '\x7d', ';', '=', '<', '>', '(', ')', ',']

/-- A character between tokens. -/
def isSpace (c : Char) : Bool := c ∈ [' ', '\t', '\n']

/-- What is read: nothing, a name, a string. -/
inductive State where
  | start
  | name (t : Text)
  | str (t : Text)

/-- The first character after a token. -/
def first (c : Char) : Option (List Tok × State) :=
  if isSpace c then some ([], .start)
  else if isPunct c then some ([.punct c], .start)
  else if isName c then some ([], .name [c])
  else if c = '"' then some ([], .str [])
  else none

/-- The tokens of a text. -/
def lex : State → Text → Option (List Tok)
  | .start, [] => some []
  | .name t, [] => some [.name t]
  | .str _, [] => none
  | .start, c :: cs => do
    let (toks, s) ← first c
    (lex s cs).map (toks ++ ·)
  | .name t, c :: cs =>
    if isName c then lex (.name (t ++ [c])) cs
    else do
      let (toks, s) ← first c
      (lex s cs).map (.name t :: toks ++ ·)
  | .str t, c :: cs =>
    if c = '"' then (lex .start cs).map (.str t :: ·)
    else if c = '\\' then none -- escapes are not supported
    else lex (.str (t ++ [c])) cs

/-! ## Parser -/

/-- Strings with commas between them. -/
def parseStrs : List Tok → Option (List Text × List Tok)
  | .str s :: .punct ',' :: toks => (parseStrs toks).map fun r => (s :: r.1, r.2)
  | .str s :: toks => some ([s], toks)
  | _ => none

/-- The value of a property. -/
def parseValue : List Tok → Option (Value × List Tok)
  | .punct '<' :: .name c :: .punct '>' :: toks => some (.cells c, toks)
  | .name n :: .punct '(' :: .str p :: .punct ')' :: toks =>
    if n = incbinWord then some (.incbin p, toks) else none
  | toks =>
    match parseStrs toks with
    | some (s :: more, toks) => some (.strs s more, toks)
    | _ => none

/-- The contents of a node, up to its end; `depth` bounds the number of items. -/
def parseItems : (depth : ℕ) → List Tok → Option (Items × List Tok)
  | depth + 1, .name n :: .punct '=' :: toks =>
    match parseValue toks with
    | some (v, .punct ';' :: toks) =>
      (parseItems depth toks).map fun r => (.prop n v r.1, r.2)
    | _ => none
  | depth + 1, .name n :: .punct '\x7b' :: toks =>
    match parseItems depth toks with
    | some (cs, .punct '\x7d' :: .punct ';' :: toks) =>
      (parseItems depth toks).map fun r => (.node n cs r.1, r.2)
    | _ => none
  | _, toks => some (.nil, toks)

/-- The contents of the root. -/
def parse (text : Text) : Option Items :=
  match lex .start text with
  | some (.name v :: .punct ';' :: toks) =>
    if v = versionWord then
      match parseItems (toks.length + 1) toks with
      | some (.node r root .nil, []) => if r = ['/'] then some root else none
      | _ => none
    else none
  | _ => none

/-! ## Clean texts -/

/-- A name that is read back as one token. -/
def CleanName (n : Text) : Prop := n ≠ [] ∧ ∀ c ∈ n, isName c = true

theorem cleanName_of {n : Text} (hne : n ≠ []) (h : n.all isName = true) : CleanName n :=
  ⟨hne, List.all_eq_true.1 h⟩

/-- A string without quotes and escapes. -/
def CleanStr (s : Text) : Prop := ∀ c ∈ s, c ≠ '"' ∧ c ≠ '\\'

/-- A value of such names and strings. -/
def Value.Clean : Value → Prop
  | .strs s more => ∀ t ∈ s :: more, CleanStr t
  | .cells c => CleanName c
  | .incbin p => CleanStr p

/-- A tree of such names and values. -/
def Items.Clean : Items → Prop
  | .nil => True
  | .prop n v is => CleanName n ∧ v.Clean ∧ is.Clean
  | .node n cs is => CleanName n ∧ cs.Clean ∧ is.Clean

section
variable {n s rest : Text} {c : Char} {is js : Items}

theorem renderItems_append (d : ℕ) :
    renderItems d (is ++ js) = renderItems d is ++ renderItems d js := by
  induction is with
  | nil => rfl
  | prop n v is ih =>
    show renderItems d (.prop n v (is ++ js)) = _
    rw [renderItems, renderItems, ih]
    simp only [List.append_assoc, List.cons_append]
  | node n cs is _ ih =>
    show renderItems d (.node n cs (is ++ js)) = _
    rw [renderItems, renderItems, ih]
    simp only [List.append_assoc, List.cons_append]

@[simp] theorem nodes_append : (is ++ js).nodes = is.nodes ++ js.nodes := by
  induction is with
  | nil => rfl
  | prop n v is ih => exact ih
  | node n cs is _ ih => exact congrArg ((n, cs) :: ·) ih

@[simp] theorem values_append (n : Text) : (is ++ js).values n = is.values n ++ js.values n := by
  induction is with
  | nil => rfl
  | prop m v is ih =>
    show (if m = n then v :: (is ++ js).values n else (is ++ js).values n) =
      (if m = n then v :: is.values n else is.values n) ++ js.values n
    rw [ih]
    split_ifs <;> rfl
  | node m cs is _ ih => exact ih

/-! ## The tokens of a text -/

theorem lex_start_cons : lex .start (c :: rest) =
    (first c).bind fun r => (lex r.2 rest).map (r.1 ++ ·) := rfl

theorem lex_name_cons : lex (.name s) (c :: rest) =
    if isName c then lex (.name (s ++ [c])) rest
    else (first c).bind fun r => (lex r.2 rest).map (.name s :: r.1 ++ ·) := rfl

theorem lex_str_cons : lex (.str s) (c :: rest) =
    if c = '"' then (lex .start rest).map (.str s :: ·)
    else if c = '\\' then none
    else lex (.str (s ++ [c])) rest := rfl

theorem lex_space (h : isSpace c = true) : lex .start (c :: rest) = lex .start rest := by
  rw [lex_start_cons, first, if_pos h]
  simp

theorem lex_spaces (h : ∀ c ∈ s, isSpace c = true) : lex .start (s ++ rest) = lex .start rest := by
  induction s with
  | nil => rfl
  | cons c s ih =>
    rw [List.cons_append, lex_space (h c List.mem_cons_self)]
    exact ih fun d hd => h d (List.mem_cons_of_mem c hd)

theorem lex_tabs (d : ℕ) : lex .start (tabs d ++ rest) = lex .start rest :=
  lex_spaces fun c hc => by rw [List.eq_of_mem_replicate hc]; decide

theorem lex_punct (h : isPunct c = true) (hs : isSpace c = false) :
    lex .start (c :: rest) = (lex .start rest).map (.punct c :: ·) := by
  rw [lex_start_cons, first, if_neg (by simp [hs]), if_pos h]
  rfl

theorem lex_str_rest (hs : CleanStr s) (t : Text) :
    lex (.str t) (s ++ '"' :: rest) = (lex .start rest).map (.str (t ++ s) :: ·) := by
  induction s generalizing t with
  | nil => rw [List.nil_append, lex_str_cons, if_pos rfl, List.append_nil]
  | cons c s ih =>
    obtain ⟨hq, hb⟩ := hs c List.mem_cons_self
    rw [List.cons_append, lex_str_cons, if_neg hq, if_neg hb,
      ih fun d hd => hs d (List.mem_cons_of_mem c hd), List.append_assoc, List.singleton_append]

theorem lex_quoted (hs : CleanStr s) :
    lex .start (quoted s ++ rest) = (lex .start rest).map (.str s :: ·) := by
  rw [quoted, List.cons_append, List.append_assoc, List.singleton_append, lex_start_cons,
    show first '"' = some ([], .str []) from rfl, Option.bind_some, lex_str_rest hs]
  simp [Function.comp_def]

theorem lex_name_rest (hn : ∀ c ∈ n, isName c = true) (hc : isName c = false) (t : Text) :
    lex (.name t) (n ++ c :: rest) = (lex .start (c :: rest)).map (.name (t ++ n) :: ·) := by
  induction n generalizing t with
  | nil =>
    rw [List.nil_append, lex_name_cons, if_neg (by simp [hc]), lex_start_cons, List.append_nil,
      Option.map_bind]
    congr 1
    funext r
    simp [Function.comp_def]
  | cons d n ih =>
    rw [List.cons_append, lex_name_cons, if_pos (hn d List.mem_cons_self),
      ih fun e he => hn e (List.mem_cons_of_mem d he), List.append_assoc, List.singleton_append]

/-- The punctuation and the blanks are not part of names. -/
theorem not_isName (c : Char)
    (hc : c ∈ [' ', '\t', '\n', '\x7b', '\x7d', ';', '=', '<', '>', '(', ')', ',']) :
    isName c = false := by
  have hall : [' ', '\t', '\n', '\x7b', '\x7d', ';', '=', '<', '>', '(', ')', ','].all
      (fun c => !isName c) = true := by decide
  simpa using List.all_eq_true.1 hall c hc

theorem first_of_isName (h : isName c = true) : first c = some ([], .name [c]) := by
  have hfree : isSpace c = false ∧ isPunct c = false := by
    constructor <;> rw [Bool.eq_false_iff]
    · intro hs
      have hmem : c ∈ [' ', '\t', '\n'] := by simpa [isSpace] using hs
      rw [not_isName c (by simp only [List.mem_cons] at hmem ⊢; tauto)] at h
      cases h
    · intro hp
      have hmem : c ∈ ['\x7b', '\x7d', ';', '=', '<', '>', '(', ')', ','] := by
        simpa [isPunct] using hp
      rw [not_isName c (by simp only [List.mem_cons] at hmem ⊢; tauto)] at h
      cases h
  rw [first, if_neg (by simp [hfree.1]), if_neg (by simp [hfree.2]), if_pos h]

theorem lex_name (hn : CleanName n) (hc : isName c = false) :
    lex .start (n ++ c :: rest) = (lex .start (c :: rest)).map (.name n :: ·) := by
  obtain ⟨hne, hn⟩ := hn
  cases n with
  | nil => exact absurd rfl hne
  | cons d n =>
    rw [List.cons_append, lex_start_cons, first_of_isName (hn d List.mem_cons_self),
      Option.bind_some, lex_name_rest (fun e he => hn e (List.mem_cons_of_mem d he)) hc]
    simp [Function.comp_def]

/-! ## The tokens of a tree -/

/-- The tokens of the strings after the first. -/
def moreToks (more : List Text) : List Tok := more.flatMap fun s => [.punct ',', .str s]

/-- The tokens of a value. -/
def valueToks : Value → List Tok
  | .strs s more => .str s :: moreToks more
  | .cells c => [.punct '<', .name c, .punct '>']
  | .incbin p => [.name incbinWord, .punct '(', .str p, .punct ')']

/-- The tokens of a node. -/
def toks : Items → List Tok
  | .nil => []
  | .prop n v is => .name n :: .punct '=' :: (valueToks v ++ .punct ';' :: toks is)
  | .node n cs is =>
    .name n :: .punct '\x7b' :: (toks cs ++ .punct '\x7d' :: .punct ';' :: toks is)

theorem lex_more {more : List Text} (h : ∀ t ∈ more, CleanStr t) :
    lex .start ((more.flatMap fun s => ',' :: ' ' :: quoted s) ++ rest) =
      (lex .start rest).map (moreToks more ++ ·) := by
  induction more with
  | nil => simp [moreToks]
  | cons t more ih =>
    simp only [List.flatMap_cons, List.cons_append, List.append_assoc]
    rw [lex_punct (by decide) (by decide), lex_space (by decide),
      lex_quoted (h t List.mem_cons_self), ih fun u hu => h u (List.mem_cons_of_mem t hu)]
    simp [moreToks, Function.comp_def]

theorem lex_value {v : Value} (h : v.Clean) :
    lex .start (renderValue v ++ rest) = (lex .start rest).map (valueToks v ++ ·) := by
  cases v with
  | strs s more =>
    rw [renderValue, List.append_assoc, lex_quoted (h s List.mem_cons_self),
      lex_more fun t ht => h t (List.mem_cons_of_mem s ht)]
    simp [valueToks, Function.comp_def]
  | cells c =>
    simp only [renderValue, List.cons_append, List.append_assoc, List.nil_append]
    rw [lex_punct (by decide) (by decide), lex_name h (by decide), lex_punct (by decide) (by decide)]
    simp [valueToks, Function.comp_def]
  | incbin p =>
    have hname : CleanName incbinWord := cleanName_of (by decide) (by decide)
    rw [renderValue]
    simp only [List.cons_append, List.append_assoc, List.nil_append]
    rw [lex_name hname (by decide), lex_punct (by decide) (by decide), lex_quoted h,
      lex_punct (by decide) (by decide)]
    simp [valueToks, Function.comp_def]

/-- **The tokens of the text of a tree.** -/
theorem lex_renderItems (h : is.Clean) (d : ℕ) (rest : Text) :
    lex .start (renderItems d is ++ rest) = (lex .start rest).map (toks is ++ ·) := by
  induction is generalizing d rest with
  | nil => simp [renderItems, toks]
  | prop n v is ih =>
    obtain ⟨hn, hv, his⟩ := h
    simp only [renderItems, List.append_assoc, List.cons_append]
    rw [lex_tabs, lex_name hn (by decide), lex_space (by decide), lex_punct (by decide) (by decide),
      lex_space (by decide), lex_value hv, lex_punct (by decide) (by decide),
      lex_space (by decide), ih his]
    simp [toks, Function.comp_def]
  | node n cs is ihc ih =>
    obtain ⟨hn, hcs, his⟩ := h
    simp only [renderItems, List.append_assoc, List.cons_append]
    rw [lex_tabs, lex_name hn (by decide), lex_space (by decide), lex_punct (by decide) (by decide),
      lex_space (by decide), ihc hcs, lex_tabs, lex_punct (by decide) (by decide),
      lex_punct (by decide) (by decide), lex_space (by decide), ih his]
    simp [toks, Function.comp_def]

/-! ## The tree of the tokens -/

theorem parseStrs_toks (s : Text) (more : List Text) (ts : List Tok) :
    parseStrs (.str s :: (moreToks more ++ .punct ';' :: ts)) =
      some (s :: more, .punct ';' :: ts) := by
  induction more generalizing s with
  | nil => rfl
  | cons t more ih =>
    have hmore : moreToks (t :: more) ++ .punct ';' :: ts =
        .punct ',' :: .str t :: (moreToks more ++ .punct ';' :: ts) := rfl
    rw [hmore, parseStrs, ih]
    rfl

theorem parseValue_toks (v : Value) (ts : List Tok) :
    parseValue (valueToks v ++ .punct ';' :: ts) = some (v, .punct ';' :: ts) := by
  cases v with
  | strs s more => simp only [valueToks, List.cons_append, parseValue, parseStrs_toks]
  | cells c => rfl
  | incbin p => simp only [valueToks, List.cons_append, parseValue, if_pos, List.nil_append]

/-- The tokens do not begin with a name. -/
def Closed (ts : List Tok) : Prop := ∀ n us, ts ≠ .name n :: us

theorem parseItems_closed {ts : List Tok} (h : Closed ts) (d : ℕ) :
    parseItems d ts = some (.nil, ts) := by
  cases d with
  | zero => rfl
  | succ d =>
    cases ts with
    | nil => rfl
    | cons t ts =>
      cases t with
      | name n => exact absurd rfl (h n ts)
      | _ => rfl

/-- How many items follow each other, or lie in each other. -/
def depth : Items → ℕ
  | .nil => 0
  | .prop _ _ is => depth is + 1
  | .node _ cs is => max (depth cs) (depth is) + 1

theorem parseItems_toks (is : Items) {ts : List Tok} (hts : Closed ts) {d : ℕ} (hd : depth is ≤ d) :
    parseItems d (toks is ++ ts) = some (is, ts) := by
  induction is generalizing d ts with
  | nil => exact parseItems_closed hts d
  | prop n v is ih =>
    obtain ⟨d, rfl⟩ : ∃ d', d = d' + 1 := ⟨d - 1, by rw [depth] at hd; omega⟩
    rw [depth] at hd
    simp only [toks, List.cons_append, List.append_assoc, parseItems, parseValue_toks,
      ih hts (Nat.le_of_succ_le_succ hd), Option.map_some]
  | node n cs is ihc ih =>
    obtain ⟨d, rfl⟩ : ∃ d', d = d' + 1 := ⟨d - 1, by rw [depth] at hd; omega⟩
    rw [depth] at hd
    have hclosed : Closed (.punct '\x7d' :: .punct ';' :: (toks is ++ ts)) := by
      intro n us h
      cases h
    simp only [toks, List.cons_append, List.append_assoc, parseItems,
      ihc hclosed (Nat.le_trans (Nat.le_max_left ..) (Nat.le_of_succ_le_succ hd)),
      ih hts (Nat.le_trans (Nat.le_max_right ..) (Nat.le_of_succ_le_succ hd)), Option.map_some]

theorem depth_le (is : Items) : depth is ≤ (toks is).length := by
  induction is with
  | nil => exact Nat.zero_le _
  | prop n v is ih =>
    simp only [depth, toks, List.length_cons, List.length_append]
    omega
  | node n cs is ihc ih =>
    simp only [depth, toks, List.length_cons, List.length_append]
    omega

/-- **Round trip**: a clean tree comes back from its text. -/
theorem parse_render (h : is.Clean) : parse (render is) = some is := by
  have hversion : CleanName versionWord := cleanName_of (by decide) (by decide)
  have hroot : (Items.node ['/'] is .nil).Clean :=
    ⟨cleanName_of (by decide) (by decide), h, trivial⟩
  have hclosed : Closed [] := by
    intro n us h
    cases h
  have hlex := lex_renderItems hroot 0 []
  rw [List.append_nil] at hlex
  have hitems := parseItems_toks (.node ['/'] is .nil) hclosed (Nat.le_succ_of_le (depth_le _))
  rw [List.append_nil] at hitems
  rw [parse, render, lex_name hversion (by decide), lex_punct (by decide) (by decide),
    lex_space (by decide), lex_space (by decide), hlex]
  simp only [lex, Option.map_some, List.append_nil, if_pos, hitems]

end

end Dts
