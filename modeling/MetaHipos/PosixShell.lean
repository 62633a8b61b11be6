/-
  The POSIX shell, for programs that give it a command line.

  What a line with operators, quotes or expansions runs depends on much that is
  outside of the program; it is a parameter.  A line of ordinary characters is
  one command, whose words are what the blanks separate.

  * `Shell`: the shell, with that law;
  * `sequenced`: a shell that knows the operator `;`.
-/
import MetaHipos.Words

namespace PosixShell

open Words

/-- What files and command lines are made of. -/
abbrev Text := List Char

/-- The characters between words. -/
def isBlank (c : Char) : Bool := c == ' ' || c == '\t'

/-- A character that has no meaning to the shell, wherever it stands. -/
def isOrdinary (c : Char) : Bool :=
  c.isAlphanum || c ∈ ['_', '-', '.', '/', ':', '+', ',', '@', '%']

/-- The characters of a line of words. -/
def isPlain (c : Char) : Bool := isOrdinary c || isBlank c

/-- Words that are no commands at the beginning of a line. -/
def reservedWords : List Text :=
  ["if", "then", "else", "elif", "fi", "do", "done", "case", "esac", "while", "until", "for",
    "in"].map String.toList

/-- A line of ordinary words that begins with the name of a command. -/
structure Plain (line : Text) : Prop where
  chars : ∀ c ∈ line, isPlain c = true
  ne_nil : words isBlank line ≠ []
  not_reserved : (words isBlank line).headD [] ∉ reservedWords

/-- Plain texts with a blank between them. -/
theorem chars_append {a b : Text} (ha : ∀ c ∈ a, isPlain c = true)
    (hb : ∀ c ∈ b, isPlain c = true) : ∀ c ∈ a ++ ' ' :: b, isPlain c = true := by
  intro c hc
  rcases List.mem_append.1 hc with hc | hc
  · exact ha c hc
  · rcases List.mem_cons.1 hc with rfl | hc
    · rfl
    · exact hb c hc

theorem isPlain_of_ordinary {c : Char} (h : isOrdinary c = true) : isPlain c = true := by
  rw [isPlain, h, Bool.true_or]

theorem isBlank_of_ordinary {c : Char} (h : isOrdinary c = true) : isBlank c = false := by
  cases hb : isBlank c with
  | false => rfl
  | true =>
    rcases Bool.or_eq_true_iff.1 hb with hb | hb
    · rw [beq_iff_eq.1 hb] at h
      exact absurd h (by decide)
    · rw [beq_iff_eq.1 hb] at h
      exact absurd h (by decide)

/-- A shell: the commands a line makes it run, each with its words after all
    expansions. -/
structure Shell where
  commands : Text → List (List Text)
  plain : ∀ line, Plain line → commands line = [words isBlank line]

theorem not_plain_semicolon : isPlain ';' = false := by decide

/-- A shell that knows the operator `;`. -/
def sequenced : Shell where
  commands line := ((pieces (· == ';') line).map (words isBlank)).filter fun ws => !ws.isEmpty
  plain line h := by
    have hfree : ∀ c ∈ line, (c == ';') = false := by
      intro c hc
      rw [beq_eq_false_iff_ne]
      rintro rfl
      have hplain := h.chars ';' hc
      rw [not_plain_semicolon] at hplain
      cases hplain
    rw [pieces_of_free hfree, List.map_singleton]
    simpa using h.ne_nil

end PosixShell
