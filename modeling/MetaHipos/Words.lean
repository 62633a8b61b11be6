/-
  Words and lines: texts in pieces.

  Characters of one kind separate the pieces of a text.  The words of a text are
  its pieces that are not empty; words can be put together again with a single
  separator between any two.

  * `pieces_append_sep`: the pieces on both sides of a separator;
  * `joinWith_words_iff`: a text is its words put together exactly if no
    separator but a single one between two words is in it.
-/
import Mathlib.Data.List.TakeWhile

namespace Words

variable {α : Type} (sep : α → Bool)

/-- What is before, between and after the separators. -/
def pieces : List α → List (List α)
  | [] => [[]]
  | c :: cs =>
    if sep c then [] :: pieces cs
    else (c :: (pieces cs).headD []) :: (pieces cs).tail

/-- The pieces that are not empty. -/
def words (text : List α) : List (List α) := (pieces sep text).filter fun w => !w.isEmpty

/-- The pieces, with a `b` between any two. -/
def joinWith (b : α) : List (List α) → List α
  | [] => []
  | [w] => w
  | w :: w' :: ws => w ++ b :: joinWith b (w' :: ws)

/-- A word has a character, and no separator. -/
def IsWord (w : List α) : Prop := w ≠ [] ∧ ∀ c ∈ w, sep c = false

/-- The text is words with a single `b` between any two. -/
def Single (b : α) (text : List α) : Prop :=
  ∃ ws, (∀ w ∈ ws, IsWord sep w) ∧ text = joinWith b ws

variable {sep} {w : List α} {ws : List (List α)} {text : List α} {b c : α}

theorem pieces_ne_nil (text : List α) : pieces sep text ≠ [] := by
  cases text with
  | nil => exact List.cons_ne_nil _ _
  | cons c cs =>
    rw [pieces]
    split <;> exact List.cons_ne_nil _ _

theorem pieces_of_free (h : ∀ c ∈ w, sep c = false) : pieces sep w = [w] := by
  induction w with
  | nil => rfl
  | cons c cs ih =>
    rw [pieces, ih fun d hd => h d (List.mem_cons_of_mem c hd)]
    simp [h c (List.mem_cons_self ..)]

/-- The pieces before a separator and those after it. -/
theorem pieces_append_sep (hb : sep b = true) (text rest : List α) :
    pieces sep (text ++ b :: rest) = pieces sep text ++ pieces sep rest := by
  induction text with
  | nil => simp [pieces, hb]
  | cons c cs ih =>
    rw [List.cons_append, pieces, pieces, ih]
    split
    · rfl
    · cases hcs : pieces sep cs with
      | nil => exact absurd hcs (pieces_ne_nil cs)
      | cons p ps => rfl

theorem pieces_append (h : ∀ c ∈ w, sep c = false) (hb : sep b = true) (rest : List α) :
    pieces sep (w ++ b :: rest) = w :: pieces sep rest := by
  rw [pieces_append_sep hb, pieces_of_free h, List.singleton_append]

theorem words_append_sep (hb : sep b = true) (text rest : List α) :
    words sep (text ++ b :: rest) = words sep text ++ words sep rest := by
  rw [words, pieces_append_sep hb, List.filter_append, ← words, ← words]

theorem words_of_isWord (h : IsWord sep w) : words sep w = [w] := by
  rw [words, pieces_of_free h.2]
  simpa using h.1

/-- The first piece is what is before the first separator. -/
theorem headD_pieces (text : List α) :
    (pieces sep text).headD [] = text.takeWhile fun c => !sep c := by
  induction text with
  | nil => rfl
  | cons c cs ih =>
    rw [pieces]
    cases hc : sep c with
    | true => simp [hc]
    | false => simp only [Bool.false_eq_true, if_false, List.headD_cons, ih, hc, Bool.not_false,
        List.takeWhile_cons_of_pos]

theorem free_of_mem_pieces (h : w ∈ pieces sep text) : ∀ c ∈ w, sep c = false := by
  induction text generalizing w with
  | nil =>
    rw [List.mem_singleton.1 h]
    simp
  | cons c cs ih =>
    rw [pieces] at h
    cases hc : sep c with
    | true =>
      rw [if_pos hc] at h
      rcases List.mem_cons.1 h with rfl | h
      · simp
      · exact ih h
    | false =>
      rw [if_neg (by simp [hc])] at h
      rcases List.mem_cons.1 h with rfl | h
      · intro d hd
        rcases List.mem_cons.1 hd with rfl | hd
        · exact hc
        · rw [headD_pieces] at hd
          simpa using List.mem_takeWhile_imp hd
      · exact ih (List.mem_of_mem_tail h)

theorem isWord_of_mem_words (h : w ∈ words sep text) : IsWord sep w := by
  obtain ⟨hmem, hne⟩ := List.mem_filter.1 h
  exact ⟨by simpa using hne, free_of_mem_pieces hmem⟩

/-- Words that are put together can be told apart again. -/
theorem words_joinWith (hb : sep b = true) (h : ∀ w ∈ ws, IsWord sep w) :
    words sep (joinWith b ws) = ws := by
  induction ws with
  | nil => rfl
  | cons w ws ih =>
    have hw := h w (List.mem_cons_self ..)
    cases ws with
    | nil => exact words_of_isWord hw
    | cons w' ws =>
      rw [joinWith, words_append_sep hb, words_of_isWord hw,
        ih fun v hv => h v (List.mem_cons_of_mem w hv), List.singleton_append]

/-- **A text is its words put together exactly if there is no separator in it but a
    single one between two words.** -/
theorem joinWith_words_iff (hb : sep b = true) :
    joinWith b (words sep text) = text ↔ Single sep b text := by
  constructor
  · intro h
    exact ⟨words sep text, fun w hw => isWord_of_mem_words hw, h.symm⟩
  · rintro ⟨ws, hws, rfl⟩
    rw [words_joinWith hb hws]

end Words
