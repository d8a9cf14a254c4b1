import Mathlib.Data.List.Infix

/-!
# Lines

A text is read line by line, and the lines are searched for a pattern.
-/

namespace Lines

variable {α : Type*}

/-- One more character at the front of the first line. -/
def extend (a : α) : List (List α) → List (List α)
  | [] => [[a]]
  | l :: ls => (a :: l) :: ls

theorem extend_append (a : α) {ls : List (List α)} (some' : ls ≠ []) (ls' : List (List α)) :
    extend a (ls ++ ls') = extend a ls ++ ls' := by
  cases ls with
  | nil => exact absurd rfl some'
  | cons l ls => rfl

theorem extend_ne_nil (a : α) (ls : List (List α)) : extend a ls ≠ [] := by
  cases ls <;> exact List.cons_ne_nil _ _

/-- A pattern does not begin in a part of the text without its first character. -/
theorem infix_append_iff {a : α} {pattern front : List α} (absent : a ∉ front) (rest : List α) :
    (a :: pattern) <:+: front ++ rest ↔ (a :: pattern) <:+: rest := by
  induction front with
  | nil => rfl
  | cons b front ih =>
    obtain ⟨other, absent'⟩ := not_or.1 fun h => absent (List.mem_cons.2 h)
    rw [List.cons_append, List.infix_cons_iff, ih absent', or_iff_right]
    exact fun first => other (List.cons_prefix_cons.1 first).1

/-- Nor does it end with a character that it does not contain. -/
theorem infix_concat_iff {a : α} {pattern : List α} (absent : a ∉ pattern) (some' : pattern ≠ [])
    (text : List α) : pattern <:+: text ++ [a] ↔ pattern <:+: text := by
  rw [List.infix_concat_iff, or_iff_right]
  intro last
  obtain ⟨front, e⟩ := last
  have ends := congrArg List.getLast? e
  rw [List.getLast?_concat, List.getLast?_append_of_ne_nil _ some'] at ends
  exact absent (List.mem_of_getLast? ends)

variable [DecidableEq α]

/-- The lines of a text, each ended by a separator. What is after the last one is a line unless it is
empty. -/
def lines (sep : α) : List α → List (List α)
  | [] => []
  | a :: text => if a = sep then [] :: lines sep text else extend a (lines sep text)

/-- The lines in which the pattern occurs. -/
def grep (sep : α) (pattern text : List α) : List (List α) :=
  (lines sep text).filter fun l => pattern <:+: l

variable {sep : α}

theorem lines_ne_nil {text : List α} (some' : text ≠ []) : lines sep text ≠ [] := by
  cases text with
  | nil => exact absurd rfl some'
  | cons a text =>
    unfold lines
    split_ifs
    · exact List.cons_ne_nil _ _
    · exact extend_ne_nil a _

/-- What is before a separator and what is after it are read apart. -/
theorem lines_append (text rest : List α) :
    lines sep (text ++ sep :: rest) = lines sep (text ++ [sep]) ++ lines sep rest := by
  induction text with
  | nil =>
    rw [List.nil_append, List.nil_append, lines, lines, if_pos rfl, if_pos rfl]
    rfl
  | cons a text ih =>
    rw [List.cons_append, List.cons_append, lines, lines, ih]
    split_ifs
    · rfl
    · exact extend_append a (lines_ne_nil (by simp)) _

theorem lines_of_not_mem {text : List α} (one : sep ∉ text) : lines sep (text ++ [sep]) = [text] := by
  induction text with
  | nil =>
    rw [List.nil_append, lines, if_pos rfl]
    rfl
  | cons a text ih =>
    obtain ⟨other, rest⟩ := not_or.1 fun h => one (List.mem_cons.2 h)
    rw [List.cons_append, lines, if_neg (Ne.symm other), ih rest]
    rfl

theorem prefix_of_lines {text l : List α} {ls : List (List α)} (split : lines sep text = l :: ls) :
    l <+: text := by
  induction text generalizing l ls with
  | nil => cases split
  | cons a text ih =>
    rw [lines] at split
    split_ifs at split with ends
    · rw [← (List.cons.inj split).1]
      exact List.nil_prefix
    · cases rest : lines sep text with
      | nil =>
        rw [rest] at split
        rw [← (List.cons.inj split).1]
        exact List.prefix_append [a] text
      | cons first later =>
        rw [rest] at split
        rw [← (List.cons.inj split).1]
        exact (List.prefix_cons_inj a).2 (ih rest)

theorem infix_of_mem_lines {text l : List α} (mem : l ∈ lines sep text) : l <:+: text := by
  induction text with
  | nil => exact absurd mem List.not_mem_nil
  | cons a text ih =>
    cases split : lines sep (a :: text) with
    | nil =>
      rw [split] at mem
      exact absurd mem List.not_mem_nil
    | cons first later =>
      have front := prefix_of_lines split
      rw [split] at mem
      rcases List.mem_cons.1 mem with rfl | mem
      · exact front.isInfix
      · refine List.infix_cons (ih ?_)
        rw [lines] at split
        split_ifs at split
        · rw [(List.cons.inj split).2]
          exact mem
        · cases rest : lines sep text with
          | nil =>
            rw [rest] at split
            rw [← (List.cons.inj split).2] at mem
            exact absurd mem List.not_mem_nil
          | cons l ls =>
            rw [rest] at split
            rw [← (List.cons.inj split).2] at mem
            exact List.mem_cons_of_mem _ mem

theorem not_mem_of_mem_lines {text l : List α} (mem : l ∈ lines sep text) : sep ∉ l := by
  induction text generalizing l with
  | nil => exact absurd mem List.not_mem_nil
  | cons a text ih =>
    rw [lines] at mem
    split_ifs at mem with ends
    · rcases List.mem_cons.1 mem with rfl | mem
      · exact List.not_mem_nil
      · exact ih mem
    · have other {l : List α} (rest : sep ∉ l) : sep ∉ a :: l := fun h =>
        (List.mem_cons.1 h).elim (fun e => ends e.symm) rest
      cases split : lines sep text with
      | nil =>
        rw [split] at mem
        obtain rfl := List.mem_singleton.1 mem
        exact other List.not_mem_nil
      | cons first later =>
        rw [split] at mem ih
        rcases List.mem_cons.1 mem with rfl | mem
        · exact other (ih List.mem_cons_self)
        · exact ih (List.mem_cons_of_mem _ mem)

/-- A part of the text without a separator lies in one of the lines. -/
theorem exists_line {text part : List α} (inside : part <:+: text) (one : sep ∉ part)
    (some' : part ≠ []) : ∃ l ∈ lines sep text, part <:+: l := by
  have front (text part : List α) (first : part <+: text) (one : sep ∉ part) (some' : part ≠ []) :
      ∃ l ls, lines sep text = l :: ls ∧ part <+: l := by
    induction text generalizing part with
    | nil => exact absurd (List.prefix_nil.1 first) some'
    | cons a text ih =>
      cases part with
      | nil => exact absurd rfl some'
      | cons b part =>
        obtain ⟨rfl, first'⟩ := List.cons_prefix_cons.1 first
        obtain ⟨other, one'⟩ := not_or.1 fun h => one (List.mem_cons.2 h)
        rw [lines, if_neg (Ne.symm other)]
        cases part with
        | nil =>
          cases lines sep text with
          | nil => exact ⟨_, _, rfl, List.prefix_refl _⟩
          | cons l ls => exact ⟨_, _, rfl, List.prefix_append [b] l⟩
        | cons c part =>
          obtain ⟨l, ls, split, more⟩ := ih (c :: part) first' one' (List.cons_ne_nil _ _)
          rw [split]
          exact ⟨_, _, rfl, (List.prefix_cons_inj b).2 more⟩
  induction text with
  | nil => exact absurd (List.infix_nil.1 inside) some'
  | cons a text ih =>
    rcases List.infix_cons_iff.1 inside with first | later
    · obtain ⟨l, ls, split, more⟩ := front _ _ first one some'
      exact ⟨l, by rw [split]; exact List.mem_cons_self, more.isInfix⟩
    · obtain ⟨l, mem, more⟩ := ih later
      unfold lines
      split_ifs
      · exact ⟨l, List.mem_cons_of_mem _ mem, more⟩
      · cases split : lines sep text with
        | nil =>
          rw [split] at mem
          exact absurd mem List.not_mem_nil
        | cons first rest =>
          rw [split] at mem
          rcases List.mem_cons.1 mem with rfl | mem
          · exact ⟨_, List.mem_cons_self, List.infix_cons more⟩
          · exact ⟨l, List.mem_cons_of_mem _ mem, more⟩

/-! ## The lines that are found -/

variable {pattern : List α}

theorem grep_append (text rest : List α) :
    grep sep pattern (text ++ sep :: rest) =
      grep sep pattern (text ++ [sep]) ++ grep sep pattern rest := by
  rw [grep, lines_append, List.filter_append]
  rfl

theorem grep_of_not_mem {text : List α} (one : sep ∉ text) :
    grep sep pattern (text ++ [sep]) = if pattern <:+: text then [text] else [] := by
  rw [grep, lines_of_not_mem one, List.filter_singleton]
  split_ifs with h
  · rw [decide_eq_true h]
    rfl
  · rw [decide_eq_false h]
    rfl

/-- A pattern without a separator is found iff it occurs in the text. -/
theorem grep_eq_nil_iff (one : sep ∉ pattern) (some' : pattern ≠ []) {text : List α} :
    grep sep pattern text = [] ↔ ¬ pattern <:+: text := by
  rw [grep, List.filter_eq_nil_iff]
  constructor
  · intro nowhere inside
    obtain ⟨l, mem, more⟩ := exists_line inside one some'
    exact nowhere l mem (decide_eq_true more)
  · intro nowhere l mem found
    exact nowhere ((of_decide_eq_true found).trans (infix_of_mem_lines mem))

end Lines
