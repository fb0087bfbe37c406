import AccessPlanner.Text.Blank
import Mathlib.Data.List.DropRight

/-!
# Trimmed texts and words

A text is its trimmed form between blanks (`exists_eq_append_trim`), and blanks at the ends of a
text do not change its trimmed form (`trim_append`).  So nothing is left to trim in a trimmed text.

A text without blanks is a word.  What stands in front of a text stays as it is when the end of the
text is trimmed (`trimEnd_append`), and a word is found there again (`IsWord.firstWord_append`).
-/

namespace AccessPlanner

/-! ### Trimmed texts -/

/-- A text of blanks. -/
abbrev IsAllBlank (text : List Char) : Prop := ∀ c ∈ text, isBlank c = true

/-- A text without the blanks at its end, and these. -/
theorem exists_eq_trimEnd_append (text : List Char) :
    ∃ after, IsAllBlank after ∧ text = trimEnd text ++ after := by
  refine ⟨text.rtakeWhile isBlank, fun c hc => List.mem_rtakeWhile_imp hc, ?_⟩
  exact List.rdropWhile_append_rtakeWhile.symm

/-- **A text is its trimmed form between blanks.** -/
theorem exists_eq_append_trim (text : List Char) :
    ∃ before after, IsAllBlank before ∧ IsAllBlank after ∧ text = before ++ trim text ++ after := by
  obtain ⟨after, hafter, heq⟩ := exists_eq_trimEnd_append (text.dropWhile isBlank)
  refine ⟨text.takeWhile isBlank, after, fun c hc => List.mem_takeWhile_imp hc, hafter, ?_⟩
  unfold trim
  rw [List.append_assoc, ← heq, List.takeWhile_append_dropWhile]

/-- **Blanks at the ends do not matter.** -/
theorem trim_append {before after : List Char} (hbefore : IsAllBlank before)
    (hafter : IsAllBlank after) (text : List Char) :
    trim (before ++ text ++ after) = trim text := by
  have hend (text : List Char) : trimEnd (text ++ after) = trimEnd text := by
    unfold trimEnd
    rw [List.reverse_append,
      List.dropWhile_append_of_pos fun c hc => hafter c (List.mem_reverse.mp hc)]
  unfold trim
  rw [List.append_assoc, List.dropWhile_append_of_pos hbefore, List.dropWhile_append]
  split
  next hblank =>
    rw [List.isEmpty_iff.mp hblank, List.dropWhile_eq_nil_iff.mpr hafter]
  next => exact hend _

theorem trim_trim (text : List Char) : trim (trim text) = trim text := by
  obtain ⟨before, after, hbefore, hafter, heq⟩ := exists_eq_append_trim text
  calc trim (trim text) = trim (before ++ trim text ++ after) :=
        (trim_append hbefore hafter _).symm
    _ = trim text := by rw [← heq]

theorem trim_trimEnd (text : List Char) : trim (trimEnd text) = trim text := by
  obtain ⟨after, hafter, heq⟩ := exists_eq_trimEnd_append text
  calc trim (trimEnd text) = trim ([] ++ trimEnd text ++ after) :=
        (trim_append (List.forall_mem_nil _) hafter _).symm
    _ = trim text := by rw [List.nil_append, ← heq]

/-- **What stands in front of a text** is not trimmed at its end, unless the text is blank. -/
theorem trimEnd_append (before : List Char) {text : List Char} (h : trim text ≠ []) :
    trimEnd (before ++ text) = before ++ trimEnd text := by
  have hrest : (text.reverse.dropWhile isBlank).isEmpty = false := by
    rw [List.isEmpty_eq_false_iff]
    intro hnil
    have hend : trimEnd text = [] := congrArg List.reverse hnil
    rw [← trim_trimEnd, hend] at h
    exact h rfl
  rw [trimEnd, List.reverse_append, List.dropWhile_append, hrest, if_neg Bool.false_ne_true,
    List.reverse_append, List.reverse_reverse]
  rfl

/-! ### Words -/

/-- A text without blanks. -/
def IsWord (text : List Char) : Prop := ∀ c ∈ text, isBlank c = false

instance (text : List Char) : Decidable (IsWord text) :=
  decidable_of_iff ((text.all fun c => !isBlank c) = true) (by simp [IsWord])

namespace IsWord

variable {word : List Char}

theorem dropWhile_append (h : IsWord word) (hsome : word ≠ []) (rest : List Char) :
    (word ++ rest).dropWhile isBlank = word ++ rest := by
  cases word with
  | nil => exact absurd rfl hsome
  | cons c more => exact List.dropWhile_cons_of_neg (by simp [h c (List.mem_cons_self ..)])

theorem trim_eq (h : IsWord word) : trim word = word := by
  have hkeep {text : List Char} (h : IsWord text) : text.dropWhile isBlank = text := by
    by_cases hsome : text = []
    · rw [hsome]
      rfl
    · simpa using h.dropWhile_append hsome []
  have hreverse : IsWord word.reverse := fun c hc => h c (List.mem_reverse.mp hc)
  rw [trim, trimEnd, hkeep h, hkeep hreverse, List.reverse_reverse]

/-- **The first word** of a text goes up to its first blank. -/
theorem firstWord_append (h : IsWord word) {rest : List Char}
    (hrest : ∀ c ∈ rest.head?, isBlank c = true) :
    firstWord (word ++ rest) = (word, rest.drop 1) := by
  have hall : ∀ c ∈ word, (!isBlank c) = true := fun c hc => by rw [h c hc]; rfl
  unfold firstWord
  rw [List.takeWhile_append_of_pos hall, List.dropWhile_append_of_pos hall]
  cases rest with
  | nil =>
    rw [List.takeWhile_nil, List.append_nil]
    rfl
  | cons c more =>
    have hc : ¬ (!isBlank c) = true := by simp [hrest c rfl]
    rw [List.takeWhile_cons_of_neg (p := fun c => !isBlank c) hc,
      List.dropWhile_cons_of_neg (p := fun c => !isBlank c) hc, List.append_nil]

end IsWord

end AccessPlanner
