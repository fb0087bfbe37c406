import AccessPlanner.Json.Basic
import Mathlib.Data.List.Basic

/-!
# Objects and their fields

`Json.ofFields` puts fields in one after the other, each in the place of its name.  What comes out
are the same fields in ascending order, if their names are different (`Json.ofFields_eq_object`),
and in any case an object in which each name leads to its value (`Json.field?_ofFields_map`).
-/

namespace AccessPlanner

variable {β : Type}

/-! ### The order of fields -/

theorem insertAscending_perm {name : String} {value : β} {entries : List (String × β)}
    (h : name ∉ entries.map fun entry => entry.1) :
    (insertAscending name value entries).Perm ((name, value) :: entries) := by
  induction entries with
  | nil => exact .refl _
  | cons entry rest ih =>
    obtain ⟨other, old⟩ := entry
    rw [List.map_cons, List.mem_cons, not_or] at h
    unfold insertAscending
    split
    next => exact .refl _
    next hge =>
      split
      next => exact ((ih h.2).cons _).trans (.swap ..)
      next hle =>
        exact absurd (String.le_antisymm (String.not_lt.mp hle) (String.not_lt.mp hge)) h.1

/-- An entry whose name comes after all others goes to the end. -/
theorem insertAscending_eq_concat {name : String} {value : β} {entries : List (String × β)}
    (h : ∀ entry ∈ entries, entry.1 < name) :
    insertAscending name value entries = entries ++ [(name, value)] := by
  induction entries with
  | nil => rfl
  | cons entry rest ih =>
    obtain ⟨other, old⟩ := entry
    obtain ⟨hother, hrest⟩ := List.forall_mem_cons.mp h
    have hnot : ¬ name < other := fun hlt => String.lt_irrefl _ (String.lt_trans hlt hother)
    rw [insertAscending, if_neg hnot, if_pos hother, ih hrest, List.cons_append]

theorem foldl_insertAscending_pairwise {entries kept : List (String × β)}
    (h : kept.Pairwise fun a b => a.1 < b.1) :
    (entries.foldl (fun sorted entry => insertAscending entry.1 entry.2 sorted) kept).Pairwise
      fun a b => a.1 < b.1 := by
  induction entries generalizing kept with
  | nil => exact h
  | cons entry rest ih => exact ih (insertAscending_pairwise h)

theorem foldl_insertAscending_perm {entries kept : List (String × β)}
    (h : ((kept ++ entries).map fun entry => entry.1).Nodup) :
    (entries.foldl (fun sorted entry => insertAscending entry.1 entry.2 sorted) kept).Perm
      (kept ++ entries) := by
  induction entries generalizing kept with
  | nil => rw [List.foldl_nil, List.append_nil]
  | cons entry rest ih =>
    have hmiddle : (kept ++ entry :: rest).Perm (entry :: kept ++ rest) := List.perm_middle
    have hnew : entry.1 ∉ kept.map fun entry => entry.1 := by
      have hnodup := (hmiddle.map fun entry => entry.1).nodup_iff.mp h
      rw [List.cons_append, List.map_cons, List.nodup_cons, List.map_append, List.mem_append,
        not_or] at hnodup
      exact hnodup.1.1
    have hperm : (insertAscending entry.1 entry.2 kept ++ rest).Perm (kept ++ entry :: rest) :=
      ((insertAscending_perm hnew).append_right rest).trans hmiddle.symm
    exact (ih ((hperm.map _).nodup_iff.mpr h)).trans hperm

/-- **The object of some fields** has them in ascending order of their names, if the names are
different. -/
theorem Json.ofFields_eq_object {fields sorted : List (String × Json)} (hperm : sorted.Perm fields)
    (hsorted : (sorted.map fun field => field.1).Pairwise (· < ·)) :
    ofFields fields = .object sorted := by
  have hnodup : (sorted.map fun field => field.1).Nodup := by
    refine hsorted.imp ?_
    rintro name _ hlt rfl
    exact String.lt_irrefl name hlt
  have hfields : (fields.foldl (fun sorted field => insertAscending field.1 field.2 sorted) []).Perm
      ([] ++ fields) :=
    foldl_insertAscending_perm ((hperm.map fun field => field.1).nodup_iff.mp hnodup)
  refine congrArg object (List.Perm.eq_of_pairwise ?_ (foldl_insertAscending_pairwise .nil)
    (List.pairwise_map.mp hsorted) (hfields.trans hperm.symm))
  intro a b _ _ hab hba
  exact absurd (String.lt_trans hab hba) (String.lt_irrefl a.1)

/-! ### The values of fields -/

theorem lookup?_foldl_insertAscending (value : String → β) (name : String)
    (names : List String) (entries : List (String × β)) :
    lookup? name ((names.map fun other => (other, value other)).foldl
        (fun sorted entry => insertAscending entry.1 entry.2 sorted) entries) =
      if name ∈ names then some (value name) else lookup? name entries := by
  induction names generalizing entries with
  | nil => rfl
  | cons first rest ih =>
    rw [List.map_cons, List.foldl_cons, ih, lookup?_insertAscending]
    by_cases hrest : name ∈ rest
    · rw [if_pos hrest, if_pos (List.mem_cons_of_mem _ hrest)]
    · rw [if_neg hrest]
      by_cases hfirst : first = name
      · subst hfirst
        rw [if_pos rfl, if_pos (List.mem_cons_self ..)]
      · have hnot : name ∉ first :: rest := by
          rw [List.mem_cons, not_or]
          exact ⟨fun heq => hfirst heq.symm, hrest⟩
        rw [if_neg hfirst, if_neg hnot]

/-- **An object that gives some names their values** has these fields and no others. -/
theorem Json.field?_ofFields_map (value : String → Json) (name : String) (names : List String) :
    (ofFields (names.map fun other => (other, value other))).field? name =
      if name ∈ names then some (value name) else none :=
  lookup?_foldl_insertAscending value name names []

end AccessPlanner
