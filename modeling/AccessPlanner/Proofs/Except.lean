import Mathlib.Data.List.Forall2

/-!
# Computations that may fail

A sequence succeeds iff both of its parts do (`bind_eq_ok_iff`), and a traversal succeeds iff every
visit does: the results correspond to the elements one by one (`forall₂_of_mapM_eq_ok`).
-/

namespace AccessPlanner

variable {α β ε : Type}

theorem bind_eq_ok_iff {first : Except ε α} {next : α → Except ε β} {result : β} :
    first >>= next = .ok result ↔ ∃ value, first = .ok value ∧ next value = .ok result := by
  cases first with
  | error error =>
    constructor
    · intro h
      cases h
    · rintro ⟨value, h, -⟩
      cases h
  | ok value =>
    constructor
    · intro h
      exact ⟨value, rfl, h⟩
    · rintro ⟨other, h, hnext⟩
      cases h
      exact hnext

/-- A second part that gives back what it is given changes nothing. -/
theorem bind_eq_self_of_forall {first : Except ε α} {next : α → Except ε α}
    (h : ∀ value, first = .ok value → next value = .ok value) : first >>= next = first := by
  cases first with
  | error error => rfl
  | ok value => exact h value rfl

/-- Another wording of the failures changes no success. -/
theorem mapError_eq_ok_iff {δ : Type} {first : Except ε α} {reword : ε → δ} {result : α} :
    first.mapError reword = .ok result ↔ first = .ok result := by
  cases first <;> simp [Except.mapError]

/-! ### Traversals -/

theorem forall₂_of_mapM_eq_ok {visit : α → Except ε β} {elements : List α} {results : List β}
    (h : elements.mapM visit = .ok results) :
    List.Forall₂ (fun element result => visit element = .ok result) elements results := by
  induction elements generalizing results with
  | nil =>
    rw [List.mapM_nil] at h
    obtain rfl := Except.ok.inj h
    exact .nil
  | cons element rest ih =>
    rw [List.mapM_cons] at h
    obtain ⟨first, hfirst, h⟩ := bind_eq_ok_iff.mp h
    obtain ⟨others, hothers, h⟩ := bind_eq_ok_iff.mp h
    obtain rfl := Except.ok.inj h
    exact .cons hfirst (ih hothers)

/-- What is true of every success is true of all results. -/
theorem forall_mem_of_mapM_eq_ok {visit : α → Except ε β} {p : β → Prop}
    (hvisit : ∀ element result, visit element = .ok result → p result) {elements : List α}
    {results : List β} (h : elements.mapM visit = .ok results) : ∀ result ∈ results, p result := by
  have hvisited := forall₂_of_mapM_eq_ok h
  clear h
  induction hvisited with
  | nil => exact List.forall_mem_nil p
  | cons hfirst _ ih => exact List.forall_mem_cons.mpr ⟨hvisit _ _ hfirst, ih⟩

/-- A traversal in which every visit succeeds with what is known. -/
theorem mapM_eq_ok_map {visit : α → Except ε β} {known : α → β} {elements : List α}
    (h : ∀ element ∈ elements, visit element = .ok (known element)) :
    elements.mapM visit = .ok (elements.map known) := by
  induction elements with
  | nil => rfl
  | cons element rest ih =>
    obtain ⟨hfirst, hrest⟩ := List.forall_mem_cons.mp h
    rw [List.mapM_cons, hfirst, ih hrest]
    rfl

/-- A traversal in which certain elements fail, all with the same error. -/
theorem mapM_ite_error (fails : α → Bool) (error : ε) (known : α → β)
    (elements : List α) :
    (elements.mapM fun element => if fails element then .error error else .ok (known element)) =
      if elements.any fails then Except.error error else .ok (elements.map known) := by
  induction elements with
  | nil => rfl
  | cons element rest ih =>
    rw [List.mapM_cons, List.any_cons, ih]
    cases fails element with
    | true => rfl
    | false => cases rest.any fails <;> rfl

/-- A traversal that undoes a translation, element by element. -/
theorem mapM_map_eq_ok {write : β → α} {visit : α → Except ε β} {elements : List β}
    (h : ∀ element ∈ elements, visit (write element) = .ok element) :
    (elements.map write).mapM visit = .ok elements := by
  have hmap : elements.mapM (visit ∘ write) = .ok (elements.map id) := mapM_eq_ok_map h
  rwa [List.map_id, ← List.mapM_map] at hmap

end AccessPlanner
