import AccessPlanner.Store
import Mathlib.Data.List.Basic

/-!
# The order of documents

`IsStableSort` says what it means to put a list in order: the same elements, none before one that
has to come first, and elements that tie in the places in which they were.  There is at most one
such list (`IsStableSort.unique`), and sorting by an attribute gives it
(`isStableSort_sortByAttribute`) if the values of the attribute are in a total preorder.

Only the documents at hand have to be in order, and not all values: texts and numbers do not
compare, and then count as equal, which is not transitive.
-/

namespace AccessPlanner

/-! ### Stable sorting -/

variable {α : Type} {le : α → α → Bool}

/-- Whether neither of two elements has to come first. -/
def tied (le : α → α → Bool) (a b : α) : Bool := le a b && le b a

/-- **The stable order of a list.** Elements that tie with one of the list keep their order among
each other. -/
structure IsStableSort (le : α → α → Bool) (elements sorted : List α) : Prop where
  perm : sorted.Perm elements
  ordered : sorted.Pairwise fun a b => le a b = true
  ties : ∀ a ∈ elements, sorted.filter (tied le a) = elements.filter (tied le a)

/-- Ordered lists of the same elements with the same ties have the same first element, and so are
equal. -/
theorem eq_of_perm_of_ties (hrefl : ∀ a, le a a = true) {elements others : List α}
    (hperm : elements.Perm others) (hordered : elements.Pairwise fun a b => le a b = true)
    (hothers : others.Pairwise fun a b => le a b = true)
    (hties : ∀ a ∈ elements, elements.filter (tied le a) = others.filter (tied le a)) :
    elements = others := by
  induction elements generalizing others with
  | nil => exact (List.nil_perm.mp hperm).symm
  | cons a rest ih =>
    cases others with
    | nil => exact absurd hperm.length_eq (by simp)
    | cons b others =>
      obtain ⟨hfirst, hrest⟩ := List.pairwise_cons.mp hordered
      obtain ⟨hother, hlater⟩ := List.pairwise_cons.mp hothers
      -- each first element comes before the other one, so they tie
      have hab : le a b = true := by
        rcases List.mem_cons.mp (hperm.mem_iff.mpr (List.mem_cons_self ..)) with h | h
        · rw [h]
          exact hrefl a
        · exact hfirst b h
      have hba : le b a = true := by
        rcases List.mem_cons.mp (hperm.mem_iff.mp (List.mem_cons_self ..)) with h | h
        · rw [h]
          exact hrefl b
        · exact hother a h
      have htie : tied le a b = true := by rw [tied, hab, hba, Bool.and_self]
      have hself : tied le a a = true := by rw [tied, hrefl, Bool.and_self]
      have hheads := hties a (List.mem_cons_self ..)
      rw [List.filter_cons_of_pos hself, List.filter_cons_of_pos htie] at hheads
      obtain ⟨rfl, -⟩ := List.cons.inj hheads
      congr 1
      refine ih hperm.cons_inv hrest hlater fun c hc => ?_
      have hclass := hties c (List.mem_cons_of_mem _ hc)
      rw [List.filter_cons, List.filter_cons] at hclass
      split at hclass
      next => exact (List.cons.inj hclass).2
      next => exact hclass

theorem IsStableSort.unique (hrefl : ∀ a, le a a = true) {elements sorted other : List α}
    (h : IsStableSort le elements sorted) (hother : IsStableSort le elements other) :
    sorted = other := by
  refine eq_of_perm_of_ties hrefl (h.perm.trans hother.perm.symm) h.ordered hother.ordered ?_
  intro a ha
  have hmem := h.perm.mem_iff.mp ha
  rw [h.ties a hmem, hother.ties a hmem]

/-- **Merge sort is the stable order** of a list on whose elements the order is a total
preorder. -/
theorem isStableSort_mergeSort {elements : List α} (htotal : ∀ a b, (le a b || le b a) = true)
    (htrans : ∀ a ∈ elements, ∀ b ∈ elements, ∀ c ∈ elements,
      le a b = true → le b c = true → le a c = true) :
    IsStableSort le elements (elements.mergeSort le) := by
  -- on the elements with their membership the order is transitive without a condition
  let order (a b : { a // a ∈ elements }) : Bool := le a.1 b.1
  have horder_trans : ∀ a b c, order a b = true → order b c = true → order a c = true :=
    fun a b c => htrans a.1 a.2 b.1 b.2 c.1 c.2
  have horder_total : ∀ a b, (order a b || order b a) = true := fun a b => htotal a.1 b.1
  have hmap : (elements.attach.mergeSort order).map Subtype.val = elements.mergeSort le := by
    rw [List.map_mergeSort (s := le) fun _ _ _ _ => rfl, List.attach_map_subtype_val]
  refine ⟨List.mergeSort_perm elements le, ?_, fun a ha => ?_⟩
  · rw [← hmap, List.pairwise_map]
    exact List.pairwise_mergeSort horder_trans horder_total _
  · -- the elements that tie with one are in order, so they stay a sublist
    have hclass : (elements.attach.filter (tied order ⟨a, ha⟩)).Pairwise
        fun b c => order b c = true := by
      refine List.pairwise_of_forall_mem_list fun b hb c hc => ?_
      have hba := (Bool.and_eq_true_iff.mp (List.mem_filter.mp hb).2).2
      have hac := (Bool.and_eq_true_iff.mp (List.mem_filter.mp hc).2).1
      exact horder_trans b ⟨a, ha⟩ c hba hac
    have hsub := (List.sublist_mergeSort horder_trans horder_total hclass
      List.filter_sublist).map Subtype.val
    have hvalues : (elements.attach.filter (tied order ⟨a, ha⟩)).map Subtype.val =
        elements.filter (tied le a) := by
      have hfilter := List.filter_map (f := Subtype.val) (p := tied le a) (l := elements.attach)
      rw [List.attach_map_subtype_val] at hfilter
      rw [hfilter]
      rfl
    rw [hmap, hvalues] at hsub
    have hboth := hsub.filter (tied le a)
    simp only [List.filter_filter, Bool.and_self] at hboth
    have hlength := ((List.mergeSort_perm elements le).filter (tied le a)).length_eq
    exact (hboth.eq_of_length hlength.symm).symm

/-! ### The order of values -/

namespace Json

/-- **Values compare the same from both sides.** -/
theorem order?_swap (a b : Json) : b.order? a = (a.order? b).map Ordering.swap := by
  cases a with
  | number a =>
    cases b with
    | number b => exact congrArg some (Std.OrientedCmp.eq_swap (a := b.units))
    | _ => rfl
  | string a =>
    cases b with
    | string b => exact congrArg some Std.OrientedCmp.eq_swap
    | _ => rfl
  | bool a =>
    cases b with
    | bool b => cases a <;> cases b <;> rfl
    | _ => rfl
  | _ => cases b <;> rfl

/-- **At most is transitive** among values that compare. -/
theorem order?_trans {a b c : Json} {ab bc ac : Ordering} (hab : a.order? b = some ab)
    (hbc : b.order? c = some bc) (hac : a.order? c = some ac) (hab_le : ab.isLE = true)
    (hbc_le : bc.isLE = true) : ac.isLE = true := by
  cases a with
  | null =>
    cases c with
    | null =>
      obtain rfl : Ordering.eq = ac := Option.some.inj hac
      rfl
    | _ => simp [order?] at hac
  | bool a =>
    cases b <;> cases c <;> simp only [order?, reduceCtorEq, Option.some.injEq] at hab hbc hac
    rename_i b c
    subst hab hbc hac
    revert hab_le hbc_le
    cases a <;> cases b <;> cases c <;> decide
  | number a =>
    cases b <;> cases c <;> simp only [order?, reduceCtorEq, Option.some.injEq] at hab hbc hac
    rename_i b c
    subst hab hbc hac
    exact Std.TransCmp.isLE_trans (b := b.units) hab_le hbc_le
  | string a =>
    cases b <;> cases c <;> simp only [order?, reduceCtorEq, Option.some.injEq] at hab hbc hac
    subst hab hbc hac
    exact Std.TransCmp.isLE_trans hab_le hbc_le
  | array items => simp [order?] at hab
  | object fields => simp [order?] at hab

end Json

/-! ### The order of an attribute -/

namespace MemoryStore

variable {name : String}

/-- **The documents are in a total preorder by an attribute.** Values that do not compare count as
equal, as they do where documents are sorted; so of any two documents one may precede the other
(`mayPrecede_total`), and what is left to ask for is transitivity. -/
def IsPreordered (name : String) (docs : List Json) : Prop :=
  ∀ a ∈ docs, ∀ b ∈ docs, ∀ c ∈ docs, mayPrecede name .ascending a b = true →
    mayPrecede name .ascending b c = true → mayPrecede name .ascending a c = true

/-- Two documents are in one of three orders, as seen from both of them. -/
theorem exists_order (name : String) (a b : Json) : ∃ order : Ordering,
    ((a.resolve name).order? (b.resolve name)).getD .eq = order ∧
      ((b.resolve name).order? (a.resolve name)).getD .eq = order.swap := by
  refine ⟨_, rfl, ?_⟩
  rw [Json.order?_swap (a.resolve name)]
  cases (a.resolve name).order? (b.resolve name) <;> rfl

/-- The descending order is the ascending one from the other side. -/
theorem mayPrecede_descending (a b : Json) :
    mayPrecede name .descending a b = mayPrecede name .ascending b a := by
  obtain ⟨order, hab, hba⟩ := exists_order name a b
  unfold mayPrecede
  rw [hab, hba]
  cases order <;> rfl

theorem mayPrecede_total (direction : Direction) (a b : Json) :
    (mayPrecede name direction a b || mayPrecede name direction b a) = true := by
  have hascending : ∀ a b : Json,
      (mayPrecede name .ascending a b || mayPrecede name .ascending b a) = true := by
    intro a b
    obtain ⟨order, hab, hba⟩ := exists_order name a b
    unfold mayPrecede
    rw [hab, hba]
    cases order <;> rfl
  cases direction with
  | ascending => exact hascending a b
  | descending =>
    rw [mayPrecede_descending, mayPrecede_descending]
    exact hascending b a

theorem mayPrecede_self (direction : Direction) (doc : Json) :
    mayPrecede name direction doc doc = true := by
  rw [← Bool.or_self (mayPrecede name direction doc doc)]
  exact mayPrecede_total direction doc doc

/-- Documents whose values compare with each other are in a total preorder. -/
theorem isPreordered_of_comparable {docs : List Json}
    (h : ∀ a ∈ docs, ∀ b ∈ docs, ((a.resolve name).order? (b.resolve name)).isSome = true) :
    IsPreordered name docs := by
  have hle : ∀ a b : Json, ∀ order, (a.resolve name).order? (b.resolve name) = some order →
      (mayPrecede name .ascending a b = true ↔ order.isLE = true) := by
    intro a b order horder
    unfold mayPrecede
    rw [horder]
    cases order <;> decide
  intro a ha b hb c hc hab hbc
  obtain ⟨ab, hab'⟩ := Option.isSome_iff_exists.mp (h a ha b hb)
  obtain ⟨bc, hbc'⟩ := Option.isSome_iff_exists.mp (h b hb c hc)
  obtain ⟨ac, hac'⟩ := Option.isSome_iff_exists.mp (h a ha c hc)
  exact (hle a c ac hac').mpr
    (Json.order?_trans hab' hbc' hac' ((hle a b ab hab').mp hab) ((hle b c bc hbc').mp hbc))

/-- **Sorting by an attribute gives the stable order,** in both directions. -/
theorem isStableSort_sortByAttribute {docs : List Json} (h : IsPreordered name docs)
    (direction : Direction) :
    IsStableSort (mayPrecede name direction) docs (sortByAttribute name direction docs) := by
  refine isStableSort_mergeSort (mayPrecede_total direction) fun a ha b hb c hc hab hbc => ?_
  cases direction with
  | ascending => exact h a ha b hb c hc hab hbc
  | descending =>
    rw [mayPrecede_descending] at hab hbc ⊢
    exact h c hc b hb a ha hbc hab

end MemoryStore

end AccessPlanner
