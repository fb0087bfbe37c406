import AccessPlanner.Proofs.Criteria.Matching

/-!
# The best index

Ranks are compared lexicographically, so that "not better" is a total order on ranks: it is
transitive (`not_isBetter_trans`) and antisymmetric (`eq_of_not_isBetter`).  Hence nothing in a list
is better than what `firstBest?` finds in it, and the *rank* of the best element depends on what is
in the list and not on the order in which it is looked at (`rank_firstBest?_congr`).  The element
itself does depend on the order; lists that correspond element by element have best elements that
correspond (`firstBest?_rel`).
-/

namespace AccessPlanner

/-! ### The order of ranks -/

namespace IndexRank

/-- **The comparison is lexicographic.** -/
theorem isBetter_iff {a b : IndexRank} :
    a.isBetter b = true ↔
      (a.delivers = true ∧ b.delivers = false) ∨
        (a.delivers = b.delivers ∧
          (a.tier < b.tier ∨ (a.tier = b.tier ∧ b.covered < a.covered))) := by
  unfold isBetter
  by_cases hdelivers : a.delivers = b.delivers
  · rw [if_neg (not_not.mpr hdelivers)]
    by_cases htier : a.tier = b.tier
    · simp [hdelivers, htier]
    · simp [hdelivers, htier]
  · rw [if_pos hdelivers]
    cases ha : a.delivers <;> cases hb : b.delivers <;> simp_all

theorem isBetter_asymm {a b : IndexRank} (h : a.isBetter b = true) : b.isBetter a = false := by
  rw [Bool.eq_false_iff, ne_eq, isBetter_iff]
  rw [isBetter_iff] at h
  grind

theorem not_isBetter_trans {a b c : IndexRank} (hab : a.isBetter b = false)
    (hbc : b.isBetter c = false) : a.isBetter c = false := by
  rw [Bool.eq_false_iff, ne_eq, isBetter_iff] at hab hbc ⊢
  grind

theorem eq_of_not_isBetter {a b : IndexRank} (hab : a.isBetter b = false)
    (hba : b.isBetter a = false) : a = b := by
  rw [Bool.eq_false_iff, ne_eq, isBetter_iff] at hab hba
  obtain ⟨delivers, tier, covered⟩ := a
  obtain ⟨delivers', tier', covered'⟩ := b
  obtain rfl : delivers = delivers' := by grind
  obtain rfl : tier = tier' := by grind
  obtain rfl : covered = covered' := by grind
  rfl

end IndexRank

/-! ### The rank of a key -/

namespace IndexRank

variable {wanted : List String} {sort : Option SortOrder} {key : KeyPair}

theorem ofKey_delivers_iff :
    (ofKey wanted sort key).delivers = true ↔
      ∃ order, sort = some order ∧ key.rangeKey = some order.property := by
  unfold ofKey
  cases sort with
  | none => simp
  | some order => simp

/-- **The best tier** is that of the keys with just the properties that are wanted. -/
theorem ofKey_tier_eq_zero_iff :
    (ofKey wanted sort key).tier = 0 ↔
      ∀ property, property ∈ wanted ↔ property ∈ key.properties := by
  have hexact : (wanted.all key.properties.contains && key.properties.all wanted.contains) = true ↔
      ∀ property, property ∈ wanted ↔ property ∈ key.properties := by
    rw [Bool.and_eq_true, List.all_eq_true, List.all_eq_true]
    simp only [List.contains_iff_mem]
    exact ⟨fun h property => ⟨h.1 property, h.2 property⟩,
      fun h => ⟨fun property => (h property).mp, fun property => (h property).mpr⟩⟩
  rw [← hexact]
  unfold ofKey
  dsimp only
  split
  next h => exact iff_of_true rfl h
  next h =>
    refine iff_of_false ?_ h
    split <;> decide

/-- A key of the best tier covers as much as any key can. -/
theorem ofKey_covered_le (htier : (ofKey wanted sort key).tier = 0) {other : KeyPair}
    (hlength : other.properties.length ≤ key.properties.length) :
    (ofKey wanted sort other).covered ≤ (ofKey wanted sort key).covered := by
  have hall : key.properties.filter wanted.contains = key.properties := by
    rw [List.filter_eq_self]
    intro property hmem
    exact List.contains_iff_mem.mpr ((ofKey_tier_eq_zero_iff.mp htier property).mpr hmem)
  have hcovered : (ofKey wanted sort key).covered = key.properties.length :=
    congrArg List.length hall
  rw [hcovered]
  exact Nat.le_trans (List.length_filter_le ..) hlength

end IndexRank

/-! ### The best element of a list -/

variable {α β : Type} {rank : α → IndexRank} {elements others : List α}

theorem isSome_firstBest?_iff (rank : α → IndexRank) :
    (firstBest? rank elements).isSome = true ↔ elements ≠ [] := by
  cases elements <;> simp [firstBest?]

/-- **Nothing is better than the best.** -/
theorem not_isBetter_firstBest? {best : α} (h : firstBest? rank elements = some best) :
    ∀ element ∈ elements, (rank element).isBetter (rank best) = false := by
  cases elements with
  | nil => cases h
  | cons first rest =>
    obtain rfl := Option.some.inj h
    clear h
    -- the element that is kept so far starts the rest of the fold
    induction rest generalizing first with
    | nil =>
      intro element hmem
      obtain rfl := List.mem_singleton.mp hmem
      cases h : (rank element).isBetter (rank element) with
      | false => exact h
      | true => exact absurd (IndexRank.isBetter_asymm h) (by simp [h])
    | cons other rest ih =>
      rw [List.foldl_cons]
      split
      next hbetter =>
        have hkept := ih other
        rw [List.forall_mem_cons] at hkept ⊢
        exact ⟨IndexRank.not_isBetter_trans (IndexRank.isBetter_asymm hbetter) hkept.1,
          List.forall_mem_cons.mpr hkept⟩
      next hworse =>
        have hkept := ih first
        rw [List.forall_mem_cons] at hkept
        rw [Bool.not_eq_true] at hworse
        refine List.forall_mem_cons.mpr ⟨hkept.1, List.forall_mem_cons.mpr ⟨?_, hkept.2⟩⟩
        exact IndexRank.not_isBetter_trans hworse hkept.1

/-- **The best element is the first one of its rank:** all before it are worse, and none after it is
better. -/
theorem firstBest?_append_cons {before after : List α} {best : α}
    (hbefore : ∀ element ∈ before, (rank best).isBetter (rank element) = true)
    (hafter : ∀ element ∈ after, (rank element).isBetter (rank best) = false) :
    firstBest? rank (before ++ best :: after) = some best := by
  have hkept : after.foldl
      (fun best other => if (rank other).isBetter (rank best) then other else best) best =
        best := by
    induction after with
    | nil => rfl
    | cons other rest ih =>
      obtain ⟨hother, hrest⟩ := List.forall_mem_cons.mp hafter
      rw [List.foldl_cons, hother]
      exact ih hrest
  cases before with
  | nil => exact congrArg some hkept
  | cons first rest =>
    -- whatever is kept of the elements before, the best one displaces it
    have hworse := hbefore _ (mem_of_firstBest?_eq_some (rfl : firstBest? rank (first :: rest) = _))
    rw [List.cons_append, firstBest?, List.foldl_append, List.foldl_cons, hworse]
    exact congrArg some hkept

/-- **The rank of the best element does not depend on the order of the list.** -/
theorem rank_firstBest?_congr (h : ∀ element, element ∈ elements ↔ element ∈ others) :
    Option.Rel (fun best other => rank best = rank other) (firstBest? rank elements)
      (firstBest? rank others) := by
  cases hbest : firstBest? rank elements with
  | none =>
    have hnil : elements = [] := by
      by_contra hne
      have hsome := (isSome_firstBest?_iff rank).mpr hne
      rw [hbest] at hsome
      cases hsome
    have hothers : others = [] := List.eq_nil_iff_forall_not_mem.mpr fun element hmem => by
      rw [← h, hnil] at hmem
      cases hmem
    rw [hothers]
    exact .none
  | some best =>
    have hmem := (h best).mp (mem_of_firstBest?_eq_some hbest)
    obtain ⟨other, hother⟩ := Option.isSome_iff_exists.mp
      ((isSome_firstBest?_iff rank).mpr (List.ne_nil_of_mem hmem))
    rw [hother]
    -- each of the two is in both lists, so neither is better than the other one
    have hleft := not_isBetter_firstBest? hother best hmem
    have hright := not_isBetter_firstBest? hbest other
      ((h other).mpr (mem_of_firstBest?_eq_some hother))
    exact .some (IndexRank.eq_of_not_isBetter hleft hright)

/-- **Lists that correspond have corresponding best elements,** where elements that correspond have
the same rank. -/
theorem firstBest?_rel {related : α → β → Prop} {rankOther : β → IndexRank}
    (hrank : ∀ a b, related a b → rank a = rankOther b) {others : List β}
    (h : List.Forall₂ related elements others) :
    Option.Rel related (firstBest? rank elements) (firstBest? rankOther others) := by
  cases h with
  | nil => exact .none
  | @cons first first' rest rest' hfirst hrest =>
    refine .some ?_
    induction hrest generalizing first first' with
    | nil => exact hfirst
    | @cons other other' _ _ hother _ ih =>
      rw [List.foldl_cons, List.foldl_cons, hrank _ _ hfirst, hrank _ _ hother]
      split
      next => exact ih hother
      next => exact ih hfirst

end AccessPlanner
