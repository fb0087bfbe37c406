import AccessPlanner.Proofs.Criteria.Ranking
import Mathlib.Data.Finset.Card
import Mathlib.Data.Finset.Dedup
import Mathlib.Data.Prod.Lex

/-!
# Places

Candidates are compared by their places in a lexicographic order, and the one to take is the first
of those in the least place (`IsFirstLeast`).  The place of a key is said in terms of sets: which
properties the key has, and which ones are asked about (`KeyPair.place`).  Ranks, which are computed
from lists, are these places (`KeyPair.place_ofKey`), so that `firstBest?` finds the first of the
least (`firstBest?_eq_some_iff`).
-/

namespace AccessPlanner

/-! ### The first of the least -/

/-- **The first of the least elements of a list.** -/
structure IsFirstLeast {α β : Type} [Preorder β] (place : α → β) (elements : List α)
    (best : α) : Prop where
  least : ∀ element ∈ elements, place best ≤ place element
  first : ∃ before after, elements = before ++ best :: after ∧
    ∀ element ∈ before, place best < place element

namespace IsFirstLeast

variable {α β : Type} [Preorder β] {place placeOther : α → β} {elements : List α} {best : α}

theorem mem (h : IsFirstLeast place elements best) : best ∈ elements := by
  obtain ⟨before, after, rfl, -⟩ := h.first
  exact List.mem_append_right _ (List.mem_cons_self ..)

theorem congr (hplace : ∀ element ∈ elements, place element = placeOther element)
    (h : IsFirstLeast place elements best) : IsFirstLeast placeOther elements best := by
  refine ⟨fun element hmem => ?_, ?_⟩
  · rw [← hplace best h.mem, ← hplace element hmem]
    exact h.least element hmem
  · obtain ⟨before, after, heq, hbefore⟩ := h.first
    refine ⟨before, after, heq, fun element hmem => ?_⟩
    rw [← hplace best h.mem, ← hplace element (heq ▸ List.mem_append_left _ hmem)]
    exact hbefore element hmem

end IsFirstLeast

/-! ### Places -/

/-- **The place of a rank** in the lexicographic order, where the best ranks come first. -/
def IndexRank.place (rank : IndexRank) : Bool ×ₗ ℕ ×ₗ ℕᵒᵈ :=
  toLex (!rank.delivers, toLex (rank.tier, OrderDual.toDual rank.covered))

theorem IndexRank.isBetter_iff_place_lt {a b : IndexRank} :
    a.isBetter b = true ↔ a.place < b.place := by
  rw [isBetter_iff, place, place, Prod.Lex.toLex_lt_toLex, Prod.Lex.toLex_lt_toLex]
  dsimp only
  rw [OrderDual.toDual_lt_toDual]
  cases a.delivers <;> cases b.delivers <;> simp

theorem IndexRank.isBetter_eq_false_iff_place_le {a b : IndexRank} :
    a.isBetter b = false ↔ b.place ≤ a.place := by
  rw [← not_lt, ← isBetter_iff_place_lt, Bool.not_eq_true]

/-- **What `firstBest?` finds** is the first of the elements of the least place. -/
theorem firstBest?_eq_some_iff {α : Type} {rank : α → IndexRank} {elements : List α} {best : α} :
    firstBest? rank elements = some best ↔
      IsFirstLeast (fun element => (rank element).place) elements best := by
  constructor
  · intro h
    have hleast := not_isBetter_firstBest? h
    refine ⟨fun element hmem => IndexRank.isBetter_eq_false_iff_place_le.mp (hleast element hmem),
      ?_⟩
    -- the first element of the best rank is the one that is found
    obtain ⟨first, hfind⟩ : ∃ first, elements.find? (fun element =>
        decide (rank element = rank best)) = some first := by
      rw [← Option.isSome_iff_exists, List.find?_isSome]
      exact ⟨best, mem_of_firstBest?_eq_some h, decide_eq_true rfl⟩
    obtain ⟨hfirst, before, after, rfl, hbefore⟩ := List.find?_eq_some_iff_append.mp hfind
    have hrank : rank first = rank best := of_decide_eq_true hfirst
    have hworse : ∀ element ∈ before, (rank first).isBetter (rank element) = true := by
      intro element hmem
      have hne : rank element ≠ rank best := by simpa using hbefore element hmem
      have hnot := hleast element (List.mem_append_left _ hmem)
      rw [hrank, ← Bool.not_eq_false]
      exact fun hother => hne (IndexRank.eq_of_not_isBetter hnot hother)
    have hafter : ∀ element ∈ after, (rank element).isBetter (rank first) = false := by
      intro element hmem
      rw [hrank]
      exact hleast element (List.mem_append_right _ (List.mem_cons_of_mem _ hmem))
    obtain rfl := Option.some.inj ((firstBest?_append_cons hworse hafter).symm.trans h)
    exact ⟨before, after, rfl, fun element hmem =>
      IndexRank.isBetter_iff_place_lt.mp (hworse element hmem)⟩
  · rintro ⟨hleast, before, after, rfl, hbefore⟩
    refine firstBest?_append_cons (fun element hmem => ?_) fun element hmem => ?_
    · exact IndexRank.isBetter_iff_place_lt.mpr (hbefore element hmem)
    · exact IndexRank.isBetter_eq_false_iff_place_le.mpr
        (hleast element (List.mem_append_right _ (List.mem_cons_of_mem _ hmem)))

/-! ### The place of a key -/

namespace KeyPair

/-- **The place of a key,** given the properties that are asked about and a requested order.  Keys
that deliver the order come first; then keys with just the properties, before keys with these and
another one, before all others; and then keys with more of the properties. -/
def place (asked : Finset String) (sort : Option SortOrder) (key : KeyPair) :
    Bool ×ₗ ℕ ×ₗ ℕᵒᵈ :=
  let properties := (key.hashKey :: key.rangeKey.toList).toFinset
  toLex (sort.all fun order => key.rangeKey ≠ some order.property,
    toLex (if properties = asked then 0 else if asked ⊂ properties then 1 else 2,
      OrderDual.toDual (properties ∩ asked).card))

theorem nodup_properties {key : KeyPair} (h : key.rangeKey ≠ some key.hashKey) :
    key.properties.Nodup := by
  unfold properties
  cases hrange : key.rangeKey with
  | none => simp
  | some property =>
    rw [hrange, ne_eq, Option.some.injEq] at h
    simpa [eq_comm] using h

variable {asked : Finset String} {wanted : List String} {key : KeyPair}

theorem tier_ofKey (h : ∀ property, property ∈ wanted ↔ property ∈ asked)
    (sort : Option SortOrder) :
    (IndexRank.ofKey wanted sort key).tier =
      if key.properties.toFinset = asked then 0
      else if asked ⊂ key.properties.toFinset then 1 else 2 := by
  have hcovers : wanted.all key.properties.contains = true ↔ asked ⊆ key.properties.toFinset := by
    simp [Finset.subset_iff, h]
  have hwithin : key.properties.all wanted.contains = true ↔
      key.properties.toFinset ⊆ asked := by
    simp [Finset.subset_iff, h]
  have hexact : (wanted.all key.properties.contains && key.properties.all wanted.contains) = true ↔
      key.properties.toFinset = asked := by
    rw [Bool.and_eq_true, hcovers, hwithin, Finset.Subset.antisymm_iff, and_comm]
  unfold IndexRank.ofKey
  dsimp only
  by_cases heq : key.properties.toFinset = asked
  · rw [if_pos (hexact.mpr heq), if_pos heq]
  · rw [if_neg (mt hexact.mp heq), if_neg heq]
    -- keys with other properties than asked about cover these strictly
    have hstrict : asked ⊂ key.properties.toFinset ↔ asked ⊆ key.properties.toFinset :=
      ⟨fun h => h.subset, fun h => h.ssubset_of_ne (Ne.symm heq)⟩
    simp only [hcovers, hstrict]

theorem covered_ofKey (h : ∀ property, property ∈ wanted ↔ property ∈ asked)
    (sort : Option SortOrder) (hkey : key.rangeKey ≠ some key.hashKey) :
    (IndexRank.ofKey wanted sort key).covered = (key.properties.toFinset ∩ asked).card := by
  have hfilter : (key.properties.filter wanted.contains).toFinset =
      key.properties.toFinset ∩ asked := by
    ext property
    simp [h]
  rw [← hfilter, List.toFinset_card_of_nodup ((nodup_properties hkey).filter _)]
  rfl

/-- **The rank of a key is at its place,** however the properties are listed. -/
theorem place_ofKey (h : ∀ property, property ∈ wanted ↔ property ∈ asked)
    (sort : Option SortOrder) (hkey : key.rangeKey ≠ some key.hashKey) :
    (IndexRank.ofKey wanted sort key).place = key.place asked sort := by
  have hdelivers : (!(IndexRank.ofKey wanted sort key).delivers) =
      sort.all fun order => key.rangeKey ≠ some order.property := by
    cases sort with
    | none => rfl
    | some order =>
      rw [Option.all_some, decide_not, ← beq_eq_decide]
      rfl
  rw [IndexRank.place, hdelivers, tier_ofKey h, covered_ofKey h sort hkey]
  rfl

/-- Keys of no greater place deliver a requested order that is delivered. -/
theorem rangeKey_of_place_le {other : KeyPair} {order : SortOrder}
    (hle : key.place asked (some order) ≤ other.place asked (some order))
    (hother : other.rangeKey = some order.property) : key.rangeKey = some order.property := by
  by_contra hkey
  refine absurd hle (not_le_of_gt (Prod.Lex.toLex_lt_toLex.mpr (.inl ?_)))
  rw [Option.all_some, Option.all_some, hother]
  simp [hkey]

end KeyPair

end AccessPlanner
