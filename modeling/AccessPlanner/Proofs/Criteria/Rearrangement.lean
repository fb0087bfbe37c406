import AccessPlanner.Proofs.Criteria.Demand
import Mathlib.Data.List.Perm.Basic

/-!
# The same conditions in another order

Conditions that ask the same of equal values are the same for a caller (`Condition.Same`), and two
lists that hold the same conditions, wherever they stand, are *rearranged*.  Being rearranged is an
equivalence that respects choosing conditions (`Rearranged.filter`) and replacing each of them
(`Rearranged.flatMap`).  Rearranged lists hold each condition equally often; `SameConditions` leaves
that aside and compares them as sets.

For the entity type of a schema, the same conditions are refused alike (`refusal?_congr`) and stand
for the same conditions (`forall₂_expand`), because equal objects have equal fields.  So two
rearranged lists have rearranged expansions.
-/

namespace AccessPlanner

/-! ### Related optional values -/

section

variable {α β γ δ : Type} {related : α → β → Prop} {value : Option α} {other : Option β}

theorem rel_imp {implied : α → β → Prop} (himp : ∀ a b, related a b → implied a b)
    (h : Option.Rel related value other) : Option.Rel implied value other := by
  cases h with
  | none => exact .none
  | some hrelated => exact .some (himp _ _ hrelated)

theorem rel_map {relatedMap : γ → δ → Prop} {f : α → γ} {g : β → δ}
    (hmap : ∀ a b, related a b → relatedMap (f a) (g b)) (h : Option.Rel related value other) :
    Option.Rel relatedMap (value.map f) (other.map g) := by
  cases h with
  | none => exact .none
  | some hrelated => exact .some (hmap _ _ hrelated)

theorem rel_bind {relatedBind : γ → δ → Prop} {f : α → Option γ} {g : β → Option δ}
    (hbind : ∀ a b, related a b → Option.Rel relatedBind (f a) (g b))
    (h : Option.Rel related value other) :
    Option.Rel relatedBind (value.bind f) (other.bind g) := by
  cases h with
  | none => exact .none
  | some hrelated => exact hbind _ _ hrelated

theorem forall₂_toList (h : Option.Rel related value other) :
    List.Forall₂ related value.toList other.toList := by
  cases h with
  | none => exact .nil
  | some hrelated => exact .cons hrelated .nil

end

/-! ### The same condition -/

/-- **Conditions that ask the same,** of values that are equal. -/
structure Condition.Same (a b : Condition) : Prop where
  property_eq : a.property = b.property
  operator_eq : a.operator = b.operator
  values : Json.sameItems a.values b.values = true

namespace Condition.Same

theorem refl (a : Condition) : a.Same a := ⟨rfl, rfl, Json.sameItems_refl a.values⟩

theorem symm {a b : Condition} (h : a.Same b) : b.Same a :=
  ⟨h.property_eq.symm, h.operator_eq.symm, (Json.sameItems_comm _ _).trans h.values⟩

theorem trans {a b c : Condition} (hab : a.Same b) (hbc : b.Same c) : a.Same c :=
  ⟨hab.property_eq.trans hbc.property_eq, hab.operator_eq.trans hbc.operator_eq,
    Json.sameItems_trans hab.values hbc.values⟩

theorem equals {a b : Json} (property : String) (h : a.same b = true) :
    (Condition.equals property a).Same (.equals property b) := by
  refine ⟨rfl, rfl, ?_⟩
  show (a.same b && true) = true
  rw [h, Bool.and_true]

theorem head?_values {a b : Condition} (h : a.Same b) :
    Option.Rel (fun x y => x.same y = true) a.values.head? b.values.head? := by
  have hvalues := h.values
  cases ha : a.values with
  | nil =>
    cases hb : b.values with
    | nil => exact .none
    | cons => simp [ha, hb, Json.sameItems] at hvalues
  | cons x xs =>
    cases hb : b.values with
    | nil => simp [ha, hb, Json.sameItems] at hvalues
    | cons y ys =>
      rw [ha, hb, Json.sameItems, Bool.and_eq_true] at hvalues
      exact .some hvalues.1

theorem equality? {a b : Condition} (h : a.Same b) :
    Option.Rel (fun x y => x.same y = true) a.equality? b.equality? := by
  unfold Condition.equality?
  rw [h.operator_eq]
  split
  next => exact h.head?_values
  next => exact .none

theorem exists_values_eq {a b : Condition} (h : a.Same b) {value : Json}
    (hvalues : a.values = [value]) : ∃ other, b.values = [other] ∧ value.same other = true := by
  have hsame := h.values
  rw [hvalues] at hsame
  cases hb : b.values with
  | nil => rw [hb] at hsame; cases hsame
  | cons other rest =>
    rw [hb, Json.sameItems, Bool.and_eq_true] at hsame
    cases rest with
    | nil => exact ⟨other, rfl, hsame.1⟩
    | cons => cases hsame.2

theorem exists_equality?_eq {a b : Condition} (h : a.Same b) {value : Json}
    (hequality : a.equality? = some value) :
    ∃ other, b.equality? = some other ∧ value.same other = true := by
  have hrelated := h.equality?
  rw [hequality] at hrelated
  generalize b.equality? = found at hrelated ⊢
  cases hrelated with
  | some hsame => exact ⟨_, rfl, hsame⟩

theorem equality?_eq_none {a b : Condition} (h : a.Same b) (hequality : a.equality? = none) :
    b.equality? = none := by
  have hrelated := h.equality?
  rw [hequality] at hrelated
  generalize b.equality? = found at hrelated ⊢
  cases hrelated
  rfl

/-- What is the same as an equality is one, with an equal value. -/
theorem exists_eq_equals {a : Condition} {property : String} {value : Json}
    (h : a.Same (.equals property value)) :
    ∃ other, a = .equals property other ∧ other.same value = true := by
  have hequality : (Condition.equals property value).equality? = some value := rfl
  obtain ⟨other, hother, hsame⟩ := h.symm.exists_equality?_eq hequality
  refine ⟨other, ?_, (Json.same_comm _ _).trans hsame⟩
  have heq := Condition.eq_equals hother
  rwa [h.property_eq] at heq

end Condition.Same

theorem forall₂_same_trans {conditions others third : List Condition}
    (h : List.Forall₂ Condition.Same conditions others)
    (hother : List.Forall₂ Condition.Same others third) :
    List.Forall₂ Condition.Same conditions third := by
  induction h generalizing third with
  | nil => exact hother
  | cons hfirst _ ih =>
    cases hother with
    | cons hfirst' hrest => exact .cons (hfirst.trans hfirst') (ih hrest)

/-! ### The same list -/

/-- **The same conditions in another order.** -/
def Rearranged (conditions others : List Condition) : Prop :=
  ∃ between, conditions.Perm between ∧ List.Forall₂ Condition.Same between others

namespace Rearranged

variable {conditions others more otherMore : List Condition}

theorem of_forall₂ (h : List.Forall₂ Condition.Same conditions others) :
    Rearranged conditions others := ⟨conditions, .refl _, h⟩

theorem of_perm (h : conditions.Perm others) : Rearranged conditions others :=
  ⟨others, h, List.forall₂_same.mpr fun condition _ => .refl condition⟩

theorem symm (h : Rearranged conditions others) : Rearranged others conditions := by
  obtain ⟨between, hperm, hsame⟩ := h
  obtain ⟨middle, hsame', hperm'⟩ := List.perm_comp_forall₂ hperm hsame
  exact ⟨middle, hperm'.symm, (hsame'.imp fun _ _ h => h.symm).flip⟩

theorem trans {third : List Condition} (h : Rearranged conditions others)
    (hother : Rearranged others third) : Rearranged conditions third := by
  obtain ⟨between, hperm, hsame⟩ := h
  obtain ⟨between', hperm', hsame'⟩ := hother
  -- reorder first, and then replace by the same conditions twice
  have hswap : Relation.Comp (List.Forall₂ Condition.Same) List.Perm between between' :=
    ⟨others, hsame, hperm'⟩
  rw [List.forall₂_comp_perm_eq_perm_comp_forall₂] at hswap
  obtain ⟨middle, hpermMiddle, hsameMiddle⟩ := hswap
  refine ⟨middle, hperm.trans hpermMiddle, ?_⟩
  exact forall₂_same_trans hsameMiddle hsame'

theorem append (h : Rearranged conditions others) (hmore : Rearranged more otherMore) :
    Rearranged (conditions ++ more) (others ++ otherMore) := by
  obtain ⟨between, hperm, hsame⟩ := h
  obtain ⟨between', hperm', hsame'⟩ := hmore
  exact ⟨between ++ between', hperm.append hperm', List.rel_append hsame hsame'⟩

theorem exists_same (h : Rearranged conditions others) {condition : Condition}
    (hmem : condition ∈ conditions) : ∃ other ∈ others, condition.Same other := by
  obtain ⟨between, hperm, hsame⟩ := h
  have hmem' := hperm.mem_iff.mp hmem
  clear hperm hmem
  induction hsame with
  | nil => cases hmem'
  | cons hfirst _ ih =>
    rcases List.mem_cons.mp hmem' with rfl | hrest
    · exact ⟨_, List.mem_cons_self .., hfirst⟩
    · obtain ⟨other, hother, h⟩ := ih hrest
      exact ⟨other, List.mem_cons_of_mem _ hother, h⟩

theorem exists_equals (h : Rearranged conditions others) {property : String} {value : Json}
    (hmem : Condition.equals property value ∈ conditions) :
    ∃ other, Condition.equals property other ∈ others ∧ value.same other = true := by
  obtain ⟨condition, hcondition, hsame⟩ := h.exists_same hmem
  obtain ⟨other, rfl, hother⟩ := hsame.symm.exists_eq_equals
  exact ⟨other, hcondition, (Json.same_comm _ _).trans hother⟩

/-- Rearranged lists by their size, as far as it matters for a key. -/
inductive BySize : List Condition → List Condition → Prop
  | none : BySize [] []
  | one {only other : Condition} (h : only.Same other) : BySize [only] [other]
  | more (a b c d : Condition) (rest others : List Condition) :
      BySize (a :: b :: rest) (c :: d :: others)

theorem bySize (h : Rearranged conditions others) : BySize conditions others := by
  obtain ⟨between, hperm, hsame⟩ := h
  cases hsame with
  | nil =>
    rw [List.perm_nil.mp hperm]
    exact .none
  | cons hfirst hrest =>
    cases hrest with
    | nil =>
      rw [List.perm_singleton.mp hperm]
      exact .one hfirst
    | cons =>
      -- there are two conditions at least on either side
      have hlength := hperm.length_eq
      match conditions, hlength with
      | a :: b :: rest, _ => exact .more ..

theorem filter (h : Rearranged conditions others) {keep : Condition → Bool}
    (hkeep : ∀ a b, a.Same b → keep a = keep b) :
    Rearranged (conditions.filter keep) (others.filter keep) := by
  obtain ⟨between, hperm, hsame⟩ := h
  have hiff : ∀ a b, a.Same b → (keep a = true ↔ keep b = true) := by
    intro a b hab
    rw [hkeep a b hab]
  exact ⟨between.filter keep, hperm.filter keep, List.rel_filter hiff hsame⟩

theorem flatMap (h : Rearranged conditions others) {replace : Condition → List Condition}
    (hreplace : ∀ a b, a.Same b → List.Forall₂ Condition.Same (replace a) (replace b)) :
    Rearranged (conditions.flatMap replace) (others.flatMap replace) := by
  obtain ⟨between, hperm, hsame⟩ := h
  exact ⟨between.flatMap replace, hperm.flatMap_right replace, List.rel_flatMap hsame hreplace⟩

theorem mem_properties_iff (h : Rearranged conditions others) (property : String) :
    property ∈ conditions.map (·.property) ↔ property ∈ others.map (·.property) := by
  have hforward : ∀ {conditions others : List Condition}, Rearranged conditions others →
      property ∈ conditions.map (·.property) → property ∈ others.map (·.property) := by
    intro conditions others h hmem
    obtain ⟨condition, hcondition, rfl⟩ := List.mem_map.mp hmem
    obtain ⟨other, hother, hsame⟩ := h.exists_same hcondition
    rw [hsame.property_eq]
    exact List.mem_map_of_mem hother
  exact ⟨hforward h, hforward h.symm⟩

end Rearranged

/-! ### The same set -/

/-- **The same conditions as sets:** each of one list is the same as one of the other list. -/
def SameConditions (conditions others : List Condition) : Prop :=
  (∀ condition ∈ conditions, ∃ other ∈ others, condition.Same other) ∧
    ∀ other ∈ others, ∃ condition ∈ conditions, other.Same condition

theorem SameConditions.symm {conditions others : List Condition}
    (h : SameConditions conditions others) : SameConditions others conditions :=
  ⟨h.2, h.1⟩

theorem SameConditions.trans {conditions others third : List Condition}
    (h : SameConditions conditions others) (hother : SameConditions others third) :
    SameConditions conditions third := by
  have hforward : ∀ {first second third : List Condition},
      (∀ condition ∈ first, ∃ other ∈ second, condition.Same other) →
      (∀ condition ∈ second, ∃ other ∈ third, condition.Same other) →
      ∀ condition ∈ first, ∃ other ∈ third, condition.Same other := by
    intro first second third hfirst hsecond condition hmem
    obtain ⟨other, hother, hsame⟩ := hfirst condition hmem
    obtain ⟨last, hlast, hsame'⟩ := hsecond other hother
    exact ⟨last, hlast, hsame.trans hsame'⟩
  exact ⟨hforward h.1 hother.1, hforward hother.2 h.2⟩

theorem Rearranged.sameConditions {conditions others : List Condition}
    (h : Rearranged conditions others) : SameConditions conditions others :=
  ⟨fun _ hmem => h.exists_same hmem, fun _ hmem => h.symm.exists_same hmem⟩

/-! ### Expansions -/

/-- The part of a composite id for a property is the same for equal values. -/
def SamePart (part other : String × Json) : Prop :=
  part.1 = other.1 ∧ part.2.same other.2 = true

namespace KeySchema

variable (schema : KeySchema) {a b : Json}

theorem component_congr (h : a.same b = true) (property : String) :
    Option.Rel (fun a b => a.same b = true) ((a.field? property).filter fun part => !part.isNull)
      ((b.field? property).filter fun part => !part.isNull) := by
  have hfield := Json.field?_congr h property
  generalize a.field? property = part at hfield ⊢
  generalize b.field? property = other at hfield ⊢
  cases hfield with
  | none => exact .none
  | some hsame =>
    rw [Option.filter_some, Option.filter_some, Json.isNull_congr hsame]
    split
    next => exact .some hsame
    next => exact .none

/-- **Equal composite ids have the same components.** -/
theorem forall₂_components (h : a.same b = true) :
    List.Forall₂ SamePart (schema.entity.components a) (schema.entity.components b) := by
  have hcomponent : ∀ property, Option.Rel SamePart
      (((a.field? property).filter fun part => !part.isNull).map (property, ·))
      (((b.field? property).filter fun part => !part.isNull).map (property, ·)) := fun property =>
    rel_map (fun _ _ hsame => ⟨rfl, hsame⟩) (component_congr h property)
  refine List.rel_append (forall₂_toList (hcomponent schema.hashKey)) ?_
  show List.Forall₂ SamePart
    (schema.rangeKey.bind fun property => (schema.decompose a).range.map (property, ·)).toList
    (schema.rangeKey.bind fun property => (schema.decompose b).range.map (property, ·)).toList
  unfold decompose
  cases schema.rangeKey with
  | none => exact .nil
  | some property => exact forall₂_toList (hcomponent property)

end KeySchema

theorem Condition.Same.head_same {a b : Condition} (h : a.Same b) :
    (Json.ofOption a.values.head?).same (Json.ofOption b.values.head?) = true := by
  have hhead := h.head?_values
  generalize a.values.head? = value at hhead ⊢
  generalize b.values.head? = other at hhead ⊢
  cases hhead with
  | none => rfl
  | some hsame => exact hsame

/-- **The same conditions stand for the same conditions.** -/
theorem forall₂_expand (schema : KeySchema) {a b : Condition} (h : a.Same b) :
    List.Forall₂ Condition.Same (schema.entity.expand a) (schema.entity.expand b) := by
  have hparts := schema.forall₂_components h.head_same
  unfold EntityKeys.expand
  rw [h.property_eq]
  split
  next =>
    by_cases hop : b.operator.isCompositeIdOperator = true
    · rw [dif_pos hop, dif_pos (h.operator_eq ▸ hop), List.forall₂_map_left_iff,
        List.forall₂_map_right_iff]
      refine hparts.imp fun x y hxy => ⟨hxy.1, h.operator_eq, ?_⟩
      show (x.2.same y.2 && true) = true
      rw [hxy.2, Bool.and_true]
    · rw [dif_neg hop, dif_neg (h.operator_eq ▸ hop)]
      exact .nil
  next => exact .cons h .nil

theorem Rearranged.expand {conditions others : List Condition} (schema : KeySchema)
    (h : Rearranged conditions others) :
    Rearranged (conditions.flatMap schema.entity.expand) (others.flatMap schema.entity.expand) :=
  h.flatMap fun _ _ hsame => forall₂_expand schema hsame

/-! ### Refusals -/

namespace Criteria

theorem bindParts_error_congr {keys : EntityKeys} {parts others : List (String × Json)}
    (h : List.Forall₂ SamePart parts others) (criteria other : Criteria) :
    (criteria.bindParts keys parts).error = (other.bindParts keys others).error := by
  induction h generalizing criteria other with
  | nil => rfl
  | cons hfirst _ ih =>
    simp only [bindParts, Outcome.error_andThen, bindProperty_error]
    rw [hfirst.1, Json.isNull_congr hfirst.2]
    exact congrArg _ (ih _ _)

/-- What is refused of a composite id depends on the properties of the components, and on which of
them are `null`. -/
theorem routeParts_error_congr {keys : EntityKeys} {a b : Condition} (h : a.Same b)
    {ha : a.operator.isCompositeIdOperator = true} {hb : b.operator.isCompositeIdOperator = true}
    {parts others : List (String × Json)} (hparts : List.Forall₂ SamePart parts others)
    (criteria : Criteria) :
    (criteria.routeParts keys a ha parts).error = (criteria.routeParts keys b hb others).error := by
  have hempty : parts.isEmpty = others.isEmpty := by cases hparts <;> rfl
  have hnames : (parts.any fun part => part.1 = "") = others.any fun part => part.1 = "" := by
    clear hempty
    induction hparts with
    | nil => rfl
    | cons hfirst _ ih => rw [List.any_cons, List.any_cons, hfirst.1, ih]
  unfold routeParts
  rw [hempty, hnames, h.property_eq, h.operator_eq]
  split
  next => rfl
  next =>
    split
    next => exact bindParts_error_congr hparts criteria criteria
    next => split <;> rfl

end Criteria

/-- **The same conditions are refused alike:** routing them takes the same step. -/
theorem refusal?_congr (schema : KeySchema) {a b : Condition} (h : a.Same b) :
    schema.entity.refusal? a = schema.entity.refusal? b := by
  obtain ⟨outcome, hstep, herror⟩ := Criteria.refusal?_step schema.entity a
  rw [← herror]
  unfold EntityKeys.refusal?
  cases hstep with
  | @bound value hid hequality =>
    obtain ⟨other, hother, hsame⟩ := h.exists_equality?_eq hequality
    rw [h.property_eq] at hid
    rw [Criteria.add_of_equality hid hother, Criteria.bindProperty_error,
      Criteria.bindProperty_error, h.property_eq, Json.isNull_congr hsame]
  | residual hid hequality =>
    rw [h.property_eq] at hid
    rw [Criteria.add_of_not_equality hid (h.equality?_eq_none hequality)]
  | ambiguous hid hop =>
    rw [h.property_eq] at hid ⊢
    rw [h.operator_eq] at hop ⊢
    rw [Criteria.add_of_not_isCompositeIdOperator hid hop]
  | null hid hop hvalues hnull =>
    obtain ⟨other, hother, hsame⟩ := h.exists_values_eq hvalues
    rw [h.property_eq] at hid ⊢
    rw [h.operator_eq] at hop
    rw [Criteria.add_of_isNull hid hop hother ((Json.isNull_congr hsame).symm.trans hnull)]
  | parts hid hop hvalues hnull =>
    obtain ⟨other, hother, hsame⟩ := h.exists_values_eq hvalues
    rw [h.property_eq] at hid
    have hcarried := hop
    rw [h.operator_eq] at hcarried
    rw [Criteria.add_of_isCompositeId hid hcarried hother
      ((Json.isNull_congr hsame).symm.trans hnull)]
    exact Criteria.routeParts_error_congr h (schema.forall₂_components hsame) .empty

theorem Rearranged.forall_refusal?_iff {conditions others : List Condition} (schema : KeySchema)
    (h : Rearranged conditions others) :
    (∀ condition ∈ conditions, schema.entity.refusal? condition = none) ↔
      ∀ condition ∈ others, schema.entity.refusal? condition = none := by
  have hforward : ∀ {conditions others : List Condition}, Rearranged conditions others →
      (∀ condition ∈ conditions, schema.entity.refusal? condition = none) →
      ∀ condition ∈ others, schema.entity.refusal? condition = none := by
    intro conditions others h hall condition hmem
    obtain ⟨other, hother, hsame⟩ := h.symm.exists_same hmem
    exact (refusal?_congr schema hsame).trans (hall other hother)
  exact ⟨hforward h, hforward h.symm⟩

end AccessPlanner
