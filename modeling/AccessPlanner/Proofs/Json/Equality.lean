import AccessPlanner.Filter
import Mathlib.Data.Option.Basic

/-!
# Equality of values and their order

Equality of values is an equivalence (`same_refl`, `same_comm`, `same_trans`).  Equal values
compare alike with every other value, and equal objects have equal fields.
-/

namespace AccessPlanner

theorem Number.same_refl (a : Number) : a.same a = true := by
  cases a <;> simp [same]

theorem Number.same_comm (a b : Number) : a.same b = b.same a := by
  cases a <;> cases b <;> simp [same, eq_comm]

theorem Number.same_trans {a b c : Number} (hab : a.same b = true) (hbc : b.same c = true) :
    a.same c = true := by
  cases a <;> cases b <;> cases c <;> simp_all [same]

theorem Number.units_eq_of_same {a b : Number} (h : a.same b = true) : a.units = b.units := by
  cases a <;> cases b <;> simp_all [same, units]

namespace Json

mutual

/-- **A value equals itself.** -/
theorem same_refl : ∀ a : Json, a.same a = true
  | null => rfl
  | bool a => by simp [same]
  | number a => by rw [same, Number.same_refl]
  | string a => by simp [same]
  | array items => by rw [same, sameItems_refl items]
  | object fields => by rw [same, sameFields_refl fields]

theorem sameItems_refl : ∀ items : List Json, sameItems items items = true
  | [] => rfl
  | a :: rest => by rw [sameItems, same_refl a, sameItems_refl rest, Bool.true_and]

theorem sameFields_refl : ∀ fields : List (String × Json), sameFields fields fields = true
  | [] => rfl
  | (name, a) :: rest => by simp [sameFields, same_refl a, sameFields_refl rest]

end

mutual

/-- **Equality of values does not depend on which of the two comes first.** -/
theorem same_comm : ∀ a b : Json, a.same b = b.same a
  | null, b => by cases b <;> rfl
  | bool a, b => by cases b <;> simp [same, eq_comm]
  | number a, b => by cases b <;> simp [same, Number.same_comm a]
  | string a, b => by cases b <;> simp [same, eq_comm]
  | array items, b => by cases b <;> simp [same, sameItems_comm items]
  | object fields, b => by cases b <;> simp [same, sameFields_comm fields]

theorem sameItems_comm : ∀ items others : List Json, sameItems items others = sameItems others items
  | [], others => by cases others <;> rfl
  | a :: rest, [] => rfl
  | a :: rest, b :: others => by
    rw [sameItems, sameItems, same_comm a b, sameItems_comm rest others]

theorem sameFields_comm :
    ∀ fields others : List (String × Json), sameFields fields others = sameFields others fields
  | [], others => by cases others <;> rfl
  | (name, a) :: rest, [] => rfl
  | (name, a) :: rest, (other, b) :: others => by
    rw [sameFields, sameFields, same_comm a b, sameFields_comm rest others, BEq.comm (a := name)]

end

mutual

/-- **Values that equal the same value are equal.** -/
theorem same_trans : ∀ {a b c : Json}, a.same b = true → b.same c = true → a.same c = true
  | null, b, c, hab, hbc => by
    cases b with
    | null => exact hbc
    | _ => simp [same] at hab
  | bool a, b, c, hab, hbc => by
    cases b with
    | bool b =>
      obtain rfl : a = b := by simpa [same] using hab
      exact hbc
    | _ => simp [same] at hab
  | number a, b, c, hab, hbc => by
    cases b with
    | number b =>
      cases c with
      | number c =>
        rw [same] at hab hbc ⊢
        exact Number.same_trans hab hbc
      | _ => simp [same] at hbc
    | _ => simp [same] at hab
  | string a, b, c, hab, hbc => by
    cases b with
    | string b =>
      obtain rfl : a = b := by simpa [same] using hab
      exact hbc
    | _ => simp [same] at hab
  | array as, b, c, hab, hbc => by
    cases b with
    | array bs =>
      cases c with
      | array cs =>
        rw [same] at hab hbc ⊢
        exact sameItems_trans hab hbc
      | _ => simp [same] at hbc
    | _ => simp [same] at hab
  | object as, b, c, hab, hbc => by
    cases b with
    | object bs =>
      cases c with
      | object cs =>
        rw [same] at hab hbc ⊢
        exact sameFields_trans hab hbc
      | _ => simp [same] at hbc
    | _ => simp [same] at hab

theorem sameItems_trans : ∀ {as bs cs : List Json}, sameItems as bs = true →
    sameItems bs cs = true → sameItems as cs = true
  | [], [], _, _, hbc => hbc
  | a :: as, b :: bs, [], _, hbc => by simp [sameItems] at hbc
  | a :: as, b :: bs, c :: cs, hab, hbc => by
    rw [sameItems, Bool.and_eq_true] at hab hbc ⊢
    exact ⟨same_trans hab.1 hbc.1, sameItems_trans hab.2 hbc.2⟩

theorem sameFields_trans : ∀ {as bs cs : List (String × Json)}, sameFields as bs = true →
    sameFields bs cs = true → sameFields as cs = true
  | [], [], _, _, hbc => hbc
  | (_, _) :: _, (_, _) :: _, [], _, hbc => by simp [sameFields] at hbc
  | (name, a) :: as, (other, b) :: bs, (third, c) :: cs, hab, hbc => by
    rw [sameFields, Bool.and_eq_true, Bool.and_eq_true, beq_iff_eq] at hab hbc ⊢
    exact ⟨⟨hab.1.1.trans hbc.1.1, same_trans hab.1.2 hbc.1.2⟩, sameFields_trans hab.2 hbc.2⟩

end

/-- Equal fields are found under equal names. -/
theorem lookup?_congr {fields others : List (String × Json)} (h : sameFields fields others = true)
    (name : String) :
    Option.Rel (fun a b => a.same b = true) (lookup? name fields) (lookup? name others) := by
  induction fields generalizing others with
  | nil =>
    cases others with
    | nil => exact .none
    | cons => cases h
  | cons field rest ih =>
    cases others with
    | nil => cases h
    | cons other others =>
      rw [sameFields, Bool.and_eq_true, Bool.and_eq_true, beq_iff_eq] at h
      obtain ⟨⟨hname, hsame⟩, hrest⟩ := h
      have hfound := ih hrest
      unfold lookup? at hfound ⊢
      rw [List.find?_cons, List.find?_cons, ← hname]
      cases field.1 == name with
      | true => exact .some hsame
      | false => exact hfound

theorem field?_congr {a b : Json} (h : a.same b = true) (name : String) :
    Option.Rel (fun a b => a.same b = true) (a.field? name) (b.field? name) := by
  cases a <;> cases b <;> simp only [same, Bool.false_eq_true] at h
  case object.object => exact lookup?_congr h name
  all_goals exact .none

theorem isNull_congr {a b : Json} (h : a.same b = true) : a.isNull = b.isNull := by
  cases a <;> cases b <;> simp_all [same, isNull]

/-- **Equal values compare alike.** Only scalars compare at all, so no induction is needed. -/
theorem order?_congr {a b : Json} (h : a.same b = true) (other : Json) :
    other.order? a = other.order? b := by
  cases a with
  | number a =>
    cases b with
    | number b =>
      have hunits := Number.units_eq_of_same (by simpa [same] using h)
      cases other <;> simp [order?, Number.order, hunits]
    | _ => simp [same] at h
  | _ => cases b <;> simp_all [same, order?]

end Json

end AccessPlanner
