import AccessPlanner.Json.Path

/-!
# Resolving paths

A path is resolved step by step: what stands at `path.rest` is what stands at `rest` in the value at
`path` (`Json.resolve_stepwise`).

`Json.Leads` says where a path leads, on the text of the path: a name without points leads to the
field under it, and a name, a point and a further path lead on from this field.  A path that leads
nowhere is resolved to `null`.

Between the two stands the walk that gives up at the first field that is missing (`Json.walk?`).
`Json.resolve` does not give up, but goes on with `null`, from which no name leads on, so that it
comes to the same result (`Json.resolve_eq_walk?`).
-/

namespace AccessPlanner.Json

/-! ### Segments -/

theorem cutAtPoints_eq_splitOn (chars : List Char) : cutAtPoints chars = chars.splitOn '.' := by
  induction chars with
  | nil => rfl
  | cons c rest ih =>
    rw [cutAtPoints, List.splitOn_cons_eq_if_modifyHead, ih]
    by_cases hpoint : c = '.'
    · rw [if_pos hpoint, if_pos (beq_iff_eq.mpr hpoint)]
    · rw [if_neg hpoint, if_neg (mt beq_iff_eq.mp hpoint)]
      obtain ⟨segment, segments, hcons⟩ :=
        List.exists_cons_of_ne_nil (List.splitOn_ne_nil '.' rest)
      rw [hcons, List.modifyHead_cons]

/-- A name without points is the only segment of its path. -/
theorem pathSegments_name {name : String} (h : '.' ∉ name.toList) : pathSegments name = [name] := by
  rw [pathSegments, cutAtPoints_eq_splitOn, List.splitOn_eq_singleton h, List.map_singleton,
    String.ofList_toList]

/-- **A point parts the segments** before it from those after it. -/
theorem pathSegments_append_point (path rest : String) :
    pathSegments (path ++ "." ++ rest) = pathSegments path ++ pathSegments rest := by
  have hchars : (path ++ "." ++ rest).toList = path.toList ++ '.' :: rest.toList := by
    rw [String.toList_append, String.toList_append, List.append_assoc]
    rfl
  simp only [pathSegments, cutAtPoints_eq_splitOn]
  rw [hchars, List.splitOn_append_cons_self, List.map_append]

theorem pathSegments_name_point {name : String} (h : '.' ∉ name.toList) (rest : String) :
    pathSegments (name ++ "." ++ rest) = name :: pathSegments rest := by
  rw [pathSegments_append_point, pathSegments_name h, List.singleton_append]

/-- **Induction on paths:** a path is a name without points, or such a name, a point and a shorter
path. -/
@[elab_as_elim]
theorem pathInduction {motive : String → Prop}
    (name : ∀ name : String, '.' ∉ name.toList → motive name)
    (point : ∀ name rest : String, '.' ∉ name.toList → motive rest → motive (name ++ "." ++ rest))
    (path : String) : motive path := by
  by_cases hpoint : '.' ∈ path.toList
  · obtain ⟨before, after, hchars, hplain⟩ := List.eq_append_cons_of_mem hpoint
    have hpath : path = String.ofList before ++ "." ++ String.ofList after :=
      String.toList_injective (by simp [hchars])
    rw [hpath]
    exact point _ _ (by rwa [String.toList_ofList]) (pathInduction name point _)
  · exact name path hpoint
termination_by path.toList.length
decreasing_by
  rw [hchars, String.toList_ofList, List.length_append, List.length_cons]
  omega

/-! ### Walks -/

/-- The walk along some names, which gives up at the first field that is missing. -/
def walk? (doc : Json) (names : List String) : Option Json :=
  names.foldlM (fun value name => value.field? name) doc

theorem walk?_cons (doc : Json) (name : String) (names : List String) :
    doc.walk? (name :: names) = (doc.field? name).bind (walk? · names) := rfl

/-- No name leads on from `null`. -/
theorem foldl_child_null (names : List String) : names.foldl child null = null := by
  induction names with
  | nil => rfl
  | cons name names ih => exact ih

/-- **Going on with `null` is giving up.** -/
theorem foldl_child_eq_walk? (doc : Json) (names : List String) :
    names.foldl child doc = ofOption (doc.walk? names) := by
  induction names generalizing doc with
  | nil => rfl
  | cons name names ih =>
    rw [List.foldl_cons, walk?_cons, child]
    cases doc.field? name with
    | none => exact foldl_child_null names
    | some value => exact ih value

theorem resolve_eq_walk? (doc : Json) (path : String) :
    doc.resolve path = ofOption (doc.walk? (pathSegments path)) :=
  foldl_child_eq_walk? doc (pathSegments path)

/-! ### Where paths lead -/

/-- **Where a path leads.** A name without points leads to the field under it; with a point and a
further path it leads to where this path leads from the field. -/
inductive Leads : Json → String → Json → Prop
  | name {doc value : Json} {name : String} (plain : '.' ∉ name.toList)
      (field : doc.field? name = some value) : Leads doc name value
  | point {doc child value : Json} {name rest : String} (plain : '.' ∉ name.toList)
      (field : doc.field? name = some child) (further : Leads child rest value) :
      Leads doc (name ++ "." ++ rest) value

/-- **A path leads to where the walk along its segments ends.** -/
theorem leads_iff_walk? {doc value : Json} {path : String} :
    doc.Leads path value ↔ doc.walk? (pathSegments path) = some value := by
  constructor
  · intro h
    induction h with
    | name plain field =>
      rw [pathSegments_name plain, walk?_cons, field]
      rfl
    | point plain field further ih =>
      rw [pathSegments_name_point plain, walk?_cons, field]
      exact ih
  · intro h
    induction path using pathInduction generalizing doc with
    | name name plain =>
      rw [pathSegments_name plain, walk?_cons] at h
      obtain ⟨child, field, hchild⟩ := Option.bind_eq_some_iff.mp h
      cases hchild
      exact .name plain field
    | point name rest plain ih =>
      rw [pathSegments_name_point plain, walk?_cons] at h
      obtain ⟨child, field, hchild⟩ := Option.bind_eq_some_iff.mp h
      exact .point plain field (ih hchild)

theorem Leads.resolve_eq {doc value : Json} {path : String} (h : doc.Leads path value) :
    doc.resolve path = value := by
  rw [resolve_eq_walk?, leads_iff_walk?.mp h]
  rfl

theorem resolve_eq_null {doc : Json} {path : String} (h : ∀ value, ¬ doc.Leads path value) :
    doc.resolve path = null := by
  rw [resolve_eq_walk?, Option.eq_none_iff_forall_ne_some.mpr fun value hwalk =>
    h value (leads_iff_walk?.mpr hwalk)]
  rfl

/-- No path leads on from an array or a scalar. -/
theorem resolve_eq_null_of_ne_object {doc : Json} (h : ∀ fields, doc ≠ object fields)
    (path : String) : doc.resolve path = null := by
  have hfield (name : String) : doc.field? name = none := by
    cases doc with
    | object fields => exact absurd rfl (h fields)
    | _ => rfl
  refine resolve_eq_null fun value hleads => ?_
  cases hleads with
  | name _ field => cases (hfield _).symm.trans field
  | point _ field _ => cases (hfield _).symm.trans field

/-- What stands at a path with a point is found in two steps. -/
theorem resolve_append_point (doc : Json) (path rest : String) :
    doc.resolve (path ++ "." ++ rest) = (doc.resolve path).resolve rest := by
  unfold resolve
  rw [pathSegments_append_point, List.foldl_append]

/-- **Paths are resolved step by step,** whatever stands before and after the point.  A path is
resolved to the value that it leads to, and to `null` if it leads to none; and however it goes on
from where it leads to none, or from an array or a scalar, it is resolved to `null`. -/
theorem resolve_stepwise (doc : Json) (path rest : String) :
    doc.resolve (path ++ "." ++ rest) = (doc.resolve path).resolve rest ∧
      (∀ value, doc.Leads path value → doc.resolve path = value) ∧
      ((∀ value, ¬ doc.Leads path value) →
        doc.resolve path = null ∧ doc.resolve (path ++ "." ++ rest) = null) ∧
      ∀ value, doc.Leads path value → (∀ fields, value ≠ object fields) →
        doc.resolve (path ++ "." ++ rest) = null := by
  refine ⟨resolve_append_point doc path rest, fun value => Leads.resolve_eq, fun hnone => ?_,
    fun value hleads hvalue => ?_⟩
  · have hnull : doc.resolve path = null := resolve_eq_null hnone
    refine ⟨hnull, ?_⟩
    rw [resolve_append_point, hnull]
    exact resolve_eq_null_of_ne_object (by nofun) rest
  · rw [resolve_append_point, hleads.resolve_eq]
    exact resolve_eq_null_of_ne_object hvalue rest

/-- An order with its customer: a path over the field with the empty name, one over a missing field,
and one into an array. -/
theorem resolve_stepwise_order_of_ada :
    let address := object [("city", string "London")]
    let tags := array [object [("city", string "Paris")]]
    let doc := object [("customer", object [("", address), ("tags", tags)]), ("day", string "01")]
    (doc.Leads "customer." address ∧ doc.resolve "customer." = address ∧
        doc.resolve "customer..city" = address.resolve "city") ∧
      ((∀ value, ¬ doc.Leads "customer.city" value) ∧ doc.resolve "customer.city.name" = null) ∧
      (doc.Leads "customer.tags" tags ∧ doc.resolve "customer.tags.city" = null) := by
  intro address tags doc
  have haddress : doc.Leads "customer." address := leads_iff_walk?.mpr (by rfl)
  have hmissing : ∀ value, ¬ doc.Leads "customer.city" value := by
    intro value hleads
    cases leads_iff_walk?.mp hleads
  have htags : doc.Leads "customer.tags" tags := leads_iff_walk?.mpr (by rfl)
  obtain ⟨hcity, hat, -⟩ := resolve_stepwise doc "customer." "city"
  obtain ⟨-, -, hnowhere, -⟩ := resolve_stepwise doc "customer.city" "name"
  obtain ⟨-, -, -, harray⟩ := resolve_stepwise doc "customer.tags" "city"
  refine ⟨⟨haddress, hat address haddress, ?_⟩, ⟨hmissing, (hnowhere hmissing).2⟩,
    htags, harray tags htags nofun⟩
  rw [← hat address haddress]
  exact hcity

end AccessPlanner.Json
