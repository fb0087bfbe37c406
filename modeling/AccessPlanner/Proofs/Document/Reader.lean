import AccessPlanner.Document.Condition
import AccessPlanner.Proofs.Except
import AccessPlanner.Proofs.Json.Objects

/-!
# What readers read

A reader undoes what writes a document.  For scalars, lists and tables this is said directly; a
record is read back field by field, where a field that was left out changes nothing (`Record.Fills`,
`Record.Fills.read_ofFields`).

Of a document that was not written but may be any, less can be said, and `Record.read_preserves` is
how: what every field keeps holds of all that is read, be it from an object or from an array.
-/

namespace AccessPlanner

variable {α β σ : Type}

/-! ### Values -/

namespace Reader

variable [Readable α]

/-- A choice is read back from its name. -/
theorem choice_name {all : List β} {name : β → String} {element : β} (hmem : element ∈ all)
    (hname : ∀ other ∈ all, name other = name element → other = element) :
    choice all name (Json.string (name element)) = .ok element := by
  have hfind : (all.find? fun other => name other == name element) = some element := by
    cases hfound : all.find? fun other => name other == name element with
    | none =>
      have hnone := List.find?_eq_none.mp hfound element hmem
      exact absurd (beq_self_eq_true (name element)) hnone
    | some other =>
      have hsame := List.find?_some hfound
      rw [hname other (List.mem_of_find?_eq_some hfound) (beq_iff_eq.mp hsame)]
  unfold choice
  dsimp only [Readable.choice, Json.choice, bind, Except.bind]
  rw [hfind]
  rfl

/-- A list is read back item by item. -/
theorem list_array {read : Reader Json β} {write : β → Json} {items : List β}
    (h : ∀ item ∈ items, read (write item) = .ok item) :
    list read (.array (items.map write)) = .ok items :=
  mapM_map_eq_ok h

theorem list_value (items : List Json) : list value (Json.array items) = .ok items := by
  have hread : list value (Json.array (items.map id)) = .ok items :=
    list_array fun item _ => rfl
  rwa [List.map_id] at hread

theorem string_string (text : String) : string (Json.string text) = .ok text := rfl

theorem bool_bool (truth : Bool) : bool (Json.bool truth) = .ok truth := rfl

theorem natural_ofNat (count : Nat) : natural (Json.ofNat count) = .ok count := by
  show (if (count : Int) < 0 then Except.error DocumentError.invalidValue
    else Except.ok (count : Int).toNat) = .ok count
  rw [if_neg (Int.not_lt.mpr (Int.natCast_nonneg count))]
  rfl

/-- What is not `null` is there. -/
theorem optional_of_ok {read : Reader α β} {source : α} {element : β}
    (hview : Readable.view source ≠ .null) (h : read source = .ok element) :
    optional read source = .ok (some element) := by
  unfold optional
  split
  next hnull => exact absurd hnull hview
  next =>
    rw [h]
    rfl

theorem optional_natural_ofNat (count : Nat) :
    optional natural (Json.ofNat count) = .ok (some count) :=
  optional_of_ok (by simp [Readable.view, Json.ofNat, Json.view]) (natural_ofNat count)

/-- Entries that come in the order of their names are put in one after the other. -/
theorem entries_of_ok {read : Reader Json β} {write : β → Json} {map result : NameMap β}
    {rest : List (String × β)} (hresult : result.entries = map.entries ++ rest)
    (h : ∀ entry ∈ rest, read (write entry.2) = .ok entry.2) :
    entries read map (rest.map fun entry => (some entry.1, write entry.2)) = .ok result := by
  induction rest generalizing map with
  | nil =>
    obtain ⟨kept, hkept⟩ := map
    obtain ⟨all, hall⟩ := result
    obtain rfl : all = kept := by simpa using hresult
    rfl
  | cons entry rest ih =>
    obtain ⟨name, value⟩ := entry
    obtain ⟨hfirst, hrest⟩ := List.forall_mem_cons.mp h
    have hlast : ∀ other ∈ map.entries, other.1 < name := by
      intro other hmem
      have hascending := result.ascending
      rw [hresult, List.pairwise_append] at hascending
      exact hascending.2.2 other hmem (name, value) (List.mem_cons_self ..)
    have hnext : result.entries = (map.insert name value).entries ++ rest := by
      show result.entries = insertAscending name value map.entries ++ rest
      rw [hresult, insertAscending_eq_concat hlast, List.append_assoc, List.singleton_append]
    rw [List.map_cons, entries, hfirst]
    exact ih hnext hrest

/-- A table is read back entry by entry. -/
theorem table_object {read : Reader Json β} {write : β → Json} {map : NameMap β}
    (h : ∀ entry ∈ map.entries, read (write entry.2) = .ok entry.2) :
    table read (Json.object (map.entries.map fun entry => (entry.1, write entry.2))) =
      .ok map := by
  have hentries : entries read {} (map.entries.map fun entry => (some entry.1, write entry.2)) =
      .ok map := entries_of_ok rfl h
  unfold table
  dsimp only [Readable.view, Json.view]
  rw [List.map_map]
  exact hentries

/-- What is read from a list is read from its items. -/
theorem forall_mem_of_list_eq_ok {read : Reader α β} {p : β → Prop}
    (hread : ∀ source item, read source = .ok item → p item) {source : α} {items : List β}
    (h : list read source = .ok items) : ∀ item ∈ items, p item := by
  unfold list at h
  split at h
  next => exact forall_mem_of_mapM_eq_ok hread h
  next => cases h
  next => cases h

end Reader

/-! ### Records -/

namespace Field

variable {name : String} {read : Reader α β} {put : β → σ → σ} {source : α} {element : β}

theorem read_mandatory (h : read source = .ok element) (state : σ) :
    (mandatory name read put).read source state = .ok (put element state) :=
  congrArg (Except.map fun element => put element state) h

theorem read_optional (h : read source = .ok element) (state : σ) :
    (optional name read put).read source state = .ok (put element state) :=
  congrArg (Except.map fun element => put element state) h

theorem exists_of_read_optional {state next : σ}
    (h : (optional name read put).read source state = .ok next) :
    ∃ element, read source = .ok element ∧ next = put element state := by
  change (read source).map _ = _ at h
  cases hread : read source with
  | error cause =>
    rw [hread] at h
    cases h
  | ok element =>
    rw [hread] at h
    exact ⟨element, rfl, (Except.ok.inj h).symm⟩

end Field

theorem Json.names_optionalField (name : String) (write : β → Json) (element : Option β) :
    ((optionalField name write element).map fun field => field.1) =
      if element.isSome then [name] else [] := by
  cases element <;> rfl

theorem Json.names_arrayField (name : String) (write : β → Json) (items : List β) :
    ((arrayField name write items).map fun field => field.1) =
      if items.isEmpty then [] else [name] := by
  cases items <;> rfl

namespace Record

variable [Readable α] {record : Record α σ}

/-- **One field at a time:** a field of a new name is read, and the rest goes on from there. -/
theorem readFields_cons {name : String} {field : Field α σ}
    (hfind : (record.find? fun field => field.name == name) = some field) {seen : List String}
    (hnew : name ∉ seen) {source : α} {state next : σ} (hread : field.read source state = .ok next)
    (rest : List (Option String × α)) :
    readFields record seen state ((some name, source) :: rest) =
      readFields record (name :: seen) next rest := by
  have hnot : ¬ seen.contains name = true := fun h => hnew (List.contains_iff_mem.mp h)
  rw [readFields, hfind]
  dsimp only
  rw [if_neg hnot, hread]
  rfl

/-- An object is read if its fields are, and if no required one is missing. -/
theorem read_eq_ok {source : α} {fields : List (Option String × α)}
    (hview : Readable.view source = .object fields) {start state : σ} {seen : List String}
    (hfields : readFields record [] start fields = .ok (seen, state))
    (hrequired : ∀ field ∈ record, field.required = true → field.name ∈ seen) :
    record.read start source = .ok state := by
  have hmissing : (record.find? fun field => field.required && !seen.contains field.name) =
      none := by
    rw [List.find?_eq_none]
    intro field hmem h
    rw [Bool.and_eq_true, Bool.not_eq_true'] at h
    have hseen := List.contains_iff_mem.mpr (hrequired field hmem h.1)
    rw [h.2] at hseen
    cases hseen
  unfold read
  rw [hview]
  dsimp only
  rw [hfields]
  dsimp only [bind, Except.bind]
  rw [hmissing]
  rfl

/-! ### Fields that were written -/

/-- **Fields that fill a structure:** read one after the other, they lead from one state of it to
another. -/
inductive Fills (record : Record Json σ) : σ → List (String × Json) → σ → Prop
  | nil (state : σ) : Fills record state [] state
  | cons {name : String} {source : Json} {field : Field Json σ} {state next result : σ}
      {rest : List (String × Json)}
      (hfind : (record.find? fun field => field.name == name) = some field)
      (hread : field.read source state = .ok next) (hrest : Fills record next rest result) :
      Fills record state ((name, source) :: rest) result

namespace Fills

variable {record : Record Json σ} {name : String} {field : Field Json σ} {state next result : σ}

theorem append {first second : List (String × Json)} (hfirst : Fills record state first next)
    (hsecond : Fills record next second result) : Fills record state (first ++ second) result := by
  induction hfirst with
  | nil => exact hsecond
  | cons hfind hread _ ih => exact .cons hfind hread (ih hsecond)

theorem single {source : Json}
    (hfind : (record.find? fun field => field.name == name) = some field)
    (hread : field.read source state = .ok next) : Fills record state [(name, source)] next :=
  .cons hfind hread (.nil next)

/-- A field that was left out changes nothing, and one that is there is read. -/
theorem optionalField (hfind : (record.find? fun field => field.name == name) = some field)
    {write : β → Json} {element : Option β} (hnone : element = none → state = next)
    (hsome : ∀ value, element = some value → field.read (write value) state = .ok next) :
    Fills record state (Json.optionalField name write element) next := by
  cases element with
  | none =>
    obtain rfl := hnone rfl
    exact .nil state
  | some value => exact .single hfind (hsome value rfl)

/-- An empty array was left out, and any other one is read. -/
theorem arrayField (hfind : (record.find? fun field => field.name == name) = some field)
    {write : β → Json} {items : List β} (hnil : items = [] → state = next)
    (hread : field.read (.array (items.map write)) state = .ok next) :
    Fills record state (Json.arrayField name write items) next := by
  cases items with
  | nil =>
    obtain rfl := hnil rfl
    exact .nil state
  | cons => exact .single hfind hread

theorem readFields_eq {fields : List (String × Json)} (h : Fills record state fields result)
    (hnodup : (fields.map fun field => field.1).Nodup) {seen : List String}
    (hnew : ∀ field ∈ fields, field.1 ∉ seen) :
    readFields record seen state (fields.map fun field => (some field.1, field.2)) =
      .ok ((fields.map fun field => field.1).reverse ++ seen, result) := by
  induction h generalizing seen with
  | nil => rfl
  | cons hfind hread _ ih =>
    rw [List.map_cons, List.nodup_cons] at hnodup
    obtain ⟨hfirst, hrest⟩ := List.forall_mem_cons.mp hnew
    rw [List.map_cons, readFields_cons hfind hfirst hread, ih hnodup.2]
    · simp
    · intro other hmem hseen
      rcases List.mem_cons.mp hseen with hsame | hseen
      · exact hnodup.1 (List.mem_map.mpr ⟨other, hmem, hsame⟩)
      · exact hrest other hmem hseen

/-- **An object is read back** from the fields it was written with, in the order of their names, if
they fill the structure. -/
theorem read_ofFields {start : σ} {written sorted : List (String × Json)}
    (h : Fills record start sorted result) (hperm : sorted.Perm written)
    (hsorted : (sorted.map fun field => field.1).Pairwise (· < ·))
    (hrequired : ∀ field ∈ record, field.required = true →
      field.name ∈ sorted.map fun field => field.1) :
    record.read start (.ofFields written) = .ok result := by
  have hnodup : (sorted.map fun field => field.1).Nodup := by
    refine hsorted.imp ?_
    rintro name _ hlt rfl
    exact String.lt_irrefl name hlt
  have hnew : ∀ field ∈ sorted, field.1 ∉ ([] : List String) := fun _ _ => List.not_mem_nil
  have hfields := h.readFields_eq hnodup hnew
  rw [Json.ofFields_eq_object hperm hsorted]
  refine read_eq_ok rfl hfields fun field hmem hfield => ?_
  rw [List.append_nil, List.mem_reverse]
  exact hrequired field hmem hfield

end Fills

/-! ### Whatever is read -/

variable {p : σ → Prop}

theorem readFields_preserves
    (hfield : ∀ field ∈ record, ∀ source state next,
      field.read source state = .ok next → p state → p next)
    {seen : List String} {state : σ} (hstate : p state) {fields : List (Option String × α)}
    {result : List String × σ} (h : readFields record seen state fields = .ok result) :
    p result.2 := by
  induction fields generalizing seen state with
  | nil =>
    obtain rfl := Except.ok.inj h
    exact hstate
  | cons entry rest ih =>
    obtain ⟨_ | name, source⟩ := entry
    · cases h
    · unfold readFields at h
      split at h
      next =>
        obtain ⟨_, -, h⟩ := bind_eq_ok_iff.mp h
        exact ih hstate h
      next field hfind =>
        split at h
        next => cases h
        next =>
          obtain ⟨next, hread, h⟩ := bind_eq_ok_iff.mp h
          exact ih (hfield field (List.mem_of_find?_eq_some hfind) source state next hread hstate) h

theorem readItems_preserves
    (hfield : ∀ field ∈ record, ∀ source state next,
      field.read source state = .ok next → p state → p next)
    {state : σ} (hstate : p state) {items : List α} {result : σ}
    (h : readItems record state items = .ok result) : p result := by
  induction record generalizing state items with
  | nil =>
    cases items with
    | nil =>
      obtain rfl := Except.ok.inj h
      exact hstate
    | cons item rest => cases h
  | cons field record ih =>
    cases items with
    | nil =>
      unfold readItems at h
      split at h
      next => cases h
      next =>
        obtain rfl := Except.ok.inj h
        exact hstate
    | cons item rest =>
      obtain ⟨hfirst, hrest⟩ := List.forall_mem_cons.mp hfield
      obtain ⟨next, hread, h⟩ := bind_eq_ok_iff.mp h
      exact ih hrest (hfirst item state next hread hstate) h

/-- **What every field keeps holds of all that is read,** from an object and from an array. -/
theorem read_preserves
    (hfield : ∀ field ∈ record, ∀ source state next,
      field.read source state = .ok next → p state → p next)
    {start : σ} (hstart : p start) {source : α} {result : σ}
    (h : record.read start source = .ok result) : p result := by
  unfold read at h
  split at h
  next =>
    obtain ⟨⟨seen, state⟩, hfields, h⟩ := bind_eq_ok_iff.mp h
    dsimp only at h
    split at h
    next => cases h
    next =>
      obtain rfl := Except.ok.inj h
      exact readFields_preserves hfield hstart hfields
  next => exact readItems_preserves hfield hstart h
  next => cases h
  next => cases h

end Record

end AccessPlanner
