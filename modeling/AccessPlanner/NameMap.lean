/-!
# Tables under names

A table is kept in ascending order of its names, so that two tables with the same content are
the same list and a listing has one order.  `insertAscending` puts one entry into an ascending
list; `NameMap` is a list of entries with the proof that its names ascend.
-/

namespace AccessPlanner

variable {α : Type}

/-- **Insertion under a name.** The entry goes to its place in ascending order; an entry of the
same name is replaced. -/
def insertAscending (name : String) (value : α) : List (String × α) → List (String × α)
  | [] => [(name, value)]
  | (other, old) :: rest =>
    if name < other then (name, value) :: (other, old) :: rest
    else if other < name then (other, old) :: insertAscending name value rest
    else (name, value) :: rest

/-- What is listed under a name. -/
def lookup? (name : String) (entries : List (String × α)) : Option α :=
  (entries.find? fun entry => entry.1 == name).map (·.2)

/-! ### Order -/

/-- Insertion brings in no name but its own. -/
theorem insertAscending_forall {p : String → Prop} {name : String} {value : α}
    {entries : List (String × α)} (hname : p name) (hentries : ∀ e ∈ entries, p e.1) :
    ∀ e ∈ insertAscending name value entries, p e.1 := by
  induction entries with
  | nil => simp [insertAscending, hname]
  | cons entry rest ih =>
    obtain ⟨other, old⟩ := entry
    have hother : p other := hentries (other, old) (List.mem_cons_self ..)
    have hrest : ∀ e ∈ rest, p e.1 := fun e he => hentries e (List.mem_cons_of_mem _ he)
    simp only [insertAscending]
    split
    · intro e he
      rcases List.mem_cons.mp he with rfl | he
      · exact hname
      · exact hentries e he
    · split
      · intro e he
        rcases List.mem_cons.mp he with rfl | he
        · exact hother
        · exact ih hrest e he
      · intro e he
        rcases List.mem_cons.mp he with rfl | he
        · exact hname
        · exact hrest e he

/-- Insertion keeps the names ascending. -/
theorem insertAscending_pairwise {name : String} {value : α} {entries : List (String × α)}
    (h : entries.Pairwise fun a b => a.1 < b.1) :
    (insertAscending name value entries).Pairwise fun a b => a.1 < b.1 := by
  induction entries with
  | nil => simp [insertAscending]
  | cons entry rest ih =>
    obtain ⟨other, old⟩ := entry
    obtain ⟨hhead, htail⟩ := List.pairwise_cons.mp h
    simp only [insertAscending]
    split
    next hlt =>
      refine List.pairwise_cons.mpr ⟨?_, h⟩
      intro e he
      rcases List.mem_cons.mp he with rfl | he
      · exact hlt
      · exact String.lt_trans hlt (hhead e he)
    next hge =>
      split
      next hgt =>
        exact List.pairwise_cons.mpr ⟨insertAscending_forall hgt hhead, ih htail⟩
      next hle =>
        have heq : name = other :=
          String.le_antisymm (String.not_lt.mp hle) (String.not_lt.mp hge)
        exact List.pairwise_cons.mpr ⟨fun e he => heq ▸ hhead e he, htail⟩

/-! ### Look-up -/

/-- After an insertion, its name leads to the new entry and every other name to where it led. -/
theorem lookup?_insertAscending {name other : String} {value : α} {entries : List (String × α)} :
    lookup? other (insertAscending name value entries) =
      if name = other then some value else lookup? other entries := by
  induction entries with
  | nil => by_cases h : name = other <;> simp [insertAscending, lookup?, h]
  | cons entry rest ih =>
    obtain ⟨first, old⟩ := entry
    simp only [insertAscending]
    split
    next => by_cases h : name = other <;> simp [lookup?, h]
    next =>
      split
      next hlt =>
        by_cases hfirst : first = other
        · subst hfirst
          have hne : name ≠ first := by
            rintro rfl
            exact String.lt_irrefl name hlt
          simp [lookup?, hne]
        · simpa [lookup?, hfirst] using ih
      next hge hle =>
        have heq : name = first :=
          String.le_antisymm (String.not_lt.mp hle) (String.not_lt.mp hge)
        subst heq
        by_cases h : name = other <;> simp [lookup?, h]

/-! ### Tables -/

/-- **A table under names,** with its entries in ascending order of their names. -/
structure NameMap (α : Type) where
  entries : List (String × α) := []
  ascending : entries.Pairwise (fun a b => a.1 < b.1) := by exact .nil
  deriving DecidableEq

namespace NameMap

/-- The table with an entry put in, in place of one of the same name. -/
def insert (map : NameMap α) (name : String) (value : α) : NameMap α :=
  ⟨insertAscending name value map.entries, insertAscending_pairwise map.ascending⟩

/-- What the table lists under a name. -/
def get? (map : NameMap α) (name : String) : Option α := lookup? name map.entries

/-- What is put in under a name is listed under it, and nothing else changes. -/
theorem get?_insert {map : NameMap α} {name other : String} {value : α} :
    (map.insert name value).get? other = if name = other then some value else map.get? other :=
  lookup?_insertAscending

end NameMap

end AccessPlanner
