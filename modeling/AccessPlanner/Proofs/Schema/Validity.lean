import AccessPlanner.Document.Schema
import AccessPlanner.Proofs.Schema.Rules
import Mathlib.Data.List.Induction
import Mathlib.Tactic.SplitIfs

/-!
# A schema exists iff its declaration is valid

`SchemaDecl.IsValid` lists the rules for a declaration, and `SchemaDecl.BreaksFirst` says which rule
is the first one that is broken: the rules come in the order of the primary key, the indexes from
left to right and the composite ids.  Neither follows the way in which the rules are checked, with a
list of names that grows from index to index.  `KeySchema.exists_iff_isValid` compares them with
what is built.

Declarations come about in steps or are read from documents.  A declaration in steps says what its
steps say (`SchemaDecl.States`): single things as they were said last, lists in the order of the
steps.
-/

namespace AccessPlanner

/-! ### The rules -/

namespace IndexDefinition

/-- **Indexes that break no rule:** they have names, no name is given twice, and the two properties
of each key differ. -/
structure AllValid (indexes : List IndexDefinition) : Prop where
  named : ∀ index ∈ indexes, index.name ≠ ""
  distinct : (indexes.map fun index => index.name).Nodup
  keys_differ : ∀ index ∈ indexes, index.rangeKey ≠ some index.hashKey

/-- **The first rule that an index breaks** after some earlier ones. -/
inductive Breaks (earlier : List IndexDefinition) (index : IndexDefinition) : SchemaError → Prop
  | emptyName (hname : index.name = "") : Breaks earlier index .emptyIndexName
  | duplicateName (hname : index.name ≠ "") (hsame : ∃ other ∈ earlier, other.name = index.name) :
      Breaks earlier index (.duplicateIndex index.name)
  | keyConflict (hname : index.name ≠ "") (hnew : ∀ other ∈ earlier, other.name ≠ index.name)
      (hkeys : index.rangeKey = some index.hashKey) :
      Breaks earlier index (.indexKeyConflict index.name index.hashKey)

end IndexDefinition

namespace SchemaDecl

/-- **A valid declaration:** the hash property has a name, the range property differs from it, the
indexes break no rule, and no composite id is a property of the primary key. -/
structure IsValid (decl : SchemaDecl) : Prop where
  hash_named : decl.primary.hashKey ≠ ""
  keys_differ : decl.primary.rangeKey ≠ some decl.primary.hashKey
  indexes : IndexDefinition.AllValid decl.indexes
  ids_apart : ∀ id ∈ decl.compositeIds,
    id ≠ decl.primary.hashKey ∧ decl.primary.rangeKey ≠ some id

/-- **The first rule that a declaration breaks.** All rules before it are kept, also by the indexes
or the composite ids before the one that breaks it. -/
inductive BreaksFirst (decl : SchemaDecl) : SchemaError → Prop
  | hashKey (hname : decl.primary.hashKey = "") : BreaksFirst decl .missingHashKey
  | rangeKey (hname : decl.primary.hashKey ≠ "")
      (hkeys : decl.primary.rangeKey = some decl.primary.hashKey) :
      BreaksFirst decl (.rangeKeyIsHashKey decl.primary.hashKey)
  | index (hname : decl.primary.hashKey ≠ "")
      (hkeys : decl.primary.rangeKey ≠ some decl.primary.hashKey)
      {before : List IndexDefinition} {index : IndexDefinition} {after : List IndexDefinition}
      (hindexes : decl.indexes = before ++ index :: after)
      (hbefore : IndexDefinition.AllValid before) {error : SchemaError}
      (hbreaks : index.Breaks before error) : BreaksFirst decl error
  | compositeId (hname : decl.primary.hashKey ≠ "")
      (hkeys : decl.primary.rangeKey ≠ some decl.primary.hashKey)
      (hindexes : IndexDefinition.AllValid decl.indexes)
      {before : List String} {id : String} {after : List String}
      (hids : decl.compositeIds = before ++ id :: after)
      (hbefore : ∀ other ∈ before,
        other ≠ decl.primary.hashKey ∧ decl.primary.rangeKey ≠ some other)
      (hkey : id = decl.primary.hashKey ∨ decl.primary.rangeKey = some id) :
      BreaksFirst decl (.compositeIdIsKey id)

end SchemaDecl

/-! ### Keys -/

namespace KeyPair

theorem isConflicting_eq_false_iff {key : KeyPair} :
    key.isConflicting = false ↔ key.rangeKey ≠ some key.hashKey := by
  simp [isConflicting]

theorem has_eq_true_iff {key : KeyPair} {property : String} :
    key.has property = true ↔ property = key.hashKey ∨ key.rangeKey = some property := by
  rw [has, Bool.or_eq_true, beq_iff_eq, beq_iff_eq, eq_comm]

theorem has_eq_false_iff {key : KeyPair} {property : String} :
    key.has property = false ↔ property ≠ key.hashKey ∧ key.rangeKey ≠ some property := by
  rw [← Bool.not_eq_true, has_eq_true_iff, not_or]

end KeyPair

namespace SchemaDecl

/-! ### Indexes -/

/-- **Indexes are checked from left to right,** each one after the names of those before it. -/
theorem indexViolation?_append (earlier : List String) (before after : List IndexDefinition) :
    indexViolation? earlier (before ++ after) =
      (indexViolation? earlier before).or
        (indexViolation? ((before.map fun index => index.name).reverse ++ earlier) after) := by
  induction before generalizing earlier with
  | nil => rfl
  | cons index rest ih =>
    rw [List.cons_append, indexViolation?, indexViolation?, ih, List.map_cons, List.reverse_cons,
      List.append_assoc, List.singleton_append]
    split_ifs <;> rfl

theorem indexViolation?_eq_none_iff_allValid (indexes : List IndexDefinition) :
    indexViolation? [] indexes = none ↔ IndexDefinition.AllValid indexes := by
  rw [indexViolation?_eq_none_iff]
  constructor
  · rintro ⟨heach, hdistinct⟩
    exact ⟨fun index hmem => (heach index hmem).1, hdistinct,
      fun index hmem => KeyPair.isConflicting_eq_false_iff.mp (heach index hmem).2.2⟩
  · intro h
    refine ⟨fun index hmem => ⟨h.named index hmem, List.not_mem_nil, ?_⟩, h.distinct⟩
    exact KeyPair.isConflicting_eq_false_iff.mpr (h.keys_differ index hmem)

/-- The check of one index, whatever comes after it. -/
theorem indexViolation?_cons_eq_some {before : List IndexDefinition} {index : IndexDefinition}
    {error : SchemaError} (h : index.Breaks before error) (after : List IndexDefinition) :
    indexViolation? (before.map fun index => index.name).reverse (index :: after) = some error := by
  unfold indexViolation?
  cases h with
  | emptyName hname => rw [if_pos hname]
  | duplicateName hname hsame =>
    have hmem : (before.map fun index => index.name).reverse.contains index.name = true := by
      simpa using hsame
    rw [if_neg hname, if_pos hmem]
  | keyConflict hname hnew hkeys =>
    have hmem : ¬ (before.map fun index => index.name).reverse.contains index.name = true := by
      simpa using hnew
    have hconflict : index.isConflicting = true := beq_iff_eq.mpr hkeys
    rw [if_neg hname, if_neg hmem, if_pos hconflict]

theorem breaks_of_indexViolation?_singleton {before : List IndexDefinition}
    {index : IndexDefinition} {error : SchemaError}
    (h : indexViolation? (before.map fun index => index.name).reverse [index] = some error) :
    index.Breaks before error := by
  unfold indexViolation? at h
  split_ifs at h with hname hmem hconflict
  · obtain rfl := Option.some.inj h
    exact .emptyName hname
  · obtain rfl := Option.some.inj h
    exact .duplicateName hname (by simpa using hmem)
  · obtain rfl := Option.some.inj h
    exact .keyConflict hname (by simpa using hmem) (beq_iff_eq.mp hconflict)
  · cases h

/-- **The first index that breaks a rule,** after indexes that break none. -/
theorem indexViolation?_eq_some_iff (indexes : List IndexDefinition) (error : SchemaError) :
    indexViolation? [] indexes = some error ↔
      ∃ before index after, indexes = before ++ index :: after ∧
        IndexDefinition.AllValid before ∧ index.Breaks before error := by
  constructor
  · intro h
    induction indexes using List.reverseRecOn with
    | nil => cases h
    | append_singleton indexes last ih =>
      rw [indexViolation?_append, Option.or_eq_some_iff] at h
      rcases h with hfirst | ⟨hnone, hlast⟩
      · obtain ⟨before, index, after, rfl, hbefore, hbreaks⟩ := ih hfirst
        exact ⟨before, index, after ++ [last], by simp, hbefore, hbreaks⟩
      · rw [List.append_nil] at hlast
        exact ⟨indexes, last, [], rfl, (indexViolation?_eq_none_iff_allValid _).mp hnone,
          breaks_of_indexViolation?_singleton hlast⟩
  · rintro ⟨before, index, after, rfl, hbefore, hbreaks⟩
    rw [indexViolation?_append, (indexViolation?_eq_none_iff_allValid _).mpr hbefore,
      List.append_nil, Option.none_or]
    exact indexViolation?_cons_eq_some hbreaks after

/-! ### Declarations -/

theorem violation?_eq_none_iff_isValid (decl : SchemaDecl) :
    decl.violation? = none ↔ decl.IsValid := by
  rw [violation?_eq_none_iff]
  constructor
  · rintro ⟨hname, hkeys, heach, hdistinct, hids⟩
    refine ⟨hname, KeyPair.isConflicting_eq_false_iff.mp hkeys, ⟨?_, hdistinct, ?_⟩, ?_⟩
    · exact fun index hmem => (heach index hmem).1
    · exact fun index hmem => KeyPair.isConflicting_eq_false_iff.mp (heach index hmem).2
    · exact fun id hmem => KeyPair.has_eq_false_iff.mp (hids id hmem)
  · intro h
    refine ⟨h.hash_named, KeyPair.isConflicting_eq_false_iff.mpr h.keys_differ, ?_,
      h.indexes.distinct, fun id hmem => KeyPair.has_eq_false_iff.mpr (h.ids_apart id hmem)⟩
    exact fun index hmem => ⟨h.indexes.named index hmem,
      KeyPair.isConflicting_eq_false_iff.mpr (h.indexes.keys_differ index hmem)⟩

/-- **The rule that is reported** is the first one that is broken. -/
theorem violation?_eq_some_iff (decl : SchemaDecl) (error : SchemaError) :
    decl.violation? = some error ↔ decl.BreaksFirst error := by
  constructor
  · intro h
    unfold violation? at h
    split_ifs at h with hname hkeys
    · obtain rfl := Option.some.inj h
      exact .hashKey hname
    · obtain rfl := Option.some.inj h
      exact .rangeKey hname (beq_iff_eq.mp hkeys)
    · have hdiffer : decl.primary.rangeKey ≠ some decl.primary.hashKey :=
        KeyPair.isConflicting_eq_false_iff.mp (Bool.eq_false_iff.mpr hkeys)
      split at h
      next hviolation =>
        obtain rfl := Option.some.inj h
        obtain ⟨before, index, after, hindexes, hbefore, hbreaks⟩ :=
          (indexViolation?_eq_some_iff _ _).mp hviolation
        exact .index hname hdiffer hindexes hbefore hbreaks
      next hviolation =>
        obtain ⟨id, hfind, rfl⟩ := Option.map_eq_some_iff.mp h
        obtain ⟨hkey, before, after, hids, hbefore⟩ := List.find?_eq_some_iff_append.mp hfind
        refine .compositeId hname hdiffer
          ((indexViolation?_eq_none_iff_allValid _).mp hviolation) hids ?_
          (KeyPair.has_eq_true_iff.mp hkey)
        exact fun other hmem => KeyPair.has_eq_false_iff.mp (by simpa using hbefore other hmem)
  · intro h
    unfold violation?
    cases h with
    | hashKey hname => rw [if_pos hname]
    | rangeKey hname hkeys =>
      have hconflict : decl.primary.isConflicting = true := beq_iff_eq.mpr hkeys
      rw [if_neg hname, if_pos hconflict]
    | index hname hkeys hindexes hbefore hbreaks =>
      have hviolation := (indexViolation?_eq_some_iff decl.indexes error).mpr
        ⟨_, _, _, hindexes, hbefore, hbreaks⟩
      rw [if_neg hname, KeyPair.isConflicting_eq_false_iff.mpr hkeys, if_neg Bool.false_ne_true,
        hviolation]
    | @compositeId hname hkeys hindexes before id after hids hbefore hkey =>
      have hviolation := (indexViolation?_eq_none_iff_allValid decl.indexes).mpr hindexes
      have hfind : decl.compositeIds.find? decl.primary.has = some id := by
        refine List.find?_eq_some_iff_append.mpr ⟨KeyPair.has_eq_true_iff.mpr hkey, before, after,
          hids, fun other hmem => ?_⟩
        rw [KeyPair.has_eq_false_iff.mpr (hbefore other hmem)]
        rfl
      rw [if_neg hname, KeyPair.isConflicting_eq_false_iff.mpr hkeys, if_neg Bool.false_ne_true,
        hviolation, hfind]
      rfl

/-! ### Building -/

theorem build_eq_ok_iff {decl : SchemaDecl} {schema : KeySchema} :
    decl.build = .ok schema ↔ schema.decl = decl := by
  constructor
  · intro h
    unfold build at h
    split at h
    next =>
      obtain rfl := Except.ok.inj h
      rfl
    next => cases h
  · rintro rfl
    unfold build
    split
    next => rfl
    next error hviolation =>
      rw [schema.valid] at hviolation
      cases hviolation

theorem build_eq_error_iff {decl : SchemaDecl} {error : SchemaError} :
    decl.build = .error error ↔ decl.violation? = some error := by
  unfold build
  split
  next hnone => simp [hnone]
  next other hviolation => simp [hviolation]

/-! ### Declaring in steps -/

/-- **A step of declaring a schema.** -/
inductive Step where
  | rangeKey (property : String)
  | index (declared : IndexDefinition)
  | compositeId (property : String)
  | attributeName (property stored : String)

namespace Step

/-- What a step makes of a declaration. -/
def apply (decl : SchemaDecl) : Step → SchemaDecl
  | rangeKey property => decl.withRangeKey property
  | index declared => decl.withIndex declared
  | compositeId property => decl.withCompositeId property
  | attributeName property stored => decl.withAttributeName property stored

/-- The range property that a step names. -/
def rangeKey? : Step → Option String
  | rangeKey property => some property
  | _ => none

/-- The index that a step adds. -/
def index? : Step → Option IndexDefinition
  | index declared => some declared
  | _ => none

/-- The composite id that a step adds. -/
def compositeId? : Step → Option String
  | compositeId property => some property
  | _ => none

/-- The attribute name that a step gives to a property. -/
def storedFor? (property : String) : Step → Option String
  | attributeName other stored => if other = property then some stored else none
  | _ => none

end Step

/-- **Declaring a schema in steps,** from its hash property on. -/
def ofSteps (hashKey : String) (steps : List Step) : SchemaDecl :=
  steps.foldl Step.apply (ofHashKey hashKey)

/-- **A declaration that says what some steps say:** of single things what was said last, and of
lists all that was said, in its order. -/
structure States (decl : SchemaDecl) (hashKey : String) (steps : List Step) : Prop where
  hashKey : decl.primary.hashKey = hashKey
  rangeKey : decl.primary.rangeKey = (steps.filterMap Step.rangeKey?).getLast?
  indexes : decl.indexes = steps.filterMap Step.index?
  compositeIds : decl.compositeIds = steps.filterMap Step.compositeId?
  attributeNames : ∀ property,
    decl.attributeNames.get? property = (steps.filterMap (Step.storedFor? property)).getLast?

theorem ofSteps_concat (hashKey : String) (steps : List Step) (step : Step) :
    ofSteps hashKey (steps ++ [step]) = step.apply (ofSteps hashKey steps) := by
  rw [ofSteps, List.foldl_append]
  rfl

/-- **A declaration in steps says what its steps say.** Each step changes one thing and leaves all
others as they are. -/
theorem states_ofSteps (hashKey : String) (steps : List Step) :
    (ofSteps hashKey steps).States hashKey steps := by
  induction steps using List.reverseRecOn with
  | nil => exact ⟨rfl, rfl, rfl, rfl, fun _ => rfl⟩
  | append_singleton steps step ih =>
    obtain ⟨hhash, hrange, hindexes, hids, hnames⟩ := ih
    rw [ofSteps_concat]
    refine ⟨?_, ?_, ?_, ?_, fun property => ?_⟩
    · cases step <;> exact hhash
    · cases step with
      | rangeKey property => simp [Step.apply, withRangeKey, Step.rangeKey?]
      | index | compositeId | attributeName =>
        simpa [Step.apply, withIndex, withCompositeId, withAttributeName, Step.rangeKey?] using
          hrange
    · cases step with
      | index declared => simp [Step.apply, withIndex, Step.index?, hindexes]
      | rangeKey | compositeId | attributeName =>
        simpa [Step.apply, withRangeKey, withCompositeId, withAttributeName, Step.index?,
          List.filterMap_cons] using hindexes
    · cases step with
      | compositeId property => simp [Step.apply, withCompositeId, Step.compositeId?, hids]
      | rangeKey | index | attributeName =>
        simpa [Step.apply, withRangeKey, withIndex, withAttributeName, Step.compositeId?,
          List.filterMap_cons] using hids
    · cases step with
      | attributeName other stored =>
        have hinsert : ((ofSteps hashKey steps).withAttributeName other stored).attributeNames.get?
            property = if other = property then some stored
              else (ofSteps hashKey steps).attributeNames.get? property := NameMap.get?_insert
        rw [Step.apply, hinsert, hnames, List.filterMap_append]
        split_ifs with hsame <;> simp [Step.storedFor?, hsame]
      | rangeKey | index | compositeId =>
        simpa [Step.apply, withRangeKey, withIndex, withCompositeId, Step.storedFor?]
          using hnames property

end SchemaDecl

/-! ### Schemas -/

namespace KeySchema

/-- **A schema with all that a declaration says.** -/
structure Holds (schema : KeySchema) (decl : SchemaDecl) : Prop where
  hashKey : schema.hashKey = decl.primary.hashKey
  rangeKey : schema.rangeKey = decl.primary.rangeKey
  indexes : schema.indexes = decl.indexes
  compositeIds : schema.compositeIds = decl.compositeIds
  attributeNames : schema.decl.attributeNames = decl.attributeNames

/-- **A schema exists iff its declaration is valid,** and holds what was declared; otherwise the
first rule that is broken is reported.  This is so for declarations in steps, which say what the
steps say, and for declarations that are read from a document. -/
theorem exists_iff_isValid :
    (∀ decl : SchemaDecl,
      ((∃ schema, decl.build = .ok schema) ↔ decl.IsValid) ∧
        (∀ schema, decl.build = .ok schema → schema.Holds decl) ∧
        ∀ error, decl.build = .error error ↔ decl.BreaksFirst error) ∧
      (∀ hashKey steps, (SchemaDecl.ofSteps hashKey steps).States hashKey steps) ∧
      ∀ {α : Type} [Readable α] (document : α) (decl : SchemaDecl),
        SchemaDecl.record.read (.ofHashKey "") document = .ok decl →
          read document = decl.build.mapError .schema := by
  refine ⟨fun decl => ⟨?_, ?_, fun error => ?_⟩, SchemaDecl.states_ofSteps, ?_⟩
  · rw [← SchemaDecl.violation?_eq_none_iff_isValid]
    constructor
    · rintro ⟨schema, hbuild⟩
      obtain rfl := SchemaDecl.build_eq_ok_iff.mp hbuild
      exact schema.valid
    · exact fun hvalid => ⟨⟨decl, hvalid⟩, SchemaDecl.build_eq_ok_iff.mpr rfl⟩
  · intro schema hbuild
    obtain rfl := SchemaDecl.build_eq_ok_iff.mp hbuild
    exact ⟨rfl, rfl, rfl, rfl, rfl⟩
  · rw [SchemaDecl.build_eq_error_iff, SchemaDecl.violation?_eq_some_iff]
  · intro α _ document decl hread
    rw [read, hread]
    rfl

/-- A document that breaks two rules.  The name of the second index is taken, which is reported
before the conflict of its key. -/
theorem exists_iff_isValid_name_taken :
    let named : List (String × Json) := [("hash_key", .string "day"), ("name", .string "byDay")]
    let document : Json :=
      .object
        [("hash_key", .string "customer"),
          ("indexes", .array [.object named, .object (named ++ [("range_key", .string "day")])])]
    let decl : SchemaDecl :=
      { primary := { hashKey := "customer" }
        indexes :=
          [{ name := "byDay", hashKey := "day" },
            { name := "byDay", hashKey := "day", rangeKey := some "day" }] }
    SchemaDecl.record.read (.ofHashKey "") document = .ok decl ∧
      decl.BreaksFirst (.duplicateIndex "byDay") ∧
      read document = .error (.schema (.duplicateIndex "byDay")) := by
  intro named document decl
  have hread : SchemaDecl.record.read (.ofHashKey "") document = .ok decl := rfl
  have hbuild : decl.build = .error (.duplicateIndex "byDay") := rfl
  refine ⟨hread, ((exists_iff_isValid.1 decl).2.2 _).mp hbuild, ?_⟩
  rw [exists_iff_isValid.2.2 document decl hread, hbuild]
  rfl

end KeySchema

end AccessPlanner
