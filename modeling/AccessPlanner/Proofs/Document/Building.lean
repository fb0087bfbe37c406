import AccessPlanner.Plan
import AccessPlanner.Proofs.Document.RoundTrip
import AccessPlanner.Proofs.Schema.Rules
import Mathlib.Data.List.DropRight

/-!
# Building condition sets

A condition set is built in steps, and a condition that is refused on the way does not stop them.
The first refusal is kept, so that the set is not planned without the condition that was meant to be
in it (`ConditionSet.build_keeps_refusal`).

A refusal is no part of a document.  A set that is read back has forgotten what was refused before,
and only what is refused afterwards counts (`ConditionSet.build_forgets_refusal`).
-/

namespace AccessPlanner

/-- The refusal of a condition, if it is not admitted. -/
def Condition.refusal? (property : String) (operator : Operator) (values : List Json) :
    Option ConditionError :=
  match make property operator values with
  | .error cause => some cause
  | .ok _ => none

namespace ConditionSet

/-! ### Steps -/

/-- **A step of building a condition set.** Comparisons and ranges are looked at when they are put
in; a condition of its own is put in as it is.  Reloading is writing the set and reading it back as
a value, and loading is reading a text, which may be one of the set. -/
inductive Step where
  | compare (property : String) (operator : Operator) (value : Json)
  | between (property : String) (low high : Json)
  | add (condition : Condition)
  | sortBy (order : SortOrder)
  | limitTo (count : Nat)
  | readConsistently (consistent : Bool)
  | reload
  | load (text : List UInt8)

namespace Step

/-- What a step makes of a set. -/
def apply (set : ConditionSet) : Step → Except DocumentError ConditionSet
  | compare property operator value => .ok (set.compare property operator value)
  | between property low high => .ok (set.between property low high)
  | add condition => .ok (set.add condition)
  | sortBy order => .ok (set.sortBy order)
  | limitTo count => .ok (set.limitTo count)
  | readConsistently consistent => .ok (set.readConsistently consistent)
  | reload => read set.toJson
  | load text => readText read text

/-- The refusal of the condition that a step brings in. -/
def refusal? : Step → Option ConditionError
  | compare property operator value => Condition.refusal? property operator [value]
  | between property low high => Condition.refusal? property .between [low, high]
  | _ => none

/-- Whether a step reads a document. -/
def isReading : Step → Bool
  | reload | load _ => true
  | _ => false

end Step

/-- **Building a set** from nothing, step by step. -/
def build (steps : List Step) : Except DocumentError ConditionSet :=
  steps.foldlM (fun set step => step.apply set) empty

/-- **The first refusal** since a document was read. -/
def firstRefusal? (steps : List Step) : Option ConditionError :=
  (steps.rtakeWhile fun step => !step.isReading).findSome? Step.refusal?

/-! ### One step -/

/-- An earlier refusal comes before that of the condition that is put in. -/
theorem rejected_push (set : ConditionSet) (property : String) (operator : Operator)
    (values : List Json) :
    (set.push property operator values).rejected =
      set.rejected.or (Condition.refusal? property operator values) := by
  unfold push Condition.refusal?
  cases Condition.make property operator values with
  | ok condition => exact (Option.or_none).symm
  | error cause => cases h : set.rejected <;> simp

theorem mem_of_mem_push {set : ConditionSet} {property : String} {operator : Operator}
    {values : List Json} {condition : Condition}
    (h : condition ∈ (set.push property operator values).conditions) :
    condition ∈ set.conditions ∨ condition.property ≠ "" := by
  unfold push at h
  split at h
  next made hmake =>
    rcases List.mem_append.mp h with hset | hmade
    · exact .inl hset
    · obtain rfl := List.mem_singleton.mp hmade
      exact .inr (Condition.property_ne_empty_of_make hmake)
  next => exact .inl h

theorem isAdmitted_of_readText {text : List UInt8} {set : ConditionSet}
    (h : readText read text = .ok set) : set.IsAdmitted := by
  unfold readText at h
  dsimp only at h
  split at h
  next => cases h
  next hread =>
    split at h
    next =>
      obtain rfl := Except.ok.inj h
      exact isAdmitted_of_read hread
    next => cases h

/-- **Every step but reading keeps a refusal,** and takes up its own if there is none before it. -/
theorem rejected_of_apply {set next : ConditionSet} {step : Step}
    (h : step.apply set = .ok next) :
    next.rejected = if step.isReading then none else set.rejected.or step.refusal? := by
  cases step with
  | compare property operator value =>
    obtain rfl := Except.ok.inj h
    exact set.rejected_push property operator [value]
  | between property low high =>
    obtain rfl := Except.ok.inj h
    exact set.rejected_push property .between [low, high]
  | add | sortBy | limitTo | readConsistently =>
    obtain rfl := Except.ok.inj h
    exact (Option.or_none).symm
  | reload => exact (isAdmitted_of_read h).rejected
  | load text => exact (isAdmitted_of_readText h).rejected

/-- **Where a condition comes from:** it was there before, it was looked at, or it was put in as it
is. -/
theorem mem_of_apply {set next : ConditionSet} {step : Step} (h : step.apply set = .ok next)
    {condition : Condition} (hmem : condition ∈ next.conditions) :
    condition ∈ set.conditions ∨ condition.property ≠ "" ∨ step = .add condition := by
  cases step with
  | compare | between =>
    obtain rfl := Except.ok.inj h
    exact (mem_of_mem_push hmem).imp_right .inl
  | add added =>
    obtain rfl := Except.ok.inj h
    rcases List.mem_append.mp hmem with hset | hadded
    · exact .inl hset
    · rw [List.mem_singleton.mp hadded]
      exact .inr (.inr rfl)
  | sortBy | limitTo | readConsistently =>
    obtain rfl := Except.ok.inj h
    exact .inl hmem
  | reload => exact .inr (.inl ((isAdmitted_of_read h).named condition hmem))
  | load text => exact .inr (.inl ((isAdmitted_of_readText h).named condition hmem))

/-- **Only reading can fail.** A set is read back from its own document unless it has a condition
without a property. -/
theorem reading_of_apply_eq_error {set : ConditionSet} {step : Step} {cause : DocumentError}
    (h : step.apply set = .error cause) :
    (∃ text, step = .load text) ∨
      step = .reload ∧ ∃ condition ∈ set.conditions, condition.property = "" := by
  cases step with
  | compare | between | add | sortBy | limitTo | readConsistently => cases h
  | reload =>
    refine .inr ⟨rfl, ?_⟩
    by_contra hnamed
    have hread : read set.toJson = .error cause := h
    rw [read_toJson fun condition hmem hname => hnamed ⟨condition, hmem, hname⟩] at hread
    cases hread
  | load text => exact .inl ⟨text, rfl⟩

/-! ### All steps -/

theorem build_concat (steps : List Step) (step : Step) :
    build (steps ++ [step]) = build steps >>= step.apply := by
  rw [build, List.foldlM_append]
  congr 1
  funext set
  exact bind_pure (step.apply set)

theorem firstRefusal?_concat (steps : List Step) (step : Step) :
    firstRefusal? (steps ++ [step]) =
      if step.isReading then none else (firstRefusal? steps).or step.refusal? := by
  unfold firstRefusal?
  cases hreading : step.isReading with
  | true =>
    rw [List.rtakeWhile_concat_neg _ _ _ (by simp [hreading])]
    rfl
  | false =>
    rw [List.rtakeWhile_concat_pos _ _ _ (by simp [hreading]), List.findSome?_append]
    simp

/-- **What a set keeps** after all its steps: the first refusal since it was read, and conditions
whose properties have names, unless they were put in as they are. -/
theorem of_build_eq_ok {steps : List Step} {set : ConditionSet} (h : build steps = .ok set) :
    set.rejected = firstRefusal? steps ∧
      ∀ condition ∈ set.conditions, condition.property ≠ "" ∨ .add condition ∈ steps := by
  induction steps using List.reverseRecOn generalizing set with
  | nil =>
    obtain rfl := Except.ok.inj h
    exact ⟨rfl, List.forall_mem_nil _⟩
  | append_singleton steps step ih =>
    rw [build_concat] at h
    obtain ⟨earlier, hearlier, hstep⟩ := bind_eq_ok_iff.mp h
    obtain ⟨hrejected, hnamed⟩ := ih hearlier
    rw [firstRefusal?_concat, ← hrejected]
    refine ⟨rejected_of_apply hstep, fun condition hmem => ?_⟩
    rcases mem_of_apply hstep hmem with hset | hname | rfl
    · exact (hnamed condition hset).imp_right (List.mem_append_left _)
    · exact .inl hname
    · exact .inr (List.mem_append_right _ (List.mem_cons_self ..))

theorem reading_of_build_eq_error {steps : List Step} {cause : DocumentError}
    (h : build steps = .error cause) :
    (∃ text, .load text ∈ steps) ∨
      .reload ∈ steps ∧ ∃ condition, .add condition ∈ steps ∧ condition.property = "" := by
  induction steps using List.reverseRecOn with
  | nil => cases h
  | append_singleton steps step ih =>
    have hlast : step ∈ steps ++ [step] := List.mem_append_right _ (List.mem_cons_self ..)
    rw [build_concat] at h
    cases hearlier : build steps with
    | error earlier =>
      rw [hearlier] at h
      obtain rfl := Except.error.inj h
      rcases ih hearlier with ⟨text, hmem⟩ | ⟨hreload, condition, hmem, hname⟩
      · exact .inl ⟨text, List.mem_append_left _ hmem⟩
      · exact .inr ⟨List.mem_append_left _ hreload, condition, List.mem_append_left _ hmem, hname⟩
    | ok set =>
      rw [hearlier] at h
      rcases reading_of_apply_eq_error h with ⟨text, rfl⟩ | ⟨rfl, condition, hmem, hname⟩
      · exact .inl ⟨text, hlast⟩
      · -- the condition without a property was put in as it is
        have hadded := ((of_build_eq_ok hearlier).2 condition hmem).resolve_left (· hname)
        exact .inr ⟨hlast, condition, List.mem_append_left _ hadded, hname⟩

/-- **A refused condition is never lost on the way.** Building fails only where a text is read, or
where a set is read back into which a condition without a property was put.  What is built is valid
unless a condition was refused since it was last read; then the first such refusal is reported, and
planning fails with it. -/
theorem build_keeps_refusal (steps : List Step) :
    match build steps with
    | .error _ =>
      (∃ text, .load text ∈ steps) ∨
        .reload ∈ steps ∧ ∃ condition, .add condition ∈ steps ∧ condition.property = ""
    | .ok set =>
      match firstRefusal? steps with
      | none => set.validate = .ok ()
      | some cause =>
        set.validate = .error cause ∧
          ∀ keys config projection,
            set.plan keys config projection = .error (.invalidCondition cause) := by
  cases hbuild : build steps with
  | error cause => exact reading_of_build_eq_error hbuild
  | ok set =>
    have hrejected := (of_build_eq_ok hbuild).1
    cases hfirst : firstRefusal? steps with
    | none =>
      show set.validate = .ok ()
      rw [validate, hrejected, hfirst]
    | some cause =>
      have hvalidate : set.validate = .error cause := by
        rw [validate, hrejected, hfirst]
      refine ⟨hvalidate, fun keys config projection => ?_⟩
      rw [plan, hvalidate]
      rfl

/-- A comparison without a property is forgotten when the set is read back, and everything else is
scanned for. -/
theorem build_forgets_refusal :
    let nameless : Step := .compare "" .eq (.string "ada")
    let steps := [nameless, .compare "total" .gt (.ofNat 100)]
    firstRefusal? steps = some .emptyProperty ∧
      ∃ set, build (steps ++ [.reload]) = .ok set ∧ set.validate = .ok () ∧
        set.plan KeySchema.parcels.entity .withScans .items =
          .ok (.scan ⟨[⟨"total", .gt, [.ofNat 100], rfl⟩], none⟩) := by
  intro nameless steps
  let kept : ConditionSet :=
    { conditions := [⟨"total", .gt, [.ofNat 100], rfl⟩], rejected := some .emptyProperty }
  have hkept : build steps = .ok kept := rfl
  have hnamed : ∀ condition ∈ kept.conditions, condition.property ≠ "" := by simp [kept]
  have hreload : build (steps ++ [.reload]) = .ok { kept with rejected := none } := by
    rw [build_concat, hkept]
    exact read_toJson hnamed
  exact ⟨rfl, _, hreload, rfl, rfl⟩

end ConditionSet

end AccessPlanner
