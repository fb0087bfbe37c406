import AccessPlanner.Decimal.Shortest
import Mathlib.Tactic.SplitIfs

/-!
# Numerals

`IsNumeral` is the form of a number in JSON text: a minus sign or none, a whole number without a
zero in front, and a fraction and an exponent or none.  Whole numbers are written in this form
(`isWhole_toDigits`), and so are doubles, with an exponent or without one
(`DecimalLayout.isNumeral_write`).

The point is the zero in front.  The digits of a number other than zero do not start with a zero,
and the shortest decimal of a double other than zero is not zero, since zero is outside of its
rounding interval (`Binary64.digits_shortest_ne_zero`).
-/

namespace AccessPlanner

/-! ### The form -/

/-- One digit or more. -/
structure IsDigits (text : List Char) : Prop where
  nonempty : text ≠ []
  each : ∀ c ∈ text, c.isDigit = true

/-- **A whole number:** digits that start with a zero only if this is all there is. -/
structure IsWhole (text : List Char) : Prop extends IsDigits text where
  leading : text.head? = some '0' → text = ['0']

/-- A point with digits, or nothing. -/
inductive IsFraction : List Char → Prop
  | absent : IsFraction []
  | point {digits : List Char} (h : IsDigits digits) : IsFraction ('.' :: digits)

/-- A letter with digits, which may have a sign, or nothing. -/
inductive IsExponent : List Char → Prop
  | absent : IsExponent []
  | power {letter : Char} {sign digits : List Char} (hletter : letter = 'e' ∨ letter = 'E')
      (hsign : sign = [] ∨ sign = ['+'] ∨ sign = ['-']) (h : IsDigits digits) :
      IsExponent (letter :: (sign ++ digits))

/-- A number without a sign. -/
inductive IsUnsigned : List Char → Prop
  | parts {whole fraction exponent : List Char} (hwhole : IsWhole whole)
      (hfraction : IsFraction fraction) (hexponent : IsExponent exponent) :
      IsUnsigned (whole ++ fraction ++ exponent)

/-- **A number in JSON text.** -/
inductive IsNumeral : List Char → Prop
  | unsigned {text : List Char} (h : IsUnsigned text) : IsNumeral text
  | negative {text : List Char} (h : IsUnsigned text) : IsNumeral ('-' :: text)

theorem IsDigits.append {first rest : List Char} (h : IsDigits first)
    (hrest : ∀ c ∈ rest, c.isDigit = true) : IsDigits (first ++ rest) :=
  ⟨List.append_ne_nil_of_left_ne_nil h.nonempty rest, List.forall_mem_append.mpr ⟨h.each, hrest⟩⟩

theorem IsDigits.head?_append {first : List Char} (h : IsDigits first) (rest : List Char) :
    (first ++ rest).head? = first.head? := by
  cases first with
  | nil => exact absurd rfl h.nonempty
  | cons c first => rfl

theorem IsWhole.isUnsigned {text : List Char} (h : IsWhole text) : IsUnsigned text := by
  have hparts := IsUnsigned.parts h .absent .absent
  rwa [List.append_nil, List.append_nil] at hparts

/-- Whether a character may stand in a numeral. -/
def isNumeric (c : Char) : Bool := c.isDigit || ['-', '+', '.', 'e', 'E'].contains c

theorem IsDigits.isNumeric {digits : List Char} (h : IsDigits digits) :
    ∀ c ∈ digits, isNumeric c = true :=
  fun c hc => Bool.or_eq_true_iff.mpr (.inl (h.each c hc))

theorem IsUnsigned.isNumeric {text : List Char} (h : IsUnsigned text) :
    ∀ c ∈ text, isNumeric c = true := by
  obtain ⟨hwhole, hfraction, hexponent⟩ := h
  refine List.forall_mem_append.mpr ⟨List.forall_mem_append.mpr
    ⟨hwhole.toIsDigits.isNumeric, ?_⟩, ?_⟩
  · cases hfraction with
    | absent => exact List.forall_mem_nil _
    | point h => exact List.forall_mem_cons.mpr ⟨by decide, h.isNumeric⟩
  · cases hexponent with
    | absent => exact List.forall_mem_nil _
    | power hletter hsign h =>
      refine List.forall_mem_cons.mpr ⟨?_, List.forall_mem_append.mpr ⟨?_, h.isNumeric⟩⟩
      · rcases hletter with rfl | rfl <;> decide
      · rcases hsign with rfl | rfl | rfl <;> simp [AccessPlanner.isNumeric]

/-- **A numeral is made of these characters.** -/
theorem IsNumeral.isNumeric {text : List Char} (h : IsNumeral text) :
    ∀ c ∈ text, isNumeric c = true := by
  cases h with
  | unsigned h => exact h.isNumeric
  | negative h => exact List.forall_mem_cons.mpr ⟨by decide, h.isNumeric⟩

/-- A numeral starts with a digit or with a minus sign. -/
theorem IsNumeral.exists_eq_cons {text : List Char} (h : IsNumeral text) :
    ∃ c more, text = c :: more ∧ (c.isDigit = true ∨ c = '-') := by
  cases h with
  | unsigned h =>
    obtain ⟨hwhole, -, -⟩ := h
    obtain ⟨c, more, rfl⟩ := List.exists_cons_of_ne_nil hwhole.nonempty
    exact ⟨c, _, rfl, .inl (hwhole.each c (List.mem_cons_self ..))⟩
  | negative h => exact ⟨'-', _, rfl, .inr rfl⟩

/-! ### Whole numbers -/

theorem isDigits_toDigits (n : Nat) : IsDigits (Nat.toDigits 10 n) :=
  ⟨Nat.toDigits_ne_nil, fun _ => Nat.isDigit_of_mem_toDigits (by decide) (by decide)⟩

/-- **Only zero starts with a zero.** -/
theorem eq_zero_of_head?_toDigits {n : Nat} (h : (Nat.toDigits 10 n).head? = some '0') : n = 0 := by
  induction n using Nat.strongRecOn with
  | _ n ih =>
    by_cases hn : n < 10
    · rw [Nat.toDigits_of_lt_base hn] at h
      exact Nat.digitChar_eq_zero.mp (Option.some.inj h)
    · rw [Nat.toDigits_of_base_le (by decide) (by omega),
        (isDigits_toDigits (n / 10)).head?_append] at h
      have hzero := ih (n / 10) (by omega) h
      omega

theorem isWhole_toDigits (n : Nat) : IsWhole (Nat.toDigits 10 n) where
  toIsDigits := isDigits_toDigits n
  leading h := by rw [eq_zero_of_head?_toDigits h, Nat.toDigits_zero]

/-! ### The shortest decimal -/

namespace Binary64

/-- Zero is below the rounding interval of any other magnitude: the midpoint to the neighbour below
is at most half a grid step away, and a magnitude is at least one grid step. -/
theorem interval_lower_pos {units : Nat} (h : units ≠ 0) : 0 < (interval units).lower := by
  have hgrid : 1 <<< gridExponent units ≤ units := by
    rw [Nat.one_shiftLeft]
    calc 2 ^ gridExponent units ≤ 2 ^ units.log2 := Nat.pow_le_pow_right (by decide) (by
          unfold gridExponent; omega)
      _ ≤ units := Nat.log2_self_le h
  show 0 < 4 * units - _
  split_ifs <;> omega

theorem digits_ne_zero_of_contains {units : Nat} (h : units ≠ 0) {d : Decimal}
    (hcontains : (interval units).contains d.asUnits.1 d.asUnits.2 = true) : d.digits ≠ 0 := by
  intro hzero
  have hlower := interval_lower_pos h
  have hnum : d.asUnits.1 = 0 := by
    unfold Decimal.asUnits
    split_ifs <;> simp [hzero]
  have hden : 0 < d.asUnits.2 := by
    unfold Decimal.asUnits
    split_ifs
    · exact Nat.pow_pos (by decide)
    · exact Nat.one_pos
  have hproduct := Nat.mul_pos hlower hden
  unfold Interval.contains at hcontains
  rw [hnum] at hcontains
  split_ifs at hcontains
  all_goals
    simp only [Nat.mul_zero, Bool.and_eq_true, decide_eq_true_eq] at hcontains
    omega

/-- Of two candidates, the one that is taken fits. -/
theorem fits_of_eq_some {fits : Decimal → Bool} {first second d : Decimal}
    (h : (if fits first then some first else if fits second then some second else none) = some d) :
    fits d = true := by
  split_ifs at h with hfirst hsecond
  · obtain rfl := Option.some.inj h
    exact hfirst
  · obtain rfl := Option.some.inj h
    exact hsecond

theorem digits_ne_zero_of_onGrid? {units : Nat} (h : units ≠ 0) {exponent : Int} {d : Decimal}
    (hfound : onGrid? units exponent = some d) : d.digits ≠ 0 := by
  let fits (d : Decimal) : Bool := (interval units).contains d.asUnits.1 d.asUnits.2
  have hfits : fits d = true := fits_of_eq_some hfound
  exact digits_ne_zero_of_contains h hfits

theorem digits_trimmed_ne_zero {d : Decimal} (h : d.digits ≠ 0) (fuel : Nat) :
    (d.trimmed fuel).digits ≠ 0 := by
  induction fuel generalizing d with
  | zero => exact h
  | succ fuel ih =>
    unfold Decimal.trimmed
    split_ifs with hlast
    · refine ih ?_
      show d.digits / 10 ≠ 0
      omega
    · exact h

/-- **The shortest decimal of a magnitude other than zero is not zero.** -/
theorem digits_shortest_ne_zero {units : Nat} (h : units ≠ 0) : (shortest units).digits ≠ 0 := by
  unfold shortest
  refine digits_trimmed_ne_zero ?_ 20
  cases hfound : (List.range 17).findSome? fun (more : Nat) =>
      onGrid? units (leadingExponent units - more) with
  | none => exact h
  | some d =>
    obtain ⟨more, -, hmore⟩ := List.exists_of_findSome?_eq_some hfound
    exact digits_ne_zero_of_onGrid? h hmore

end Binary64

/-! ### Doubles -/

namespace DecimalLayout

variable {digits : List Char}

theorem isDigit_of_mem_zeros {count : Nat} : ∀ c ∈ List.replicate count '0', c.isDigit = true := by
  intro c hc
  rw [List.eq_of_mem_replicate hc]
  rfl

theorem isUnsigned_positional (h : IsDigits digits) (hhead : digits.head? ≠ some '0')
    (leading : Int) : IsUnsigned (positional digits leading) := by
  unfold positional
  split_ifs with hnegative
  · have hwhole : IsWhole ['0'] := ⟨⟨List.cons_ne_nil _ _, by simp⟩, fun _ => rfl⟩
    have hfraction : IsDigits (List.replicate (leading.natAbs - 1) '0' ++ digits) :=
      ⟨List.append_ne_nil_of_right_ne_nil _ h.nonempty,
        List.forall_mem_append.mpr ⟨isDigit_of_mem_zeros, h.each⟩⟩
    have hparts := IsUnsigned.parts hwhole (.point hfraction) .absent
    simpa using hparts
  · dsimp only
    have hpadded : IsDigits
        (digits ++ List.replicate (leading.natAbs + 1 - digits.length) '0') :=
      h.append isDigit_of_mem_zeros
    have hfirst : (digits ++ List.replicate (leading.natAbs + 1 - digits.length) '0').head? ≠
        some '0' := by
      rwa [h.head?_append]
    generalize digits ++ List.replicate (leading.natAbs + 1 - digits.length) '0' = padded
      at hpadded hfirst ⊢
    -- the whole part starts with the first digit
    have hwhole : IsWhole (padded.take (leading.natAbs + 1)) := by
      refine ⟨⟨?_, fun c hc => hpadded.each c (List.mem_of_mem_take hc)⟩, fun hzero => ?_⟩
      · simpa using hpadded.nonempty
      · rw [List.head?_take, if_neg (by omega)] at hzero
        exact absurd hzero hfirst
    have hfraction : IsDigits (if (padded.drop (leading.natAbs + 1)).isEmpty then ['0']
        else padded.drop (leading.natAbs + 1)) := by
      split_ifs with hempty
      · exact ⟨List.cons_ne_nil _ _, by simp⟩
      · exact ⟨by simpa using hempty, fun c hc => hpadded.each c (List.mem_of_mem_drop hc)⟩
    have hparts := IsUnsigned.parts hwhole (.point hfraction) .absent
    rwa [List.append_nil] at hparts

theorem isUnsigned_scientific (h : IsDigits digits) (hhead : digits.head? ≠ some '0')
    (leading : Int) : IsUnsigned (scientific digits leading) := by
  cases digits with
  | nil => exact absurd rfl h.nonempty
  | cons first rest =>
    have hrest : ∀ c ∈ rest, c.isDigit = true := fun c hc => h.each c (List.mem_cons_of_mem _ hc)
    have hwhole : IsWhole [first] := by
      refine ⟨⟨List.cons_ne_nil _ _, ?_⟩, fun hzero => absurd hzero hhead⟩
      exact List.forall_mem_singleton.mpr (h.each first (List.mem_cons_self ..))
    have hfraction : IsFraction (if rest.isEmpty then [] else '.' :: rest) := by
      split_ifs with hempty
      · exact .absent
      · exact .point ⟨by simpa using hempty, hrest⟩
    have hexponent : IsExponent ('e' :: ([if leading < 0 then '-' else '+'] ++
        Nat.toDigits 10 leading.natAbs)) := by
      refine .power (.inl rfl) ?_ (isDigits_toDigits _)
      split_ifs <;> simp
    have hparts := IsUnsigned.parts hwhole hfraction hexponent
    simpa [scientific] using hparts

/-- **Doubles are written as numerals.** -/
theorem isNumeral_write (layout : DecimalLayout) (x : Binary64) :
    IsNumeral (layout.write x).toList := by
  have hbody : ∃ body, IsUnsigned body ∧
      (layout.write x).toList = (if x.negative then ['-'] else []) ++ body := by
    unfold write
    dsimp only
    by_cases hzero : x.units = 0
    · have hparts := IsUnsigned.parts (isWhole_toDigits 0) (.point (isDigits_toDigits 0)) .absent
      rw [Nat.toDigits_zero] at hparts
      exact ⟨_, hparts, by rw [if_pos hzero, String.toList_ofList]; rfl⟩
    · have hhead : (Nat.toDigits 10 (Binary64.shortest x.units).digits).head? ≠ some '0' :=
        mt eq_zero_of_head?_toDigits (Binary64.digits_shortest_ne_zero hzero)
      rw [if_neg hzero, String.toList_ofList]
      refine ⟨_, ?_, rfl⟩
      split_ifs
      · exact isUnsigned_positional (isDigits_toDigits _) hhead _
      · exact isUnsigned_scientific (isDigits_toDigits _) hhead _
  obtain ⟨body, hunsigned, hwrite⟩ := hbody
  rw [hwrite]
  split_ifs
  · exact .negative hunsigned
  · exact .unsigned hunsigned

end DecimalLayout

end AccessPlanner
