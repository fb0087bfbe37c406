import AccessPlanner.Proofs.Json.Grammar

/-!
# A text has one reading

The text of a value ends where the value does: if two texts of values go on with a comma, with a
closing bracket or not at all, and are the same together with what follows, then what follows is the
same (`Json.IsText.unambiguous`).  So an object in a text has the names that it has
(`Json.IsObject.names_eq`).

The induction is on the first of two texts, and the first character says which of the forms of a
text the second one has (`Json.IsText.hasForm`).  Numerals end before the first character that is in
no numeral, strings at the first quotation mark that is not escaped; in arrays and objects the parts
are compared one after the other (`Json.separated_unambiguous`).
-/

namespace AccessPlanner.Json

variable {rest otherRest : List Char}

/-! ### Strings -/

theorem IsPiece.unambiguous {c other : Char} {piece otherPiece : List Char} (h : IsPiece c piece)
    (hother : IsPiece other otherPiece) (heq : piece ++ rest = otherPiece ++ otherRest) :
    c = other ∧ rest = otherRest := by
  have hletters : ∀ a ∈ escapes, ∀ b ∈ escapes, a.1 = b.1 → a.2 = b.2 := by decide
  have hnumber : ∀ a ∈ escapes, a.1 ≠ 'u' := by decide
  cases h with
  | plain _ _ hbackslash =>
    cases hother with
    | plain => exact List.cons.inj heq
    | letter | number => exact absurd (List.cons.inj heq).1 hbackslash
  | letter hletter =>
    cases hother with
    | plain _ _ hbackslash => exact absurd (List.cons.inj heq).1.symm hbackslash
    | letter hother =>
      obtain ⟨hsame, hrest⟩ := List.cons.inj (List.cons.inj heq).2
      exact ⟨hletters _ hletter _ hother hsame, hrest⟩
    | number => exact absurd (List.cons.inj (List.cons.inj heq).2).1 (hnumber _ hletter)
  | number ha hb hd he hvalue =>
    cases hother with
    | plain _ _ hbackslash => exact absurd (List.cons.inj heq).1.symm hbackslash
    | letter hother => exact absurd (List.cons.inj (List.cons.inj heq).2).1.symm (hnumber _ hother)
    | number ha' hb' hd' he' hvalue' =>
      simp only [List.cons_append, List.nil_append, List.cons.injEq, true_and] at heq
      obtain ⟨rfl, rfl, rfl, rfl, hrest⟩ := heq
      obtain rfl := Option.some.inj (ha.symm.trans ha')
      obtain rfl := Option.some.inj (hb.symm.trans hb')
      obtain rfl := Option.some.inj (hd.symm.trans hd')
      obtain rfl := Option.some.inj (he.symm.trans he')
      exact ⟨Char.toNat_inj.mp (hvalue.trans hvalue'.symm), hrest⟩

/-- No piece starts with a quotation mark. -/
theorem IsPiece.ne_quote {c : Char} {piece text : List Char} (h : IsPiece c piece)
    (heq : '"' :: rest = piece ++ text) : False := by
  cases h with
  | plain _ hquote => exact hquote (List.cons.inj heq).1.symm
  | letter | number => exact absurd (List.cons.inj heq).1 (by decide)

theorem Spells.unambiguous {cs others text other : List Char} (h : Spells cs text)
    (hother : Spells others other) (heq : text ++ '"' :: rest = other ++ '"' :: otherRest) :
    cs = others ∧ rest = otherRest := by
  induction h generalizing others other with
  | nil =>
    cases hother with
    | nil => exact ⟨rfl, (List.cons.inj heq).2⟩
    | cons hpiece =>
      rw [List.append_assoc] at heq
      exact (hpiece.ne_quote heq).elim
  | cons hpiece _ ih =>
    rw [List.append_assoc] at heq
    cases hother with
    | nil => exact (hpiece.ne_quote heq.symm).elim
    | cons hpiece' hother =>
      rw [List.append_assoc] at heq
      obtain ⟨rfl, heq⟩ := hpiece.unambiguous hpiece' heq
      obtain ⟨rfl, hrest⟩ := ih hother heq
      exact ⟨rfl, hrest⟩

/-- **A string ends at its quotation mark.** -/
theorem IsQuoted.unambiguous {value other : String} {text otherText : List Char}
    (h : IsQuoted value text) (hother : IsQuoted other otherText)
    (heq : text ++ rest = otherText ++ otherRest) : value = other ∧ rest = otherRest := by
  obtain ⟨hspells⟩ := h
  obtain ⟨hspells'⟩ := hother
  rw [List.cons_append, List.cons_append, List.append_assoc, List.append_assoc] at heq
  obtain ⟨hvalue, hrest⟩ := hspells.unambiguous hspells' (List.cons.inj heq).2
  exact ⟨String.toList_injective hvalue, hrest⟩

/-! ### Numerals -/

/-- **What may follow a value:** a comma, a closing bracket or nothing. -/
def Ends (rest : List Char) : Prop := ∀ c ∈ rest.head?, c ∈ [',', ']', '}']

/-- **A numeral ends before the first character that is in no numeral.** -/
theorem dropWhile_isNumeric {text : List Char} (h : IsNumeral text) (hends : Ends rest) :
    (text ++ rest).dropWhile isNumeric = rest := by
  rw [List.dropWhile_append_of_pos h.isNumeric]
  cases rest with
  | nil => rfl
  | cons c more =>
    have hnot : ∀ closing ∈ [',', ']', '}'], isNumeric closing = false := by
      simp [isNumeric]
    rw [List.dropWhile_cons, hnot c (hends c rfl), if_neg Bool.false_ne_true]

/-! ### Forms -/

/-- The forms of a text. -/
inductive Form where
  | null
  | true
  | false
  | number
  | string
  | array
  | object

/-- The form of a text, by its first character. -/
def Form.of : List Char → Form
  | 'n' :: _ => .null
  | 't' :: _ => .true
  | 'f' :: _ => .false
  | '"' :: _ => .string
  | '[' :: _ => .array
  | '{' :: _ => .object
  | _ => .number

/-- A text of a form. -/
def HasForm (text : List Char) : Form → Prop
  | .null => text = ['n', 'u', 'l', 'l']
  | .true => text = ['t', 'r', 'u', 'e']
  | .false => text = ['f', 'a', 'l', 's', 'e']
  | .number => IsNumeral text
  | .string => ∃ value, IsQuoted value text
  | .array => ∃ items, (∀ item ∈ items, IsText item) ∧ text = '[' :: (separated items ++ [']'])
  | .object => ∃ members : List Member,
      (∀ member ∈ members, IsQuoted member.name member.quoted ∧ IsText member.value) ∧
        text = braced members

theorem form_of_isNumeral {text : List Char} (h : IsNumeral text) (rest : List Char) :
    Form.of (text ++ rest) = .number := by
  obtain ⟨c, more, rfl, hfirst⟩ := h.exists_eq_cons
  rw [List.cons_append]
  unfold Form.of
  split <;> simp_all

/-- **The first character decides on the form.** -/
theorem IsText.hasForm {text : List Char} (h : IsText text) (rest : List Char) :
    HasForm text (Form.of (text ++ rest)) := by
  cases h with
  | null | true | false => rfl
  | number h =>
    rw [form_of_isNumeral h]
    exact h
  | string h =>
    obtain ⟨hspells⟩ := h
    exact ⟨_, .quoted hspells⟩
  | array h => exact ⟨_, h, rfl⟩
  | object hnames hvalues =>
    exact ⟨_, fun member hmem => ⟨hnames member hmem, hvalues member hmem⟩, rfl⟩

/-! ### Parts -/

/-- **A text that shows where it ends:** whatever goes on in the same way after a text of the same
kind goes on with the same. -/
def IsUnambiguous (isPart : List Char → Prop) (text : List Char) : Prop :=
  ∀ {other rest otherRest : List Char}, isPart other → Ends rest → Ends otherRest →
    text ++ rest = other ++ otherRest → rest = otherRest

theorem ends_tail {closing : Char} (hclosing : closing ∈ [',', ']', '}'])
    (texts : List (List Char)) (rest : List Char) :
    Ends (texts.flatMap (fun text => ',' :: text) ++ closing :: rest) := by
  intro c hc
  cases texts with
  | nil =>
    obtain rfl := Option.some.inj hc
    exact hclosing
  | cons text texts =>
    obtain rfl := Option.some.inj hc
    exact List.mem_cons_self ..

theorem tail_unambiguous {isPart : List Char → Prop} {closing : Char}
    (hclosing : closing ∈ [']', '}']) {texts others : List (List Char)}
    (htexts : ∀ text ∈ texts, IsUnambiguous isPart text) (hothers : ∀ other ∈ others, isPart other)
    (heq : texts.flatMap (fun text => ',' :: text) ++ closing :: rest =
      others.flatMap (fun other => ',' :: other) ++ closing :: otherRest) :
    texts = others ∧ rest = otherRest := by
  have hcomma : closing ≠ ',' := by
    rintro rfl
    revert hclosing
    decide
  have hmem : closing ∈ [',', ']', '}'] := List.mem_cons_of_mem _ hclosing
  induction texts generalizing others with
  | nil =>
    cases others with
    | nil => exact ⟨rfl, (List.cons.inj heq).2⟩
    | cons other others => exact absurd (List.cons.inj heq).1 hcomma
  | cons text texts ih =>
    cases others with
    | nil => exact absurd (List.cons.inj heq).1.symm hcomma
    | cons other others =>
      obtain ⟨hfirst, hmore⟩ := List.forall_mem_cons.mp htexts
      obtain ⟨hother, hothers⟩ := List.forall_mem_cons.mp hothers
      rw [List.flatMap_cons, List.flatMap_cons, List.append_assoc, List.append_assoc] at heq
      have hpart := (List.cons.inj heq).2
      have htail := hfirst hother (ends_tail hmem _ _) (ends_tail hmem _ _) hpart
      obtain ⟨rfl, hrest⟩ := ih hmore hothers htail
      rw [htail] at hpart
      exact ⟨congrArg (· :: texts) (List.append_cancel_right hpart), hrest⟩

/-- **Texts between commas are compared one after the other.** -/
theorem separated_unambiguous {isPart : List Char → Prop} {closing : Char}
    (hclosing : closing ∈ [']', '}']) {texts others : List (List Char)}
    (htexts : ∀ text ∈ texts, IsUnambiguous isPart text) (hothers : ∀ other ∈ others, isPart other)
    (hopen : ∀ text ∈ texts ++ others, text ≠ [] ∧ ¬ Ends text)
    (heq : separated texts ++ closing :: rest = separated others ++ closing :: otherRest) :
    texts = others ∧ rest = otherRest := by
  have hmem : closing ∈ [',', ']', '}'] := List.mem_cons_of_mem _ hclosing
  -- no part starts with the closing bracket
  have hdiffers : ∀ text ∈ texts ++ others, ∀ after more : List Char,
      closing :: after ≠ text ++ more := by
    intro text htext after more hsame
    obtain ⟨hne, hends⟩ := hopen text htext
    obtain ⟨c, text, rfl⟩ := List.exists_cons_of_ne_nil hne
    obtain rfl : closing = c := (List.cons.inj hsame).1
    refine hends fun c hc => ?_
    obtain rfl := Option.some.inj hc
    exact hmem
  cases texts with
  | nil =>
    cases others with
    | nil => exact ⟨rfl, (List.cons.inj heq).2⟩
    | cons other others =>
      rw [separated, separated, List.append_assoc] at heq
      exact absurd heq (hdiffers other (List.mem_cons_self ..) _ _)
  | cons text texts =>
    cases others with
    | nil =>
      rw [separated, separated, List.append_assoc] at heq
      exact absurd heq.symm (hdiffers text (List.mem_cons_self ..) _ _)
    | cons other others =>
      -- with one more comma in front, both are tails
      exact tail_unambiguous hclosing htexts hothers (congrArg (',' :: ·) heq)

/-! ### Values -/

/-- A text is no place where another one ends. -/
theorem IsText.not_ends {text : List Char} (h : IsText text) : text ≠ [] ∧ ¬ Ends text := by
  have hopening : ∀ {c : Char} {more : List Char}, c ∉ [',', ']', '}'] →
      c :: more ≠ [] ∧ ¬ Ends (c :: more) :=
    fun hc => ⟨List.cons_ne_nil _ _, fun hends => hc (hends _ rfl)⟩
  cases h with
  | null | true | false | array | object => exact hopening (by decide)
  | number h =>
    obtain ⟨c, more, rfl, hfirst⟩ := h.exists_eq_cons
    refine hopening fun hc => ?_
    simp at hc
    rcases hc with rfl | rfl | rfl <;> simp_all
  | string h =>
    obtain ⟨-⟩ := h
    exact hopening (by decide)

/-- A field of an object as it stands in a text. -/
def IsMember (text : List Char) : Prop :=
  ∃ found : Member, IsQuoted found.name found.quoted ∧ IsText found.value ∧ found.text = text

theorem IsMember.not_ends {text : List Char} (h : IsMember text) : text ≠ [] ∧ ¬ Ends text := by
  obtain ⟨⟨name, quoted, value⟩, ⟨-⟩, -, rfl⟩ := h
  exact ⟨List.cons_ne_nil _ _, fun hends => absurd (hends _ rfl) (by decide)⟩

theorem isUnambiguous_member {found : Member} (hquoted : IsQuoted found.name found.quoted)
    (hvalue : IsUnambiguous IsText found.value) : IsUnambiguous IsMember found.text := by
  rintro _ rest otherRest ⟨other, hother, hotherValue, rfl⟩ hends hends' heq
  unfold Member.text at heq
  rw [List.append_assoc, List.append_assoc] at heq
  obtain ⟨-, htail⟩ := hquoted.unambiguous hother heq
  exact hvalue hotherValue hends hends' (List.cons.inj htail).2

theorem braced_unambiguous {members others : List Member}
    (hmembers : ∀ found ∈ members, IsQuoted found.name found.quoted ∧ IsText found.value)
    (hvalues : ∀ found ∈ members, IsUnambiguous IsText found.value)
    (hothers : ∀ found ∈ others, IsQuoted found.name found.quoted ∧ IsText found.value)
    (heq : braced members ++ rest = braced others ++ otherRest) :
    members.map Member.text = others.map Member.text ∧ rest = otherRest := by
  have hparts : ∀ {members : List Member},
      (∀ found ∈ members, IsQuoted found.name found.quoted ∧ IsText found.value) →
      ∀ text ∈ members.map Member.text, IsMember text := by
    intro members hmembers text htext
    obtain ⟨found, hmem, rfl⟩ := List.mem_map.mp htext
    exact ⟨found, (hmembers found hmem).1, (hmembers found hmem).2, rfl⟩
  unfold braced at heq
  rw [List.cons_append, List.cons_append, List.append_assoc, List.append_assoc] at heq
  refine separated_unambiguous (by decide) ?_ (hparts hothers) ?_ (List.cons.inj heq).2
  · intro text htext
    obtain ⟨found, hmem, rfl⟩ := List.mem_map.mp htext
    exact isUnambiguous_member (hmembers found hmem).1 (hvalues found hmem)
  · intro text hmem
    rcases List.mem_append.mp hmem with hmem | hmem
    · exact (hparts hmembers text hmem).not_ends
    · exact (hparts hothers text hmem).not_ends

/-- **The text of a value ends where the value does.** -/
theorem IsText.unambiguous {text : List Char} (h : IsText text) : IsUnambiguous IsText text := by
  -- in each case, the two texts start with the same character, so that they are of one form
  induction h with
  | null | true | false =>
    intro other rest otherRest hother _ _ heq
    have hform := hother.hasForm otherRest
    rw [← heq] at hform
    obtain rfl : other = _ := hform
    exact List.append_cancel_left heq
  | number h =>
    -- only here it matters what follows
    intro other rest otherRest hother hends hends' heq
    have hform := hother.hasForm otherRest
    rw [← heq, form_of_isNumeral h] at hform
    rw [← dropWhile_isNumeric h hends, heq, dropWhile_isNumeric hform hends']
  | @string value text h =>
    intro other rest otherRest hother _ _ heq
    have hform := hother.hasForm otherRest
    rw [← heq] at hform
    obtain ⟨otherValue, hquoted⟩ : ∃ value, IsQuoted value other := by
      obtain ⟨-⟩ := h
      exact hform
    exact (h.unambiguous hquoted heq).2
  | array h ih =>
    intro other rest otherRest hother _ _ heq
    have hform := hother.hasForm otherRest
    rw [← heq] at hform
    obtain ⟨items, hitems, rfl⟩ := hform
    rw [List.cons_append, List.cons_append, List.append_assoc, List.append_assoc] at heq
    refine (separated_unambiguous (by decide) ih hitems ?_ (List.cons.inj heq).2).2
    intro text hmem
    rcases List.mem_append.mp hmem with hmem | hmem
    · exact (h text hmem).not_ends
    · exact (hitems text hmem).not_ends
  | object hnames hvalues ih =>
    intro other rest otherRest hother _ _ heq
    have hform := hother.hasForm otherRest
    rw [← heq] at hform
    obtain ⟨members, hmembers, rfl⟩ := hform
    exact (braced_unambiguous
      (fun found hmem => ⟨hnames found hmem, hvalues found hmem⟩) ih hmembers heq).2

/-! ### Objects -/

/-- The text of a field begins with its name. -/
theorem names_eq_of_texts_eq {members others : List Member}
    (hmembers : ∀ found ∈ members, IsQuoted found.name found.quoted)
    (hothers : ∀ found ∈ others, IsQuoted found.name found.quoted)
    (heq : members.map Member.text = others.map Member.text) :
    members.map Member.name = others.map Member.name := by
  induction members generalizing others with
  | nil =>
    cases others with
    | nil => rfl
    | cons other others => cases heq
  | cons found members ih =>
    cases others with
    | nil => cases heq
    | cons other others =>
      obtain ⟨hfound, hmembers⟩ := List.forall_mem_cons.mp hmembers
      obtain ⟨hother, hothers⟩ := List.forall_mem_cons.mp hothers
      obtain ⟨htext, htexts⟩ := List.cons.inj heq
      rw [List.map_cons, List.map_cons, (hfound.unambiguous hother htext).1,
        ih hmembers hothers htexts]

/-- **An object in a text has one list of names.** -/
theorem IsObject.names_eq {names others : List String} {text : List Char}
    (h : IsObject names text) (hother : IsObject others text) : names = others := by
  obtain ⟨members, hmembers, rfl, rfl⟩ := h.exists_members
  obtain ⟨others, hothers, rfl, htext⟩ := hother.exists_members
  have hsame : braced members ++ [] = braced others ++ [] := by rw [htext]
  have htexts := (braced_unambiguous hmembers
    (fun found hmem => (hmembers found hmem).2.unambiguous) hothers hsame).1
  exact names_eq_of_texts_eq (fun found hmem => (hmembers found hmem).1)
    (fun found hmem => (hothers found hmem).1) htexts

end AccessPlanner.Json
