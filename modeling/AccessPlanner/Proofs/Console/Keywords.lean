import AccessPlanner.Console.Command
import AccessPlanner.Proofs.Text.Blank

/-!
# Forms of a command

A command can be written in many forms: with more or fewer blanks around its parts, with capital
letters or without, and a condition set with a keyword or alone.  All of them are read alike
(`Command.parse_insensitive`).

A command begins with a word, up to the first blank, and only the letters of this word are made
capital (`Command.parse_word`).  What comes after it is trimmed, so that the blanks between the
keyword and its document do not matter, while those inside the document are left alone.
-/

namespace AccessPlanner.Console

/-! ### Letters -/

/-- **Texts that differ only in the case of their ASCII letters.** -/
abbrev SameLetters (text other : List Char) : Prop :=
  text.map Char.toLower = other.map Char.toLower

/-- No letter is blank, nor is anything between the capital letters and the small ones. -/
theorem isBlank_eq_false {c : Char} (h : 65 ≤ c.toNat ∧ c.toNat ≤ 122) : isBlank c = false := by
  simp [isBlank, blankRanges]
  omega

/-- The letter of the other case stands 32 places further on. -/
theorem toNat_toLower (c : Char) :
    c.toLower.toNat = if 65 ≤ c.toNat ∧ c.toNat ≤ 90 then c.toNat + 32 else c.toNat := by
  unfold Char.toLower
  split
  next h =>
    have hletter : 65 ≤ c.val.toNat ∧ c.val.toNat ≤ 90 := h
    refine Eq.trans ?_ (if_pos h).symm
    show (c.val + 32).toNat = c.val.toNat + 32
    rw [UInt32.toNat_add]
    show (c.val.toNat + 32) % 2 ^ 32 = c.val.toNat + 32
    omega
  next h => exact (if_neg h).symm

theorem toNat_toUpper (c : Char) :
    c.toUpper.toNat = if 97 ≤ c.toNat ∧ c.toNat ≤ 122 then c.toNat - 32 else c.toNat := by
  unfold Char.toUpper
  split
  next h =>
    have hletter : 97 ≤ c.val.toNat ∧ c.val.toNat ≤ 122 := h
    refine Eq.trans ?_ (if_pos h).symm
    -- going back is going on to the end and starting over
    show (c.val + 4294967264).toNat = c.val.toNat - 32
    rw [UInt32.toNat_add]
    show (c.val.toNat + 4294967264) % 2 ^ 32 = c.val.toNat - 32
    omega
  next h => exact (if_neg h).symm

theorem toUpper_toLower (c : Char) : c.toLower.toUpper = c.toUpper := by
  refine Char.toNat_inj.mp ?_
  rw [toNat_toUpper, toNat_toUpper, toNat_toLower]
  split_ifs <;> omega

theorem isBlank_toLower (c : Char) : isBlank c.toLower = isBlank c := by
  have hlower := toNat_toLower c
  split at hlower
  next h =>
    rw [isBlank_eq_false (c := c) (by omega), isBlank_eq_false (c := c.toLower) (by omega)]
  next h => rw [Char.toNat_inj.mp hlower]

namespace SameLetters

variable {text other : List Char}

theorem map_toUpper (h : SameLetters text other) :
    text.map Char.toUpper = other.map Char.toUpper := by
  have hupper (text : List Char) :
      text.map Char.toUpper = (text.map Char.toLower).map Char.toUpper := by
    rw [List.map_map]
    exact List.map_congr_left fun c _ => (toUpper_toLower c).symm
  rw [hupper text, h, ← hupper other]

theorem isWord (h : SameLetters text other) (hword : IsWord other) : IsWord text := by
  intro c hc
  have hlower : c.toLower ∈ other.map Char.toLower := h ▸ List.mem_map_of_mem hc
  obtain ⟨d, hd, heq⟩ := List.mem_map.mp hlower
  rw [← isBlank_toLower, ← heq, isBlank_toLower]
  exact hword d hd

theorem head?_eq_brace (h : SameLetters text other) (hbrace : text.head? = some '{') :
    other.head? = some '{' := by
  have hlower := congrArg List.head? h
  rw [List.head?_map, List.head?_map, hbrace] at hlower
  obtain ⟨c, hc, heq⟩ := Option.map_eq_some_iff.mp hlower.symm
  have hlower : c.toLower.toNat = 123 := congrArg Char.toNat heq
  rw [toNat_toLower] at hlower
  -- no letter becomes a brace
  have hbrace : c.toNat = ('{').toNat := by
    show c.toNat = 123
    split_ifs at hlower <;> omega
  rw [hc, Char.toNat_inj.mp hbrace]

end SameLetters

/-! ### Reading commands -/

namespace Command

/-- **The two planning commands differ in what is returned.** -/
theorem exists_ofDocument (document : List Char) :
    ∃ result : Except ConsoleError ConditionSet, ∀ projection,
      ofDocument document projection = result.map (plan · projection) := by
  unfold ofDocument
  split
  next => exact ⟨.error .missingDocument, fun _ => rfl⟩
  next =>
    cases readText ConditionSet.read (String.ofList document).toUTF8.toList with
    | ok set => exact ⟨.ok set, fun _ => rfl⟩
    | error cause => exact ⟨.error (.document cause), fun _ => rfl⟩

/-- A command that begins with a word, and goes on after a blank or is over. -/
theorem parse_word {input : String} {word rest : List Char} (hword : IsWord word)
    (hinput : trim input.toList = word ++ rest) (hbrace : (word ++ rest).head? ≠ some '{')
    (hrest : ∀ c ∈ rest.head?, isBlank c = true) :
    parse input = ofKeyword (String.ofList (word.map Char.toUpper)) (trim (rest.drop 1)) := by
  unfold parse
  dsimp only
  rw [hinput, if_neg hbrace, hword.firstWord_append hrest]

/-- A word alone. -/
theorem parse_of_isWord {before word after : String} (hbefore : IsAllBlank before.toList)
    (hafter : IsAllBlank after.toList) (hword : IsWord word.toList)
    (hbrace : word.toList.head? ≠ some '{') :
    parse (before ++ word ++ after) =
      ofKeyword (String.ofList (word.toList.map Char.toUpper)) [] := by
  refine parse_word hword ?_ (by rwa [List.append_nil]) (by simp)
  rw [String.toList_append, String.toList_append, trim_append hbefore hafter, hword.trim_eq,
    List.append_nil]

theorem parse_document {document : String}
    (hdocument : (trim document.toList).head? = some '{') :
    parse document = ofDocument (trim document.toList) .items := if_pos hdocument

/-- **A keyword with a document:** it does not matter which letters of the keyword are capital, nor
which blanks stand around the keyword and the document. -/
theorem parse_keyword {before keyword name gap document after : String}
    (hbefore : IsAllBlank before.toList) (hafter : IsAllBlank after.toList)
    (hspelled : SameLetters keyword.toList name.toList) (hname : IsWord name.toList)
    (hsome : name.toList ≠ []) (hbrace : name.toList.head? ≠ some '{')
    (hgap : IsAllBlank gap.toList) (hapart : gap ≠ "") (hdocument : trim document.toList ≠ []) :
    parse (before ++ keyword ++ gap ++ document ++ after) =
      ofKeyword (String.ofList (name.toList.map Char.toUpper)) (trim document.toList) := by
  have hword : IsWord keyword.toList := hspelled.isWord hname
  have hkeyword : keyword.toList ≠ [] := by
    intro hnil
    rw [SameLetters, hnil, List.map_nil] at hspelled
    exact hsome (List.map_eq_nil_iff.mp hspelled.symm)
  obtain ⟨blank, blanks, hcons⟩ :=
    List.exists_cons_of_ne_nil (mt String.toList_eq_nil_iff.mp hapart)
  have hinput : trim (before ++ keyword ++ gap ++ document ++ after).toList =
      keyword.toList ++ (gap.toList ++ trimEnd document.toList) := by
    calc trim (before ++ keyword ++ gap ++ document ++ after).toList
        = trim (before.toList ++ (keyword.toList ++ (gap.toList ++ document.toList)) ++
            after.toList) := by simp only [String.toList_append, List.append_assoc]
      _ = trimEnd (keyword.toList ++ (gap.toList ++ document.toList)) := by
        rw [trim_append hbefore hafter, trim, hword.dropWhile_append hkeyword]
      _ = keyword.toList ++ (gap.toList ++ trimEnd document.toList) := by
        rw [← List.append_assoc, trimEnd_append _ hdocument, List.append_assoc]
  have hhead : (keyword.toList ++ (gap.toList ++ trimEnd document.toList)).head? =
      keyword.toList.head? := List.head?_append_of_ne_nil _ hkeyword
  rw [hcons] at hgap
  obtain ⟨hblank, hblanks⟩ := List.forall_mem_cons.mp hgap
  -- the keyword takes the first blank with it, and the rest of them goes with the document
  have htrim : trim (blanks ++ trimEnd document.toList) = trim document.toList := by
    rw [← trim_trimEnd document.toList]
    simpa using trim_append hblanks (List.forall_mem_nil _) (trimEnd document.toList)
  rw [parse_word hword hinput (by rw [hhead]; exact mt hspelled.head?_eq_brace hbrace)
    (by simp [hcons, hblank]), hcons, hspelled.map_toUpper]
  exact congrArg (ofKeyword _) htrim

/-- **Commands are read alike in every form.** The document of a condition set is read alike alone
and after the keyword of either planning command, up to what is returned; a command of one word is
read alike whichever of its letters are capital.  Blanks around the parts of a command do not
matter. -/
theorem parse_insensitive {before after : String} (hbefore : IsAllBlank before.toList)
    (hafter : IsAllBlank after.toList) :
    (∀ keyword gap document : String, gap ≠ "" → IsAllBlank gap.toList →
      (trim document.toList).head? = some '{' →
      (SameLetters keyword.toList "PLAN".toList →
        parse (before ++ keyword ++ gap ++ document ++ after) = parse document) ∧
      (SameLetters keyword.toList "COUNT".toList →
        ∃ result : Except ConsoleError ConditionSet,
          parse document = result.map (plan · .items) ∧
            parse (before ++ keyword ++ gap ++ document ++ after) = result.map (plan · .count))) ∧
    ∀ word other : String, IsWord word.toList → word.toList.head? ≠ some '{' →
      SameLetters other.toList word.toList → parse (before ++ other ++ after) = parse word := by
  refine ⟨fun keyword gap document hapart hgap hbrace => ?_,
    fun word other hword hbrace hspelled => ?_⟩
  · have hdocument : trim document.toList ≠ [] := by
      intro hnil
      rw [hnil] at hbrace
      cases hbrace
    refine ⟨fun hspelled => ?_, fun hspelled => ?_⟩
    · rw [parse_keyword hbefore hafter hspelled (by decide) (by decide) (by decide) hgap hapart
        hdocument, parse_document hbrace]
      rfl
    · obtain ⟨result, hresult⟩ := exists_ofDocument (trim document.toList)
      refine ⟨result, ?_, ?_⟩
      · rw [parse_document hbrace, hresult]
      · rw [parse_keyword hbefore hafter hspelled (by decide) (by decide) (by decide) hgap hapart
          hdocument, ← hresult]
        rfl
  · have halone := @parse_of_isWord "" word "" (List.forall_mem_nil _) (List.forall_mem_nil _)
      hword hbrace
    rw [parse_of_isWord hbefore hafter (hspelled.isWord hword)
      (mt hspelled.head?_eq_brace hbrace), hspelled.map_toUpper]
    simpa using halone.symm

/-- At most three items, planned for, counted and left. -/
theorem parse_insensitive_three_items :
    let document := " \x7b\"limit\": 3\x7d\n"
    let set : ConditionSet := { limit := some 3 }
    parse ("\u00a0" ++ "pLan" ++ "\t " ++ document ++ "\u3000") = .ok (.plan set .items) ∧
      parse ("\u00a0" ++ "counT" ++ "\t " ++ document ++ "\u3000") = .ok (.plan set .count) ∧
      parse ("\u00a0" ++ "qUIT" ++ "\u3000") = .ok .exit := by
  intro document set
  have hbefore : IsAllBlank "\u00a0".toList := List.forall_mem_singleton.mpr (by decide)
  have hgap : IsAllBlank "\t ".toList :=
    List.forall_mem_cons.mpr ⟨by decide, List.forall_mem_singleton.mpr (by decide)⟩
  have hafter : IsAllBlank "\u3000".toList := List.forall_mem_singleton.mpr (by decide)
  have hread : parse " \x7b\"limit\": 3\x7d\n" = .ok (.plan { limit := some 3 } .items) := by
    with_unfolding_all rfl
  obtain ⟨hdocument, hword⟩ := parse_insensitive hbefore hafter
  obtain ⟨hplan, -⟩ := hdocument "pLan" "\t " document (by decide) hgap (by decide)
  obtain ⟨-, hcount⟩ := hdocument "counT" "\t " document (by decide) hgap (by decide)
  obtain ⟨result, halone, hcounted⟩ := hcount (by decide)
  refine ⟨(hplan (by decide)).trans hread, ?_, ?_⟩
  · replace halone := hread.symm.trans halone
    cases result with
    | error => cases halone
    | ok other =>
      cases halone
      exact hcounted
  · exact hword "quit" "qUIT" (by decide) (by decide) (by decide)

end Command

end AccessPlanner.Console
