import AccessPlanner.Proofs.Console.Arguments
import AccessPlanner.Proofs.Console.Runs
import AccessPlanner.Proofs.Text.Blank

/-!
# Commands from the command line and from the standard input

Commands are given as arguments, or in the lines of the standard input, and the console does the
same with them (`invoke_fed`).  The two ways differ in what is looked at: an argument is read as it
is, and a line is trimmed first and passed over if it is blank or a comment.

Trimming makes no difference, since the reader of commands trims what it is given
(`Command.parse_trim`); so a run is the same on commands that are read alike (`Session.run_congr`).
Standard input is taken apart at a line break (`inputCommands_append`): what comes before the break
and what comes after it hold their commands on their own.  From this, idle lines hold none wherever
they are put.
-/

namespace AccessPlanner.Console

/-! ### Reading trimmed commands -/

/-- **Blanks around a command do not matter.** -/
theorem Command.parse_trim {input other : String} (h : trim input.toList = trim other.toList) :
    parse input = parse other := by
  unfold parse
  rw [h]

/-- **A run depends on how its inputs are read.** -/
theorem Session.run_congr {session : Session} {inputs others : List (Except ConsoleError String)}
    (h : List.Forall₂ (fun input other => session.runCommand input = session.runCommand other)
      inputs others) : session.run inputs = session.run others := by
  induction h with
  | nil => rfl
  | cons hfirst _ ih => rw [run, run, hfirst, ih]

theorem Session.runCommand_trim (session : Session) {input other : String}
    (h : trim input.toList = trim other.toList) :
    session.runCommand (.ok input) = session.runCommand (.ok other) := by
  show (Command.parse input >>= session.execute) = (Command.parse other >>= session.execute)
  rw [Command.parse_trim h]

/-! ### Bytes of texts -/

/-- The bytes of a text in UTF-8. -/
def utf8 (text : String) : List UInt8 := text.toUTF8.data.toList

theorem utf8_append (text other : String) : utf8 (text ++ other) = utf8 text ++ utf8 other := by
  unfold utf8
  rw [String.toUTF8_eq_toByteArray, String.toByteArray_append, ByteArray.toList_data_append]
  rfl

theorem fromUTF8?_utf8 (text : String) : String.fromUTF8? ⟨(utf8 text).toArray⟩ = some text := by
  unfold utf8 String.fromUTF8?
  rw [Array.toArray_toList, String.toUTF8_eq_toByteArray, dif_pos text.isValidUTF8]
  rfl

theorem utf8_eq_flatMap (text : String) :
    utf8 text = text.toList.flatMap String.utf8EncodeChar := by
  have hchars : text.toUTF8 = (text.toList.flatMap String.utf8EncodeChar).toByteArray := by
    conv_lhs => rw [← String.ofList_toList (s := text)]
    rfl
  unfold utf8
  rw [hchars, List.toList_data_toByteArray]

/-- Only the line feed is written with the byte of a line feed: a character of several bytes has
none below 128. -/
theorem eq_lineFeed_of_mem_utf8EncodeChar {c : Char} (h : 10 ∈ String.utf8EncodeChar c) :
    c = '\n' := by
  have hbyte {n : Nat} (h : (10 : UInt8) = UInt8.ofNat n) : n % 256 = 10 := by
    simpa using (congrArg UInt8.toNat h).symm
  suffices hcode : c.val.toNat = 10 from Char.ext (UInt32.toNat_inj.mp hcode)
  unfold String.utf8EncodeChar at h
  dsimp only at h
  split at h
  next =>
    have := hbyte (List.mem_singleton.mp h)
    omega
  next =>
    -- two, three or four bytes: the first is 192 or more, and the others are 128 or more
    exfalso
    split at h
    next =>
      simp only [List.mem_cons, List.not_mem_nil, or_false] at h
      rcases h with h | h <;> have := hbyte h <;> omega
    next =>
      split at h <;> simp only [List.mem_cons, List.not_mem_nil, or_false] at h
      · rcases h with h | h | h <;> have := hbyte h <;> omega
      · rcases h with h | h | h | h <;> have := hbyte h <;> omega

theorem not_mem_utf8 {text : String} (h : '\n' ∉ text.toList) : 10 ∉ utf8 text := by
  rw [utf8_eq_flatMap]
  intro hmem
  obtain ⟨c, hc, hbyte⟩ := List.mem_flatMap.mp hmem
  rw [eq_lineFeed_of_mem_utf8EncodeChar hbyte] at hc
  exact h hc

/-! ### Lines -/

/-- **A line without a command:** it is blank, or a comment. -/
structure IsIdle (line : String) : Prop where
  unbroken : '\n' ∉ line.toList
  idle : trim line.toList = [] ∨ (trim line.toList).head? = some '#'

/-- **A command for a line:** it is neither blank nor a comment, and fits in a line. -/
structure FitsLine (command : String) : Prop where
  unbroken : '\n' ∉ command.toList
  not_blank : trim command.toList ≠ []
  not_comment : (trim command.toList).head? ≠ some '#'

theorem lineCommand?_utf8 (line : String) :
    lineCommand? (utf8 line) =
      if (trim line.toList).isEmpty || (trim line.toList).head? == some '#' then none
      else some (.ok (String.ofList (trim line.toList))) := by
  unfold lineCommand?
  rw [fromUTF8?_utf8]

theorem IsIdle.lineCommand? {line : String} (h : IsIdle line) :
    lineCommand? (utf8 line) = none := by
  rw [lineCommand?_utf8, if_pos]
  rcases h.idle with hblank | hcomment
  · rw [hblank]
    rfl
  · rw [hcomment, beq_self_eq_true, Bool.or_true]

theorem FitsLine.lineCommand? {line : String} (h : FitsLine line) :
    lineCommand? (utf8 line) = some (.ok (String.ofList (trim line.toList))) := by
  rw [lineCommand?_utf8, if_neg]
  rw [Bool.or_eq_true, List.isEmpty_iff, beq_iff_eq, not_or]
  exact ⟨h.not_blank, h.not_comment⟩

/-! ### Standard input -/

theorem exists_cutLines_eq_cons (byte : UInt8) (rest : List UInt8) :
    ∃ line lines, cutLines (byte :: rest) = line :: lines := by
  unfold cutLines
  split
  next => exact ⟨_, _, rfl⟩
  next => split <;> exact ⟨_, _, rfl⟩

theorem cutLines_cons {byte : UInt8} (hbyte : byte ≠ 10) {bytes line : List UInt8}
    {lines : List (List UInt8)} (h : cutLines bytes = line :: lines) :
    cutLines (byte :: bytes) = (byte :: line) :: lines := by
  rw [cutLines, if_neg hbyte, h]

/-- A line break between two inputs ends a line of the first one, or is an empty line. -/
theorem cutLines_append_break (before after : List UInt8) :
    ∃ ends, (ends = [] ∨ ends = [[]]) ∧
      cutLines (before ++ 10 :: after) = cutLines before ++ ends ++ cutLines after := by
  induction before with
  | nil => exact ⟨[[]], .inr rfl, rfl⟩
  | cons byte rest ih =>
    obtain ⟨ends, hends, heq⟩ := ih
    by_cases hbyte : byte = 10
    · refine ⟨ends, hends, ?_⟩
      rw [List.cons_append, cutLines, if_pos hbyte, heq, cutLines, if_pos hbyte]
      rfl
    · -- the byte is put in front of the first line of the rest, if there is one
      cases rest with
      | nil =>
        have hbreak : cutLines (10 :: after) = [] :: cutLines after := rfl
        refine ⟨[], .inl rfl, ?_⟩
        rw [List.cons_append, List.nil_append, cutLines_cons hbyte hbreak, cutLines, if_neg hbyte]
        rfl
      | cons next rest =>
        obtain ⟨line, lines, hcut⟩ := exists_cutLines_eq_cons next rest
        rw [hcut] at heq
        refine ⟨ends, hends, ?_⟩
        rw [List.cons_append, cutLines_cons hbyte heq, cutLines_cons hbyte hcut]
        rfl

/-- **The parts of the input on both sides of a line break** hold their commands on their own. -/
theorem inputCommands_append (before after : List UInt8) :
    inputCommands (before ++ 10 :: after) = inputCommands before ++ inputCommands after := by
  obtain ⟨ends, hends, heq⟩ := cutLines_append_break before after
  have hnone : ends.filterMap lineCommand? = [] := by
    rcases hends with rfl | rfl <;> rfl
  unfold inputCommands
  rw [heq, List.filterMap_append, List.filterMap_append, hnone, List.append_nil]

theorem inputCommands_utf8 {line : String} (h : '\n' ∉ line.toList) (rest : List UInt8) :
    inputCommands (utf8 line ++ 10 :: rest) =
      (lineCommand? (utf8 line)).toList ++ inputCommands rest := by
  unfold inputCommands
  rw [cutLines_append (not_mem_utf8 h), List.filterMap_cons]
  cases lineCommand? (utf8 line) <;> rfl

theorem utf8_printed_cons (line : String) (lines : List String) :
    utf8 (printed (line :: lines)) = utf8 line ++ 10 :: utf8 (printed lines) := by
  have hprinted : printed (line :: lines) = line ++ "\n" ++ printed lines := by
    unfold printed
    rw [List.map_cons, String.join_cons]
  rw [hprinted, utf8_append, utf8_append, List.append_assoc]
  rfl

/-- Idle lines hold no command. -/
theorem inputCommands_idle {lines : List String} (h : ∀ line ∈ lines, IsIdle line)
    (rest : List UInt8) : inputCommands (utf8 (printed lines) ++ rest) = inputCommands rest := by
  induction lines with
  | nil => rfl
  | cons line lines ih =>
    obtain ⟨hfirst, hrest⟩ := List.forall_mem_cons.mp h
    rw [utf8_printed_cons, List.append_assoc, List.cons_append, inputCommands_utf8 hfirst.unbroken,
      hfirst.lineCommand?, ih hrest]
    rfl

/-- **Idle lines can be put in wherever a line begins.** -/
theorem inputCommands_insert {lines : List String} (h : ∀ line ∈ lines, IsIdle line)
    (before after : List UInt8) (hbefore : before = [] ∨ ∃ earlier, before = earlier ++ [10]) :
    inputCommands (before ++ utf8 (printed lines) ++ after) = inputCommands (before ++ after) := by
  rcases hbefore with rfl | ⟨earlier, rfl⟩
  · exact inputCommands_idle h after
  · -- the break before the lines takes them and the rest apart from what comes earlier
    rw [List.append_assoc, List.append_assoc, List.append_assoc, List.singleton_append,
      List.singleton_append, inputCommands_append, inputCommands_idle h, inputCommands_append]

/-! ### Feeding -/

/-- **Lines that feed commands:** each command stands in a line of its own, which may end with a
carriage return, and in between there are any number of idle lines. -/
inductive Feeds : List String → List String → Prop
  | nil : Feeds [] []
  | command {commands lines : List String} {command line : String}
      (hline : line = command ∨ line = command ++ "\r") (hfeeds : Feeds commands lines) :
      Feeds (command :: commands) (line :: lines)
  | idle {commands lines : List String} {line : String} (hidle : IsIdle line)
      (hfeeds : Feeds commands lines) : Feeds commands (line :: lines)

/-- A line that feeds a command fits it, and is the command up to blanks. -/
theorem FitsLine.of_line {command line : String} (h : FitsLine command)
    (hline : line = command ∨ line = command ++ "\r") :
    FitsLine line ∧ trim line.toList = trim command.toList := by
  rcases hline with rfl | rfl
  · exact ⟨h, rfl⟩
  · have htrim : trim (command ++ "\r").toList = trim command.toList := by
      rw [String.toList_append]
      exact trim_append (List.forall_mem_nil _) (List.forall_mem_singleton.mpr (by decide)) _
    refine ⟨⟨?_, by rw [htrim]; exact h.not_blank, by rw [htrim]; exact h.not_comment⟩, htrim⟩
    rw [String.toList_append, List.mem_append, not_or]
    exact ⟨h.unbroken, by decide⟩

/-- **What feeds commands is read as these commands.** -/
theorem Feeds.forall₂_inputCommands {commands lines : List String} (hfeeds : Feeds commands lines)
    (hcommands : ∀ command ∈ commands, FitsLine command) (session : Session) :
    List.Forall₂ (fun input other => session.runCommand input = session.runCommand other)
      (inputCommands (utf8 (printed lines))) (commands.map .ok) := by
  induction hfeeds with
  | nil => exact .nil
  | command hline _ ih =>
    obtain ⟨hfirst, hrest⟩ := List.forall_mem_cons.mp hcommands
    obtain ⟨hfits, htrim⟩ := hfirst.of_line hline
    rw [utf8_printed_cons, inputCommands_utf8 hfits.unbroken, hfits.lineCommand?]
    -- the line was trimmed, and the command will be
    refine .cons (session.runCommand_trim ?_) (ih hrest)
    rw [String.toList_ofList, trim_trim, htrim]
  | idle hidle _ ih =>
    rw [utf8_printed_cons, inputCommands_utf8 hidle.unbroken, hidle.lineCommand?]
    exact ih hcommands

/-- The last line needs no break. -/
theorem inputCommands_of_unended {stdin ended : List UInt8}
    (h : stdin = ended ∨ stdin ++ [10] = ended) : inputCommands stdin = inputCommands ended := by
  rcases h with rfl | rfl
  · rfl
  · exact ((inputCommands_append stdin []).trans (List.append_nil _)).symm

/-- **Commands are carried out alike wherever they come from.** A session runs commands as it runs
what feeds them, and the console prints the same and ends with the same code whether it is given the
commands among its arguments or fed them.  Nothing changes when idle lines are put into its input at
the beginning of any line, whatever else is in the input. -/
theorem invoke_fed {commands lines : List String}
    (hcommands : ∀ command ∈ commands, FitsLine command) (hfeeds : Feeds commands lines)
    {stdin : List UInt8}
    (hstdin : stdin = utf8 (printed lines) ∨ stdin ++ [10] = utf8 (printed lines)) :
    (∀ session : Session,
      session.run (commands.map .ok) = session.run (inputCommands stdin)) ∧
    (∀ (files : Files) (options : List String) (given : Arguments) (giving : List (List String))
      (unread : List UInt8), Arguments.parse options = .ok given → given.commands = [] →
      commands ≠ [] → List.Forall₂ Arguments.Gives commands giving →
      invoke files (giving.flatten ++ options) unread = invoke files options stdin) ∧
    ∀ (files : Files) (arguments idle : List String) (before after : List UInt8),
      (∀ line ∈ idle, IsIdle line) → (before = [] ∨ ∃ earlier, before = earlier ++ [10]) →
      invoke files arguments (before ++ utf8 (printed idle) ++ after) =
        invoke files arguments (before ++ after) := by
  have hrun (session : Session) :
      session.run (commands.map .ok) = session.run (inputCommands stdin) := by
    rw [inputCommands_of_unended hstdin]
    exact (Session.run_congr (hfeeds.forall₂_inputCommands hcommands session)).symm
  refine ⟨hrun, fun files options given giving unread hparse hnone hsome hgiving => ?_,
    fun files arguments idle before after hidle hbefore => ?_⟩
  · have hgiven : (given.precededBy commands).commands = commands := by
      rw [Arguments.precededBy, hnone, List.append_nil]
    -- the session is the same, since commands have no part in it
    have hload : load files (given.precededBy commands) = load files given := rfl
    unfold invoke
    rw [hparse, Arguments.parse_append hgiving hparse]
    dsimp only
    rw [hload, hgiven, hnone]
    cases load files given with
    | error error => rfl
    | ok session =>
      dsimp only
      rw [if_neg (by rwa [List.isEmpty_iff]), hrun session]
      rfl
  · unfold invoke
    rw [inputCommands_insert hidle before after hbefore]

/-- A configuration and an unknown command, fed with a comment and a blank line between them; the
last line has no break, and another comment is put in. -/
theorem invoke_fed_unknown_command :
    let commands := [" config\t", "nope"]
    let stdin := utf8 "# orders\n config\t\r\n\u00a0\nnope"
    let session : Session := { schema := .orders, config := {}, mode := .json }
    session.run (commands.map .ok) = session.run (inputCommands stdin) ∧
      (session.run (commands.map .ok)).code = 1 ∧
      (∀ files, invoke files ["--exec= config\t", "--exec", "nope", "-s", "orders"] [] =
        invoke files ["-s", "orders"] stdin) ∧
      ∀ files, invoke files ["-s", "orders"] (utf8 "help\n" ++ utf8 "#\n" ++ stdin) =
        invoke files ["-s", "orders"] (utf8 "help\n" ++ stdin) := by
  intro commands stdin session
  have hcommands : ∀ command ∈ commands, FitsLine command := by
    intro command hmem
    rcases List.mem_pair.mp hmem with rfl | rfl <;> exact ⟨by decide, by decide, by decide⟩
  have hfeeds : Feeds commands ["# orders", " config\t\r", "\u00a0", "nope"] :=
    .idle ⟨by decide, .inr (by decide)⟩ <| .command (.inr rfl) <|
      .idle ⟨by decide, .inl (by decide)⟩ <| .command (.inl rfl) .nil
  have hstdin : stdin ++ [10] = utf8 (printed ["# orders", " config\t\r", "\u00a0", "nope"]) := by
    decide
  have hgiving : List.Forall₂ Arguments.Gives commands [["--exec= config\t"], ["--exec", "nope"]] :=
    .cons .attached (.cons (.apart (by decide)) .nil)
  obtain ⟨hrun, hinvoke, hinsert⟩ := invoke_fed hcommands hfeeds (.inr hstdin)
  refine ⟨hrun session, by decide, fun files => ?_, fun files => ?_⟩
  · exact hinvoke files ["-s", "orders"] { schema := some "orders" } _ [] (by decide) rfl
      (by decide) hgiving
  · exact hinsert files ["-s", "orders"] ["#"] (utf8 "help\n") stdin
      (by simpa using ⟨by decide, .inr (by decide)⟩) (.inr ⟨utf8 "help", by decide⟩)

end AccessPlanner.Console
