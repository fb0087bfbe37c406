import AccessPlanner.Console.Session
import AccessPlanner.Proofs.Except
import AccessPlanner.Proofs.Json.Objects
import AccessPlanner.Proofs.Json.Unambiguity
import AccessPlanner.Proofs.Schema.Rules

/-!
# Runs of the console

A run answers commands one after the other, until none is left, one ends the session, or one fails;
what comes after that is not looked at.  `Session.Course` says so of the inputs as a whole, and
`Session.run` prints what the course of its inputs is, of which there is exactly one
(`Session.run_course`).  The step is `course_cons_iff`, from which the rest follows by induction on
the inputs.

Programs read the output line by line.  `Run.IsFramed` is what they rely on: every line is the text
of one object, and an object reports a failure only in the last line of a run that failed.  It comes
down to single lines, since the texts of values do not break lines and have one reading.
-/

namespace AccessPlanner.Console

/-! ### Courses -/

/-- **How a run ends:** no command is left, one ends the session, or one fails. -/
inductive Ending where
  | exhausted
  | quit
  | failure (error : ConsoleError)

/-- The failure that ends a run, if one does. -/
def Ending.error? : Ending → Option ConsoleError
  | failure error => some error
  | _ => none

namespace Session

variable {session : Session} {input : Except ConsoleError String}
  {inputs : List (Except ConsoleError String)} {answers : List Answer} {ending : Ending}

/-- An input that is a command with an answer. -/
abbrev Answers (session : Session) (input : Except ConsoleError String) (answer : Answer) : Prop :=
  session.runCommand input = .ok (.answer answer)

/-- **The course of a run:** the commands that are answered are all of them, or those before the
first one that ends the session, or those before the first one that fails. -/
inductive Course (session : Session) (inputs : List (Except ConsoleError String))
    (answers : List Answer) : Ending → Prop
  | exhausted (h : List.Forall₂ session.Answers inputs answers) :
      Course session inputs answers .exhausted
  | quit {before after : List (Except ConsoleError String)} {input : Except ConsoleError String}
      (hinputs : inputs = before ++ input :: after)
      (h : List.Forall₂ session.Answers before answers)
      (hquit : input >>= Command.parse = .ok .exit) : Course session inputs answers .quit
  | failure {before after : List (Except ConsoleError String)} {input : Except ConsoleError String}
      (hinputs : inputs = before ++ input :: after)
      (h : List.Forall₂ session.Answers before answers)
      {error : ConsoleError} (hfails : session.runCommand input = .error error) :
      Course session inputs answers (.failure error)

/-- The session is ended by the command for it, and by no other. -/
theorem runCommand_eq_over_iff :
    session.runCommand input = .ok .over ↔ input >>= Command.parse = .ok .exit := by
  have hrun : session.runCommand input = input >>= Command.parse >>= session.execute := by
    cases input <;> rfl
  rw [hrun, bind_eq_ok_iff]
  constructor
  · rintro ⟨command, hparse, hexecute⟩
    cases command with
    | exit => exact hparse
    | plan set projection =>
      rw [execute] at hexecute
      split at hexecute <;> cases hexecute
    | schema | config | help => cases hexecute
  · exact fun hparse => ⟨.exit, hparse, rfl⟩

/-- **One step of a course.** -/
theorem course_cons_iff :
    session.Course (input :: inputs) answers ending ↔
      match session.runCommand input with
      | .error error => answers = [] ∧ ending = .failure error
      | .ok .over => answers = [] ∧ ending = .quit
      | .ok (.answer answer) =>
        ∃ others, answers = answer :: others ∧ session.Course inputs others ending := by
  constructor
  · intro h
    -- the first input is among those that were answered, or it is where the run ended
    cases h with
    | exhausted h =>
      cases h with
      | cons hrun h =>
        rw [hrun]
        exact ⟨_, rfl, .exhausted h⟩
    | quit hinputs h hquit =>
      cases h with
      | nil =>
        obtain ⟨rfl, rfl⟩ := List.cons.inj hinputs
        rw [runCommand_eq_over_iff.mpr hquit]
        exact ⟨rfl, rfl⟩
      | cons hrun h =>
        obtain ⟨rfl, rfl⟩ := List.cons.inj hinputs
        rw [hrun]
        exact ⟨_, rfl, .quit rfl h hquit⟩
    | failure hinputs h hfails =>
      cases h with
      | nil =>
        obtain ⟨rfl, rfl⟩ := List.cons.inj hinputs
        rw [hfails]
        exact ⟨rfl, rfl⟩
      | cons hrun h =>
        obtain ⟨rfl, rfl⟩ := List.cons.inj hinputs
        rw [hrun]
        exact ⟨_, rfl, .failure rfl h hfails⟩
  · intro h
    split at h
    next error hrun =>
      obtain ⟨rfl, rfl⟩ := h
      exact .failure (List.nil_append _).symm .nil hrun
    next hrun =>
      obtain ⟨rfl, rfl⟩ := h
      exact .quit (List.nil_append _).symm .nil (runCommand_eq_over_iff.mp hrun)
    next answer hrun =>
      obtain ⟨others, rfl, hcourse⟩ := h
      cases hcourse with
      | exhausted h => exact .exhausted (.cons hrun h)
      | quit hinputs h hquit =>
        exact .quit (congrArg (input :: ·) hinputs) (.cons hrun h) hquit
      | failure hinputs h hfails =>
        exact .failure (congrArg (input :: ·) hinputs) (.cons hrun h) hfails

theorem course_nil_iff : session.Course [] answers ending ↔ answers = [] ∧ ending = .exhausted := by
  constructor
  · intro h
    cases h with
    | exhausted h => exact ⟨List.forall₂_nil_left_iff.mp h, rfl⟩
    | quit hinputs | failure hinputs => exact absurd hinputs.symm (by simp)
  · rintro ⟨rfl, rfl⟩
    exact .exhausted .nil

/-- A run has a course. -/
theorem exists_course (session : Session) (inputs : List (Except ConsoleError String)) :
    ∃ answers ending, session.Course inputs answers ending := by
  induction inputs with
  | nil => exact ⟨[], .exhausted, .exhausted .nil⟩
  | cons input rest ih =>
    obtain ⟨answers, ending, hcourse⟩ := ih
    match hrun : session.runCommand input with
    | .error error =>
      exact ⟨[], .failure error, course_cons_iff.mpr (by rw [hrun]; exact ⟨rfl, rfl⟩)⟩
    | .ok .over => exact ⟨[], .quit, course_cons_iff.mpr (by rw [hrun]; exact ⟨rfl, rfl⟩)⟩
    | .ok (.answer answer) =>
      exact ⟨answer :: answers, ending, course_cons_iff.mpr (by rw [hrun]; exact ⟨_, rfl, hcourse⟩)⟩

/-- **A run has one course only.** -/
theorem Course.unique {others : List Answer} {otherEnding : Ending}
    (h : session.Course inputs answers ending) (hother : session.Course inputs others otherEnding) :
    others = answers ∧ otherEnding = ending := by
  induction inputs generalizing answers others with
  | nil =>
    obtain ⟨rfl, rfl⟩ := course_nil_iff.mp h
    exact course_nil_iff.mp hother
  | cons input rest ih =>
    have hstep := course_cons_iff.mp h
    have hother := course_cons_iff.mp hother
    split at hstep
    next hrun =>
      rw [hrun] at hother
      obtain ⟨rfl, rfl⟩ := hstep
      exact hother
    next hrun =>
      rw [hrun] at hother
      obtain ⟨rfl, rfl⟩ := hstep
      exact hother
    next answer hrun =>
      rw [hrun] at hother
      obtain ⟨answers, rfl, hcourse⟩ := hstep
      obtain ⟨others, rfl, hothers⟩ := hother
      obtain ⟨rfl, rfl⟩ := ih hcourse hothers
      exact ⟨rfl, rfl⟩

/-! ### What is printed -/

/-- **The run that prints some answers,** and after them the failure, if there was one. -/
def report (session : Session) (answers : List Answer) (ending : Ending) : Run :=
  let last := (ending.error?.map session.failed).getD {}
  { last with
    stdout := (answers.flatMap fun answer => answer.print session.mode) ++ last.stdout }

theorem report_cons (session : Session) (answer : Answer) (answers : List Answer)
    (ending : Ending) :
    session.report (answer :: answers) ending =
      { session.report answers ending with
        stdout := answer.print session.mode ++ (session.report answers ending).stdout } := by
  unfold report
  dsimp only
  rw [List.flatMap_cons, List.append_assoc]

/-- **A run prints its course.** -/
theorem Course.run_eq (h : session.Course inputs answers ending) :
    session.run inputs = session.report answers ending := by
  induction inputs generalizing answers with
  | nil =>
    obtain ⟨rfl, rfl⟩ := course_nil_iff.mp h
    rfl
  | cons input rest ih =>
    have hstep := course_cons_iff.mp h
    match hrun : session.runCommand input with
    | .error error =>
      rw [hrun] at hstep
      obtain ⟨rfl, rfl⟩ := hstep
      rw [run, hrun]
      rfl
    | .ok .over =>
      rw [hrun] at hstep
      obtain ⟨rfl, rfl⟩ := hstep
      rw [run, hrun]
      rfl
    | .ok (.answer answer) =>
      rw [hrun] at hstep
      obtain ⟨answers, rfl, hcourse⟩ := hstep
      rw [run, hrun, report_cons, ← ih hcourse]

theorem report_code (session : Session) (answers : List Answer) (ending : Ending) :
    (session.report answers ending).code = if ending.error?.isSome then 1 else 0 := by
  unfold report failed
  cases ending.error? with
  | none => rfl
  | some error => cases session.mode <;> rfl

/-- **Nothing is carried out after a command without an answer.** -/
theorem run_append_cons (hstops : ¬ ∃ answer, session.Answers input answer)
    (before after : List (Except ConsoleError String)) :
    session.run (before ++ input :: after) = session.run (before ++ [input]) := by
  induction before with
  | nil =>
    rw [List.nil_append, List.nil_append, run, run]
    split
    next => rfl
    next => rfl
    next answer hrun => exact absurd ⟨answer, hrun⟩ hstops
  | cons first before ih =>
    rw [List.cons_append, List.cons_append, run, run, ih]

end Session

/-! ### Lines -/

/-- Lines that are printed are found again by their breaks. -/
theorem splitOn_printed {texts : List String} (h : ∀ text ∈ texts, '\n' ∉ text.toList) :
    (printed texts).toList.splitOn '\n' = texts.map String.toList ++ [[]] := by
  induction texts with
  | nil => rfl
  | cons text rest ih =>
    obtain ⟨hfirst, hrest⟩ := List.forall_mem_cons.mp h
    have hprinted : (printed (text :: rest)).toList =
        text.toList ++ '\n' :: (printed rest).toList := by
      unfold printed
      rw [List.map_cons, String.join_cons, String.toList_append, String.toList_append,
        List.append_assoc]
      rfl
    rw [hprinted, List.splitOn_append_cons_self_of_not_mem hfirst, ih hrest]
    rfl

/-- **A line that is one object,** with the names that the object has in every reading. -/
structure IsObjectLine (names : List String) (line : String) : Prop where
  object : Json.IsObject names line.toList
  unbroken : Json.IsUncontrolled line.toList

theorem isObjectLine_write (fields : List (String × Json)) :
    IsObjectLine (fields.map fun field => field.1) (Json.object fields).write := by
  have hobject := Json.isObject_chars fields
  unfold Json.write
  constructor
  · rwa [String.toList_ofList]
  · rw [String.toList_ofList]
    exact hobject.isText.isUncontrolled

/-- The answers have no field for a failure. -/
theorem Answer.exists_isObjectLine (answer : Answer) :
    ∃ names, "error" ∉ names ∧ IsObjectLine names answer.toJson.write := by
  cases answer with
  | plan chosen request =>
    have hfields : (Answer.plan chosen request).toJson =
        .object [("plan", chosen.toJson), ("request", request.toJson)] :=
      Json.ofFields_eq_object (.refl _) (by decide : ["plan", "request"].Pairwise (· < ·))
    rw [hfields]
    exact ⟨_, by simp, isObjectLine_write _⟩
  | schema loaded => exact ⟨_, by simp, isObjectLine_write [("schema", loaded.toJson)]⟩
  | config active => exact ⟨_, by simp, isObjectLine_write [("config", active.toJson)]⟩
  | help => exact ⟨_, by simp, isObjectLine_write [("help", .string helpText)]⟩

/-- A failure is reported in an object of its own. -/
theorem ConsoleError.isObjectLine (error : ConsoleError) :
    IsObjectLine ["error"] error.toJson.write :=
  isObjectLine_write [("error", .string error.message)]

/-! ### Framing -/

/-- **Output that can be read line by line:** so many lines, each of which is one object; the lines
are found again by their breaks, and a failure is reported in the last one, and there exactly if the
run failed. -/
structure Run.IsFramed (run : Run) (count : Nat) : Prop where
  stderr : run.stderr = []
  length : run.stdout.length = count
  lines : (printed run.stdout).toList.splitOn '\n' = run.stdout.map String.toList ++ [[]]
  objects : ∀ line ∈ run.stdout, ∃ names, IsObjectLine names line
  failures_last : ∀ line ∈ run.stdout.dropLast, ∀ names, IsObjectLine names line → "error" ∉ names
  failure_iff : (∃ line ∈ run.stdout, ∃ names, IsObjectLine names line ∧ "error" ∈ names) ↔
    run.code = 1

theorem IsObjectLine.not_break {names : List String} {line : String} (h : IsObjectLine names line) :
    '\n' ∉ line.toList :=
  fun hmem => absurd (h.unbroken _ hmem) (by decide)

theorem Answer.not_error (answer : Answer) {names : List String}
    (h : IsObjectLine names answer.toJson.write) : "error" ∉ names := by
  obtain ⟨known, hknown, hline⟩ := answer.exists_isObjectLine
  rwa [h.object.names_eq hline.object]

/-- For programs, a run prints a line for each of its answers and one for its failure. -/
theorem Session.report_of_json {session : Session} (hmode : session.mode = .json)
    (answers : List Answer) (ending : Ending) :
    session.report answers ending =
      { stdout := answers.map (fun answer => answer.toJson.write) ++
          ending.error?.toList.map fun error => error.toJson.write
        code := if ending.error?.isSome then 1 else 0 } := by
  have hlines : (answers.flatMap fun answer => answer.print session.mode) =
      answers.map fun answer => answer.toJson.write := by
    rw [hmode]
    exact List.flatMap_pure_eq_map _ _
  unfold report failed
  rw [hlines, hmode]
  cases ending.error? <;> rfl

/-- **What is printed for programs is framed.** -/
theorem Session.report_isFramed {session : Session} (hmode : session.mode = .json)
    (answers : List Answer) (ending : Ending) :
    (session.report answers ending).IsFramed (answers.length + ending.error?.toList.length) := by
  have hanswers : ∀ line ∈ answers.map fun answer => answer.toJson.write, ∀ names,
      IsObjectLine names line → "error" ∉ names := by
    intro line hmem names hline
    obtain ⟨answer, -, rfl⟩ := List.mem_map.mp hmem
    exact answer.not_error hline
  rw [report_of_json hmode]
  have hobjects : ∀ line ∈ answers.map (fun answer => answer.toJson.write) ++
      ending.error?.toList.map fun error => error.toJson.write,
      ∃ names, IsObjectLine names line := by
    refine List.forall_mem_append.mpr ⟨fun line hmem => ?_, fun line hmem => ?_⟩
    · obtain ⟨answer, -, rfl⟩ := List.mem_map.mp hmem
      obtain ⟨names, -, hline⟩ := answer.exists_isObjectLine
      exact ⟨names, hline⟩
    · obtain ⟨error, -, rfl⟩ := List.mem_map.mp hmem
      exact ⟨_, error.isObjectLine⟩
  refine ⟨rfl, ?_, splitOn_printed fun line hmem => ?_, hobjects, fun line hmem => ?_, ?_⟩
  · rw [List.length_append, List.length_map, List.length_map]
  · obtain ⟨names, hline⟩ := hobjects line hmem
    exact hline.not_break
  · -- all lines but the last one are answers
    refine hanswers line ?_
    cases herror : ending.error? with
    | none =>
      rw [herror, Option.toList_none, List.map_nil, List.append_nil] at hmem
      exact List.dropLast_subset _ hmem
    | some error =>
      rw [herror, Option.toList_some, List.map_singleton, List.dropLast_concat] at hmem
      exact hmem
  · cases ending.error? with
    | none =>
      simp only [Option.toList_none, List.map_nil, List.append_nil]
      constructor
      · rintro ⟨line, hmem, names, hline, herror⟩
        exact absurd herror (hanswers line hmem names hline)
      · intro hcode
        cases hcode
    | some error =>
      refine ⟨fun _ => rfl, fun _ => ⟨error.toJson.write, ?_, ["error"], error.isObjectLine, ?_⟩⟩
      · exact List.mem_append_right _ (List.mem_singleton.mpr rfl)
      · exact List.mem_singleton.mpr rfl

/-! ### Standard input -/

theorem cutLines_append {line : List UInt8} (h : 10 ∉ line) (rest : List UInt8) :
    cutLines (line ++ 10 :: rest) = line :: cutLines rest := by
  induction line with
  | nil => rw [List.nil_append, cutLines, if_pos rfl]
  | cons byte line ih =>
    rw [List.mem_cons, not_or] at h
    rw [List.cons_append, cutLines, if_neg (Ne.symm h.1), ih h.2]

/-- **The commands of a text in lines** are those of the lines. -/
theorem inputCommands_lines {lines : List (List UInt8)} (h : ∀ line ∈ lines, 10 ∉ line) :
    inputCommands (lines.flatMap fun line => line ++ [10]) = lines.filterMap lineCommand? := by
  have hcut : cutLines (lines.flatMap fun line => line ++ [10]) = lines := by
    induction lines with
    | nil => rfl
    | cons line rest ih =>
      obtain ⟨hfirst, hrest⟩ := List.forall_mem_cons.mp h
      rw [List.flatMap_cons, List.append_assoc, List.singleton_append, cutLines_append hfirst,
        ih hrest]
  rw [inputCommands, hcut]

/-! ### Runs -/

/-- **What a run does and what it prints.** A run has one course and prints it, and its code is one
exactly if the course ended with a failure; a command without an answer is the last one that is
looked at.  For programs, the output is framed: a line for every command that was carried out,
except for the one that ends the session.  The inputs are commands as they are given, or those in
the lines of the standard input. -/
theorem Session.run_course (session : Session) :
    (∀ inputs, ∃ answers ending, session.Course inputs answers ending ∧
      (∀ others otherEnding, session.Course inputs others otherEnding →
        others = answers ∧ otherEnding = ending) ∧
      session.run inputs = session.report answers ending ∧
      (session.run inputs).code = (if ending.error?.isSome then 1 else 0) ∧
      (session.mode = .json →
        (session.run inputs).IsFramed (answers.length + ending.error?.toList.length))) ∧
    (∀ before input after, (¬ ∃ answer, session.Answers input answer) →
      session.run (before ++ input :: after) = session.run (before ++ [input])) ∧
    ∀ lines : List (List UInt8), (∀ line ∈ lines, 10 ∉ line) →
      inputCommands (lines.flatMap fun line => line ++ [10]) = lines.filterMap lineCommand? := by
  refine ⟨fun inputs => ?_, fun before input after hstops => run_append_cons hstops before after,
    fun lines hlines => inputCommands_lines hlines⟩
  obtain ⟨answers, ending, hcourse⟩ := session.exists_course inputs
  refine ⟨answers, ending, hcourse, fun _ _ hother => hcourse.unique hother, hcourse.run_eq, ?_, ?_⟩
  · rw [hcourse.run_eq, report_code]
  · intro hmode
    rw [hcourse.run_eq]
    exact report_isFramed hmode answers ending

/-- A configuration, an unknown command, and a command that is not looked at. -/
theorem Session.run_course_unknown_command :
    let session : Session := { schema := .orders, config := {}, mode := .json }
    let inputs : List (Except ConsoleError String) := [.ok "config", .ok "nope", .ok "help"]
    session.Course inputs [.config {}] (.failure (.unknownCommand "NOPE")) ∧
      (session.run inputs).code = 1 ∧ (session.run inputs).IsFramed 2 := by
  intro session inputs
  have hconfig : session.Answers (.ok "config") (.config {}) := rfl
  have hunknown : session.runCommand (.ok "nope") = .error (.unknownCommand "NOPE") := rfl
  have hcourse : session.Course inputs [.config {}] (.failure (.unknownCommand "NOPE")) :=
    .failure (rfl : inputs = [.ok "config"] ++ .ok "nope" :: [.ok "help"]) (.cons hconfig .nil)
      hunknown
  obtain ⟨answers, ending, -, hunique, -, hcode, hframed⟩ := session.run_course.1 inputs
  obtain ⟨rfl, rfl⟩ := hunique _ _ hcourse
  exact ⟨hcourse, hcode, hframed rfl⟩

end AccessPlanner.Console
