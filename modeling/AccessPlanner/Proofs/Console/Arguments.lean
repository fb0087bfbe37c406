import AccessPlanner.Console.Arguments
import AccessPlanner.Proofs.Except
import Mathlib.Data.List.Forall2

/-!
# Commands on the command line

Reading arguments only ever adds to what was given, so that commands that were given earlier stay in
front and change nothing else (`Arguments.scan_precededBy`, which follows the parts of an argument).
`Arguments.Gives` lists the ways to write a command with the long option for it.  Commands that are
written before all other arguments come first among the commands (`Arguments.parse_append`).
-/

namespace AccessPlanner.Console

namespace Arguments

/-! ### Earlier commands -/

/-- The same arguments after commands that were given earlier. -/
def precededBy (commands : List String) (given : Arguments) : Arguments :=
  { given with commands := commands ++ given.commands }

/-- What is left after an argument, when commands were given earlier. -/
abbrev precededStep (commands : List String) :
    Arguments × Option ValueOption → Arguments × Option ValueOption :=
  Prod.map (precededBy commands) id

variable (commands : List String) (given : Arguments)

theorem put_precededBy (option : ValueOption) (value : String) :
    (given.precededBy commands).put option value =
      (given.put option value).map (precededBy commands) := by
  cases option with
  | schema =>
    show (setPath given.schema value).map _ = ((setPath given.schema value).map _).map _
    cases setPath given.schema value <;> rfl
  | config =>
    show (setPath given.config value).map _ = ((setPath given.config value).map _).map _
    cases setPath given.config value <;> rfl
  | exec => exact congrArg Except.ok (congrArg (mk _ _ · _) (List.append_assoc ..))

theorem setJson_precededBy :
    (given.precededBy commands).setJson = given.setJson.map (precededBy commands) := by
  show (if given.json = true then _ else _) = _
  unfold setJson
  split <;> rfl

/-- An option with the value that is attached to it; without one it waits for the next argument. -/
def putAttached (given : Arguments) (option : ValueOption) :
    Option String → Except Early (Arguments × Option ValueOption)
  | none => .ok (given, some option)
  | some value => (given.put option value).map fun given => (given, none)

/-- A short option with the letters after it, which are its value; without any it waits for the next
argument. -/
def putLetters (given : Arguments) (option : ValueOption) :
    List Char → Except Early (Arguments × Option ValueOption)
  | [] => .ok (given, some option)
  | '=' :: value => (given.put option (String.ofList value)).map fun given => (given, none)
  | value => (given.put option (String.ofList value)).map fun given => (given, none)

theorem putAttached_precededBy (option : ValueOption) (value : Option String) :
    (given.precededBy commands).putAttached option value =
      (given.putAttached option value).map (precededStep commands) := by
  cases value with
  | none => rfl
  | some value =>
    rw [putAttached, putAttached, put_precededBy]
    cases given.put option value <;> rfl

theorem putLetters_precededBy (option : ValueOption) (letters : List Char) :
    (given.precededBy commands).putLetters option letters =
      (given.putLetters option letters).map (precededStep commands) := by
  unfold putLetters
  split
  next => rfl
  next value => exact putAttached_precededBy commands given option (some (String.ofList value))
  next => exact putAttached_precededBy commands given option (some (String.ofList letters))

theorem shorts_precededBy (options : List Char) :
    (given.precededBy commands).shorts options =
      (given.shorts options).map (precededStep commands) := by
  induction options generalizing given with
  | nil => rfl
  | cons c rest ih =>
    unfold shorts
    dsimp only
    split
    next => exact putLetters_precededBy commands given .schema rest
    next => exact putLetters_precededBy commands given .config rest
    next => exact putLetters_precededBy commands given .exec rest
    next =>
      rw [setJson_precededBy]
      cases given.setJson with
      | error early => rfl
      | ok given => exact ih given
    next => rfl
    next => rfl
    next => rfl

theorem long_precededBy (name : List Char) (value : Option String) :
    (given.precededBy commands).long name value =
      (given.long name value).map (precededStep commands) := by
  unfold long
  dsimp only
  split
  next => exact putAttached_precededBy commands given .schema _
  next => exact putAttached_precededBy commands given .config _
  next => exact putAttached_precededBy commands given .exec _
  next =>
    rw [setJson_precededBy]
    cases given.setJson <;> rfl
  next => rfl
  next => rfl
  next => rfl

theorem step_precededBy (argument : String) :
    (given.precededBy commands).step argument =
      (given.step argument).map (precededStep commands) := by
  unfold step
  split
  next => exact long_precededBy ..
  next => exact shorts_precededBy ..
  next => rfl

/-- **Reading goes on alike** after commands that were given earlier. -/
theorem scan_precededBy (waiting : Option ValueOption) (arguments : List String) :
    scan (given.precededBy commands) waiting arguments =
      (scan given waiting arguments).map (precededBy commands) := by
  induction arguments generalizing given waiting with
  | nil => cases waiting <;> rfl
  | cons argument rest ih =>
    cases waiting with
    | some option =>
      -- the argument is the value of an option, unless it looks like an option itself
      unfold scan
      split
      next => rfl
      next =>
        rw [put_precededBy]
        cases given.put option argument with
        | error early => rfl
        | ok given => exact ih given none
    | none =>
      unfold scan
      split
      next => split <;> rfl
      next =>
        rw [step_precededBy]
        cases given.step argument with
        | error early => rfl
        | ok reached => exact ih reached.1 reached.2

/-! ### Commands in front -/

/-- **The arguments that give a command:** it is attached to the option, or it comes after the
option, unless it looks like an option itself. -/
inductive Gives (command : String) : List String → Prop
  | attached : Gives command ["--exec=" ++ command]
  | apart (h : isOption command = false) : Gives command ["--exec", command]

variable {commands given}

theorem Gives.scan_append {command : String} {giving : List String} (h : Gives command giving)
    (given : Arguments) (rest : List String) :
    scan given none (giving ++ rest) =
      scan { given with commands := given.commands ++ [command] } none rest := by
  cases h with
  | attached =>
    have hchars : ("--exec=" ++ command).toList =
        '-' :: '-' :: ("exec".toList ++ '=' :: command.toList) := by
      rw [String.toList_append]
      rfl
    -- a command that is attached does not end the options, not even an empty one
    have hnot : "--exec=" ++ command ≠ "--" := by
      intro heq
      rw [heq] at hchars
      cases hchars
    have hstep : given.step ("--exec=" ++ command) =
        .ok ({ given with commands := given.commands ++ [command] }, none) := by
      unfold step
      rw [hchars]
      show given.long "exec".toList (some (String.ofList command.toList)) = _
      rw [String.ofList_toList]
      rfl
    rw [List.singleton_append, scan, if_neg hnot, hstep]
    rfl
  | apart hvalue =>
    have hstep : given.step "--exec" = .ok (given, some .exec) := rfl
    show scan given none ("--exec" :: command :: rest) = _
    rw [scan, if_neg (by decide), hstep]
    show scan given (some .exec) (command :: rest) = _
    rw [scan, hvalue]
    rfl

theorem scan_flatten_append {giving : List (List String)}
    (h : List.Forall₂ Gives commands giving) (given : Arguments) (rest : List String) :
    scan given none (giving.flatten ++ rest) =
      scan { given with commands := given.commands ++ commands } none rest := by
  induction h generalizing given with
  | nil => rw [List.append_nil]; rfl
  | cons hfirst _ ih =>
    rw [List.flatten_cons, List.append_assoc, hfirst.scan_append, ih, List.append_assoc]
    rfl

/-- **Commands that are given before other arguments** come first, and that is all. -/
theorem parse_append {giving : List (List String)} (hgiving : List.Forall₂ Gives commands giving)
    {options : List String} (h : parse options = .ok given) :
    parse (giving.flatten ++ options) = .ok (given.precededBy commands) := by
  obtain ⟨scanned, hscan, hschema⟩ := bind_eq_ok_iff.mp h
  have hfirst : scan {} none (giving.flatten ++ options) = .ok (scanned.precededBy commands) := by
    have hstart : precededBy commands {} = { commands := [] ++ commands } :=
      congrArg (mk none none · false) (List.append_nil commands)
    rw [scan_flatten_append hgiving, ← hstart, scan_precededBy, hscan]
    rfl
  refine bind_eq_ok_iff.mpr ⟨_, hfirst, ?_⟩
  -- the schema is the same with the commands and without them
  cases hnone : scanned.schema with
  | none =>
    rw [hnone] at hschema
    cases hschema
  | some path =>
    rw [hnone] at hschema
    obtain rfl := Except.ok.inj hschema
    show (if scanned.schema.isNone = true then _ else _) = _
    rw [hnone]
    rfl

end Arguments

end AccessPlanner.Console
