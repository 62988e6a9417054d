/-!
# Invocations

What the arguments of a command line ask for: a verb, the directory to load, and options. The
options `--output` and `--quiet` may stand before or after the verb, and once on either side, the
later side counting; all others follow the verb. A value is joined to its option by an equals sign
or is the next argument, which then may not look like an option. After `--` every argument is taken
as it is.
-/

namespace ScopeConfig

/-- How results are printed. -/
inductive Format where
  | text
  | json
deriving DecidableEq, Repr

/-- The format of this name. -/
def Format.ofName? : String → Option Format
  | "text" => some text
  | "json" => some json
  | _ => none

/-- What is to be done with a directory: print its configuration, or only say whether it is
valid. -/
inductive Verb where
  | parse
  | check
deriving DecidableEq, Repr

/-- The verb of this name. -/
def Verb.ofName? : String → Option Verb
  | "parse" => some parse
  | "check" => some check
  | _ => none

/-- A well-formed command line. Paths are kept as they are spelled. -/
structure Invocation where
  verb : Verb
  dir : String
  root : Option String
  experiments : List String
  settings : Option String
  format : Format
  quiet : Bool
deriving DecidableEq, Repr

namespace Invocation

/-! ## Arguments -/

/-- What one argument looks like: the end of the options, an option with the value joined to it, if
any, or something else that starts with a dash, or a plain word. -/
inductive Argument where
  | noMoreOptions
  | option (name : String) (value : Option String)
  | unknown
  | plain (text : String)
deriving DecidableEq, Repr

/-- The look of an argument. -/
def Argument.ofText (s : String) : Argument :=
  match s.toList with
  | ['-', '-'] => .noMoreOptions
  | '-' :: '-' :: rest =>
    let name := String.ofList (rest.takeWhile (· ≠ '='))
    match rest.dropWhile (· ≠ '=') with
    | [] => .option name none
    | _ :: value => .option name (some (String.ofList value))
  | ['-'] => .plain s
  | '-' :: _ => .unknown
  | _ => .plain s

/-- The text, if an argument can be the value of the option before it. -/
def valueText? (s : String) : Option String :=
  match Argument.ofText s with
  | .plain text => some text
  | _ => none

/-! ## Options -/

/-- The options read so far on one side of the verb, and the directory. -/
structure Given where
  format : Option Format
  quiet : Bool
  dir : Option String
  root : Option String
  experiments : List String
  settings : Option String

/-- No options. -/
def Given.none : Given :=
  ⟨.none, false, .none, .none, [], .none⟩

/-- Sets something that may be set once. -/
def once {α : Type} (old : Option α) (new : α) : Option α :=
  if old.isNone then some new else none

/-- A path, which is never empty. -/
def pathText? (s : String) : Option String :=
  if s.isEmpty then none else some s

namespace Given

/-- Whether an option is a switch, which has no value. -/
def isSwitch (name : String) : Bool :=
  name = "quiet"

/-- Turns on a switch. -/
def turnOn (g : Given) : Option Given :=
  if g.quiet then .none else some { g with quiet := true }

/-- Gives an option a value, on the side of the verb that `afterVerb` tells. -/
def assign (g : Given) (afterVerb : Bool) (name value : String) : Option Given :=
  if name = "output" then do
    return { g with format := some (← once g.format (← Format.ofName? value)) }
  else if !afterVerb then .none
  else if name = "root" then do
    return { g with root := some (← once g.root (← pathText? value)) }
  else if name = "config" then do
    return { g with settings := some (← once g.settings (← pathText? value)) }
  else if name = "experiment" then some { g with experiments := g.experiments ++ [value] }
  else .none

/-- Takes an argument for the directory. -/
def place (g : Given) (text : String) : Option Given := do
  return { g with dir := some (← once g.dir (← pathText? text)) }

end Given

/-! ## Both sides of the verb -/

/-- Reads arguments that are no options. -/
def readPlain (g : Given) : List String → Option Given
  | [] => some g
  | s :: args => (g.place s).bind (readPlain · args)

/-- Reads the arguments after the verb. -/
def readAfter (g : Given) : List String → Option Given
  | [] => some g
  | s :: args =>
    match Argument.ofText s with
    | .noMoreOptions => readPlain g args
    | .unknown => none
    | .plain text => (g.place text).bind (readAfter · args)
    | .option name (some value) => (g.assign true name value).bind (readAfter · args)
    | .option name none =>
      if Given.isSwitch name then g.turnOn.bind (readAfter · args)
      else
        match args with
        | [] => none
        | value :: args =>
          ((valueText? value).bind (g.assign true name)).bind (readAfter · args)

/-- Reads the arguments before the verb, and gives the verb and the arguments after it. -/
def readBefore (g : Given) : List String → Option (Given × Verb × List String)
  | [] => none
  | s :: args =>
    match Argument.ofText s with
    | .noMoreOptions => none
    | .unknown => none
    | .plain text => (Verb.ofName? text).map fun verb => (g, verb, args)
    | .option name (some value) => (g.assign false name value).bind (readBefore · args)
    | .option name none =>
      if Given.isSwitch name then g.turnOn.bind (readBefore · args)
      else
        match args with
        | [] => none
        | value :: args =>
          ((valueText? value).bind (g.assign false name)).bind (readBefore · args)

/-- The invocation that arguments stand for, if they are well formed. -/
def ofArguments? (args : List String) : Option Invocation := do
  let (outer, verb, rest) ← readBefore .none args
  let inner ← readAfter .none rest
  return {
    verb
    dir := ← inner.dir
    root := inner.root
    experiments := inner.experiments
    settings := inner.settings
    format := (inner.format.or outer.format).getD .text
    quiet := inner.quiet || outer.quiet }

end Invocation

end ScopeConfig
