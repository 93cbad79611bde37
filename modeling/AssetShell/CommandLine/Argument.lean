import AssetShell.Named

/-!
# Arguments

An argument is plain, a long option behind two dashes, or a short option behind one. A long option
has its value behind an equals sign, a short one right behind its letter, with an equals sign or
without; otherwise the value is the next argument, which must be plain. Two dashes by themselves
divide the options from arguments that are all plain.
-/

namespace AssetShell

/-- What an argument is by its form alone. -/
inductive Argument
  | plain (text : String)
  | divider
  | long (name : String) (value : Option String)
  | short (mark : Char) (value : Option String)
  deriving DecidableEq, Repr

namespace Argument

def longOf (cs : List Char) : Argument :=
  match cs.span (· ≠ '=') with
  | (name, []) => .long (String.ofList name) none
  | (name, _ :: value) => .long (String.ofList name) (some (String.ofList value))

def attached : List Char → Option String
  | [] => none
  | '=' :: r => some (String.ofList r)
  | r => some (String.ofList r)

def ofText (s : String) : Argument :=
  match s.toList with
  | ['-', '-'] => .divider
  | '-' :: '-' :: r => longOf r
  | '-' :: c :: r => .short c (attached r)
  | _ => .plain s

end Argument

/-- An option of a command. A switch takes no value. -/
structure CommandOption where
  name : String
  mark : Option Char := none
  isSwitch : Bool := false
  repeatable : Bool := false
  deriving DecidableEq, Repr

/-- The options given, in order, each with its value; a switch has the empty text. -/
structure Gathered where
  options : Named String
  plain : List String
  deriving DecidableEq, Repr

namespace CommandOption

def isNamed (o : CommandOption) : Argument → Bool
  | .long name _ => o.name = name
  | .short mark _ => o.mark = some mark
  | _ => false

end CommandOption

namespace Argument

def value? : Argument → Option String
  | .long _ value => value
  | .short _ value => value
  | _ => none

end Argument

namespace Gathered

def withOption (name value : String) (g : Gathered) : Gathered :=
  { g with options := (name, value) :: g.options }

def withPlain (text : String) (g : Gathered) : Gathered := { g with plain := text :: g.plain }

/-- Sorts arguments into options and plain ones. `waiting` is the option whose value comes next. -/
def gather (known : List CommandOption) : Option String → List String → Option Gathered
  | none, [] => some ⟨[], []⟩
  | some _, [] => none
  | some name, arg :: rest =>
    match Argument.ofText arg with
    | .plain value => (gather known none rest).map (withOption name value)
    | _ => none
  | none, arg :: rest =>
    match Argument.ofText arg with
    | .plain text => (gather known none rest).map (withPlain text)
    | .divider => some ⟨[], rest⟩
    | form =>
      match known.find? (·.isNamed form) with
      | none => none
      | some o =>
        match o.isSwitch, form.value? with
        | true, some _ => none
        | true, none => (gather known none rest).map (withOption o.name "")
        | false, some value => (gather known none rest).map (withOption o.name value)
        | false, none => gather known (some o.name) rest

def values (g : Gathered) (name : String) : List String :=
  (g.options.filter (·.1 = name)).map Prod.snd

/-- Only a repeatable option may be given more than once. -/
def isRepeatedWell (known : List CommandOption) (g : Gathered) : Bool :=
  known.all fun o => o.repeatable || (g.values o.name).length ≤ 1

def ofArguments? (known : List CommandOption) (args : List String) : Option Gathered :=
  match gather known none args with
  | some g => if g.isRepeatedWell known then some g else none
  | none => none

def value? (g : Gathered) (name : String) : Option String := (g.values name).head?

def isSet (g : Gathered) (name : String) : Bool := (g.value? name).isSome

end Gathered

end AssetShell
