import LosslessSyntax.Command.Invocation

/-!
# Arguments

The arguments of the command line ask for an invocation. The action comes first; only verbosity
flags may stand before it. `Invocation.ofArguments?` reads the arguments and refuses what does not
fit.

Short flags can be written in one argument, and the program can follow its flag there, with or
without an equals sign. A program in an argument of its own must not look like a flag. After two
dashes every argument is a file. A verbosity given after the action takes the place of one given
before it.
-/

namespace LosslessSyntax

namespace Command

/-- The program that comes with its flag. -/
inductive Given
  /-- Here, in the same argument. -/
  | here (program : String)
  /-- In the next argument. -/
  | next
deriving DecidableEq, Repr

/-- What a single argument says. -/
inductive Argument
  /-- Flags: how many for verbosity, and then perhaps one for the program. -/
  | flags (verbose : Nat) (program : Option Given)
  | file (name : String)
  /-- Two dashes: only files follow. -/
  | onlyFiles
  | unknown
deriving DecidableEq, Repr

/-- The flags that are written after one dash. -/
def shortFlags : List Char → Argument
  | [] => .flags 0 none
  | 'v' :: cs =>
    match shortFlags cs with
    | .flags verbose program => .flags (verbose + 1) program
    | other => other
  | ['e'] => .flags 0 (some .next)
  | 'e' :: '=' :: cs => .flags 0 (some (.here (String.ofList cs)))
  | 'e' :: cs => .flags 0 (some (.here (String.ofList cs)))
  | _ => .unknown

/-- The flag that is written after two dashes. -/
def longFlag (cs : List Char) : Argument :=
  if cs = "verbose".toList then .flags 1 none
  else if cs = "eval".toList then .flags 0 (some .next)
  else if "eval=".toList.isPrefixOf cs then
    .flags 0 (some (.here (String.ofList (cs.drop "eval=".length))))
  else .unknown

/-- Reads an argument. A single dash is a file, and an argument without characters is nothing. -/
def Argument.ofString (argument : String) : Argument :=
  match argument.toList with
  | [] => .unknown
  | ['-'] => .file argument
  | ['-', '-'] => .onlyFiles
  | '-' :: '-' :: cs => longFlag cs
  | '-' :: cs => shortFlags cs
  | _ => .file argument

/-- Whether an argument can be the program of the flag before it. -/
def canBeProgram (argument : String) : Bool :=
  argument = "-" || argument.toList.head? ≠ some '-'

/-- What the arguments after the action ask for. -/
structure Inputs where
  verbosity : Nat := 0
  program : Option String := none
  files : List String := []

namespace Inputs

/-- Takes a program, of which there can be one. -/
def addProgram? (inputs : Inputs) (program : String) : Option Inputs :=
  if inputs.program.isSome then none else some { inputs with program := some program }

/-- Reads the arguments after the action, given what the ones before asked for. -/
def read? (inputs : Inputs) : List String → Option Inputs
  | [] => some inputs
  | argument :: others =>
    match Argument.ofString argument with
    | .unknown => none
    | .file name => read? { inputs with files := inputs.files ++ [name] } others
    | .onlyFiles =>
      if "" ∈ others then none else some { inputs with files := inputs.files ++ others }
    | .flags verbose given =>
      let inputs := { inputs with verbosity := inputs.verbosity + verbose }
      match given, others with
      | none, others => read? inputs others
      | some (.here program), others => (inputs.addProgram? program).bind (read? · others)
      | some .next, [] => none
      | some .next, program :: others =>
        if canBeProgram program then (inputs.addProgram? program).bind (read? · others) else none

end Inputs

/-- The action with a given name. -/
def action? (name : String) : Option Action :=
  if name = "tokens" then some .tokens
  else if name = "tree" then some .tree
  else if name = "check" then some .check
  else none

end Command

/-- Reads the arguments of the command line, the first of which come after `verbosity` flags for
verbosity. -/
def Invocation.ofArgumentsAfter? (verbosity : Nat) : List String → Option Invocation
  | [] => none
  | argument :: others =>
    match Command.action? argument with
    | some action =>
      (Command.Inputs.read? {} others).map fun inputs =>
        { action := action
          verbosity := if inputs.verbosity = 0 then verbosity else inputs.verbosity
          program := inputs.program
          files := inputs.files }
    | none =>
      match Command.Argument.ofString argument with
      | .flags verbose none => ofArgumentsAfter? (verbosity + verbose) others
      | _ => none

/-- Reads the arguments of the command line. -/
def Invocation.ofArguments? (arguments : List String) : Option Invocation :=
  ofArgumentsAfter? 0 arguments

end LosslessSyntax
