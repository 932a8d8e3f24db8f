import LosslessSyntax.Command.Directory
import LosslessSyntax.Command.Event
import LosslessSyntax.Command.Invocation
import LosslessSyntax.Diagnostic.Merged
import LosslessSyntax.Text.Source
import LosslessSyntax.Tree.Dump
import LosslessSyntax.Tree.Strict

/-!
# Runs

A run takes the program from the command line first and then the files in the order of the
arguments, and treats each input by itself. Files that cannot be read are reported before anything
else. `run` is a function of the invocation and of the contents of the files, given how events are
written in the log.
-/

namespace LosslessSyntax

/-- What a run leaves: its two outputs, the second one in lines, and its exit code. -/
structure Outcome where
  stdout : String := ""
  stderr : List String := []
  exitCode : Nat := 0
deriving DecidableEq, Repr

namespace Outcome

/-- One outcome after another. A failure stays a failure. -/
def append (a b : Outcome) : Outcome :=
  ⟨a.stdout ++ b.stdout, a.stderr ++ b.stderr, max a.exitCode b.exitCode⟩

/-- Outcomes in a row. -/
def concat (outcomes : List Outcome) : Outcome :=
  outcomes.foldr append {}

end Outcome

namespace Command

/-- The text of a file, or the line that says why it cannot be read. -/
def readText (contents : String → Except FileFault ByteArray) (name : String) :
    Except String String :=
  match contents name with
  | .error fault => .error (name ++ ": " ++ fault.message)
  | .ok bytes =>
    match String.fromUTF8? bytes with
    | none => .error (name ++ ": stream did not contain valid UTF-8")
    | some text => .ok text

/-- The line that reports a diagnostic of an input. -/
def diagnosticLine (name : String) (source : Source) (diagnostic : Diagnostic) : String :=
  name ++ ":" ++ toString (source.linePosition diagnostic.span.start) ++ ": " ++ diagnostic.message

/-- The line that reports an input without diagnostics. -/
def okLine (name : String) (tree : SyntaxTree) : String :=
  s!"{name}: ok ({tree.statements.length} statement(s))"

/-- What the parser tells about a tree. -/
def parsingEvents (tree : SyntaxTree) : List Event :=
  tree.diagnostics.map Event.tokenMissing ++
    [.parsed tree.statements.length tree.diagnostics.length]

/-- What an action leaves for one input. -/
def process (render : Event → String) (action : Action) (verbosity : Nat) (name text : String) :
    Except Fault Outcome :=
  let source := Source.ofString text
  let tokens := tokenize text
  let opening := Event.log render verbosity
    [.sourceRead name source.length source.lines.size, .lexed tokens.length source.length]
  match action with
  | .tokens => .ok { stdout := dumpTokens tokens, stderr := opening }
  | .tree => do
    let tree ← parse tokens
    let dump ← dumpTree tree
    return {
      stdout := dump
      stderr := opening ++ Event.log render verbosity (parsingEvents tree) ++
        (diagnostics tokens tree).map (diagnosticLine name source) }
  | .check => do
    let tree ← parse tokens
    let opening := opening ++ Event.log render verbosity (parsingEvents tree)
    match diagnostics tokens tree with
    | [] => return { stderr := opening ++ [okLine name tree] }
    | found => return {
        stderr := opening ++ found.map (diagnosticLine name source)
        exitCode := 1 }

/-- What is left by the files that cannot be read. -/
def unreadable (lines : List String) : Outcome :=
  { stderr := lines, exitCode := if lines.isEmpty then 0 else 1 }

/-- What a run without any input leaves. -/
def noInput : Outcome :=
  { stderr := ["Error: no input, pass files or --eval <PROGRAM>"], exitCode := 2 }

/-- The inputs that can be read, with their names: the program from the command line, then files. -/
def readableInputs (program : Option String) (files : List (String × Except String String)) :
    List (String × String) :=
  program.toList.map (("<eval>", ·)) ++
    files.filterMap fun (name, text) => text.toOption.map ((name, ·))

/-- The lines about the files that cannot be read. -/
def unreadableLines (files : List (String × Except String String)) : List String :=
  files.filterMap fun
    | (_, .error line) => some line
    | (_, .ok _) => none

end Command

/-- What an invocation leaves, given the contents of the files. -/
def run (render : Event → String) (invocation : Invocation)
    (contents : String → Except FileFault ByteArray) : Except Fault Outcome :=
  if invocation.files.isEmpty && invocation.program.isNone then .ok Command.noInput
  else do
    let files := invocation.files.map fun name => (name, Command.readText contents name)
    let outcomes ← (Command.readableInputs invocation.program files).mapM fun (name, text) =>
      Command.process render invocation.action invocation.verbosity name text
    return (Command.unreadable (Command.unreadableLines files)).append (.concat outcomes)

end LosslessSyntax
