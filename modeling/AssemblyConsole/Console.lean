import AssemblyConsole.CommandLine
import AssemblyConsole.Completion
import AssemblyConsole.Shell

/-!
The command: a shell between an input text and an output text.
-/

namespace AssemblyConsole

/-- Where the command runs: what is typed, whether it comes from a terminal, and the description of the line editor, if
there is a line editor. -/
structure Terminal where
  input : String := ""
  isInteractive : Bool := false
  editor : Option String := none
deriving DecidableEq, Repr

structure EditorSetup where
  delimiters : String
  binding : String
deriving DecidableEq, Repr

/-- Why a command whose words are in order does not start. -/
inductive StartError
  | noLevel
  | target (e : ChoiceError)
deriving DecidableEq, Repr

def StartError.message : StartError → String
  | .noLevel => "no value is left for the logging level"
  | .target e => e.message

structure Transaction where
  level : CommandLine.Level
  printed : String
  setup : Option EditorSetup
  notices : List String
  session : Session

namespace Console

/-- The lines typed: what stands before each line feed, and what stands behind the last unless that is nothing. -/
def inputLines (cs : List Char) : List String :=
  let ps := Text.pieces (· = '\n') cs
  ((if ps.getLast? = some [] then ps.dropLast else ps)).map String.ofList

def setup? (t : Terminal) : Option EditorSetup :=
  if t.isInteractive then t.editor.map fun d => ⟨Completion.delimiters, Completion.binding d⟩ else none

def shown : Shell.Utterance → String
  | .prompt => Shell.prompt
  | .printed text => text

def start (s : CommandLine.Settings) : Except StartError (CommandLine.Level × Target) :=
  match s.level, s.architecture.resolve with
  | none, _ => .error .noLevel
  | some _, .error e => .error (.target e)
  | some l, .ok a => .ok (l, ⟨a⟩)

def run (env : Environment) (s : CommandLine.Settings) (t : Terminal) : Except StartError Transaction := do
  let (level, target) ← start s
  let (utterances, codec) := Shell.run (Codec.encode env) (inputLines t.input.toList) { target }
  return {
    level
    printed := "".intercalate (utterances.map shown)
    setup := setup? t
    notices := if level.showsWarnings then codec.session.notices else []
    session := codec.session }

end Console

end AssemblyConsole
