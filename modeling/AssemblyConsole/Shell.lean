import AssemblyConsole.Codec
import AssemblyConsole.Text.Occurrence

/-!
The dialogue with the user. A line that mentions help shows the usage, one that begins with quit or exit in any case
ends the dialogue, and any other that is not blank is encoded, a semicolon standing for the end of a line. What is
encoded is any state and function that encodes in it.
-/

namespace AssemblyConsole.Shell

def prompt : String := "asm > "

def banner : String := "[+] asmshell assembly shell\ntype help for usage..\n"

def usage : String :=
  "\nType in opcodes to see their binary form\nYou can use ';' to type multi-line stuff\n" ++
  "e.g. 'nop ; nop' will display \"\\x90\\x90\"\n\nexit/quit \t Quit the console.\nhelp \t\t Show this screen."

/-- Bytes as a literal in double quotes, every byte escaped. -/
def literal (bs : Bytes) : String :=
  String.ofList ('"' :: bs.flatMap (fun b => '\\' :: 'x' :: Text.hexPadded 2 b.toNat) ++ ['"'])

inductive Command
  | help
  | leave
  | skip
  | encode (text : String)
deriving DecidableEq, Repr

/-- Whether a character is the given small letter in either case. The letter i has two further forms, a capital with a
dot and a small one without. -/
def isLetter (letter c : Char) : Bool :=
  c = letter || c = letter.toUpper || (letter = 'i' && (c = '\u0130' || c = '\u0131'))

def beginsInAnyCase : List Char → List Char → Bool
  | [], _ => true
  | _ :: _, [] => false
  | l :: ls, c :: cs => isLetter l c && beginsInAnyCase ls cs

def leaveWords : List (List Char) := ["quit".toList, "exit".toList]

/-- The statements of a line, one below another. -/
def statementText (cs : List Char) : List Char := cs.map fun c => if c = ';' then '\n' else c

def Command.ofLine (line : String) : Command :=
  let cs := line.toList
  if Text.occursIn "help".toList cs then .help
  else if leaveWords.any (beginsInAnyCase · cs) then .leave
  else if Text.allBlank (statementText cs) then .skip
  else .encode (String.ofList (statementText cs))

/-- What handling a line comes to: whether the dialogue goes on, what is printed, and the engine's warnings that are
passed on. -/
structure Response where
  continues : Bool := true
  printed : String := ""
  warnings : List String := []
deriving DecidableEq, Repr

def line (s : String) : String := s ++ "\n"

/-- The lines for an encoding: those of its advisories that tell of symbols, and the bytes. An error is shown
alone. -/
def Response.ofEncoding (e : Encoding) : Response :=
  match e.code with
  | .error error => { printed := line s!"Error: {error.kind} {error.message}" }
  | .ok code =>
    { printed := "".intercalate (e.advisories.filterMap fun
        | .unresolved ts => some (line s!"W: {(Advisory.unresolved ts).message}")
        | .engine _ => none) ++ line (literal code)
      warnings := e.advisories.filterMap fun
        | .engine m => some m
        | .unresolved _ => none }

variable {σ : Type} (encode : String → σ → Encoding × σ)

def handle (s : String) (state : σ) : Response × σ :=
  match Command.ofLine s with
  | .help => ({ printed := line usage }, state)
  | .leave => ({ continues := false }, state)
  | .skip => ({}, state)
  | .encode text =>
    let (encoding, state) := encode text state
    (.ofEncoding encoding, state)

inductive Utterance
  | prompt
  | printed (text : String)
deriving DecidableEq, Repr

/-- The dialogue over the lines given, which end when the user leaves or there are no more. -/
def converse : List String → σ → List Utterance × σ
  | [], state => ([.prompt], state)
  | s :: rest, state =>
    let (response, state) := handle encode s state
    let (later, state) := if response.continues then converse rest state else ([], state)
    (.prompt :: .printed response.printed :: later, state)

def run (lines : List String) (state : σ) : List Utterance × σ :=
  let (utterances, state) := converse encode lines state
  (.printed (line banner) :: utterances ++ [.printed (line "")], state)

end AssemblyConsole.Shell
