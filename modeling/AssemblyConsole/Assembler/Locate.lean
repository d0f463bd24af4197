import AssemblyConsole.Assembler.Call
import AssemblyConsole.Text.Lines

/-!
Locating an error: the first statement that the engine refuses when it is assembled alone.
-/

namespace AssemblyConsole.Assembler

def statements (text : String) : List String := (Text.statements text.toList).map String.ofList

/-- The first statement refused, each assembled at the address behind the code of those before it. -/
def locate (env : Environment) (a : Architecture) :
    (address : Int) → List String → Action Session EncodeError (Option Place)
  | _, [] => return none
  | address, statement :: rest => do
    match ← probe env ⟨statement, a, address⟩ [] with
    | some code => locate env a (address + code.length) rest
    | none => return some ⟨String.ofList (Text.trim statement.toList), address⟩

end AssemblyConsole.Assembler
