import AssemblyConsole.Assembler.Assemble
import AssemblyConsole.Text.Occurrence
import AssemblyConsole.Text.Utf8

/-!
Assembling the content of a file.
-/

namespace AssemblyConsole

open Text

namespace Assembler

inductive FileError
  | unreadable (d : Utf8.Damage)
  | rejected (e : EncodeError)
deriving DecidableEq, Repr

/-- Code is not laid out in sections, so the directive that opens the text section means nothing. -/
def sectionDirective : List Char := ".text\n".toList

def fileText (cs : List Char) : String := String.ofList (omitting sectionDirective (withLineFeeds cs))

def assembleFile (env : Environment) (content : Bytes) (a : Architecture) (address : Int) :
    Action Session FileError Payload :=
  match Utf8.decode? content with
  | .error d => throw (.unreadable d)
  | .ok cs => ExceptT.adapt .rejected (assemble env ⟨fileText cs, a, address⟩)

end Assembler

end AssemblyConsole
