import AssemblyConsole.Engine.Basic
import AssemblyConsole.Text.Hexadecimal

/-!
Why a text is not assembled.
-/

namespace AssemblyConsole

/-- The statement at which an error is located, trimmed, and its address. -/
structure Place where
  statement : String
  address : Int
deriving DecidableEq, Repr

inductive EncodeError
  /-- The engine has no numbers for the architecture. -/
  | unsupported (a : Architecture)
  /-- The engine refused to open for the architecture. -/
  | unopened (a : Architecture) (r : Refusal)
  /-- The engine refused the text; the place is that of the first statement it refuses alone. -/
  | refused (r : Refusal) (place : Option Place)
deriving DecidableEq, Repr

def Place.text (p : Place) : String :=
  s!" (instruction '{p.statement}' @ {Text.hexMarked p.address})"

namespace EncodeError

def kind : EncodeError → String
  | .unsupported _ => "AssemblerArchSupportError"
  | .unopened _ r => r.kind
  | .refused r _ => r.kind

def message : EncodeError → String
  | .unsupported a => s!"Cannot generate the keystone mode flag for {a.text}"
  | .unopened a r => s!"Keystone does not support {a.text}: {r.message}"
  | .refused r p => r.message ++ (p.map Place.text).getD ""

end EncodeError

end AssemblyConsole
