import AssemblyConsole.Architecture.Names

/-!
Choosing the architecture to work for.
-/

namespace AssemblyConsole

/-- What an architecture can be chosen by; `other` is a value of a kind that is neither. -/
inductive Choice
  | architecture (a : Architecture)
  | name (s : String)
  | other (kind : String)
deriving DecidableEq, Repr

inductive ChoiceError
  | unknown (name : String)
  | misplaced (kind : String)
deriving DecidableEq, Repr

def ChoiceError.message : ChoiceError → String
  | .unknown n => Architecture.unknownMessage n
  | .misplaced k => s!"Expected an ArchInfo or an architecture name, got {k}"

def Choice.resolve : Choice → Except ChoiceError Architecture
  | .architecture a => .ok a
  | .name s =>
    match Architecture.ofName? s with
    | some a => .ok a
    | none => .error (.unknown s)
  | .other k => .error (.misplaced k)

structure Target where
  architecture : Architecture := Architecture.standard
deriving DecidableEq, Repr

namespace Target

/-- The target after a choice; a refused choice leaves it as it was. -/
def choose (t : Target) (c : Choice) : Except ChoiceError Architecture × Target :=
  match c.resolve with
  | .ok a => (.ok a, ⟨a⟩)
  | .error e => (.error e, t)

def text (t : Target) : String := s!"TargetConfig({t.architecture.text})"

end Target

end AssemblyConsole
