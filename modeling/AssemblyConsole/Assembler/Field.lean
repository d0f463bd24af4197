import AssemblyConsole.Assembler.Call
import AssemblyConsole.Assembler.Run

/-!
Finding the fields of machine code that depend on a symbol: the bytes that change when the symbol is given other
values.
-/

namespace AssemblyConsole

structure Field where
  offset : Nat
  size : Nat
deriving DecidableEq, Repr

namespace Field

def ofRun (r : Run) : Field := ⟨r.start.toNat, r.length⟩

def bytes (f : Field) (code : Bytes) : Bytes := (code.drop f.offset).take f.size

def put (f : Field) (field code : Bytes) : Bytes := code.take f.offset ++ field ++ code.drop (f.offset + f.size)

end Field

namespace Assembler

/-- Pairs of values for a symbol, the widest first. No byte of a field has the same value for both of a pair and for
the placeholder address; the narrow pairs are for short forms that do not reach far. -/
def sentinels : List (Int × Int) := [
  (0x5555555555555550, -0x5555555555555560),
  (0x55555550, -0x55555560),
  (0x5550, -0x5560),
  (0x50, -0x60)]

def differences (code other : Bytes) : List Nat := (List.range code.length).filter fun i => code[i]? ≠ other[i]?

/-- The code for a value of a symbol, if the engine grants it with the given length. -/
def trial (env : Environment) (s : Source) (symbol : String) (size : Nat) (value : Int) :
    Action Session EncodeError (Option Bytes) := do
  return (← probe env s [(symbol, value)]).filter (·.length = size)

def changes (env : Environment) (s : Source) (symbol : String) (code : Bytes) (values : Int × Int) :
    Action Session EncodeError (Option (List Nat)) := do
  match ← trial env s symbol code.length values.1 with
  | none => return none
  | some first =>
    match ← trial env s symbol code.length values.2 with
    | none => return none
    | some second =>
      return some ((List.range code.length).filter fun i =>
        i ∈ differences code first || i ∈ differences code second)

/-- The fields that depend on a symbol, told by the first pair of values that changes something. -/
def findFields (env : Environment) (s : Source) (symbol : String) (code : Bytes) :
    List (Int × Int) → Action Session EncodeError (List Field)
  | [] => return []
  | values :: rest => do
    match ← changes env s symbol code values with
    | some (o :: os) => return (Run.ofOffsets ((o :: os).map fun (i : Nat) => (i : Int))).map Field.ofRun
    | _ => findFields env s symbol code rest

end Assembler

end AssemblyConsole
