import AssemblyConsole.Payload
import AssemblyConsole.Text.Lines
import AssemblyConsole.Text.LowerCase

/-!
Statements whose machine code is known and not asked of the engine, which gets these wrong: on 64-bit x86, loads and
exclusive ors of the word at offset 28 of a segment.
-/

namespace AssemblyConsole.SpecialForm

def table : List (String × Bytes) := [
  ("mov rax, qword ptr fs:[0x28]", [0x64, 0x48, 0x8b, 0x04, 0x25, 0x28, 0x00, 0x00, 0x00]),
  ("xor rdi, qword ptr fs:[0x28]", [0x64, 0x48, 0x33, 0x3c, 0x25, 0x28, 0x00, 0x00, 0x00]),
  ("mov rcx, qword ptr fs:[0x28]", [0x64, 0x48, 0x8b, 0x0c, 0x25, 0x28, 0x00, 0x00, 0x00]),
  ("xor rbx, qword ptr fs:[0x28]", [0x64, 0x48, 0x33, 0x1c, 0x25, 0x28, 0x00, 0x00, 0x00]),
  ("xor rsi, qword ptr fs:[0x28]", [0x64, 0x48, 0x33, 0x34, 0x25, 0x28, 0x00, 0x00, 0x00]),
  ("xor rdx, qword ptr fs:[0x28]", [0x64, 0x48, 0x33, 0x14, 0x25, 0x28, 0x00, 0x00, 0x00]),
  ("xor rcx, qword ptr fs:[0x28]", [0x64, 0x48, 0x33, 0x0c, 0x25, 0x28, 0x00, 0x00, 0x00]),
  ("xor rax, qword ptr fs:[0x28]", [0x64, 0x48, 0x33, 0x04, 0x25, 0x28, 0x00, 0x00, 0x00])]

/-- The code of a line that is a special form, in any case and with any white space. -/
def code? (line : List Char) : Option Bytes :=
  table.lookup (String.ofList (Text.lowerCase (Text.collapse line)))

/-- A part of a text: statements for the engine, or the code of a special form. -/
inductive Part
  | ordinary (text : String)
  | special (code : Bytes)
deriving DecidableEq, Repr

/-- The part of some lines, unless all are blank. -/
def ordinaryPart (ls : List (List Char)) : List Part :=
  if ls.all Text.allBlank then [] else [.ordinary (String.ofList (Text.joinLines ls))]

/-- The parts of the lines `pending` and those that follow. -/
def partsFrom (pending : List (List Char)) : List (List Char) → List Part
  | [] => ordinaryPart pending
  | l :: ls =>
    match code? l with
    | some code => ordinaryPart pending ++ .special code :: partsFrom [] ls
    | none => partsFrom (pending ++ [l]) ls

def split (text : String) : List Part := partsFrom [] (Text.lines text.toList)

def Part.isSpecial : Part → Bool
  | .special _ => true
  | .ordinary _ => false

end AssemblyConsole.SpecialForm
