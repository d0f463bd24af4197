import AssemblyConsole.Architecture
import AssemblyConsole.Graph.Instruction
import AssemblyConsole.Text.Occurrence
import AssemblyConsole.Text.WordCharacter

/-!
How an instruction passes control on, told from its mnemonic, its operands and the groups that the engine puts it in.
-/

namespace AssemblyConsole.ControlFlow

/-- The numbers of the groups of calls and of the two kinds of returns. -/
def callGroup : Nat := 2
def returnGroups : List Nat := [3, 5]

def jumps : InstructionSet → List String
  | .x86 => ["jmp", "ljmp"]
  | .arm => ["b", "b.w", "b.n", "bx"]
  | .aarch64 => ["b", "br"]
  | .mips => ["j", "jr", "b"]
  | .ppc => ["b", "ba", "bctr"]

def calls : InstructionSet → List String
  | .x86 => ["call", "lcall"]
  | .arm => ["bl", "blx"]
  | .aarch64 => ["bl", "blr"]
  | .mips => ["jal", "jalr", "bal"]
  | .ppc => ["bl", "bla", "bctrl", "blrl"]

def armConditions : List String :=
  ["eq", "ne", "cs", "hs", "cc", "lo", "mi", "pl", "vs", "vc", "hi", "ls", "ge", "lt", "gt", "le"]

def mipsConditions : List String := ["eq", "ne", "gez", "gtz", "lez", "ltz"]

def isWord (cs : List Char) : Bool := !cs.isEmpty && cs.all Text.isWordCharacter

def combinations : List (List String) → List String
  | [] => [""]
  | xs :: xss => xs.flatMap fun x => (combinations xss).map (x ++ ·)

/-- The conditional branches of the sets that have finitely many, and for each set the spellings that stand for any
number of them. -/
def conditionalNames : InstructionSet → List String
  | .arm => combinations [["b"], armConditions, ["", ".w", ".n"]] ++ ["cbz", "cbnz"]
  | .aarch64 => ["cbz", "cbnz", "tbz", "tbnz"]
  | .mips =>
    combinations [["b"], mipsConditions, ["", "z"], ["", "l"]] ++ combinations [["bc1"], ["f", "t"], ["", "l"]]
  | .x86 | .ppc => []

/-- Behind the `b` of these no condition stands. -/
def plainBranchEndings : List (List Char) :=
  ["lr", "ctr", "l", "a", "la", "ctrl", "lrl"].map String.toList

def isConditionalSpelling : InstructionSet → List Char → Bool
  | .x86, 'j' :: cs => isWord cs && cs != ['m', 'p']
  | .x86, 'l' :: 'o' :: 'o' :: 'p' :: cs => cs.all Text.isWordCharacter
  | .aarch64, 'b' :: '.' :: cs => isWord cs
  | .ppc, 'b' :: cs => isWord cs && !plainBranchEndings.contains cs
  | _, _ => false

def withoutLineFeed (cs : List Char) : List Char := if cs.getLast? = some '\n' then cs.dropLast else cs

def isConditional (set : InstructionSet) (mnemonic : String) : Bool :=
  let cs := withoutLineFeed mnemonic.toList
  (conditionalNames set).contains (String.ofList cs) || isConditionalSpelling set cs

def startsWith (mnemonic start : String) : Bool := Text.beginsWith start.toList mnemonic.toList

def isReturnSpelling (set : InstructionSet) (mnemonic operands : String) : Bool :=
  match set with
  | .x86 => startsWith mnemonic "ret" || startsWith mnemonic "iret"
  | .arm =>
    mnemonic == "bx" && operands == "lr" || startsWith mnemonic "pop" && Text.occursIn "pc".toList operands.toList
  | .aarch64 => mnemonic == "ret"
  | .mips => mnemonic == "jr" && operands == "$ra"
  | .ppc => mnemonic == "blr"

def isReturn (set : InstructionSet) (mnemonic operands : String) (groups : List Nat) : Bool :=
  returnGroups.any groups.contains || isReturnSpelling set mnemonic operands

/-- A return is told first, then a call, a jump and a conditional jump. -/
def classify (set : InstructionSet) (mnemonic operands : String) (groups : List Nat) : ControlFlow :=
  if isReturn set mnemonic operands groups then .returning
  else if (calls set).contains mnemonic || groups.contains callGroup then .call
  else if (jumps set).contains mnemonic then .jump
  else if isConditional set mnemonic then .conditional
  else .next

/-- Whether an instruction of this kind may name the address that control goes to. -/
def mayName : ControlFlow → Bool
  | .jump | .conditional | .call => true
  | .next | .returning => false

end AssemblyConsole.ControlFlow
