import AssemblyConsole.Text.IntegerLiteral

/-!
The address that a branch names.
-/

namespace AssemblyConsole.BranchTarget

def isSigil (c : Char) : Bool := c = '#' || c = '$'

/-- The last of the operands between commas, without white space around it and sigils before it. -/
def lastOperand (operands : List Char) : List Char :=
  (Text.trim ((Text.pieces (· = ',') operands).getLast?.getD [])).dropWhile isSigil

def read? (operands : String) : Option Int := Text.IntegerLiteral.read? (lastOperand operands.toList)

end AssemblyConsole.BranchTarget
