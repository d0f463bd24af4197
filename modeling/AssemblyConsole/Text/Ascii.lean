import AssemblyConsole.Text.Quoted

/-!
Texts that are not of ASCII characters alone.
-/

namespace AssemblyConsole.Text

/-- A maximal run of characters outside ASCII: how many characters precede it, its first character, and how many
follow that one. -/
structure ForeignRun where
  start : Nat
  first : Char
  further : Nat
deriving DecidableEq, Repr

def isAscii (c : Char) : Bool := decide (c.toNat < 0x80)

def foreignRun? (cs : List Char) : Option ForeignRun :=
  match cs.dropWhile isAscii with
  | [] => none
  | c :: rest => some ⟨(cs.takeWhile isAscii).length, c, (rest.takeWhile (!isAscii ·)).length⟩

def ForeignRun.message (r : ForeignRun) : String :=
  let what :=
    if r.further = 0 then s!"character '{String.ofList (numericEscape r.first)}' in position {r.start}"
    else s!"characters in position {r.start}-{r.start + r.further}"
  s!"'ascii' codec can't encode {what}: ordinal not in range(128)"

end AssemblyConsole.Text
