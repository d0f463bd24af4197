import AssemblyConsole.Architecture
import AssemblyConsole.Text.WordCharacter

/-!
How the operands of a decoded instruction are written. A constant of one decimal digit becomes a hexadecimal one,
and on ARM the frame pointer goes by its number.
-/

namespace AssemblyConsole.Operands

/-- A digit at the beginning of the text that no digit and no `x` follows: the digit with the character behind it, and
the rest. -/
def loneDigit? : List Char → Option (List Char × List Char)
  | [] => none
  | [d] => if d.isDigit then some ([d], []) else none
  | d :: e :: cs => if d.isDigit && !(e.isDigit || e = 'x') then some ([d, e], cs) else none

/-- A lone digit at the beginning of the text, a minus sign in front of it or not: what is written for it, and the
rest. -/
def constant? : List Char → Option (List Char × List Char)
  | '-' :: cs => (loneDigit? cs).map fun (d, rest) => ('-' :: '0' :: 'x' :: d, rest)
  | cs => (loneDigit? cs).map fun (d, rest) => ('0' :: 'x' :: d, rest)

theorem length_loneDigit? {cs d rest : List Char} (h : loneDigit? cs = some (d, rest)) :
    rest.length < cs.length := by
  unfold loneDigit? at h
  split at h
  · simp at h
  · split at h
    · obtain ⟨rfl, rfl⟩ := Prod.mk.inj (Option.some.inj h)
      simp
    · simp at h
  · split at h
    · obtain ⟨rfl, rfl⟩ := Prod.mk.inj (Option.some.inj h)
      simp only [List.length_cons]
      omega
    · simp at h

theorem length_constant? {cs d rest : List Char} (h : constant? cs = some (d, rest)) : rest.length < cs.length := by
  unfold constant? at h
  split at h <;>
  · obtain ⟨⟨e, r⟩, hl, he⟩ := Option.map_eq_some_iff.mp h
    have hlen := length_loneDigit? hl
    obtain ⟨_, rfl⟩ := Prod.mk.inj he
    simp only [List.length_cons] at *
    omega

set_option linter.unusedVariables false in
/-- The text with each constant of one digit behind a character of no word made hexadecimal. The character behind a
digit is passed over with it. -/
def markConstants : List Char → List Char
  | [] => []
  | c :: cs =>
    if Text.isWordCharacter c then c :: markConstants cs
    else match h : constant? cs with
      | some (written, rest) => c :: written ++ markConstants rest
      | none => c :: markConstants cs
termination_by cs => cs.length
decreasing_by
  · simp
  · have := length_constant? h
    simp only [List.length_cons]
    omega
  · simp

def numberFramePointer : List Char → List Char
  | [] => []
  | 'f' :: 'p' :: cs => 'r' :: '1' :: '1' :: numberFramePointer cs
  | c :: cs => c :: numberFramePointer cs

def normalize (set : InstructionSet) (operands : String) : String :=
  let marked := markConstants operands.toList
  String.ofList (if set = .arm then numberFramePointer marked else marked)

end AssemblyConsole.Operands
