import AssemblyConsole.Text.CodePoints

/-!
White space, and what is cut off or squeezed at it.
-/

namespace AssemblyConsole.Text

/-- Bounds of the white space: separators of words, lines and paragraphs and the control characters that act as
such. -/
def blankBounds : List Nat := [
  0x9, 0xe, 0x1c, 0x21, 0x85, 0x86, 0xa0, 0xa1, 0x1680, 0x1681, 0x2000, 0x200b, 0x2028, 0x202a,
  0x202f, 0x2030, 0x205f, 0x2060, 0x3000, 0x3001]

def isBlank (c : Char) : Bool := within blankBounds c.toNat

def trimStart (cs : List Char) : List Char := cs.dropWhile isBlank

def trimEnd (cs : List Char) : List Char := (trimStart cs.reverse).reverse

def trim (cs : List Char) : List Char := trimEnd (trimStart cs)

def allBlank (cs : List Char) : Bool := cs.all isBlank

/-- The pieces between the characters that satisfy the test; one more piece than there are such characters. -/
def pieces (isSeparator : Char → Bool) : List Char → List (List Char)
  | [] => [[]]
  | c :: cs =>
    if isSeparator c then [] :: pieces isSeparator cs
    else match pieces isSeparator cs with
      | [] => [[c]]
      | p :: ps => (c :: p) :: ps

/-- The maximal runs of characters that are not white space. -/
def tokens (cs : List Char) : List (List Char) := (pieces isBlank cs).filter (· ≠ [])

/-- The text trimmed, with each inner run of white space made one space. -/
def collapse (cs : List Char) : List Char := [' '].intercalate (tokens cs)

theorem pieces_ne_nil (p : Char → Bool) (cs : List Char) : pieces p cs ≠ [] := by
  cases cs with
  | nil => simp [pieces]
  | cons c cs =>
    simp only [pieces]
    split
    · simp
    · split <;> simp

end AssemblyConsole.Text
