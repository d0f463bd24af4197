import AssemblyConsole.Text.WordCharacter

/-!
Register names of the PowerPC. The engine knows the registers by their numbers only, so the letter is taken off
where a word is one of the letters r, f and v and a number up to 31.
-/

namespace AssemblyConsole.Register

def isLetter (c : Char) : Bool := c = 'r' || c = 'f' || c = 'v'

/-- No word goes on at the beginning of the text. -/
def endsWord : List Char → Bool
  | [] => true
  | c :: _ => !Text.isWordCharacter c

/-- The number at the beginning of the text, if it is one from 0 to 31 and the word ends behind it, and the rest. -/
def number? : List Char → Option (List Char × List Char)
  | d :: e :: rest =>
    if d.isDigit then
      if e.isDigit then
        if (d = '1' || d = '2' || (d = '3' && (e = '0' || e = '1'))) && endsWord rest then some ([d, e], rest) else none
      else if endsWord (e :: rest) then some ([d], e :: rest) else none
    else none
  | [d] => if d.isDigit then some ([d], []) else none
  | [] => none

theorem length_number? {cs n rest : List Char} (h : number? cs = some (n, rest)) : rest.length < cs.length := by
  unfold number? at h
  split at h
  · repeat' split at h
    all_goals first
      | (obtain ⟨rfl, rfl⟩ := Prod.mk.inj (Option.some.inj h); simp only [List.length_cons]; omega)
      | simp at h
  · split at h
    · obtain ⟨rfl, rfl⟩ := Prod.mk.inj (Option.some.inj h)
      simp
    · simp at h
  · simp at h

set_option linter.unusedVariables false in
/-- The text behind a character, or at the beginning if `inWord` is false, without the letters of registers. -/
def stripFrom (inWord : Bool) : List Char → List Char
  | [] => []
  | c :: cs =>
    match h : if !inWord && isLetter c then number? cs else none with
    | some (n, rest) => n ++ stripFrom true rest
    | none => c :: stripFrom (Text.isWordCharacter c) cs
termination_by cs => cs.length
decreasing_by
  · split at h
    · have := length_number? h
      simp only [List.length_cons]
      omega
    · simp at h
  · simp

def strip (text : String) : String := String.ofList (stripFrom false text.toList)

end AssemblyConsole.Register
