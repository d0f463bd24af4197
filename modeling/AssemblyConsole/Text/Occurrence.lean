/-!
Where one text occurs in another.
-/

namespace AssemblyConsole.Text

def beginsWith (part cs : List Char) : Bool := part.isPrefixOf cs

def occursIn (part : List Char) : List Char → Bool
  | [] => part.isEmpty
  | c :: cs => beginsWith part (c :: cs) || occursIn part cs

/-- The text with every occurrence of the part left out, the first first; `skip` characters still belong to the last
occurrence found. -/
def omitFrom (part : List Char) : (skip : Nat) → List Char → List Char
  | _, [] => []
  | n + 1, _ :: cs => omitFrom part n cs
  | 0, c :: cs =>
    if beginsWith part (c :: cs) then omitFrom part (part.length - 1) cs else c :: omitFrom part 0 cs

def omitting (part cs : List Char) : List Char := omitFrom part 0 cs

theorem occursIn_iff (part cs : List Char) : occursIn part cs = true ↔ ∃ before after, cs = before ++ part ++ after := by
  induction cs with
  | nil => simp [occursIn]
  | cons c cs ih =>
    rw [occursIn, Bool.or_eq_true, ih, beginsWith, List.isPrefixOf_iff_prefix]
    constructor
    · rintro (⟨after, h⟩ | ⟨before, after, h⟩)
      · exact ⟨[], after, by simpa using h.symm⟩
      · exact ⟨c :: before, after, by simp [h]⟩
    · rintro ⟨before, after, h⟩
      cases before with
      | nil => exact Or.inl ⟨after, by simpa using h.symm⟩
      | cons d before =>
        right
        simp only [List.cons_append, List.cons.injEq] at h
        exact ⟨before, after, by simpa using h.2⟩

end AssemblyConsole.Text
