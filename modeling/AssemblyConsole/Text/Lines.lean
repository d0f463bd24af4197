import AssemblyConsole.Text.Blank

/-!
Lines of a text. A line ends at a line feed, a carriage return, the two in this order, a vertical tab, a form
feed, one of the information separators 1C to 1E, a next-line control or a line or paragraph separator.
-/

namespace AssemblyConsole.Text

def lineBreaks : List Char :=
  ['\n', '\r', '\x0b', '\x0c', '\x1c', '\x1d', '\x1e', '\u0085', '\u2028', '\u2029']

def isLineBreak (c : Char) : Bool := lineBreaks.contains c

/-- The lines without their ends. Nothing follows the last line end, so a text that ends in one has no empty
last line. -/
def lines : List Char → List (List Char)
  | [] => []
  | '\r' :: '\n' :: cs => [] :: lines cs
  | c :: cs =>
    if isLineBreak c then [] :: lines cs
    else match lines cs with
      | [] => [[c]]
      | l :: ls => (c :: l) :: ls

def statements (cs : List Char) : List (List Char) := (lines cs).filter fun l => !allBlank l

def joinLines (ls : List (List Char)) : List Char := ['\n'].intercalate ls

/-- The text with carriage returns, alone or before a line feed, made line feeds. -/
def withLineFeeds : List Char → List Char
  | [] => []
  | '\r' :: '\n' :: cs => '\n' :: withLineFeeds cs
  | c :: cs => (if c = '\r' then '\n' else c) :: withLineFeeds cs

theorem lines_nil : lines [] = [] := by simp [lines]

theorem lines_break {c : Char} (h : isLineBreak c = true) (hc : c ≠ '\r') (cs : List Char) :
    lines (c :: cs) = [] :: lines cs := by
  rw [lines]
  · simp [h]
  · rintro _ rfl
    exact absurd rfl hc

theorem lines_other {c : Char} (h : isLineBreak c = false) (cs : List Char) :
    lines (c :: cs) = match lines cs with
      | [] => [[c]]
      | l :: ls => (c :: l) :: ls := by
  rw [lines]
  · simp [h]
  · rintro _ rfl
    exact absurd h (by decide)

theorem not_break_of_mem_lines {cs l : List Char} (h : l ∈ lines cs) : ∀ c ∈ l, isLineBreak c = false := by
  fun_induction lines cs generalizing l with
  | case1 => simp at h
  | case2 cs ih =>
    rcases List.mem_cons.mp h with rfl | h
    · simp
    · exact ih h
  | case3 c cs _ hc ih =>
    rcases List.mem_cons.mp h with rfl | h
    · simp
    · exact ih h
  | case4 c cs _ hc hl ih =>
    rcases List.mem_singleton.mp h with rfl
    simpa using hc
  | case5 c cs _ hc k ks hl ih =>
    rcases List.mem_cons.mp h with rfl | h
    · intro d hd
      rcases List.mem_cons.mp hd with rfl | hd
      · simpa using hc
      · exact ih (by simp [hl]) d hd
    · exact ih (by simp [hl, h])

theorem lines_of_unbroken {l : List Char} (h : ∀ c ∈ l, isLineBreak c = false) (hne : l ≠ []) : lines l = [l] := by
  induction l with
  | nil => exact absurd rfl hne
  | cons c cs ih =>
    rw [lines_other (h c List.mem_cons_self)]
    by_cases hcs : cs = []
    · simp [hcs, lines_nil]
    · rw [ih (fun d hd => h d (List.mem_cons_of_mem _ hd)) hcs]

end AssemblyConsole.Text
