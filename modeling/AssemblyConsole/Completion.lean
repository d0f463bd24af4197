import AssemblyConsole.Text.Occurrence

/-!
Completing the words that a line may begin with.
-/

namespace AssemblyConsole.Completion

def commands : List String := ["exit", "help", "quit"]

def matching (text : String) : List String :=
  (commands.filter fun c => Text.beginsWith text.toList c.toList).map (· ++ " ")

/-- The completion of the given number; a negative one counts from the last. -/
def completion? (text : String) (state : Int) : Option String :=
  let found := matching text
  if 0 ≤ state then found[state.toNat]?
  else if (state + found.length) < 0 then none
  else found[(state + found.length).toNat]?

def delimiters : String := " \t\n;"

/-- How the tabulator key is bound, by the description of the line editor. -/
def binding (description : String) : String :=
  if Text.occursIn "libedit".toList description.toList then "bind ^I rl_complete" else "tab: complete"

end AssemblyConsole.Completion
