import AssemblyConsole.Proofs.LocalDecoding
import Mathlib.Logic.Relation

/-!
Where control may go from the instructions of a buffer.
-/

namespace AssemblyConsole

open Buffer

/-- Control falls through to the next address, whatever else it may do. -/
def ControlFlow.GoesOn : ControlFlow → Prop
  | .next | .call => True
  | .jump | .conditional | .returning => False

/-- Control falls from an address through instructions to another address. -/
inductive Falls (code : Int → Option Decoded) : Int → List Decoded → Int → Prop
  | nil (c : Int) : Falls code c [] c
  | cons {c d ds e} (hc : code c = some d) (hd : d.flow.GoesOn) (h : Falls code d.instruction.stop ds e) :
      Falls code c (d :: ds) e

def Decoded.successors (d : Decoded) : List Int :=
  match d.flow with
  | .next => [d.instruction.stop]
  | .call | .conditional => d.instruction.stop :: d.target.toList
  | .jump => d.target.toList
  | .returning => []

/-- The instruction names the address, or decides whether control goes on there. -/
def Decoded.Branches (d : Decoded) (c : Int) : Prop :=
  d.target = some c ∨ d.flow = .conditional ∧ d.instruction.stop = c

namespace Buffer

def Leads (b : Buffer) (code : Int → Option Decoded) (c e : Int) : Prop :=
  ∃ d, code c = some d ∧ e ∈ d.successors ∧ b.Holds e

abbrev Reaches (b : Buffer) (code : Int → Option Decoded) : Int → Int → Prop := Relation.ReflTransGen (b.Leads code)

end Buffer

variable {code : Int → Option Decoded} {b : Buffer}

theorem mem_successors_iff (hc : b.Carries code) {c e : Int} {d : Decoded} (hd : code c = some d) :
    e ∈ d.successors ↔ d.Branches e ∨ d.flow.GoesOn ∧ d.instruction.stop = e := by
  have hnames := hc.names hd
  unfold Decoded.successors Decoded.Branches
  cases hf : d.flow <;> cases ht : d.target <;> grind [ControlFlow.GoesOn, ControlFlow.mayName]

theorem falls_append {c e : Int} {xs ys : List Decoded} :
    Falls code c (xs ++ ys) e ↔ ∃ m, Falls code c xs m ∧ Falls code m ys e := by
  induction xs generalizing c with
  | nil =>
    constructor
    · intro h
      exact ⟨c, .nil c, h⟩
    · rintro ⟨m, hm, h⟩
      cases hm
      exact h
  | cons d ds ih =>
    constructor
    · rintro (_ | ⟨hc, hd, h⟩)
      obtain ⟨m, hm, hy⟩ := ih.mp h
      exact ⟨m, .cons hc hd hm, hy⟩
    · rintro ⟨m, _ | ⟨hc, hd, hm⟩, hy⟩
      exact .cons hc hd (ih.mpr ⟨m, hm, hy⟩)

theorem falls_nil {c e : Int} : Falls code c [] e ↔ c = e := by
  constructor
  · rintro ⟨⟩
    rfl
  · rintro rfl
    exact .nil c

theorem falls_singleton {c e : Int} {d : Decoded} :
    Falls code c [d] e ↔ code c = some d ∧ d.flow.GoesOn ∧ d.instruction.stop = e := by
  constructor
  · rintro (_ | ⟨hc, hd, _ | _⟩)
    exact ⟨hc, hd, rfl⟩
  · rintro ⟨hc, hd, rfl⟩
    exact .cons hc hd (.nil _)

theorem falls_concat {c e : Int} {ds : List Decoded} {d : Decoded} (hc : b.Carries code) :
    Falls code c (ds ++ [d]) e ↔ Falls code c ds d.instruction.address ∧ code d.instruction.address = some d ∧
      d.flow.GoesOn ∧ d.instruction.stop = e := by
  simp only [falls_append, falls_singleton]
  constructor
  · rintro ⟨m, hm, hd, hg, he⟩
    obtain rfl := hc.address hd
    exact ⟨hm, hd, hg, he⟩
  · rintro ⟨hm, hd, hg, he⟩
    exact ⟨_, hm, hd, hg, he⟩

/-- A fall up to an instruction begins with that or an earlier one. -/
theorem Falls.begins {c : Int} {run : List Decoded} {last : Decoded}
    (hf : Falls code c run last.instruction.address) (hl : code last.instruction.address = some last) :
    ∃ d rest, run ++ [last] = d :: rest ∧ code c = some d := by
  cases run with
  | nil =>
    rw [falls_nil] at hf
    exact ⟨last, [], rfl, hf ▸ hl⟩
  | cons d ds =>
    obtain _ | ⟨hd, _, _⟩ := hf
    exact ⟨d, ds ++ [last], rfl, hd⟩

theorem Falls.decoded {c e : Int} {ds : List Decoded} (hc : b.Carries code) (h : Falls code c ds e) :
    ∀ d ∈ ds, code d.instruction.address = some d := by
  induction h with
  | nil c => simp
  | @cons c d ds e hd _ _ ih =>
    intro x hx
    rcases List.mem_cons.mp hx with rfl | hx
    · rwa [hc.address hd]
    · exact ih x hx

theorem Falls.upTo {c : Int} {run : List Decoded} {last : Decoded} (hc : b.Carries code)
    (h : Falls code c run last.instruction.address) :
    ∀ d ∈ run ++ [last], ∃ xs, Falls code c xs d.instruction.address := by
  intro d hd
  rcases List.mem_append.mp hd with hd | hd
  · obtain ⟨xs, ys, rfl⟩ := List.append_of_mem hd
    obtain ⟨m, hx, _ | ⟨hm, _, _⟩⟩ := falls_append.mp h
    exact ⟨xs, hc.address hm ▸ hx⟩
  · exact ⟨run, List.mem_singleton.mp hd ▸ h⟩

theorem Falls.goesOn {c e : Int} {ds : List Decoded} (h : Falls code c ds e) : ∀ d ∈ ds, d.flow.GoesOn := by
  induction h with
  | nil c => simp
  | cons hd hgo _ ih =>
    intro x hx
    rcases List.mem_cons.mp hx with rfl | hx
    · exact hgo
    · exact ih x hx

theorem Falls.next {c e : Int} {ds : List Decoded} (hc : b.Carries code) (h : Falls code c ds e) :
    ∀ d ∈ ds, d.instruction.stop = e ∨ ∃ x ∈ ds, x.instruction.address = d.instruction.stop := by
  induction h with
  | nil c => simp
  | @cons c d ds e hd _ h ih =>
    intro x hx
    rcases List.mem_cons.mp hx with rfl | hx
    · cases h with
      | nil => exact .inl rfl
      | cons hy _ _ => exact .inr ⟨_, List.mem_cons_of_mem _ List.mem_cons_self, hc.address hy⟩
    · rcases ih x hx with he | ⟨y, hy, he⟩
      · exact .inl he
      · exact .inr ⟨y, List.mem_cons_of_mem _ hy, he⟩

theorem Falls.previous {c e : Int} {run : List Decoded} {last : Decoded} (hc : b.Carries code)
    (h : Falls code c run e) (he : last.instruction.address = e) :
    ∀ d ∈ run ++ [last], d.instruction.address = c ∨ ∃ x ∈ run, x.instruction.stop = d.instruction.address := by
  induction h with
  | nil c =>
    intro d hd
    rw [List.nil_append, List.mem_singleton] at hd
    exact .inl (hd ▸ he)
  | @cons c x ds e hx _ _ ih =>
    intro d hd
    rcases List.mem_cons.mp hd with rfl | hd
    · exact .inl (hc.address hx)
    · rcases ih he d hd with hstop | ⟨y, hy, hstop⟩
      · exact .inr ⟨x, List.mem_cons_self, hstop.symm⟩
      · exact .inr ⟨y, List.mem_cons_of_mem _ hy, hstop⟩

theorem Falls.reaches {c e : Int} {ds : List Decoded} (hc : b.Carries code) (h : Falls code c ds e) (he : b.Holds e) :
    b.Reaches code c e := by
  induction h with
  | nil c => exact .refl
  | @cons c d ds e hd hgo h ih =>
    have hstop : b.Holds d.instruction.stop := by
      cases h with
      | nil => exact he
      | cons hy _ _ => exact hc.holds hy
    exact .head ⟨d, hd, (mem_successors_iff hc hd).mpr (.inr ⟨hgo, rfl⟩), hstop⟩ (ih he)

end AssemblyConsole
