import AssemblyConsole.Graph.Basic

/-!
Cutting a block at an address inside it, so that a new block begins there.
-/

namespace AssemblyConsole.Graph

/-- Whether an instruction at one of the addresses from `start` up to `stop` names the target. -/
def refersFrom (g : Graph) (target start stop : Int) : Bool :=
  g.references.any fun r => r.target = target && decide (start ≤ r.source) && decide (r.source < stop)

/-- The instructions before the one at the address and those from it on, if there is one. -/
def cutInstructions (a : Int) : List Instruction → Option (List Instruction × List Instruction)
  | [] => none
  | i :: is =>
    if i.address = a then some ([], i :: is)
    else (cutInstructions a is).map fun (before, after) => (i :: before, after)

/-- The two blocks into which a block falls at an address where one of its instructions begins. A target goes to
each part that refers to it. -/
def cutBlock (g : Graph) (a : Int) (b : Block) : Option (Block × Block) :=
  (cutInstructions a b.instructions).map fun (before, after) =>
    ({ b with
        instructions := before
        isExit := false
        continuesAt := some a
        targets := b.targets.filter fun t => g.refersFrom t b.address a },
     { address := a
       instructions := after
       isExit := b.isExit
       continuesAt := b.continuesAt
       targets := b.targets.filter fun t => g.refersFrom t a b.stop })

/-- The graph with the block around the address cut there; `none` if no block is around it, or if the address is
inside an instruction. -/
def split? (g : Graph) (a : Int) : Option Graph := do
  let b ← g.blockAround? a
  let (head, tail) ← g.cutBlock a b
  return (g.put head).put tail

theorem cutInstructions_eq_some {a : Int} {is before after : List Instruction}
    (h : cutInstructions a is = some (before, after)) :
    is = before ++ after ∧ (∀ i ∈ before, i.address ≠ a) ∧ ∃ i rest, after = i :: rest ∧ i.address = a := by
  induction is generalizing before after with
  | nil => simp [cutInstructions] at h
  | cons i is ih =>
    by_cases hi : i.address = a
    · simp only [cutInstructions, hi, if_true, Option.some.injEq, Prod.mk.injEq] at h
      obtain ⟨rfl, rfl⟩ := h
      exact ⟨rfl, by simp, i, is, rfl, hi⟩
    · rw [cutInstructions, if_neg hi, Option.map_eq_some_iff] at h
      obtain ⟨⟨b, c⟩, hbc, he⟩ := h
      simp only [Prod.mk.injEq] at he
      obtain ⟨rfl, rfl⟩ := he
      obtain ⟨h₁, h₂, h₃⟩ := ih hbc
      refine ⟨by rw [h₁]; rfl, ?_, h₃⟩
      intro j hj
      rcases List.mem_cons.mp hj with rfl | hj
      · exact hi
      · exact h₂ j hj

theorem cutInstructions_eq_none_iff (a : Int) (is : List Instruction) :
    cutInstructions a is = none ↔ ∀ i ∈ is, i.address ≠ a := by
  induction is with
  | nil => simp [cutInstructions]
  | cons i is ih => by_cases hi : i.address = a <;> simp [cutInstructions, hi, ih]

theorem cutBlock_eq_some {g : Graph} {a : Int} {k head tail : Block} (h : g.cutBlock a k = some (head, tail)) :
    ∃ before after, cutInstructions a k.instructions = some (before, after) ∧
      head = ⟨k.address, before, false, some a, k.targets.filter fun t => g.refersFrom t k.address a⟩ ∧
      tail = ⟨a, after, k.isExit, k.continuesAt, k.targets.filter fun t => g.refersFrom t a k.stop⟩ := by
  simp only [cutBlock, Option.map_eq_some_iff, Prod.mk.injEq] at h
  obtain ⟨⟨before, after⟩, hc, rfl, rfl⟩ := h
  exact ⟨before, after, hc, rfl, rfl⟩

theorem refersFrom_iff (g : Graph) (t start stop : Int) :
    g.refersFrom t start stop = true ↔ ∃ c, ⟨t, c⟩ ∈ g.references ∧ start ≤ c ∧ c < stop := by
  simp only [refersFrom, List.any_eq_true, Bool.and_eq_true, decide_eq_true_eq, and_assoc]
  constructor
  · rintro ⟨⟨_, c⟩, hr, rfl, hlow, hhigh⟩
    exact ⟨c, hr, hlow, hhigh⟩
  · rintro ⟨c, hr, hlow, hhigh⟩
    exact ⟨_, hr, rfl, hlow, hhigh⟩

theorem split?_eq_none_iff (g : Graph) (a : Int) :
    g.split? a = none ↔ ∀ k, g.blockAround? a = some k → ∀ i ∈ k.instructions, i.address ≠ a := by
  cases hfound : g.blockAround? a with
  | none => simp [split?, hfound]
  | some k =>
    have hcut := cutInstructions_eq_none_iff a k.instructions
    cases hparts : cutInstructions a k.instructions with
    | none =>
      rw [hparts] at hcut
      simpa [split?, hfound, cutBlock, hparts] using hcut.mp rfl
    | some parts =>
      rw [hparts] at hcut
      simpa [split?, hfound, cutBlock, hparts] using hcut

end AssemblyConsole.Graph
