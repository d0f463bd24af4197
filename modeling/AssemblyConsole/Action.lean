/-!
Computations that change a state and may fail.
-/

namespace AssemblyConsole

/-- A computation that may fail and leaves a state behind in either case. -/
abbrev Action (σ ε α : Type) := ExceptT ε (StateM σ) α

namespace Action

variable {σ ε α β : Type}

/-- The outcome in a state, and the state after it. -/
def outcome (x : Action σ ε α) (s : σ) : Except ε α × σ := (ExceptT.run x).run s

@[simp] theorem outcome_pure (a : α) (s : σ) : outcome (pure a : Action σ ε α) s = (.ok a, s) := rfl

@[simp] theorem outcome_throw (e : ε) (s : σ) : outcome (throw e : Action σ ε α) s = (.error e, s) := rfl

theorem outcome_bind (x : Action σ ε α) (f : α → Action σ ε β) (s : σ) :
    outcome (x >>= f) s = match outcome x s with
      | (.ok a, t) => outcome (f a) t
      | (.error e, t) => (.error e, t) := by
  simp only [outcome, ExceptT.run, StateT.run, bind, ExceptT.bind, ExceptT.mk, StateT.bind]
  rcases x s with ⟨r | r, t⟩ <;> rfl

@[simp] theorem outcome_get (s : σ) : outcome (get : Action σ ε σ) s = (.ok s, s) := rfl

@[simp] theorem outcome_modify (f : σ → σ) (s : σ) : outcome (modify f : Action σ ε Unit) s = (.ok (), f s) := rfl

end Action

end AssemblyConsole
