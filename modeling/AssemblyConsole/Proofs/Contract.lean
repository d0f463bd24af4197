import AssemblyConsole.Action

/-!
Contracts of actions: what an action does from every state that has an invariant, and the rules by which the
contract of a sequence follows from those of its parts.
-/

namespace AssemblyConsole.Action

variable {σ ε α β : Type} {I : σ → Prop} {Q : α → Prop} {R : β → Prop} {E : ε → Prop}

/-- From a state with the invariant the action leads to one that has it too, with a result in `Q` or an error in
`E`. -/
def Meets (I : σ → Prop) (x : Action σ ε α) (Q : α → Prop) (E : ε → Prop) : Prop :=
  ∀ s, I s → I (x.outcome s).2 ∧ (∀ a, (x.outcome s).1 = .ok a → Q a) ∧ ∀ e, (x.outcome s).1 = .error e → E e

theorem meets_pure {a : α} (h : Q a) : Meets I (pure a : Action σ ε α) Q E := by
  intro s hs
  refine ⟨hs, ?_, ?_⟩
  · intro b hb
    obtain rfl := Except.ok.inj hb
    exact h
  · intro e he
    rw [outcome_pure] at he
    cases he

theorem meets_throw {e : ε} (h : E e) : Meets I (throw e : Action σ ε α) Q E := by
  intro s hs
  refine ⟨hs, ?_, ?_⟩
  · intro b hb
    rw [outcome_throw] at hb
    cases hb
  · intro f hf
    obtain rfl := Except.error.inj hf
    exact h

theorem meets_get : Meets I (get : Action σ ε σ) I E := by
  intro s hs
  refine ⟨hs, ?_, ?_⟩
  · intro t ht
    obtain rfl := Except.ok.inj ht
    exact hs
  · intro e he
    simp at he

theorem meets_modify {f : σ → σ} (h : ∀ s, I s → I (f s)) : Meets I (modify f : Action σ ε Unit) (fun _ => True) E := by
  intro s hs
  refine ⟨h s hs, fun _ _ => trivial, ?_⟩
  intro e he
  simp at he

theorem Meets.bind {x : Action σ ε α} {f : α → Action σ ε β} (hx : Meets I x Q E)
    (hf : ∀ a, Q a → Meets I (f a) R E) : Meets I (x >>= f) R E := by
  intro s hs
  obtain ⟨ht, hok, herror⟩ := hx s hs
  rw [outcome_bind]
  rcases h : x.outcome s with ⟨r | a, t⟩
  · rw [h] at ht herror
    refine ⟨ht, ?_, ?_⟩
    · intro b hb
      simp at hb
    · intro e he
      obtain rfl := Except.error.inj he
      exact herror _ rfl
  · rw [h] at ht hok
    exact hf a (hok a rfl) t ht

theorem Meets.mono {x : Action σ ε α} {P : α → Prop} {F : ε → Prop} (hx : Meets I x Q E)
    (hQ : ∀ a, Q a → P a) (hE : ∀ e, E e → F e) : Meets I x P F := by
  intro s hs
  obtain ⟨ht, hok, herror⟩ := hx s hs
  exact ⟨ht, fun a ha => hQ a (hok a ha), fun e he => hE e (herror e he)⟩

/-- A view of the state that the action leaves as it is needs no mention. -/
theorem Meets.ofView {x : Action σ ε α} {τ : Type} {view : σ → τ} (hx : ∀ v, Meets (fun s => I s ∧ view s = v) x Q E) :
    Meets I x Q E := by
  intro s hs
  obtain ⟨ht, hok, herror⟩ := hx (view s) s ⟨hs, rfl⟩
  exact ⟨ht.1, hok, herror⟩

theorem Meets.result {x : Action σ ε α} (hx : Meets I x Q fun _ => False) {s : σ} (hs : I s) :
    ∃ a t, x.outcome s = (.ok a, t) ∧ Q a ∧ I t := by
  obtain ⟨ht, hok, herror⟩ := hx s hs
  rcases h : x.outcome s with ⟨e | a, t⟩
  · exact (herror e (by rw [h])).elim
  · rw [h] at ht hok
    exact ⟨a, t, rfl, hok a rfl, ht⟩

/-- Whatever the state, a result of the action is in `Q`. -/
abbrev Yields (x : Action σ ε α) (Q : α → Prop) : Prop := Meets (fun _ => True) x Q fun _ => True

theorem yields_any (x : Action σ ε α) : Yields x fun _ => True := by
  intro s _
  exact ⟨trivial, fun _ _ => trivial, fun _ _ => trivial⟩

theorem Yields.of_outcome {x : Action σ ε α} (hx : Yields x Q) {s : σ} {a : α} (h : (x.outcome s).1 = .ok a) : Q a :=
  (hx s trivial).2.1 a h

end AssemblyConsole.Action
