import AssemblyConsole.Assembler.Assemble

/-!
What is made of requests to an assembler. A relation between two computations that holds of each request, and that
sequences inherit from their parts, holds of all of it; so does a property of one computation.
-/

namespace AssemblyConsole.Assembler

/-- Sequences inherit the relation from their parts, and the requests for the architecture have it, the one made in the
first environment and the other in the second. -/
structure Compositional (env env' : Environment) (a : Architecture)
    (R : (α : Type) → Action Session EncodeError α → Action Session EncodeError α → Prop) : Prop where
  pure : ∀ {α : Type} (r : α), R α (pure r) (pure r)
  bind : ∀ {α β : Type} {x y : Action Session EncodeError α} {f g : α → Action Session EncodeError β},
    R α x y → (∀ r, R β (f r) (g r)) → R β (x >>= f) (y >>= g)
  call : ∀ (s : Source) (values : List (String × Int)), s.architecture = a →
    R (Except Refusal Assembled) (call env s values) (call env' s values)

namespace Compositional

variable {env env' : Environment} {a : Architecture}
  {R : (α : Type) → Action Session EncodeError α → Action Session EncodeError α → Prop}
  (h : Compositional env env' a R)
include h

theorem locate (address : Int) (ss : List String) :
    R _ (locate env a address ss) (locate env' a address ss) := by
  induction ss generalizing address with
  | nil => exact h.pure _
  | cons statement rest ih =>
    apply h.bind (h.bind (h.call ⟨statement, a, address⟩ [] rfl) fun r => h.pure _)
    rintro (_ | code)
    · exact h.pure _
    · exact ih _

variable (s : Source) (hs : s.architecture = a) (symbol : String)
include hs

theorem probe (values : List (String × Int)) : R _ (probe env s values) (probe env' s values) := by
  apply h.bind (h.call s values hs)
  intro r
  exact h.pure _

theorem trial (n : Nat) (v : Int) : R _ (trial env s symbol n v) (trial env' s symbol n v) := by
  apply h.bind (h.probe s hs [(symbol, v)])
  intro code
  exact h.pure _

theorem changes (code : Bytes) (values : Int × Int) :
    R _ (changes env s symbol code values) (changes env' s symbol code values) := by
  apply h.bind (h.trial s hs symbol code.length values.1)
  rintro (_ | first)
  · exact h.pure _
  · apply h.bind (h.trial s hs symbol code.length values.2)
    rintro (_ | second)
    · exact h.pure _
    · exact h.pure _

theorem findFields (code : Bytes) (pairs : List (Int × Int)) :
    R _ (findFields env s symbol code pairs) (findFields env' s symbol code pairs) := by
  induction pairs with
  | nil => exact h.pure _
  | cons values rest ih =>
    apply h.bind (h.changes s hs symbol code values)
    rintro (_ | _ | ⟨o, os⟩)
    · exact ih
    · exact ih
    · exact h.pure _

theorem withLabel (n : Nat) : R _ (withLabel env s symbol n) (withLabel env' s symbol n) := by
  apply h.bind (h.probe { s with text := labelLine symbol s.text } hs [])
  intro start
  cases start.filter (·.length = n) with
  | some code => exact h.pure _
  | none =>
    by_cases hgap : s.address < gap
    · simp only [if_pos hgap]
      exact h.pure _
    · simp only [if_neg hgap]
      apply h.bind (h.probe { s with text := paddedLabelLine symbol s.text, address := s.address - gap } hs [])
      intro padded
      exact h.pure _

theorem retry (n : Nat) (trials : Trials) (v : Int) :
    R _ (retry env s symbol n trials v) (retry env' s symbol n trials v) := by
  unfold Assembler.retry
  cases trials.lookup v with
  | some code => exact h.pure _
  | none =>
    apply h.bind (h.trial s hs symbol n v)
    intro code
    exact h.pure _

theorem placeField (n : Nat) (label : Labelled) (f : Field) (ds : List Int) (trials : Trials) :
    R _ (placeField env s symbol n label f ds trials) (placeField env' s symbol n label f ds trials) := by
  induction ds generalizing trials with
  | nil => exact h.pure _
  | cons d ds ih =>
    apply h.bind (h.retry s hs symbol n trials _)
    rintro ⟨atLabel, trials⟩
    by_cases hfound : atLabel.map f.bytes = some (f.bytes label.code)
    · simp only [if_pos hfound]
      apply h.bind (h.retry s hs symbol n trials _)
      intro r
      exact h.pure _
    · simp only [if_neg hfound]
      exact ih trials

theorem placeFields (n : Nat) (label : Labelled) (fs : List Field) (trials : Trials) (placed : Bytes) :
    R _ (placeFields env s symbol n label fs trials placed)
      (placeFields env' s symbol n label fs trials placed) := by
  induction fs generalizing trials placed with
  | nil => exact h.pure _
  | cons f fs ih =>
    apply h.bind (h.placeField s hs symbol n label f distances trials)
    rintro ⟨field, trials⟩
    exact ih trials _

theorem place (code : Bytes) (fs : List Field) :
    R _ (place env s symbol code fs) (place env' s symbol code fs) := by
  apply h.bind (h.withLabel s hs symbol code.length)
  rintro (_ | label)
  · exact h.pure _
  · by_cases hzero : label.address = Relocation.placeholderAddress
    · simp only [if_pos hzero]
      exact h.pure _
    · simp only [if_neg hzero]
      exact h.placeFields s hs symbol code.length label fs [] code

theorem relocationsOf (code : Bytes) :
    R _ (relocationsOf env s code symbol) (relocationsOf env' s code symbol) := by
  apply h.bind (h.findFields s hs symbol code sentinels)
  rintro (_ | ⟨f, fs⟩)
  · exact h.pure _
  · apply h.bind (h.place s hs symbol code (f :: fs))
    intro placed
    exact h.pure _

omit symbol in
theorem relocationsOfAll (code : Bytes) (symbols : List String) :
    R _ (relocationsOfAll env s code symbols) (relocationsOfAll env' s code symbols) := by
  induction symbols with
  | nil => exact h.pure _
  | cons symbol rest ih =>
    apply h.bind (h.relocationsOf s hs symbol code)
    intro here
    apply h.bind ih
    intro others
    exact h.pure _

section Failing

variable (hthrow : ∀ e, R Payload (throw e) (throw e))
include hthrow

omit symbol in
theorem assembleWhole : R _ (assembleWhole env s) (assembleWhole env' s) := by
  apply h.bind (h.call { s with text := prepare s.architecture s.text } [] hs)
  rintro (refusal | assembled)
  · subst hs
    apply h.bind (h.locate _ _)
    intro place
    exact hthrow _
  · apply h.bind (h.relocationsOfAll { s with text := prepare s.architecture s.text } hs _ _)
    intro relocations
    exact h.pure _

omit s hs symbol in
theorem assembleParts (address : Int) (parts : List SpecialForm.Part) (p : Payload) :
    R _ (assembleParts env a address parts p) (assembleParts env' a address parts p) := by
  induction parts generalizing p with
  | nil => exact h.pure _
  | cons part rest ih =>
    cases part with
    | special code => exact ih _
    | ordinary text =>
      apply h.bind (h.assembleWhole _ rfl hthrow)
      intro q
      exact ih _

omit symbol in
theorem assemble : R _ (assemble env s) (assemble env' s) := by
  unfold Assembler.assemble
  by_cases hparts : s.architecture.isLongX86 && (SpecialForm.split s.text).any (·.isSpecial)
  · simp only [if_pos hparts]
    subst hs
    exact h.assembleParts hthrow _ _ _
  · simp only [if_neg hparts]
    exact h.assembleWhole s hs hthrow

end Failing

end Compositional

end AssemblyConsole.Assembler
