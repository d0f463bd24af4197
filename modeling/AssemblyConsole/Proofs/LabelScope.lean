import AssemblyConsole.Proofs.AskedSymbols

/-!
Labels, for an engine that asks only for symbols that the text it is given does not define. A text that is handed to it
as a whole has its labels resolved. Between special forms the texts are handed over one by one, and a label of one of
them is not known to the others.
-/

namespace AssemblyConsole

/-- The names that the lines of a text define, where `labelsOf` tells those that a line defines. -/
def definedIn (labelsOf : List Char → List String) (text : String) : List String :=
  (Text.lines text.toList).flatMap labelsOf

def AssemblerEngine.Resolves (labelsOf : List Char → List String) (e : AssemblerEngine) : Prop :=
  ∀ clock flags text address value, ∀ name ∈ (e.assembling clock flags text address).asked value,
    name ∉ definedIn labelsOf text

namespace Assembler

variable {env : Environment} {s : Source} {session : Session} {p : Payload} {labelsOf : List Char → List String}

theorem architecture_of_mem_piecesFrom {a : Architecture} {address : Int} {parts : List SpecialForm.Part} {n : Nat}
    {k : Piece} (hk : k ∈ piecesFrom env a address parts n session) : k.source.architecture = a := by
  induction parts generalizing n session with
  | nil => simp [piecesFrom] at hk
  | cons part rest ih =>
    cases part with
    | special code => exact ih hk
    | ordinary text =>
      rw [piecesFrom] at hk
      rcases hwhole : (assembleWhole env ⟨text, a, address + n⟩).outcome session with ⟨e | q, u⟩
      · simp only [hwhole, List.mem_singleton] at hk
        rw [hk]
      · simp only [hwhole, List.mem_cons] at hk
        rcases hk with rfl | hk
        · rfl
        · exact ih hk

theorem architecture_of_mem_pieces {k : Piece} (hk : k ∈ pieces env s session) :
    k.source.architecture = s.architecture := by
  unfold pieces at hk
  simp only at hk
  split at hk
  · exact architecture_of_mem_piecesFrom hk
  · rw [List.mem_singleton.mp hk]

theorem prepare_of_isLongX86 {a : Architecture} (ha : a.isLongX86 = true) (text : String) : prepare a text = text := by
  have hset : a.set = .x86 := by
    simp only [Architecture.isLongX86, Bool.and_eq_true, beq_iff_eq] at ha
    exact ha.1
  simp [prepare, hset]

theorem notMem_definedIn_of_asked (hengine : env.assembler.Resolves labelsOf) {k : Piece}
    (hlong : k.source.architecture.isLongX86 = true) {name : String} (hasked : name ∈ k.asked env) :
    name ∉ definedIn labelsOf k.source.text := by
  unfold Piece.asked at hasked
  split at hasked
  · rw [prepare_of_isLongX86 hlong] at hasked
    exact hengine _ _ _ _ _ name hasked
  · simp at hasked

/-- The symbols that a payload waits for are those that a piece asks for and does not define itself. So no label of a
text without special forms is among them; with special forms a label of one piece may be. -/
theorem unresolved_iff_undefined (hlong : s.architecture.isLongX86 = true)
    (hengine : env.assembler.Resolves labelsOf) (h : ((assemble env s).outcome session).1 = .ok p) :
    (∀ name, name ∈ p.unresolved ↔
      ∃ k ∈ pieces env s session, name ∈ k.asked env ∧ name ∉ definedIn labelsOf k.source.text) ∧
    ((SpecialForm.split s.text).any (·.isSpecial) = false → ∀ name ∈ definedIn labelsOf s.text, name ∉ p.unresolved) := by
  have hiff : ∀ name, name ∈ p.unresolved ↔
      ∃ k ∈ pieces env s session, name ∈ k.asked env ∧ name ∉ definedIn labelsOf k.source.text := by
    intro name
    rw [unresolved_assemble h name]
    constructor
    · rintro ⟨k, hk, hasked⟩
      have hlongPiece : k.source.architecture.isLongX86 = true := by rwa [architecture_of_mem_pieces hk]
      exact ⟨k, hk, hasked, notMem_definedIn_of_asked hengine hlongPiece hasked⟩
    · rintro ⟨k, hk, hasked, -⟩
      exact ⟨k, hk, hasked⟩
  refine ⟨hiff, ?_⟩
  intro hwhole name hdefined hunresolved
  obtain ⟨k, hk, -, hundefined⟩ := (hiff name).mp hunresolved
  have hpieces : pieces env s session = [⟨s, session⟩] := by simp [pieces, hwhole]
  rw [hpieces, List.mem_singleton] at hk
  rw [hk] at hundefined
  exact hundefined hdefined

/-- The label of a line that ends in a colon. -/
def colonLabel (line : List Char) : List String :=
  if line.getLast? = some ':' then [String.ofList line.dropLast] else []

theorem resolves_jumpEngine : jumpEngine.Resolves colonLabel := by
  intro clock flags text address value name hasked
  simp only [jumpEngine] at hasked
  split at hasked
  · simp [Dialogue.asked] at hasked
  · split at hasked
    · rename_i htext
      have hnone : definedIn colonLabel "jmp top" = [] := by decide +kernel
      rw [htext, hnone]
      simp
    · split at hasked <;> simp [Dialogue.asked] at hasked

theorem unresolved_iff_undefined_jumpBack :
    jumpBack.architecture.isLongX86 = true ∧ jumpEngine.Resolves colonLabel ∧
      ((assemble jumpConsole jumpBack).outcome {}).1 = .ok jumpPayload ∧
      ∃ k ∈ pieces jumpConsole jumpBack {}, "top" ∈ k.asked jumpConsole ∧
        "top" ∉ definedIn colonLabel k.source.text := by
  obtain ⟨hiff, -⟩ := unresolved_iff_undefined (s := jumpBack) rfl resolves_jumpEngine outcome_jumpBack
  exact ⟨rfl, resolves_jumpEngine, outcome_jumpBack, (hiff "top").mp (by decide)⟩

/-- A label before a special form is not known to a jump behind it. -/
theorem label_unresolved_jumpBack :
    ¬∀ (e : Environment) (s : Source) (session : Session) (p : Payload), s.architecture.isLongX86 = true →
      e.assembler.Resolves colonLabel → ((assemble e s).outcome session).1 = .ok p →
        ∀ name ∈ definedIn colonLabel s.text, name ∉ p.unresolved := by
  intro hall
  have hdefined : "top" ∈ definedIn colonLabel jumpBack.text := by decide +kernel
  apply hall jumpConsole jumpBack {} jumpPayload rfl resolves_jumpEngine outcome_jumpBack "top" hdefined
  decide

end Assembler

end AssemblyConsole
