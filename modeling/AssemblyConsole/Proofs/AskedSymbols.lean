import AssemblyConsole.Architecture.Names
import AssemblyConsole.Proofs.FieldEngine
import AssemblyConsole.Proofs.PayloadForm

/-!
The unresolved symbols of a payload are those that the engine asks for: in the first request for a text, or in the
first requests for the statements between its special forms.
-/

namespace AssemblyConsole

open AssemblyConsole.Action

namespace Dialogue

def asked (value : String → UInt64) : Dialogue → List String
  | .ask symbol resume => Recorder.nameOf symbol :: (resume (value (Recorder.nameOf symbol))).asked value
  | .reply _ => []

theorem mem_symbols_answer (d : Dialogue) (r : Recorder) (name : String) :
    name ∈ (d.answer r).1.symbols ↔ name ∈ r.symbols ∨ name ∈ d.asked r.valueOf := by
  induction d generalizing r with
  | ask symbol resume ih =>
    simp only [answer, Recorder.answer, ih, Recorder.mem_symbols_note, Recorder.valueOf_note, asked, List.mem_cons,
      or_assoc]
  | reply x => simp [answer, asked]

end Dialogue

def SpecialForm.Part.text? : SpecialForm.Part → Option String
  | .ordinary text => some text
  | .special _ => none

namespace Assembler

/-- A text that is handed to the engine on its own, and the session in which it is. -/
structure Piece where
  source : Source
  session : Session

/-- The names that the engine asks for in the first request for a piece, in which no symbol has a value of its own. -/
def Piece.asked (env : Environment) (k : Piece) : List String :=
  match (instanceFor env k.source.architecture).outcome k.session with
  | (.ok i, t) =>
    (env.assembler.assembling t.clock i.flags (prepare k.source.architecture k.source.text) k.source.address).asked
      ({} : Recorder).valueOf
  | (.error _, _) => []

/-- The pieces among some parts that stand behind `n` bytes of code. -/
def piecesFrom (env : Environment) (a : Architecture) (address : Int) :
    List SpecialForm.Part → (n : Nat) → Session → List Piece
  | [], _, _ => []
  | .special code :: rest, n, session => piecesFrom env a address rest (n + code.length) session
  | .ordinary text :: rest, n, session =>
    let s : Source := ⟨text, a, address + n⟩
    match (assembleWhole env s).outcome session with
    | (.ok q, t) => ⟨s, session⟩ :: piecesFrom env a address rest (n + q.filled.length) t
    | (.error _, _) => [⟨s, session⟩]

/-- The pieces of a text: the text as it is, or the statements between its special forms. -/
def pieces (env : Environment) (s : Source) (session : Session) : List Piece :=
  let parts := SpecialForm.split s.text
  if s.architecture.isLongX86 && parts.any (·.isSpecial) then piecesFrom env s.architecture s.address parts 0 session
  else [⟨s, session⟩]

def textsOf (s : Source) : List String :=
  let parts := SpecialForm.split s.text
  if s.architecture.isLongX86 && parts.any (·.isSpecial) then parts.filterMap SpecialForm.Part.text? else [s.text]

variable {env : Environment} {s : Source} {session : Session} {p : Payload}

theorem outcome_call (env : Environment) (s : Source) (values : List (String × Int)) (session : Session) :
    (call env s values).outcome session =
      match (instanceFor env s.architecture).outcome session with
      | (.ok i, t) => (.ok (resultOf env t.clock i.flags s values), t.recordCall (callOf env s.architecture
          ((env.assembler.assembling t.clock i.flags s.text s.address).answer { values }).2))
      | (.error e, t) => (.error e, t) := by
  rw [call, outcome_bind]
  rcases (instanceFor env s.architecture).outcome session with ⟨e | i, u⟩ <;> rfl

theorem unresolved_assembleWhole (h : ((assembleWhole env s).outcome session).1 = .ok p) (name : String) :
    name ∈ p.unresolved ↔ name ∈ (Piece.mk s session).asked env := by
  rw [assembleWhole, outcome_bind, outcome_call] at h
  rcases hopen : (instanceFor env s.architecture).outcome session with ⟨e | i, u⟩
  · simp [hopen] at h
  · simp only [hopen] at h
    cases hresult : resultOf env u.clock i.flags { s with text := prepare s.architecture s.text } [] with
    | error r =>
      rw [hresult] at h
      exact ((refused_never env s r _ _).of_outcome h).elim
    | ok assembled =>
      have hsymbols := symbols_resultOf hresult
      have hnodup : assembled.symbols.Nodup := by
        rw [hsymbols]
        exact Dialogue.nodup_symbols_answer _ List.nodup_nil
      rw [hresult] at h
      rw [((relocated_wellFormed env _ hnodup).of_outcome h).2 name, hsymbols, Dialogue.mem_symbols_answer]
      simp [Piece.asked, hopen]

/-- What holds of the end of a successful assembling of parts holds of its beginning, if it is carried back over each
part. -/
theorem assembleParts_induct {a : Architecture} {address : Int} {p' : Payload}
    {motive : List SpecialForm.Part → Payload → Session → Prop} (hnil : ∀ session, motive [] p' session)
    (hspecial : ∀ code rest p session, motive rest { p with code := p.code ++ code } session →
      motive (.special code :: rest) p session)
    (hordinary : ∀ text rest p q session u,
      (assembleWhole env ⟨text, a, address + p.code.length⟩).outcome session = (.ok q, u) →
        motive rest (p.append q) u → motive (.ordinary text :: rest) p session)
    {parts : List SpecialForm.Part} {p : Payload}
    (h : ((assembleParts env a address parts p).outcome session).1 = .ok p') : motive parts p session := by
  induction parts generalizing p session with
  | nil =>
    obtain rfl := Except.ok.inj h
    exact hnil session
  | cons part rest ih =>
    cases part with
    | special code => exact hspecial code rest p session (ih h)
    | ordinary text =>
      rw [assembleParts, outcome_bind] at h
      rcases hwhole : (assembleWhole env ⟨text, a, address + p.code.length⟩).outcome session with ⟨e | q, u⟩
      · simp [hwhole] at h
      · rw [hwhole] at h
        exact hordinary text rest p q session u hwhole (ih h)

section Parts

variable {a : Architecture} {address : Int} {parts : List SpecialForm.Part} {p' : Payload}
  (h : ((assembleParts env a address parts p).outcome session).1 = .ok p')
include h

theorem unresolved_assembleParts (name : String) : name ∈ p'.unresolved ↔
    name ∈ p.unresolved ∨ ∃ k ∈ piecesFrom env a address parts p.code.length session, name ∈ k.asked env := by
  refine assembleParts_induct (motive := fun parts p session => name ∈ p'.unresolved ↔ name ∈ p.unresolved ∨
    ∃ k ∈ piecesFrom env a address parts p.code.length session, name ∈ k.asked env) ?_ ?_ ?_ h
  · simp [piecesFrom]
  · intro code rest p session hrest
    rw [List.length_append] at hrest
    exact hrest
  · intro text rest p q session u hwhole hrest
    have hhere : ((assembleWhole env ⟨text, a, address + p.code.length⟩).outcome session).1 = .ok q := by rw [hwhole]
    rw [hrest, Payload.mem_unresolved_append, unresolved_assembleWhole hhere name, piecesFrom, Payload.append,
      List.length_append]
    simp only [hwhole, List.mem_cons, exists_eq_or_imp, or_assoc]

theorem text_piecesFrom : (piecesFrom env a address parts p.code.length session).map (·.source.text) =
    parts.filterMap SpecialForm.Part.text? := by
  refine assembleParts_induct (motive := fun parts p session =>
    (piecesFrom env a address parts p.code.length session).map (·.source.text) =
      parts.filterMap SpecialForm.Part.text?) ?_ ?_ ?_ h
  · exact fun _ => rfl
  · intro code rest p session hrest
    rw [List.length_append] at hrest
    exact hrest
  · intro text rest p q session u hwhole hrest
    rw [Payload.append, List.length_append] at hrest
    simp [piecesFrom, hwhole, hrest, SpecialForm.Part.text?]

end Parts

theorem unresolved_assemble (h : ((assemble env s).outcome session).1 = .ok p) (name : String) :
    name ∈ p.unresolved ↔ ∃ k ∈ pieces env s session, name ∈ k.asked env := by
  unfold assemble at h
  unfold pieces
  simp only at h ⊢
  split at h
  · rename_i hsplit
    rw [if_pos hsplit, unresolved_assembleParts h name]
    simp [Payload.unresolved]
  · rename_i hwhole
    rw [if_neg hwhole, unresolved_assembleWhole h name]
    simp

theorem text_pieces (h : ((assemble env s).outcome session).1 = .ok p) :
    (pieces env s session).map (·.source.text) = textsOf s := by
  unfold assemble at h
  unfold pieces textsOf
  simp only at h ⊢
  split at h
  · rename_i hsplit
    rw [if_pos hsplit, if_pos hsplit]
    exact text_piecesFrom h
  · rename_i hwhole
    rw [if_neg hwhole, if_neg hwhole]
    rfl

/-- Every payload is well formed and keeps its length when it is filled, and it waits for the symbols that the engine
asks for in the first requests for its pieces, for each once. -/
theorem assemble_wellFormed (h : ((assemble env s).outcome session).1 = .ok p) :
    p.WellFormed ∧ p.filled.length = p.code.length ∧ p.unresolved.Nodup ∧
      (pieces env s session).map (·.source.text) = textsOf s ∧
      ∀ name, name ∈ p.unresolved ↔ ∃ k ∈ pieces env s session, name ∈ k.asked env := by
  have hformed := (assemble_yields_wellFormed env s).of_outcome h
  exact ⟨hformed, hformed.length_filled, Payload.nodup_eraseDups _, text_pieces h, unresolved_assemble h⟩

/-- A jump back to a label, with a special form between the two. -/
def jumpBack : Source := ⟨"nop\ntop:\nmov rax, qword ptr fs:[0x28]\njmp top", .x86Long, 0⟩

def jumpEngine : AssemblerEngine where
  opening _ _ := none
  assembling _ _ text address :=
    if text = "nop\ntop:" then .reply { result := .ok (some [0x90]) }
    else if text = "jmp top" then
      .ask "top".toByteArray.toList fun v => .reply { result := .ok (some [0xeb, byteAt 0 (v.toNat - (address + 2))]) }
    else if text = "top:\njmp top" then .reply { result := .ok (some [0xeb, 0xfe]) }
    else .reply { result := .error ⟨"KsError", "unknown"⟩ }

def jumpConsole : Environment := ⟨jumpEngine, ⟨fun _ _ => none, fun _ _ _ _ => .ok []⟩, true⟩

def jumpPayload : Payload where
  code := [0x90, 0x64, 0x48, 0x8b, 0x04, 0x25, 0x28, 0x00, 0x00, 0x00, 0xeb, 0xf4]
  relocations := [⟨some 11, "top", 1, [0xf4]⟩]

theorem outcome_jumpBack : ((assemble jumpConsole jumpBack).outcome {}).1 = .ok jumpPayload := by
  decide +kernel

theorem assemble_wellFormed_jumpBack :
    ((assemble jumpConsole jumpBack).outcome {}).1 = .ok jumpPayload ∧ jumpPayload.WellFormed ∧
      jumpPayload.filled.length = 12 ∧ textsOf jumpBack = ["nop\ntop:", "jmp top"] ∧
      ∀ name, name ∈ ["top"] ↔ ∃ k ∈ pieces jumpConsole jumpBack {}, name ∈ k.asked jumpConsole := by
  obtain ⟨hformed, hlength, -, -, hasked⟩ := assemble_wellFormed outcome_jumpBack
  have htexts : textsOf jumpBack = ["nop\ntop:", "jmp top"] := by decide +kernel
  exact ⟨outcome_jumpBack, hformed, hlength, htexts, hasked⟩

end Assembler

end AssemblyConsole
