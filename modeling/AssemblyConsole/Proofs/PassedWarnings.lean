import AssemblyConsole.Codec
import AssemblyConsole.Proofs.SessionSteps
import AssemblyConsole.Proofs.ShellRuns

/-!
The warnings of the assembler that come out of the shell. A line that is encoded may take many requests, each with
warnings of its own; they are passed on together with the bytes, and an error is shown alone.
-/

namespace AssemblyConsole

def Advisory.warning? : Advisory → Option String
  | .engine m => some m
  | .unresolved _ => none

namespace Session

variable {env : Environment} {s t : Session}

/-- The call is a finished request to the engine. -/
inductive Answered (env : Environment) : AssemblerCall → Prop
  | intro (clock : Nat) (flags : EngineFlags) (source : Source) (values : List (String × Int)) :
      Answered env (Assembler.callOf env source.architecture
        ((env.assembler.assembling clock flags source.text source.address).answer { values }).2)

theorem calls_record (s : Session) (e : Event) : (s.record e).calls = s.calls ++
    match e with
    | .assembling c => [c]
    | _ => [] := by
  cases e <;> simp [calls, events, record]

theorem calls_recordCall (s : Session) (c : AssemblerCall) : (s.recordCall c).calls = s.calls ++ [c] := by
  rw [← calls_record s (.assembling c), recordCall]
  split <;> rfl

theorem calls_add (s : Session) (side : Side) (i : EngineInstance) : (s.add side i).calls = s.calls := by
  cases side <;> rfl

theorem Step.calls (h : Step env s t) : ∃ made, t.calls = s.calls ++ made ∧ ∀ c ∈ made, Answered env c := by
  cases h with
  | refused => exact ⟨[], calls_record _ _, by simp⟩
  | opened => exact ⟨[], by rw [calls_add, calls_record], by simp⟩
  | called source hi values =>
    refine ⟨_, calls_recordCall _ _, ?_⟩
    exact List.forall_mem_singleton.mpr (.intro _ _ source values)
  | decoded => exact ⟨[], calls_record _ _, by simp⟩

theorem Leads.calls (h : Leads env s t) : ∃ made, t.calls = s.calls ++ made ∧ ∀ c ∈ made, Answered env c := by
  induction h with
  | refl => exact ⟨[], by simp, by simp⟩
  | tail _ hstep ih =>
    obtain ⟨made, hmade, hanswered⟩ := ih
    obtain ⟨next, hnext, hnexts⟩ := hstep.calls
    refine ⟨made ++ next, by rw [hnext, hmade, List.append_assoc], ?_⟩
    intro c hc
    rcases List.mem_append.mp hc with hc | hc
    · exact hanswered c hc
    · exact hnexts c hc

theorem warnings_of_calls {made : List AssemblerCall} (h : t.calls = s.calls ++ made) :
    t.warnings = s.warnings ++ made.flatMap (·.reply.warnings) := by
  rw [warnings, h, List.flatMap_append]
  rfl

end Session

theorem Codec.encode_warnings (env : Environment) (text : String) (c : Codec) : ∃ made,
    (c.encode env text).2.session.calls = c.session.calls ++ made ∧ (∀ call ∈ made, Session.Answered env call) ∧
      (c.encode env text).1.advisories.filterMap Advisory.warning? = made.flatMap (·.reply.warnings) := by
  have hengine (ms : List String) : (ms.map Advisory.engine).filterMap Advisory.warning? = ms := by
    rw [List.filterMap_map]
    exact List.filterMap_some
  have hsymbols (p : Payload) : (advisory? p).toList.filterMap Advisory.warning? = [] := by
    unfold advisory?
    split <;> rfl
  have hleads := moves_iff.mp (Assembler.assemble_moves env ⟨text, c.target.architecture, 0⟩) c.session
  obtain ⟨made, hmade, hanswered⟩ := hleads.calls
  have hwarnings := Session.warnings_of_calls hmade
  refine ⟨made, ?_⟩
  rw [encode, payload, perform]
  rcases hout : (Assembler.assemble env ⟨text, c.target.architecture, 0⟩).outcome c.session with ⟨e | p, t⟩
  · rw [hout] at hmade hwarnings
    refine ⟨hmade, hanswered, ?_⟩
    simp only [hwarnings, List.drop_left, hengine]
  · rw [hout] at hmade hwarnings
    refine ⟨hmade, hanswered, ?_⟩
    simp only [hwarnings, List.drop_left, List.filterMap_append, hengine, hsymbols, List.append_nil]

namespace Shell

theorem warnings_ofEncoding (code : Bytes) (advisories : List Advisory) :
    (Response.ofEncoding ⟨.ok code, advisories⟩).warnings = advisories.filterMap Advisory.warning? := rfl

theorem handle_of_encodes {σ : Type} (encode : String → σ → Encoding × σ) {s : String} (hs : Encodes s) (state : σ) :
    handle encode s state = (.ofEncoding (encode (textOf s) state).1, (encode (textOf s) state).2) := by
  unfold handle
  simp only [ofLine_eq, if_neg hs.noHelp, if_neg hs.stays, if_neg hs.notBlank]

/-- The warnings raised by the requests for a line are passed on, in their order and each once, if the line is encoded;
and if it is not, none is passed on. -/
theorem handle_warnings (env : Environment) (c : Codec) {s : String} (hs : Encodes s) : ∃ made,
    (handle (Codec.encode env) s c).2.session.calls = c.session.calls ++ made ∧
      (∀ call ∈ made, Session.Answered env call) ∧
      (∀ code, (c.encode env (textOf s)).1.code = .ok code →
        (handle (Codec.encode env) s c).1.warnings = made.flatMap (·.reply.warnings)) ∧
      (∀ e, (c.encode env (textOf s)).1.code = .error e → (handle (Codec.encode env) s c).1.warnings = []) ∧
      ((handle (Codec.encode env) s c).1.warnings = made.flatMap (·.reply.warnings) ↔
        (∃ code, (c.encode env (textOf s)).1.code = .ok code) ∨ ∀ call ∈ made, call.reply.warnings = []) := by
  obtain ⟨made, hmade, hanswered, hwarnings⟩ := Codec.encode_warnings env (textOf s) c
  rw [handle_of_encodes _ hs]
  refine ⟨made, hmade, hanswered, ?_⟩
  rcases hencoding : (c.encode env (textOf s)).1 with ⟨e | code, advisories⟩
  · have hnone : ([] : List String) = made.flatMap (·.reply.warnings) ↔ ∀ call ∈ made, call.reply.warnings = [] := by
      rw [eq_comm, List.flatMap_eq_nil_iff]
    refine ⟨by simp, fun _ _ => rfl, ?_⟩
    apply hnone.trans
    simp
  · rw [hencoding] at hwarnings
    have hall : (Response.ofEncoding ⟨.ok code, advisories⟩).warnings = made.flatMap (·.reply.warnings) := by
      rw [warnings_ofEncoding, hwarnings]
    exact ⟨fun _ _ => hall, by simp, iff_of_true hall (.inl ⟨code, rfl⟩)⟩

/-- Warns of every text, and assembles a single instruction only. -/
def warningEngine : AssemblerEngine where
  opening _ _ := none
  assembling _ _ text _ := .reply {
    warnings := ["odd mnemonic"]
    result := if text = "nop" then .ok (some [0x90]) else .error ⟨"KsError", "Invalid mnemonic"⟩ }

def warningConsole : Environment := ⟨warningEngine, ⟨fun _ _ => none, fun _ _ _ _ => .ok []⟩, true⟩

theorem encodes_halt : Encodes "hcf" where
  noHelp := by decide +kernel
  stays := by decide +kernel
  notBlank h := absurd (h 'h' (by decide)) (by decide)

/-- The text is refused, and then its only statement. -/
theorem warnings_halt :
    (handle (Codec.encode warningConsole) "hcf" {}).2.session.warnings = ["odd mnemonic", "odd mnemonic"] := by
  decide +kernel

theorem handle_warnings_halt :
    Encodes "hcf" ∧ Encodes "nop" ∧
      (∃ made, (handle (Codec.encode warningConsole) "hcf" {}).2.session.calls = made ∧
        made.flatMap (·.reply.warnings) = ["odd mnemonic", "odd mnemonic"] ∧
        (handle (Codec.encode warningConsole) "hcf" {}).1.warnings = []) ∧
      ∃ made, (handle (Codec.encode warningConsole) "nop" {}).2.session.calls = made ∧
        made.flatMap (·.reply.warnings) = ["odd mnemonic"] ∧
        (handle (Codec.encode warningConsole) "nop" {}).1.warnings = ["odd mnemonic"] := by
  have hnop : Encodes "nop" := ⟨by decide +kernel, by decide +kernel, fun h => absurd (h 'n' (by decide)) (by decide)⟩
  have hcode : (({} : Codec).encode warningConsole (textOf "nop")).1.code = .ok [0x90] := by decide +kernel
  have herror : (({} : Codec).encode warningConsole (textOf "hcf")).1.code =
      .error (.refused ⟨"KsError", "Invalid mnemonic"⟩ (some ⟨"hcf", 0⟩)) := by
    decide +kernel
  have hraised : (handle (Codec.encode warningConsole) "nop" {}).2.session.warnings = ["odd mnemonic"] := by
    decide +kernel
  obtain ⟨made, hmade, -, -, hlost, -⟩ := handle_warnings warningConsole {} encodes_halt
  obtain ⟨made', hmade', -, hpassed, -, -⟩ := handle_warnings warningConsole {} hnop
  have hwarnings := (Session.warnings_of_calls hmade).symm.trans warnings_halt
  have hwarnings' := (Session.warnings_of_calls hmade').symm.trans hraised
  exact ⟨encodes_halt, hnop, ⟨made, hmade, hwarnings, hlost _ herror⟩,
    made', hmade', hwarnings', (hpassed _ hcode).trans hwarnings'⟩

/-- Two requests for a line raise a warning each, and none is passed on. -/
theorem warnings_lost_halt :
    ¬∀ (env : Environment) (c : Codec) (s : String) (made : List AssemblerCall), Encodes s →
      (handle (Codec.encode env) s c).2.session.calls = c.session.calls ++ made →
        (handle (Codec.encode env) s c).1.warnings = made.flatMap (·.reply.warnings) := by
  intro hall
  have hlost : (handle (Codec.encode warningConsole) "hcf" {}).1.warnings = [] := by decide +kernel
  have hsame := hall warningConsole {} "hcf" _ encodes_halt (List.nil_append _).symm
  exact absurd (hlost.symm.trans (hsame.trans warnings_halt)) (by decide)

end Shell

end AssemblyConsole
