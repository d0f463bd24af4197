import AssemblyConsole.Proofs.Requests
import AssemblyConsole.Proofs.SessionSound
import AssemblyConsole.Proofs.Traversal
import Mathlib.Logic.Relation

/-!
What a session goes through: an instance is opened or refused where there is none, and requests and decodings are made
through an instance that there is. Every request moves the session by such steps only.
-/

namespace AssemblyConsole

open AssemblyConsole.Action

def Side.numbering : Side → Numbering
  | .assembler => .assembler
  | .disassembler => .disassembler

def Environment.opening (env : Environment) : Side → Nat → EngineFlags → Option Refusal
  | .assembler => env.assembler.opening
  | .disassembler => env.disassembler.opening

namespace Session

def instance? (s : Session) : Side → Architecture → Option EngineInstance
  | .assembler => s.assembler?
  | .disassembler => s.disassembler?

def add (s : Session) : Side → EngineInstance → Session
  | .assembler => s.addAssembler
  | .disassembler => s.addDisassembler

inductive Step (env : Environment) (s : Session) : Session → Prop
  | refused {side a flags r} (hnone : s.instance? side a = none) (hflags : side.numbering.flags? a = some flags)
      (hr : env.opening side s.clock flags = some r) : Step env s (s.record (.opening side a flags (some r)))
  | opened {side a flags} (hnone : s.instance? side a = none) (hflags : side.numbering.flags? a = some flags)
      (hr : env.opening side s.clock flags = none) :
      Step env s ((s.record (.opening side a flags none)).add side ⟨a, flags⟩)
  | called {i} (source : Source) (hi : s.assembler? source.architecture = some i) (values : List (String × Int)) :
      Step env s (s.recordCall (Assembler.callOf env source.architecture
        ((env.assembler.assembling s.clock i.flags source.text source.address).answer { values }).2))
  | decoded {a i} (hi : s.disassembler? a = some i) : Step env s (s.record (.decoding a))

abbrev Leads (env : Environment) : Session → Session → Prop := Relation.ReflTransGen (Step env)

/-- The session after some requests, each of them perhaps failing. -/
inductive Reached (env : Environment) : Session → Prop
  | start : Reached env {}
  | assembled {s} (h : Reached env s) (source : Source) : Reached env ((Assembler.assemble env source).outcome s).2
  | decoded {s} (h : Reached env s) (a : Architecture) (address : Int) (bytes : Bytes) :
      Reached env ((Disassembler.decode env a address bytes).outcome s).2
  | graphed {s} (h : Reached env s) (a : Architecture) (b : Buffer) (entry : Int) :
      Reached env ((Disassembler.graph env a b entry).outcome s).2

theorem instance?_add {s : Session} {side : Side} {i : EngineInstance} (h : s.instance? side i.architecture = none) :
    (s.add side i).instance? side i.architecture = some i := by
  cases side with
  | assembler =>
    change (s.assemblers ++ [i]).find? _ = _
    rw [List.find?_append, show s.assemblers.find? _ = none from h]
    simp
  | disassembler =>
    change (s.disassemblers ++ [i]).find? _ = _
    rw [List.find?_append, show s.disassemblers.find? _ = none from h]
    simp

end Session

variable {env : Environment} {ε α β : Type}

/-- The action moves a session by steps only. -/
def Moves (env : Environment) (x : Action Session ε α) : Prop :=
  ∀ t, Meets (Session.Leads env t) x (fun _ => True) fun _ => True

theorem moves_iff {x : Action Session ε α} : Moves env x ↔ ∀ s, Session.Leads env s (x.outcome s).2 := by
  constructor
  · intro h s
    exact (h s s .refl).1
  · intro h t s hs
    exact ⟨hs.trans (h s), fun _ _ => trivial, fun _ _ => trivial⟩

theorem moves_pure (r : α) : Moves env (pure r : Action Session ε α) := fun _ => meets_pure trivial

theorem moves_throw (e : ε) : Moves env (throw e : Action Session ε α) := fun _ => meets_throw trivial

theorem Moves.bind {x : Action Session ε α} {f : α → Action Session ε β} (hx : Moves env x)
    (hf : ∀ r, Moves env (f r)) : Moves env (x >>= f) := fun t => (hx t).bind fun r _ => hf r t

/-- The instance asked for is there afterwards. -/
theorem instanceOr_leads (env : Environment) (side : Side) (a : Architecture) (unsupported : ε)
    (unopened : Refusal → ε) (s : Session) :
    let x := instanceOr (·.instance? side a) side side.numbering (env.opening side) a (fun i s => s.add side i)
      unsupported unopened
    Session.Leads env s (x.outcome s).2 ∧
      ∀ i, (x.outcome s).1 = .ok i → (x.outcome s).2.instance? side a = some i := by
  intro x
  simp only [x, instanceOr, outcome_bind, outcome_get]
  cases hi : s.instance? side a with
  | some i =>
    refine ⟨.refl, ?_⟩
    intro j hj
    obtain rfl := Except.ok.inj hj
    exact hi
  | none =>
    cases hflags : side.numbering.flags? a with
    | none => exact ⟨.refl, by simp⟩
    | some flags =>
      cases hr : env.opening side s.clock flags with
      | some r =>
        simp only [outcome_bind, outcome_get, outcome_modify, hr]
        exact ⟨.single (.refused hi hflags hr), by simp⟩
      | none =>
        simp only [outcome_bind, outcome_get, outcome_modify, hr]
        refine ⟨.single (.opened hi hflags hr), ?_⟩
        intro j hj
        obtain rfl := Except.ok.inj hj
        exact Session.instance?_add hi

namespace Assembler

theorem instanceFor_leads (env : Environment) (a : Architecture) (s : Session) :
    Session.Leads env s ((instanceFor env a).outcome s).2 ∧
      ∀ i, ((instanceFor env a).outcome s).1 = .ok i → ((instanceFor env a).outcome s).2.assembler? a = some i :=
  instanceOr_leads env .assembler a (EncodeError.unsupported a) (EncodeError.unopened a) s

theorem call_moves (env : Environment) (s : Source) (values : List (String × Int)) : Moves env (call env s values) := by
  rw [moves_iff]
  intro session
  obtain ⟨hleads, hpresent⟩ := instanceFor_leads env s.architecture session
  rw [call, outcome_bind]
  rcases hout : (instanceFor env s.architecture).outcome session with ⟨e | i, t⟩
  · rw [hout] at hleads
    exact hleads
  · rw [hout] at hleads hpresent
    exact hleads.tail (.called s (hpresent i rfl) values)

theorem moves_compositional (env : Environment) (a : Architecture) :
    Compositional env env a fun _ x _ => Moves env x where
  pure := moves_pure
  bind := Moves.bind
  call s values _ := call_moves env s values

theorem assemble_moves (env : Environment) (s : Source) : Moves env (assemble env s) :=
  (moves_compositional env s.architecture).assemble s rfl moves_throw

end Assembler

namespace Disassembler

theorem instanceFor_leads (env : Environment) (a : Architecture) (s : Session) :
    Session.Leads env s ((instanceFor env a).outcome s).2 ∧
      ∀ i, ((instanceFor env a).outcome s).1 = .ok i → ((instanceFor env a).outcome s).2.disassembler? a = some i :=
  instanceOr_leads env .disassembler a (DecodeError.unsupported a) (DecodeError.unopened a) s

theorem decode_moves (env : Environment) (a : Architecture) (address : Int) (bytes : Bytes) :
    Moves env (decode env a address bytes) := by
  rw [moves_iff]
  intro session
  obtain ⟨hleads, hpresent⟩ := instanceFor_leads env a session
  rw [decode, outcome_bind]
  rcases hout : (instanceFor env a).outcome session with ⟨e | i, t⟩
  · rw [hout] at hleads
    exact hleads
  · rw [hout] at hleads hpresent
    have hstep : Session.Step env t (t.record (.decoding a)) := .decoded (hpresent i rfl)
    simp only [outcome_bind, outcome_get, outcome_modify]
    cases env.disassembler.decoding t.clock i.flags bytes address with
    | error r => exact hleads.tail hstep
    | ok raws => exact hleads.tail hstep

theorem follow_moves (env : Environment) (a : Architecture) {b : Buffer} (queue : List { c : Int // b.Holds c })
    (g : Graph) : Moves env (Graph.follow (decode env a) a b queue g) := by
  intro t
  apply (follow_ends (fun c _ => decode_moves env a c (b.bytesFrom c) t) queue g).mono
  · exact fun _ _ => trivial
  · exact fun _ _ => trivial

theorem graph_moves (env : Environment) (a : Architecture) (b : Buffer) (entry : Int) :
    Moves env (graph env a b entry) := by
  by_cases he : b.Holds entry
  · rw [graph, explore_of_holds he]
    exact follow_moves env a _ _
  · rw [graph, Graph.explore, dif_neg he]
    split
    · exact moves_pure _
    · exact moves_throw _

end Disassembler

theorem Session.Reached.leads {s : Session} (h : Reached env s) : Leads env {} s := by
  induction h with
  | start => exact .refl
  | assembled _ source ih => exact ih.trans (moves_iff.mp (Assembler.assemble_moves env source) _)
  | decoded _ a address bytes ih => exact ih.trans (moves_iff.mp (Disassembler.decode_moves env a address bytes) _)
  | graphed _ a b entry ih => exact ih.trans (moves_iff.mp (Disassembler.graph_moves env a b entry) _)

end AssemblyConsole
