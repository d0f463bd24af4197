import AssemblyConsole.Assembler.Call
import AssemblyConsole.Disassembler.Decode
import AssemblyConsole.Proofs.Contract

/-!
Every instance that a session keeps open was opened with the flags of its architecture. Requests keep it so, and
it says what the engines are asked on a request in any session.
-/

namespace AssemblyConsole

open AssemblyConsole.Action

/-- An engine granted an instance for the architecture, with the architecture's own flags. -/
def Granted (n : Numbering) (opening : Nat → EngineFlags → Option Refusal) (i : EngineInstance) : Prop :=
  n.flags? i.architecture = some i.flags ∧ ∃ clock, opening clock i.flags = none

/-- The two ways in which no instance for the architecture comes about, and the errors that tell them. -/
def Unavailable {ε : Type} (n : Numbering) (opening : Nat → EngineFlags → Option Refusal) (a : Architecture)
    (unsupported : ε) (unopened : Refusal → ε) (e : ε) : Prop :=
  (e = unsupported ∧ n.flags? a = none) ∨
    ∃ flags r clock, n.flags? a = some flags ∧ opening clock flags = some r ∧ e = unopened r

theorem not_unavailable_of_opening {ε : Type} {n : Numbering} {opening : Nat → EngineFlags → Option Refusal} {a : Architecture}
    {unsupported : ε} {unopened : Refusal → ε} {flags : EngineFlags} (hflags : n.flags? a = some flags)
    (hopen : ∀ clock, opening clock flags = none) (e : ε) : ¬Unavailable n opening a unsupported unopened e := by
  rintro (⟨-, hnone⟩ | ⟨flags', r, clock, hflags', hrefused, -⟩)
  · rw [hflags] at hnone
    simp at hnone
  · obtain rfl := Option.some.inj (hflags.symm.trans hflags')
    rw [hopen] at hrefused
    simp at hrefused

structure Session.Sound (env : Environment) (s : Session) : Prop where
  assemblers : ∀ i ∈ s.assemblers, Granted .assembler env.assembler.opening i
  disassemblers : ∀ i ∈ s.disassemblers, Granted .disassembler env.disassembler.opening i

namespace Session

theorem sound_empty (env : Environment) : Sound env {} := by
  constructor <;> intro i hi <;> simp at hi

variable {env : Environment} {s : Session}

theorem Sound.record (h : s.Sound env) (e : Event) : (s.record e).Sound env := ⟨h.assemblers, h.disassemblers⟩

theorem Sound.recordCall (h : s.Sound env) (c : AssemblerCall) : (s.recordCall c).Sound env := by
  unfold Session.recordCall
  split
  · refine ⟨?_, h.disassemblers⟩
    intro i hi
    simp at hi
  · exact h.record _

theorem Sound.addAssembler (h : s.Sound env) {i : EngineInstance}
    (hi : Granted .assembler env.assembler.opening i) : (s.addAssembler i).Sound env := by
  refine ⟨?_, h.disassemblers⟩
  intro j hj
  rcases List.mem_append.mp hj with hj | hj
  · exact h.assemblers j hj
  · rwa [List.mem_singleton.mp hj]

theorem Sound.addDisassembler (h : s.Sound env) {i : EngineInstance}
    (hi : Granted .disassembler env.disassembler.opening i) : (s.addDisassembler i).Sound env := by
  refine ⟨h.assemblers, ?_⟩
  intro j hj
  rcases List.mem_append.mp hj with hj | hj
  · exact h.disassemblers j hj
  · rwa [List.mem_singleton.mp hj]

theorem warnings_record (s : Session) (e : Event) : (s.record e).warnings = s.warnings ++
    match e with
    | .assembling c => c.reply.warnings
    | _ => [] := by
  cases e <;> simp [warnings, calls, events, record]

theorem warnings_recordCall (s : Session) (c : AssemblerCall) :
    (s.recordCall c).warnings = s.warnings ++ c.reply.warnings := by
  rw [← warnings_record s (.assembling c), recordCall]
  split <;> rfl

def SoundWith (env : Environment) (w : List String) (s : Session) : Prop := s.Sound env ∧ s.warnings = w

variable {w : List String}

theorem SoundWith.opening (h : s.SoundWith env w) (side : Side) (a : Architecture) (f : EngineFlags)
    (r : Option Refusal) : (s.record (.opening side a f r)).SoundWith env w :=
  ⟨h.1.record _, by rw [warnings_record, List.append_nil, h.2]⟩

theorem SoundWith.decoding (h : s.SoundWith env w) (a : Architecture) : (s.record (.decoding a)).SoundWith env w :=
  ⟨h.1.record _, by rw [warnings_record, List.append_nil, h.2]⟩

theorem Sound.assembler? (h : s.Sound env) {a : Architecture} {i : EngineInstance} (hi : s.assembler? a = some i) :
    i.architecture = a ∧ Granted .assembler env.assembler.opening i :=
  ⟨by simpa using List.find?_some hi, h.assemblers i (List.mem_of_find?_eq_some hi)⟩

theorem Sound.disassembler? (h : s.Sound env) {a : Architecture} {i : EngineInstance}
    (hi : s.disassembler? a = some i) : i.architecture = a ∧ Granted .disassembler env.disassembler.opening i :=
  ⟨by simpa using List.find?_some hi, h.disassemblers i (List.mem_of_find?_eq_some hi)⟩

end Session

/-- The instance that there is, or else one opened now: what the two engines have in common. -/
def instanceOr {ε : Type} (present? : Session → Option EngineInstance) (side : Side) (n : Numbering)
    (opening : Nat → EngineFlags → Option Refusal) (a : Architecture) (add : EngineInstance → Session → Session)
    (unsupported : ε) (unopened : Refusal → ε) : Action Session ε EngineInstance := do
  match present? (← get) with
  | some i => return i
  | none =>
    match n.flags? a with
    | none => throw unsupported
    | some flags =>
      let refusal := opening (← get).clock flags
      modify (·.record (.opening side a flags refusal))
      match refusal with
      | some r => throw (unopened r)
      | none =>
        let i : EngineInstance := ⟨a, flags⟩
        modify (add i)
        return i

variable (env : Environment) (a : Architecture) (w : List String)

theorem instanceOr_meets {ε : Type} {present? : Session → Option EngineInstance} {side : Side} {n : Numbering}
    {opening : Nat → EngineFlags → Option Refusal} {add : EngineInstance → Session → Session} {unsupported : ε}
    {unopened : Refusal → ε}
    (hpresent : ∀ s i, s.SoundWith env w → present? s = some i → i.architecture = a ∧ Granted n opening i)
    (hadd : ∀ s i, s.SoundWith env w → Granted n opening i → (add i s).SoundWith env w) :
    Meets (Session.SoundWith env w) (instanceOr present? side n opening a add unsupported unopened)
      (fun i => i.architecture = a ∧ Granted n opening i) (Unavailable n opening a unsupported unopened) := by
  refine meets_get.bind ?_
  intro s hs
  split
  · rename_i i hi
    exact meets_pure (hpresent s i hs hi)
  · split
    · rename_i hf
      exact meets_throw (.inl ⟨rfl, hf⟩)
    · rename_i flags hf
      refine meets_get.bind ?_
      intro t ht
      refine (meets_modify fun u hu => hu.opening _ _ _ _).bind ?_
      intro _ _
      split
      · rename_i r hr
        exact meets_throw (.inr ⟨flags, r, t.clock, hf, hr, rfl⟩)
      · rename_i hr
        have hi : Granted n opening ⟨a, flags⟩ := ⟨hf, t.clock, hr⟩
        refine (meets_modify fun u hu => hadd u _ hu hi).bind ?_
        intro _ _
        exact meets_pure ⟨rfl, hi⟩

namespace Assembler

abbrev Unavailable : EncodeError → Prop :=
  AssemblyConsole.Unavailable .assembler env.assembler.opening a (.unsupported a) (.unopened a)

theorem instanceFor_eq : instanceFor env a = instanceOr (·.assembler? a) .assembler .assembler env.assembler.opening a
    (fun i s => s.addAssembler i) (.unsupported a) (.unopened a) := rfl

theorem instanceFor_meets : Meets (Session.SoundWith env w) (instanceFor env a)
    (fun i => i.architecture = a ∧ Granted .assembler env.assembler.opening i) (Unavailable env a) := by
  rw [instanceFor_eq]
  apply instanceOr_meets
  · exact fun s i hs hi => hs.1.assembler? hi
  · exact fun s i hs hi => ⟨hs.1.addAssembler hi, hs.2⟩

def resultOf (clock : Nat) (flags : EngineFlags) (s : Source) (values : List (String × Int)) :
    Except Refusal Assembled :=
  let (recorder, reply) := (env.assembler.assembling clock flags s.text s.address).answer { values }
  reply.result.map fun code => ⟨code.getD [], recorder.symbols⟩

theorem call_meets (s : Source) (values : List (String × Int)) :
    Meets (Session.Sound env) (call env s values)
      (fun r => ∃ clock flags, Granted .assembler env.assembler.opening ⟨s.architecture, flags⟩ ∧
        r = resultOf env clock flags s values)
      (Unavailable env s.architecture) := by
  refine (Meets.ofView fun w => instanceFor_meets env s.architecture w).bind ?_
  rintro ⟨_, flags⟩ ⟨rfl, hi⟩
  refine meets_get.bind ?_
  intro t _
  refine (meets_modify fun u hu => hu.recordCall _).bind ?_
  intro _ _
  exact meets_pure ⟨t.clock, flags, hi, rfl⟩

end Assembler

namespace Disassembler

abbrev Unavailable : DecodeError → Prop :=
  AssemblyConsole.Unavailable .disassembler env.disassembler.opening a (.unsupported a) (.unopened a)

theorem instanceFor_eq : instanceFor env a = instanceOr (·.disassembler? a) .disassembler .disassembler
    env.disassembler.opening a (fun i s => s.addDisassembler i) (.unsupported a) (.unopened a) := rfl

theorem instanceFor_meets : Meets (Session.SoundWith env w) (instanceFor env a)
    (fun i => i.architecture = a ∧ Granted .disassembler env.disassembler.opening i) (Unavailable env a) := by
  rw [instanceFor_eq]
  apply instanceOr_meets
  · exact fun s i hs hi => hs.1.disassembler? hi
  · exact fun s i hs hi => ⟨hs.1.addDisassembler hi, hs.2⟩

theorem decode_meets (address : Int) (bytes : Bytes) :
    Meets (Session.SoundWith env w) (decode env a address bytes)
      (fun ds => ∃ clock flags raws, Granted .disassembler env.disassembler.opening ⟨a, flags⟩ ∧
        env.disassembler.decoding clock flags bytes address = .ok raws ∧ ds = raws.map (Decoded.ofRaw a.set))
      (fun e => Unavailable env a e ∨ ∃ clock flags r, Granted .disassembler env.disassembler.opening ⟨a, flags⟩ ∧
        env.disassembler.decoding clock flags bytes address = .error r ∧ e = .refused r) := by
  refine ((instanceFor_meets env a w).mono (fun _ h => h) fun _ h => .inl h).bind ?_
  rintro ⟨_, flags⟩ ⟨rfl, hi⟩
  refine meets_get.bind ?_
  intro t _
  refine (meets_modify fun u hu => hu.decoding _).bind ?_
  intro _ _
  split
  · rename_i r hr
    exact meets_throw (.inr ⟨t.clock, flags, r, hi, hr, rfl⟩)
  · rename_i raws hr
    exact meets_pure ⟨t.clock, flags, raws, hi, hr, rfl⟩

end Disassembler

end AssemblyConsole
