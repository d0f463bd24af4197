import AssemblyConsole.Assembler.Placement
import AssemblyConsole.Proofs.FieldLayout
import AssemblyConsole.Proofs.SessionSound

/-!
Assemblers that put the addresses of symbols into the slots of a layout, and what requests to them come to.
-/

namespace AssemblyConsole

open AssemblyConsole.Action

theorem Recorder.valueOf_note (r : Recorder) (name : String) : (r.note name).valueOf = r.valueOf := by
  unfold note
  split <;> rfl

namespace Dialogue

def replyTo (value : String → UInt64) : Dialogue → Reply
  | .ask symbol resume => (resume (value (Recorder.nameOf symbol))).replyTo value
  | .reply r => r

theorem reply_answer (d : Dialogue) (r : Recorder) : (d.answer r).2 = d.replyTo r.valueOf := by
  induction d generalizing r with
  | ask symbol resume ih =>
    rw [answer, ih, replyTo]
    simp only [Recorder.answer, Recorder.valueOf_note]
  | reply x => rfl

end Dialogue

def AssemblerEngine.code (e : AssemblerEngine) (clock : Nat) (flags : EngineFlags) (text : String) (address : Int)
    (value : String → UInt64) : Except Refusal Bytes :=
  ((e.assembling clock flags text address).replyTo value).result.map (·.getD [])

/-- The code of a layout's length in which the symbol's slots hold its address exactly. -/
structure Layout.Labels (L : Layout) (symbol : String) (address : Int) (code : Bytes) : Prop where
  length : code.length = L.template.length
  shows : ∀ f ∈ L.slots, f.symbol = symbol → f.field.bytes code = word L.order f.field.size (address + f.constant)

/-- The engine opens, and the code of a text is the image of a layout. A symbol that is given a value is at the value
and the slot's displacement; one that is a label is at the label. The label stands in front of the text, or else a
gap before it. -/
structure AssemblerEngine.Follows (e : AssemblerEngine) (flags : EngineFlags) (text : String) (address : Int)
    (L : Layout) : Prop where
  opens : ∀ clock, e.opening clock flags = none
  symbols : ∀ clock, ((e.assembling clock flags text address).answer {}).1.symbols = L.symbols
  values : ∀ clock value, e.code clock flags text address value =
    .ok (L.image fun f => (value f.symbol).toNat + f.displacement)
  labels : ∀ f ∈ L.slots,
    (∀ clock, ∃ code, e.code clock flags (Assembler.labelLine f.symbol text) address (fun _ => 0) = .ok code ∧
      L.Labels f.symbol address code) ∨
    (∀ clock code, e.code clock flags (Assembler.labelLine f.symbol text) address (fun _ => 0) = .ok code →
      code.length ≠ L.template.length) ∧ (Assembler.gap : Int) ≤ address ∧
    ∀ clock, ∃ before code, e.code clock flags (Assembler.paddedLabelLine f.symbol text) (address - Assembler.gap)
      (fun _ => 0) = .ok (before ++ code) ∧ before.length = Assembler.gap ∧
      L.Labels f.symbol (address - Assembler.gap) code

namespace Layout

def valued (L : Layout) (symbol : String) (v : Int) : Bytes :=
  L.image fun f => (if f.symbol = symbol then v else 0) + f.displacement

def initial (L : Layout) : Bytes := L.image fun f => f.displacement

def slotsOf (L : Layout) (symbol : String) : List Slot := L.slots.filter (·.symbol = symbol)

theorem mem_slotsOf {L : Layout} {symbol : String} {f : Slot} :
    f ∈ L.slotsOf symbol ↔ f ∈ L.slots ∧ f.symbol = symbol := by
  simp [slotsOf]

theorem bytes_valued {L : Layout} {symbol : String} {f : Slot} (hf : f ∈ L.slotsOf symbol) (v : Int) :
    f.field.bytes (L.valued symbol v) = word L.order f.field.size (v + f.displacement + f.constant) := by
  obtain ⟨hf, hs⟩ := mem_slotsOf.mp hf
  rw [valued, bytes_image hf, if_pos hs]

end Layout

theorem toNat_word (v : Int) : ((Recorder.word v).toNat : Int) = v % 2 ^ 64 := by
  simp only [Recorder.word, UInt64.toNat_ofNat']
  omega

namespace Assembler

variable {env : Environment} {s : Source} {flags : EngineFlags} {L : Layout}

theorem resultOf_eq (env : Environment) (clock : Nat) (flags : EngineFlags) (s : Source)
    (values : List (String × Int)) : resultOf env clock flags s values =
      (env.assembler.code clock flags s.text s.address ({ values } : Recorder).valueOf).map fun code =>
        ⟨code, ((env.assembler.assembling clock flags s.text s.address).answer { values }).1.symbols⟩ := by
  simp only [resultOf, AssemblerEngine.code, Dialogue.reply_answer]
  cases (((env.assembler.assembling clock flags s.text s.address).replyTo
    ({ values } : Recorder).valueOf).result) <;> rfl

section Requests

variable (hflags : Numbering.assembler.flags? s.architecture = some flags)
include hflags

theorem call_of_flags (values : List (String × Int)) : Meets (Session.Sound env) (call env s values)
    (fun r => ∃ clock, r = resultOf env clock flags s values) (Unavailable env s.architecture) := by
  apply (call_meets env s values).mono
  · rintro r ⟨clock, flags', hgranted, rfl⟩
    obtain rfl := Option.some.inj (hgranted.1.symm.trans hflags)
    exact ⟨clock, rfl⟩
  · exact fun _ he => he

theorem probe_of_flags (values : List (String × Int)) : Meets (Session.Sound env) (probe env s values)
    (fun c => ∃ clock, c = (env.assembler.code clock flags s.text s.address
      ({ values } : Recorder).valueOf).toOption) (Unavailable env s.architecture) := by
  refine (call_of_flags hflags values).bind ?_
  rintro r ⟨clock, rfl⟩
  refine meets_pure ⟨clock, ?_⟩
  rw [resultOf_eq]
  cases env.assembler.code clock flags s.text s.address ({ values } : Recorder).valueOf <;> rfl

variable (hopens : ∀ clock, env.assembler.opening clock flags = none)
include hopens

theorem call_granted (values : List (String × Int)) : Meets (Session.Sound env) (call env s values)
    (fun r => ∃ clock, r = resultOf env clock flags s values) fun _ => False :=
  (call_of_flags hflags values).mono (fun _ h => h) (not_unavailable_of_opening hflags hopens)

theorem probe_granted (values : List (String × Int)) : Meets (Session.Sound env) (probe env s values)
    (fun c => ∃ clock, c = (env.assembler.code clock flags s.text s.address
      ({ values } : Recorder).valueOf).toOption) fun _ => False :=
  (probe_of_flags hflags values).mono (fun _ h => h) (not_unavailable_of_opening hflags hopens)

end Requests

theorem valueOf_nil : ({ values := [] } : Recorder).valueOf = fun _ => 0 := by
  funext name
  rfl

theorem toNat_valueOf_single (symbol name : String) (v : Int) :
    ((({ values := [(symbol, v)] } : Recorder).valueOf name).toNat : Int) =
      (if name = symbol then v else 0) % 2 ^ 64 := by
  rw [Recorder.valueOf, toNat_word]
  by_cases h : name = symbol
  · simp [h]
  · simp [h, List.lookup_cons, beq_eq_false_iff_ne.mpr h, Relocation.placeholderAddress]

theorem trial_follows (hflags : Numbering.assembler.flags? s.architecture = some flags)
    (h : env.assembler.Follows flags s.text s.address L) (symbol : String) (v : Int) :
    Meets (Session.Sound env) (trial env s symbol L.template.length v) (· = some (L.valued symbol v))
      fun _ => False := by
  refine (probe_granted hflags h.opens _).bind ?_
  rintro c ⟨clock, rfl⟩
  have hcode : env.assembler.code clock flags s.text s.address
      ({ values := [(symbol, v)] } : Recorder).valueOf = .ok (L.valued symbol v) := by
    rw [h.values, Layout.valued]
    congr 1
    apply Layout.image_congr
    intro f hf
    -- the engine sees the value modulo `2 ^ 64`, and no slot is wider
    apply word_congr (L.sized f hf).2
    rw [toNat_valueOf_single]
    omega
  refine meets_pure ?_
  rw [hcode]
  simp [Except.toOption, Layout.valued, Layout.length_image]

end Assembler

end AssemblyConsole
