import AssemblyConsole.Architecture.Names
import AssemblyConsole.Proofs.ChangedBytes

/-!
All bytes that depend on a symbol are found if the engine grants some pair of sentinels whose values reach every field.
If it grants no pair, none is found.
-/

namespace AssemblyConsole

namespace Assembler

variable {code : Rendering} {base : Bytes} {symbol : String} {pair : Int × Int} {pairs : List (Int × Int)}
  {env : Environment} {s : Source} {flags : EngineFlags}

/-- The values of the pair reach every byte of the slot: the slot is no wider than they are, or one of them brings its
number to the other side of zero. -/
def Reaches (pair : Int × Int) (f : Slot) : Prop :=
  256 ^ (f.field.size - 1) ≤ pair.1 ∨ -pair.1 ≤ f.displacement + f.constant ∧ f.displacement + f.constant < -pair.2

theorem Reaches.mono {q : Int × Int} {f : Slot} (h : Reaches q f) (hwider : q.1 ≤ pair.1 ∧ pair.2 ≤ q.2) :
    Reaches pair f := by
  unfold Reaches at h ⊢
  omega

theorem sentinels_widest_first : sentinels.Pairwise fun p q => q.1 ≤ p.1 ∧ p.2 ≤ q.2 := by decide

theorem tellsFirst_of_tells {q : Int × Int} (hq : q ∈ pairs) (htells : Tells code base symbol q)
    (hpairs : pairs.Pairwise fun p q => q.1 ≤ p.1 ∧ p.2 ≤ q.2) :
    ∃ pair, TellsFirst code base symbol pairs pair ∧ q.1 ≤ pair.1 ∧ pair.2 ≤ q.2 := by
  induction pairs with
  | nil => simp at hq
  | cons p rest ih =>
    obtain ⟨hwider, hrest⟩ := List.pairwise_cons.mp hpairs
    by_cases hp : Tells code base symbol p
    · refine ⟨p, ⟨[], rest, rfl, by simp, hp⟩, ?_⟩
      rcases List.mem_cons.mp hq with rfl | hq
      · exact ⟨Int.le_refl _, Int.le_refl _⟩
      · exact hwider q hq
    · have hq : q ∈ rest := by
        rcases List.mem_cons.mp hq with rfl | hq
        · exact absurd htells hp
        · exact hq
      obtain ⟨pair, ⟨before, after, rfl, hbefore, hpair⟩, hle⟩ := ih hq hrest
      exact ⟨pair, ⟨p :: before, after, rfl, List.forall_mem_cons.mpr ⟨hp, hbefore⟩, hpair⟩, hle⟩

/-- The code granted for a value of the symbol has the value in the slots of a layout, whichever values are granted. -/
structure Renders (code : Rendering) (base : Bytes) (symbol : String) (L : Layout) : Prop where
  initial : base = L.initial
  valued : ∀ v c, granted? code base symbol v = some c → c = L.valued symbol v

namespace Renders

variable {L : Layout} (h : Renders code base symbol L) {i : Nat}
include h

theorem covers_of_alters {v : Int} (hi : Alters code base symbol v i) : ∃ f ∈ L.slotsOf symbol, f.field.Covers i := by
  by_contra hno
  have hout : ∀ f ∈ L.slotsOf symbol, ¬f.field.Covers i := fun f hf hc => hno ⟨f, hf, hc⟩
  obtain ⟨c, hc, hne⟩ := hi
  rw [h.valued v c hc, h.initial, Layout.valued_eq_initial hout] at hne
  exact hne rfl

theorem alters_iff {f : Slot} (hf : f ∈ L.slotsOf symbol) (hi : f.field.Covers i) {v : Int}
    (hv : (granted? code base symbol v).isSome) :
    Alters code base symbol v i ↔
      byteAt (L.order.place f.field.size (i - f.field.offset)) (f.displacement + f.constant + v) ≠
        byteAt (L.order.place f.field.size (i - f.field.offset)) (f.displacement + f.constant) := by
  obtain ⟨hslot, hs⟩ := Layout.mem_slotsOf.mp hf
  have hvalued : (L.valued symbol v)[i]? =
      some (byteAt (L.order.place f.field.size (i - f.field.offset)) (f.displacement + f.constant + v)) := by
    rw [Layout.valued, Layout.getElem?_image_inside hslot hi, if_pos hs, getElem?_word hi.sub_lt, Int.add_assoc,
      Int.add_comm]
  have hinitial : base[i]? =
      some (byteAt (L.order.place f.field.size (i - f.field.offset)) (f.displacement + f.constant)) := by
    rw [h.initial, Layout.initial, Layout.getElem?_image_inside hslot hi, getElem?_word hi.sub_lt]
  obtain ⟨c, hc⟩ := Option.isSome_iff_exists.mp hv
  rw [ne_eq, ← Option.some_inj, ← hvalued, ← hinitial, ← h.valued v c hc]
  constructor
  · rintro ⟨c', hc', hne⟩
    obtain rfl := Option.some.inj (hc.symm.trans hc')
    exact hne
  · exact fun hne => ⟨c, hc, hne⟩

theorem alters_of_reaches {f : Slot} (hf : f ∈ L.slotsOf symbol) (hi : f.field.Covers i) (hpair : pair ∈ sentinels)
    (hgrants : Grants code base symbol pair) (hreach : Reaches pair f) : AltersEither code base symbol pair i := by
  have hsize := L.sized f (Layout.mem_slotsOf.mp hf).1
  have hplace : L.order.place f.field.size (i - f.field.offset) < f.field.size := place_lt hi.sub_lt
  rw [AltersEither, h.alters_iff hf hi hgrants.1, h.alters_iff hf hi hgrants.2]
  apply byteAt_sentinels_ne hpair (by omega)
  apply hreach.imp_left
  intro hwide
  have hpow : (256 : Int) ^ L.order.place f.field.size (i - f.field.offset) ≤ 256 ^ (f.field.size - 1) :=
    pow_le_pow_right₀ (by norm_num) (by omega)
  omega

end Renders

/-- Each symbol that the engine asks for has the relocations that the first telling pair shows: none with a place if no
pair tells, and else fields of just the bytes that the pair changes. These are all bytes that depend on the symbol if
the values of some granted pair reach all of its slots. -/
theorem assembleWhole_finds_dependent {session : Session} {p : Payload}
    (hflags : Numbering.assembler.flags? s.architecture = some flags)
    (hcode : ∀ clock value,
      env.assembler.code clock flags (prepare s.architecture s.text) s.address value = code value)
    (hs : session.Sound env) (h : ((assembleWhole env s).outcome session).1 = .ok p) :
    code (fun _ => 0) = .ok p.code ∧ ∀ symbol ∈ p.unresolved,
      (Unlocated p.relocations symbol ↔ ∀ pair ∈ sentinels, ¬Tells code p.code symbol pair) ∧
      (∀ pair, TellsFirst code p.code symbol sentinels pair →
        ∀ i, Covered p.relocations symbol i ↔ AltersEither code p.code symbol pair i) ∧
      ∀ L pair, Renders code p.code symbol L → pair ∈ sentinels → Grants code p.code symbol pair →
        (∀ f ∈ L.slotsOf symbol, Reaches pair f) →
          ∀ v i, Alters code p.code symbol v i → Covered p.relocations symbol i := by
  obtain ⟨hbase, hfinds⟩ := (assembleWhole_finds hflags hcode session hs).2.1 p h
  refine ⟨hbase, ?_⟩
  intro symbol hsymbol
  obtain ⟨hnothing, hfirst⟩ := hfinds symbol hsymbol
  refine ⟨hnothing, hfirst, ?_⟩
  intro L q hrenders hq hgrants hreach v i hi
  obtain ⟨f, hf, hfi⟩ := hrenders.covers_of_alters hi
  have htells : Tells code p.code symbol q := ⟨hgrants, i, hrenders.alters_of_reaches hf hfi hq hgrants (hreach f hf)⟩
  -- the pair that tells first is at least as wide
  obtain ⟨pair, hpair, hwider⟩ := tellsFirst_of_tells hq htells sentinels_widest_first
  rw [hfirst pair hpair]
  obtain ⟨before, after, hsplit, -, hgrants', -⟩ := hpair
  have hmem : pair ∈ sentinels := hsplit ▸ List.mem_append_right _ List.mem_cons_self
  exact hrenders.alters_of_reaches hf hfi hmem hgrants' ((hreach f hf).mono hwider)

def signed (v : UInt64) : Int := if v.toNat < 2 ^ 63 then v.toNat else v.toNat - 2 ^ 64

theorem signed_word (v : Int) : signed (Recorder.word v) % 2 ^ 64 = v % 2 ^ 64 := by
  have hword := toNat_word v
  unfold signed
  split <;> omega

/-- A statement with an operand of some bytes, of which values between two limits are granted. -/
structure Operand where
  text : String
  opcode : UInt8
  size : Nat
  low : Int
  high : Int

namespace Operand

variable (o : Operand)

def reply (x : Int) : Reply where
  result := if o.low ≤ x ∧ x ≤ o.high then .ok (some (o.opcode :: word .little o.size x))
    else .error ⟨"KsError", "out of range"⟩

/-- An assembler that knows this statement alone and behind the label that it names. -/
def engine : AssemblerEngine where
  opening _ _ := none
  assembling _ _ text address :=
    if text = o.text then .ask "n".toByteArray.toList fun v => .reply (o.reply (signed v))
    else if text = labelLine "n" o.text then .reply (o.reply address)
    else .reply { result := .error ⟨"KsError", "unknown"⟩ }

def console : Environment := ⟨o.engine, ⟨fun _ _ => none, fun _ _ _ _ => .ok []⟩, true⟩

def rendering : Rendering := fun value => (o.reply (signed (value "n"))).result.map (·.getD [])

theorem code_engine (clock : Nat) (flags : EngineFlags) (address : Int) (value : String → UInt64) :
    o.engine.code clock flags o.text address value = o.rendering value := by
  have hname : Recorder.nameOf "n".toByteArray.toList = "n" := by decide +kernel
  simp [AssemblerEngine.code, engine, Dialogue.replyTo, hname, rendering]

theorem rendering_single {v : Int} {c : Bytes}
    (h : (o.rendering ({ values := [("n", v)] } : Recorder).valueOf).toOption = some c) :
    c = o.opcode :: word .little o.size (signed (Recorder.word v)) := by
  have hvalue : ({ values := [("n", v)] } : Recorder).valueOf "n" = Recorder.word v := rfl
  rw [rendering, hvalue, reply] at h
  simp only at h
  split at h
  · exact (Option.some.inj h).symm
  · simp [Except.map, Except.toOption] at h

end Operand

def interrupt : Operand := ⟨"int n", 0xcd, 1, 0, 0xff⟩

def push : Operand := ⟨"push n", 0x68, 2, -0x8000, 0x7fff⟩

def interruptPayload : Payload where
  code := [0xcd, 0x00]
  relocations := [⟨none, "n", 0, []⟩]

def pushPayload : Payload where
  code := [0x68, 0x00, 0x00]
  relocations := [⟨some 1, "n", 2, [0x00, 0x00]⟩]

theorem outcome_interrupt :
    ((assembleWhole interrupt.console ⟨"int n", .x86, 0⟩).outcome {}).1 = .ok interruptPayload := by
  decide +kernel

theorem outcome_push :
    ((assembleWhole push.console ⟨"push n", .x86, 0⟩).outcome {}).1 = .ok pushPayload := by
  decide +kernel

def pushLayout : Layout where
  order := .little
  template := [0x68, 0x00, 0x00]
  slots := [⟨"n", ⟨1, 2⟩, 0, 0⟩]
  symbols := ["n"]
  known := by simp
  sized := by simp
  inside := by simp
  near := by simp
  apart := by simp

theorem renders_push : Renders push.rendering pushPayload.code "n" pushLayout := by
  constructor
  · decide
  · intro v c hc
    rw [push.rendering_single (Option.filter_eq_some_iff.mp hc).1, word_congr (by decide) (signed_word v)]
    simp [Layout.valued, Layout.image, writeSlots, pushLayout, Field.put, push]

/-- The two widest pairs are out of the limits. -/
theorem tellsFirst_push : TellsFirst push.rendering pushPayload.code "n" sentinels (0x5550, -0x5560) := by
  have hwide : granted? push.rendering pushPayload.code "n" 0x5555555555555550 = none := by decide +kernel
  have hmiddle : granted? push.rendering pushPayload.code "n" 0x55555550 = none := by decide +kernel
  have hfirst : granted? push.rendering pushPayload.code "n" 0x5550 = some [0x68, 0x50, 0x55] := by decide +kernel
  have hsecond : granted? push.rendering pushPayload.code "n" (-0x5560) = some [0x68, 0xa0, 0xaa] := by decide +kernel
  refine ⟨[(0x5555555555555550, -0x5555555555555560), (0x55555550, -0x55555560)], [(0x50, -0x60)], rfl, ?_, ?_⟩
  · intro q hq htells
    rcases List.mem_pair.mp hq with rfl | rfl
    · simp [Tells, Grants, hwide] at htells
    · simp [Tells, Grants, hmiddle] at htells
  · refine ⟨⟨by simp [hfirst], by simp [hsecond]⟩, 1, .inl ⟨_, hfirst, by decide⟩⟩

theorem assembleWhole_finds_dependent_push :
    Numbering.assembler.flags? .x86 = some ⟨4, 4⟩ ∧ Session.Sound push.console {} ∧
      ((assembleWhole push.console ⟨"push n", .x86, 0⟩).outcome {}).1 = .ok pushPayload ∧
      ¬Unlocated pushPayload.relocations "n" ∧
      (∀ i, Covered pushPayload.relocations "n" i ↔
        AltersEither push.rendering pushPayload.code "n" (0x5550, -0x5560) i) ∧
      ∀ v i, Alters push.rendering pushPayload.code "n" v i → Covered pushPayload.relocations "n" i := by
  have hflags : Numbering.assembler.flags? .x86 = some ⟨4, 4⟩ := by decide
  have hs := Session.sound_empty push.console
  obtain ⟨-, hfinds⟩ := assembleWhole_finds_dependent (s := ⟨"push n", .x86, 0⟩) hflags
    (fun clock value => push.code_engine clock _ _ value) hs outcome_push
  obtain ⟨hnothing, hfirst, hall⟩ := hfinds "n" (by decide)
  have hmem : ((0x5550, -0x5560) : Int × Int) ∈ sentinels := by decide
  obtain ⟨-, -, -, -, htells⟩ := tellsFirst_push
  refine ⟨hflags, hs, outcome_push, ?_, hfirst _ tellsFirst_push, ?_⟩
  · rw [hnothing]
    intro hnone
    exact hnone _ hmem htells
  · apply hall pushLayout _ renders_push hmem htells.1
    intro f hf
    obtain rfl : f = ⟨"n", ⟨1, 2⟩, 0, 0⟩ := by simpa [pushLayout] using (Layout.mem_slotsOf.mp hf).1
    exact .inl (by norm_num)

/-- A value may change the code of a symbol for which no relocation with a place is found. -/
theorem alters_uncovered_interrupt :
    ¬∀ (env : Environment) (s : Source) (flags : EngineFlags) (code : Rendering) (session : Session) (p : Payload),
      Numbering.assembler.flags? s.architecture = some flags →
        (∀ clock value,
          env.assembler.code clock flags (prepare s.architecture s.text) s.address value = code value) →
        session.Sound env → ((assembleWhole env s).outcome session).1 = .ok p →
        ∀ symbol ∈ p.unresolved, ∀ v i, Alters code p.code symbol v i → Covered p.relocations symbol i := by
  intro hall
  have halters : Alters interrupt.rendering interruptPayload.code "n" 1 1 :=
    ⟨[0xcd, 0x01], by decide +kernel, by decide⟩
  obtain ⟨r, hr, -, o, ho, -⟩ := hall interrupt.console ⟨"int n", .x86, 0⟩ ⟨4, 4⟩ interrupt.rendering {}
    interruptPayload (by decide) (fun clock value => interrupt.code_engine clock _ _ value) (Session.sound_empty _)
    outcome_interrupt "n" (by decide) 1 1 halters
  obtain rfl := List.mem_singleton.mp hr
  simp at ho

end Assembler

end AssemblyConsole
