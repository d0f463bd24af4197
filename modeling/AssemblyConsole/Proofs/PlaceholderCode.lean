import AssemblyConsole.Architecture.Names
import AssemblyConsole.Proofs.FieldPlacement
import AssemblyConsole.Proofs.RelocationOrder
import Mathlib.Data.List.Nodup

/-!
The payload of a text for an engine that follows a layout: a relocation for each slot, and the filled code is that
in which every symbol is at the placeholder address.
-/

namespace AssemblyConsole

open AssemblyConsole.Action List

namespace Layout

variable {L : Layout}

def relocations (L : Layout) : List Relocation :=
  L.slots.map L.relocation ++ (L.symbols.filter (L.slotsOf · = [])).map unlocated

theorem nodup_slots (L : Layout) : L.slots.Nodup := by
  apply L.apart_offsets.imp_of_mem
  rintro f g hf - hfg rfl
  have := (L.sized f hf).1
  omega

theorem flatMap_slotsOf (L : Layout) (hnodup : L.symbols.Nodup) : L.symbols.flatMap L.slotsOf ~ L.slots := by
  rw [perm_ext_iff_of_nodup _ L.nodup_slots]
  · intro f
    rw [mem_flatMap]
    constructor
    · rintro ⟨symbol, -, hf⟩
      exact (mem_slotsOf.mp hf).1
    · intro hf
      exact ⟨f.symbol, L.known f hf, mem_slotsOf.mpr ⟨hf, rfl⟩⟩
  · rw [nodup_flatMap]
    refine ⟨fun symbol _ => L.nodup_slots.filter _, ?_⟩
    apply hnodup.imp
    intro symbol symbol' hne f hf hf'
    exact hne ((mem_slotsOf.mp hf).2.symm.trans (mem_slotsOf.mp hf').2)

theorem filter_isLocated_relocationsOf (L : Layout) (symbol : String) :
    (L.relocationsOf symbol).filter (·.isLocated) = (L.slotsOf symbol).map L.relocation := by
  unfold relocationsOf
  split
  · rename_i hnone
    rw [hnone]
    rfl
  · apply filter_eq_self.mpr
    intro r hr
    obtain ⟨f, -, rfl⟩ := mem_map.mp hr
    rfl

theorem filter_not_isLocated_relocationsOf (L : Layout) (symbol : String) :
    (L.relocationsOf symbol).filter (!·.isLocated) = if L.slotsOf symbol = [] then [unlocated symbol] else [] := by
  unfold relocationsOf
  split
  · rfl
  · apply filter_eq_nil_iff.mpr
    intro r hr
    obtain ⟨f, -, rfl⟩ := mem_map.mp hr
    simp [relocation, Relocation.isLocated]

theorem relocation_ascending (L : Layout) :
    (L.slots.map L.relocation).Pairwise fun r s => r.precedes s ∧ ¬s.precedes r := by
  rw [pairwise_map]
  apply L.apart_offsets.imp_of_mem
  intro f g hf _ hfg
  have hsize := (L.sized f hf).1
  simp only [relocation, Relocation.precedes, decide_eq_true_eq]
  omega

theorem flatMap_unlocated (L : Layout) (symbols : List String) :
    (symbols.flatMap fun symbol => if L.slotsOf symbol = [] then [unlocated symbol] else []) =
      (symbols.filter (L.slotsOf · = [])).map unlocated := by
  induction symbols with
  | nil => rfl
  | cons symbol rest ih => by_cases hnone : L.slotsOf symbol = [] <;> simp [hnone, ih]

theorem mergeSort_flatMap_relocationsOf (L : Layout) (hnodup : L.symbols.Nodup) :
    (L.symbols.flatMap L.relocationsOf).mergeSort Relocation.precedes = L.relocations := by
  have hlocated : (L.symbols.flatMap L.relocationsOf).filter (·.isLocated) ~ L.slots.map L.relocation := by
    rw [filter_flatMap]
    simp only [filter_isLocated_relocationsOf]
    rw [← map_flatMap]
    exact (L.flatMap_slotsOf hnodup).map _
  rw [Relocation.mergeSort_precedes hlocated L.relocation_ascending, relocations, filter_flatMap]
  simp only [filter_not_isLocated_relocationsOf]
  rw [flatMap_unlocated]

theorem fillOne_relocation {f : Slot} (hf : f ∈ L.slots) {code : Bytes} (hn : code.length = L.template.length) :
    Payload.fillOne code (L.relocation f) =
      putNumber L.order (fun f => Relocation.placeholderAddress + f.constant) f code := by
  have hin := L.inside f hf
  exact Payload.fillOne_eq_put (length_word _ _ _) (by rwa [hn])

theorem foldl_fillOne_relocation {fs : List Slot} (hfs : ∀ f ∈ fs, f ∈ L.slots) {code : Bytes}
    (hn : code.length = L.template.length) :
    (fs.map L.relocation).foldl Payload.fillOne code =
      writeSlots L.order (fun f => Relocation.placeholderAddress + f.constant) fs code := by
  induction fs generalizing code with
  | nil => rfl
  | cons f fs ih =>
    obtain ⟨hf, hfs⟩ := List.forall_mem_cons.mp hfs
    rw [map_cons, foldl_cons, fillOne_relocation hf hn, ih hfs (length_putNumber hn (L.inside f hf))]
    rfl

theorem foldl_fillOne_unlocated (symbols : List String) (code : Bytes) :
    (symbols.map unlocated).foldl Payload.fillOne code = code := by
  induction symbols with
  | nil => rfl
  | cons symbol rest ih => exact ih

theorem filled_relocations (L : Layout) :
    ({ code := L.initial, relocations := L.relocations } : Payload).filled =
      L.image fun _ => Relocation.placeholderAddress := by
  rw [Payload.filled, relocations, foldl_append, foldl_fillOne_relocation (fun _ hf => hf) L.length_initial,
    foldl_fillOne_unlocated]
  exact L.writeSlots_image _ _

end Layout

namespace Assembler

variable {env : Environment} {s : Source} {flags : EngineFlags} {L : Layout}

theorem assembleWhole_follows (hflags : Numbering.assembler.flags? s.architecture = some flags)
    (h : env.assembler.Follows flags (prepare s.architecture s.text) s.address L) :
    Meets (Session.Sound env) (assembleWhole env s) (· = { code := L.initial, relocations := L.relocations })
      fun _ => False := by
  refine (call_granted (s := { s with text := prepare s.architecture s.text }) hflags h.opens []).bind ?_
  rintro _ ⟨clock, rfl⟩
  have hresult : resultOf env clock flags { s with text := prepare s.architecture s.text } [] =
      .ok ⟨L.initial, L.symbols⟩ := by
    rw [resultOf_eq, valueOf_nil, h.values, h.symbols]
    simp [Except.map, Layout.initial]
  have hnodup : L.symbols.Nodup := by
    rw [← h.symbols clock]
    exact Dialogue.nodup_symbols_answer _ List.nodup_nil
  rw [hresult]
  refine (relocationsOfAll_follows (s := { s with text := prepare s.architecture s.text }) hflags h _).bind ?_
  rintro _ rfl
  rw [L.mergeSort_flatMap_relocationsOf hnodup]
  exact meets_pure rfl

/-- The payload has one relocation for each slot, in the order of their offsets, with the slot's bytes for a symbol
at the placeholder address, and its filled code is the code with every symbol at that address. A symbol without slots
has a relocation without a place behind them. -/
theorem assemble_placeholders (hflags : Numbering.assembler.flags? s.architecture = some flags)
    (h : env.assembler.Follows flags (prepare s.architecture s.text) s.address L)
    (hparts : (s.architecture.isLongX86 && (SpecialForm.split s.text).any (·.isSpecial)) = false)
    {session : Session} (hs : session.Sound env) :
    ∃ p, ((assemble env s).outcome session).1 = .ok p ∧
      p.relocations = L.slots.map L.relocation ++ (L.symbols.filter (L.slotsOf · = [])).map Layout.unlocated ∧
      p.filled = L.image fun _ => Relocation.placeholderAddress := by
  obtain ⟨p, t, hp, rfl, -⟩ := (assembleWhole_follows hflags h).result hs
  refine ⟨_, ?_, rfl, L.filled_relocations⟩
  rw [assemble]
  simp only [hparts, Bool.false_eq_true, if_false, hp]

def addressPair : String := ".quad left + 5\ncall right + 2"

/-- An assembler that knows this text alone and behind the label of one of its symbols. To the value of a symbol it adds
what the symbol's slot is displaced by, to a label nothing. -/
def pairEngine : AssemblerEngine where
  opening _ _ := none
  assembling _ _ text address :=
    let finish (left right : Int) : Dialogue :=
      .reply { result := .ok (some (word .little 8 (left + 5) ++ 0xe8 :: word .little 4 (right + 2))) }
    if text = addressPair then
      .ask "left".toByteArray.toList fun x => .ask "right".toByteArray.toList fun y =>
        finish (x.toNat + 4) (y.toNat + -3)
    else if text = labelLine "left" addressPair then
      .ask "right".toByteArray.toList fun y => finish address (y.toNat + -3)
    else if text = labelLine "right" addressPair then
      .ask "left".toByteArray.toList fun x => finish (x.toNat + 4) address
    else .reply { result := .error ⟨"KsError", "unknown"⟩ }

def pairConsole : Environment := ⟨pairEngine, ⟨fun _ _ => none, fun _ _ _ _ => .ok []⟩, true⟩

def pairLayout : Layout where
  order := .little
  template := [0, 0, 0, 0, 0, 0, 0, 0, 0xe8, 0, 0, 0, 0]
  slots := [⟨"left", ⟨0, 8⟩, 5, 4⟩, ⟨"right", ⟨9, 4⟩, 2, -3⟩]
  symbols := ["left", "right"]
  known := by simp
  sized := by simp
  inside := by simp
  near := by simp
  apart := by simp

theorem follows_pairEngine : pairEngine.Follows ⟨4, 4⟩ addressPair 0x10 pairLayout := by
  have hleft : Recorder.nameOf "left".toByteArray.toList = "left" := by decide +kernel
  have hright : Recorder.nameOf "right".toByteArray.toList = "right" := by decide +kernel
  have hneLeft : labelLine "left" addressPair ≠ addressPair := by decide
  have hneRight : labelLine "right" addressPair ≠ addressPair := by decide
  have hne : labelLine "right" addressPair ≠ labelLine "left" addressPair := by decide
  have himage (address : Slot → Int) : pairLayout.image address =
      word .little 8 (address ⟨"left", ⟨0, 8⟩, 5, 4⟩ + 5) ++
        0xe8 :: word .little 4 (address ⟨"right", ⟨9, 4⟩, 2, -3⟩ + 2) := by
    simp [Layout.image, pairLayout, writeSlots, Field.put, List.take_append, List.take_of_length_le,
      List.drop_of_length_le]
  constructor
  · exact fun _ => rfl
  · intro clock
    simp [pairEngine, Dialogue.answer, Recorder.answer, Recorder.note, hleft, hright, pairLayout]
  · intro clock value
    simp [AssemblerEngine.code, pairEngine, Dialogue.replyTo, hleft, hright, himage, Except.map]
  · intro f hf
    left
    intro clock
    rcases List.mem_pair.mp hf with rfl | rfl
    · refine ⟨word .little 8 (0x10 + 5) ++ 0xe8 :: word .little 4 (-3 + 2), ?_, ?_⟩
      · simp [AssemblerEngine.code, pairEngine, Dialogue.replyTo, hneLeft, Except.map]
      · constructor
        · simp [pairLayout]
        · simp [pairLayout, Field.bytes]
    · refine ⟨word .little 8 (4 + 5) ++ 0xe8 :: word .little 4 (0x10 + 2), ?_, ?_⟩
      · simp [AssemblerEngine.code, pairEngine, Dialogue.replyTo, hneRight, hne, Except.map]
      · constructor
        · simp [pairLayout]
        · simp [pairLayout, Field.bytes, List.take_of_length_le, List.drop_append]

theorem assemble_placeholders_pair : ∃ p,
    Numbering.assembler.flags? .x86 = some ⟨4, 4⟩ ∧ pairEngine.Follows ⟨4, 4⟩ addressPair 0x10 pairLayout ∧
      Session.Sound pairConsole {} ∧ ((assemble pairConsole ⟨addressPair, .x86, 0x10⟩).outcome {}).1 = .ok p ∧
      p.relocations = [⟨some 0, "left", 8, [5, 0, 0, 0, 0, 0, 0, 0]⟩, ⟨some 9, "right", 4, [2, 0, 0, 0]⟩] ∧
      p.filled = [5, 0, 0, 0, 0, 0, 0, 0, 0xe8, 2, 0, 0, 0] := by
  have hs := Session.sound_empty pairConsole
  have h : pairConsole.assembler.Follows ⟨4, 4⟩ (prepare .x86 addressPair) 0x10 pairLayout := follows_pairEngine
  obtain ⟨p, hp, hrelocations, hfilled⟩ := assemble_placeholders (s := ⟨addressPair, .x86, 0x10⟩) rfl h rfl hs
  refine ⟨p, rfl, follows_pairEngine, hs, hp, ?_, ?_⟩
  · rw [hrelocations]
    decide
  · rw [hfilled]
    decide

end Assembler

end AssemblyConsole
