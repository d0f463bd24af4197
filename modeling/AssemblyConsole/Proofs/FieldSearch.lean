import AssemblyConsole.Proofs.FieldEngine
import AssemblyConsole.Proofs.Runs
import Mathlib.Data.List.Sort

/-!
The search for the fields of a symbol ends with the symbol's slots: the wide sentinel changes each of their bytes,
and no value of the symbol changes another byte.
-/

namespace AssemblyConsole

open AssemblyConsole.Action

namespace Layout

variable {L : Layout} {symbol : String} {i : Nat}

def offsetsOf (L : Layout) (symbol : String) : List Nat :=
  (L.slotsOf symbol).flatMap fun f => List.range' f.field.offset f.field.size

theorem mem_offsetsOf : i ∈ L.offsetsOf symbol ↔ ∃ f ∈ L.slotsOf symbol, f.field.Covers i := by
  simp only [offsetsOf, List.mem_flatMap, List.mem_range'_1, Field.Covers]

theorem slotsOf_eq_nil (h : L.offsetsOf symbol = []) : L.slotsOf symbol = [] := by
  apply List.eq_nil_iff_forall_not_mem.mpr
  intro f hf
  have hsize := (L.sized f (mem_slotsOf.mp hf).1).1
  have hi : f.field.offset ∈ L.offsetsOf symbol := mem_offsetsOf.mpr ⟨f, hf, Nat.le_refl _, by omega⟩
  rw [h] at hi
  simp at hi

theorem slotsOf_apart (L : Layout) (symbol : String) :
    (L.slotsOf symbol).Pairwise fun f g => f.field.offset + f.field.size < g.field.offset := by
  have h := L.apart.filter (fun f => decide (f.symbol = symbol))
  refine h.imp_of_mem ?_
  intro f g hf hg hfg
  exact hfg.2 ((mem_slotsOf.mp hf).2.trans (mem_slotsOf.mp hg).2.symm)

theorem offsetsOf_ascending (L : Layout) (symbol : String) : (L.offsetsOf symbol).Pairwise (· < ·) := by
  rw [offsetsOf, List.pairwise_flatMap]
  refine ⟨fun f _ => List.pairwise_lt_range', ?_⟩
  apply (L.slotsOf_apart symbol).imp
  intro f g hfg i hi j hj
  have hi := List.mem_range'_1.mp hi
  have hj := List.mem_range'_1.mp hj
  omega

/-- Slots that do not touch are the runs of their offsets. -/
theorem ofOffsets_slots (fs : List Slot) (hsize : ∀ f ∈ fs, 1 ≤ f.field.size)
    (hapart : fs.Pairwise fun f g => f.field.offset + f.field.size < g.field.offset) :
    Run.ofOffsets ((fs.flatMap fun f => List.range' f.field.offset f.field.size).map fun (i : Nat) => (i : Int)) =
      fs.map fun f => ⟨f.field.offset, f.field.size⟩ := by
  symm
  apply Run.Divides.eq
  refine ⟨?_, List.forall_mem_map.mpr hsize, ?_⟩
  · simp [List.flatMap_map, List.map_flatMap, List.range'_eq_map_range, Run.offsets, Function.comp_def]
  · apply List.Pairwise.isChain
    apply List.pairwise_map.mpr
    apply hapart.imp
    intro f g hfg
    simp only [Run.stop]
    omega

theorem runs_offsetsOf (L : Layout) (symbol : String) :
    (Run.ofOffsets ((L.offsetsOf symbol).map fun (i : Nat) => (i : Int))).map Field.ofRun =
      (L.slotsOf symbol).map (·.field) := by
  have hsize : ∀ f ∈ L.slotsOf symbol, 1 ≤ f.field.size := fun f hf => (L.sized f (mem_slotsOf.mp hf).1).1
  rw [offsetsOf, ofOffsets_slots _ hsize (L.slotsOf_apart symbol), List.map_map]
  apply List.map_congr_left
  intro f _
  simp [Field.ofRun]

theorem valued_eq_initial (hi : ∀ f ∈ L.slotsOf symbol, ¬f.field.Covers i) (v : Int) :
    (L.valued symbol v)[i]? = L.initial[i]? := by
  unfold valued initial
  by_cases hcovered : ∃ f ∈ L.slots, f.field.Covers i
  · obtain ⟨f, hf, hfi⟩ := hcovered
    have hother : f.symbol ≠ symbol := fun hs => hi f (mem_slotsOf.mpr ⟨hf, hs⟩) hfi
    rw [getElem?_image_inside hf hfi, getElem?_image_inside hf hfi, if_neg hother, Int.zero_add]
  · have hout : ∀ f ∈ L.slots, ¬f.field.Covers i := fun f hf hfi => hcovered ⟨f, hf, hfi⟩
    rw [getElem?_image_outside hout, getElem?_image_outside hout]

theorem valued_ne_initial {f : Slot} (hf : f ∈ L.slotsOf symbol) (hi : f.field.Covers i) :
    (L.valued symbol 0x5555555555555550)[i]? ≠ L.initial[i]? := by
  obtain ⟨hf, hs⟩ := mem_slotsOf.mp hf
  rw [valued, initial, getElem?_image_inside hf hi, getElem?_image_inside hf hi, if_pos hs, Int.add_assoc, Int.add_comm]
  exact word_sentinel_ne hi.sub_lt (L.sized f hf).2 _

theorem length_initial (L : Layout) : L.initial.length = L.template.length := L.length_image _

/-- The bytes that one of two values changes are those of the symbol's slots, if the first value is the wide
sentinel. -/
theorem changed_offsets (L : Layout) (symbol : String) (v : Int) :
    ((List.range L.initial.length).filter fun i =>
      i ∈ Assembler.differences L.initial (L.valued symbol 0x5555555555555550) ||
        i ∈ Assembler.differences L.initial (L.valued symbol v)) = L.offsetsOf symbol := by
  have hascending : ((List.range L.initial.length).filter fun i =>
      i ∈ Assembler.differences L.initial (L.valued symbol 0x5555555555555550) ||
        i ∈ Assembler.differences L.initial (L.valued symbol v)).Pairwise (· < ·) :=
    List.pairwise_lt_range.filter _
  apply hascending.eq_of_mem_iff (L.offsetsOf_ascending symbol)
  intro i
  rw [mem_offsetsOf]
  simp only [Assembler.differences, List.mem_filter, List.mem_range, Bool.or_eq_true, decide_eq_true_eq]
  constructor
  · rintro ⟨-, hchanged⟩
    by_contra hno
    have hout : ∀ f ∈ L.slotsOf symbol, ¬f.field.Covers i := fun f hf hfi => hno ⟨f, hf, hfi⟩
    rw [valued_eq_initial hout, valued_eq_initial hout] at hchanged
    simp at hchanged
  · rintro ⟨f, hf, hfi⟩
    have hi : i < L.initial.length := by
      have := L.inside f (mem_slotsOf.mp hf).1
      rw [length_initial]
      simp only [Field.Covers] at hfi
      omega
    exact ⟨hi, .inl ⟨hi, (valued_ne_initial hf hfi).symm⟩⟩

theorem changed_nothing (hnone : L.slotsOf symbol = []) (v w : Int) :
    ((List.range L.initial.length).filter fun i =>
      i ∈ Assembler.differences L.initial (L.valued symbol v) ||
        i ∈ Assembler.differences L.initial (L.valued symbol w)) = [] := by
  have hsame (v : Int) (i : Nat) : (L.valued symbol v)[i]? = L.initial[i]? := valued_eq_initial (by simp [hnone]) v
  simp [Assembler.differences, hsame]

end Layout

namespace Assembler

variable {env : Environment} {s : Source} {flags : EngineFlags} {L : Layout}
  (hflags : Numbering.assembler.flags? s.architecture = some flags)
  (h : env.assembler.Follows flags s.text s.address L)
include hflags h

theorem changes_follows (symbol : String) (v w : Int) :
    Meets (Session.Sound env) (changes env s symbol L.initial (v, w))
      (· = some ((List.range L.initial.length).filter fun i =>
        i ∈ differences L.initial (L.valued symbol v) || i ∈ differences L.initial (L.valued symbol w)))
      fun _ => False := by
  unfold changes
  rw [L.length_initial]
  refine (trial_follows hflags h symbol v).bind ?_
  rintro _ rfl
  refine (trial_follows hflags h symbol w).bind ?_
  rintro _ rfl
  exact meets_pure (by simp)

theorem findFields_follows_nothing {symbol : String} (hnone : L.slotsOf symbol = []) (pairs : List (Int × Int)) :
    Meets (Session.Sound env) (findFields env s symbol L.initial pairs) (· = []) fun _ => False := by
  induction pairs with
  | nil => exact meets_pure rfl
  | cons values rest ih =>
    refine (changes_follows hflags h symbol values.1 values.2).bind ?_
    rintro _ rfl
    rw [Layout.changed_nothing hnone]
    exact ih

theorem findFields_follows (symbol : String) :
    Meets (Session.Sound env) (findFields env s symbol L.initial sentinels)
      (· = (L.slotsOf symbol).map (·.field)) fun _ => False := by
  cases hoffsets : L.offsetsOf symbol with
  | nil =>
    -- nothing changes for any pair, so all of them are tried
    have hnone := Layout.slotsOf_eq_nil hoffsets
    rw [hnone]
    exact findFields_follows_nothing hflags h hnone sentinels
  | cons o os =>
    refine (changes_follows hflags h symbol _ _).bind ?_
    rintro _ rfl
    rw [Layout.changed_offsets, ← L.runs_offsetsOf, hoffsets]
    exact meets_pure rfl

end Assembler

end AssemblyConsole
