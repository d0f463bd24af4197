import AssemblyConsole.Assembler.Placement
import AssemblyConsole.Proofs.Contract
import AssemblyConsole.Proofs.FieldLayout
import AssemblyConsole.Proofs.Runs

/-!
The relocations of a symbol for an engine of which nothing is known. It may refuse any request, or answer with code of
any length; only code of the expected length is looked at, and so each field found is inside the code and away from
the others.
-/

namespace AssemblyConsole

open AssemblyConsole.Action

namespace Field

def Within (n : Nat) (f : Field) : Prop := 1 ≤ f.size ∧ f.offset + f.size ≤ n

def Before (f g : Field) : Prop := f.offset + f.size < g.offset

variable {n : Nat} {f : Field} {code : Bytes}

theorem length_bytes (hin : f.offset + f.size ≤ code.length) : (f.bytes code).length = f.size := by
  simp only [bytes, List.length_take, List.length_drop]
  omega

section OfRuns

variable {os : List Nat}

theorem offsets_of_run {r : Run} (hr : r ∈ Run.ofOffsets (os.map fun (i : Nat) => (i : Int))) {o : Int}
    (ho : o ∈ r.offsets) : ∃ i ∈ os, (i : Int) = o := by
  have hmem := (Run.mem_iff_exists_run _ o).mpr ⟨r, hr, ho⟩
  exact List.mem_map.mp hmem

theorem within_ofRun (hos : ∀ i ∈ os, i < n) {r : Run} (hr : r ∈ Run.ofOffsets (os.map fun (i : Nat) => (i : Int))) :
    (ofRun r).Within n ∧ 0 ≤ r.start := by
  have hpos := Run.length_pos _ r hr
  obtain ⟨hfirst, hlast⟩ := Run.ends_mem_offsets hpos
  -- the first and the last offset of the run are among those of the list
  obtain ⟨i, -, hstart⟩ := offsets_of_run hr hfirst
  obtain ⟨j, hj, hstop⟩ := offsets_of_run hr hlast
  have hlt := hos j hj
  rw [Run.stop] at hstop
  refine ⟨⟨hpos, ?_⟩, by omega⟩
  simp only [ofRun]
  omega

theorem ofRun_before (hascending : os.Pairwise (· < ·)) (hos : ∀ i ∈ os, i < n) :
    ((Run.ofOffsets (os.map fun (i : Nat) => (i : Int))).map ofRun).Pairwise Before := by
  have hcast : (os.map fun (i : Nat) => (i : Int)).Pairwise (· < ·) := by
    apply List.pairwise_map.mpr
    apply hascending.imp
    intro i j hij
    omega
  apply List.pairwise_map.mpr
  apply (Run.pairwise_ofOffsets hcast).imp_of_mem
  intro r s hr hs hrs
  have hr := (within_ofRun hos hr).2
  have hs := (within_ofRun hos hs).2
  simp only [Run.stop] at hrs
  simp only [Before, ofRun]
  omega

end OfRuns

end Field

namespace Relocation

/-- A located field has bytes, they are among the first `n`, and the placeholder is as long as the field. -/
def Fits (n : Nat) (r : Relocation) : Prop :=
  ∀ o, r.offset = some o → 1 ≤ r.size ∧ 0 ≤ o ∧ o + r.size ≤ n ∧ (r.placeholder.length : Int) = r.size

theorem Fits.mono {n m : Nat} {r : Relocation} (h : r.Fits n) (hnm : n ≤ m) : r.Fits m := by
  intro o ho
  obtain ⟨hsize, hfirst, hlast, hplaceholder⟩ := h o ho
  exact ⟨hsize, hfirst, by omega, hplaceholder⟩

theorem Fits.cases {n : Nat} {r : Relocation} (h : r.Fits n) : r.offset = none ∨
    ∃ (f : Field) (w : Bytes), f.Within n ∧ w.length = f.size ∧ r = ⟨some (f.offset : Int), r.target, f.size, w⟩ := by
  cases ho : r.offset with
  | none => exact .inl rfl
  | some o =>
    obtain ⟨hsize, hfirst, hlast, hplaceholder⟩ := h o ho
    have hstart : ((o.toNat : Nat) : Int) = o := Int.toNat_of_nonneg hfirst
    have hlength : ((r.size.toNat : Nat) : Int) = r.size := Int.toNat_of_nonneg (by omega)
    refine .inr ⟨⟨o.toNat, r.size.toNat⟩, r.placeholder, ?_, ?_, ?_⟩
    · simp only [Field.Within]
      omega
    · simp only
      omega
    · rw [hstart, hlength, ← ho]

/-- Two located fields have no byte in common and do not touch. -/
def Apart (r s : Relocation) : Prop :=
  ∀ o p, r.offset = some o → s.offset = some p → o + r.size < p ∨ p + s.size < o

theorem Apart.symm {r s : Relocation} (h : r.Apart s) : s.Apart r := fun o p ho hp => (h p o hp ho).symm

end Relocation

namespace Assembler

variable (env : Environment) (s : Source) (symbol : String)

def OfLength (n : Nat) (code : Option Bytes) : Prop := ∀ c ∈ code, c.length = n

theorem ofLength_filter (n : Nat) (code : Option Bytes) : OfLength n (code.filter (·.length = n)) := by
  intro c hc
  have hlength := (Option.mem_filter_iff.mp hc).2
  simpa using hlength

theorem trial_length (n : Nat) (v : Int) : Yields (trial env s symbol n v) (OfLength n) := by
  refine (yields_any _).bind ?_
  intro code _
  exact meets_pure (ofLength_filter n code)

theorem changes_ascending (code : Bytes) (values : Int × Int) : Yields (changes env s symbol code values)
    fun os => ∀ l ∈ os, l.Pairwise (· < ·) ∧ ∀ i ∈ l, i < code.length := by
  have hnone : Yields (pure none : Action Session EncodeError (Option (List Nat)))
      fun os => ∀ l ∈ os, l.Pairwise (· < ·) ∧ ∀ i ∈ l, i < code.length := meets_pure (by simp)
  refine (yields_any _).bind ?_
  rintro (_ | first) -
  · exact hnone
  · refine (yields_any _).bind ?_
    rintro (_ | second) -
    · exact hnone
    · apply meets_pure
      intro l hl
      obtain rfl := Option.some.inj hl
      refine ⟨List.pairwise_lt_range.filter _, ?_⟩
      intro i hi
      exact List.mem_range.mp (List.mem_filter.mp hi).1

theorem findFields_within (code : Bytes) (pairs : List (Int × Int)) : Yields (findFields env s symbol code pairs)
    fun fs => (∀ f ∈ fs, f.Within code.length) ∧ fs.Pairwise Field.Before := by
  induction pairs with
  | nil => exact meets_pure ⟨by simp, .nil⟩
  | cons values rest ih =>
    refine (changes_ascending env s symbol code values).bind ?_
    rintro (_ | _ | ⟨o, os⟩) hos
    · exact ih
    · exact ih
    · obtain ⟨hascending, hlt⟩ := hos _ rfl
      refine meets_pure ⟨?_, Field.ofRun_before hascending hlt⟩
      intro f hf
      obtain ⟨r, hr, rfl⟩ := List.mem_map.mp hf
      exact (Field.within_ofRun hlt hr).1

theorem withLabel_length (n : Nat) : Yields (withLabel env s symbol n) fun l => ∀ label ∈ l, label.code.length = n := by
  refine (yields_any _).bind ?_
  intro start _
  have hstart := ofLength_filter n start
  split
  · rename_i code hcode
    apply meets_pure
    intro label hlabel
    obtain rfl := Option.some.inj hlabel
    exact hstart code hcode
  · split
    · exact meets_pure (by simp)
    · refine (yields_any _).bind ?_
      intro padded _
      apply meets_pure
      intro label hlabel
      obtain ⟨code, hcode, rfl⟩ := Option.map_eq_some_iff.mp hlabel
      have hlength := ofLength_filter _ padded code hcode
      simp only [List.length_drop, hlength]
      omega

def Trials.Show (Q : Int → Option Bytes → Prop) (trials : Trials) : Prop :=
  ∀ v code, trials.lookup v = some code → Q v code

theorem retry_meets {I : Session → Prop} {E : EncodeError → Prop} {Q : Int → Option Bytes → Prop} {n : Nat}
    (htrial : ∀ v, Meets I (trial env s symbol n v) (Q v) E) {trials : Trials} (ht : trials.Show Q) (v : Int) :
    Meets I (retry env s symbol n trials v) (fun r => Q v r.1 ∧ Trials.Show Q r.2) E := by
  unfold retry
  cases hlookup : trials.lookup v with
  | some code => exact meets_pure ⟨ht v code hlookup, ht⟩
  | none =>
    refine (htrial v).bind ?_
    intro code hcode
    refine meets_pure ⟨hcode, ?_⟩
    intro w found hw
    rw [List.lookup_cons] at hw
    split at hw
    · rename_i hwv
      rw [← Option.some.inj hw, eq_of_beq hwv]
      exact hcode
    · exact ht w found hw

abbrev Trials.Sized (n : Nat) (trials : Trials) : Prop := trials.Show fun _ => OfLength n

theorem retry_length {n : Nat} {trials : Trials} (ht : trials.Sized n) (v : Int) :
    Yields (retry env s symbol n trials v) fun r => OfLength n r.1 ∧ Trials.Sized n r.2 :=
  retry_meets env s symbol (trial_length env s symbol n) ht v

theorem placeField_length {n : Nat} (label : Labelled) {f : Field} (hf : f.Within n) (ds : List Int)
    {trials : Trials} (ht : trials.Sized n) :
    Yields (placeField env s symbol n label f ds trials) fun r => OfLength f.size r.1 ∧ Trials.Sized n r.2 := by
  induction ds generalizing trials with
  | nil => exact meets_pure ⟨by simp [OfLength], ht⟩
  | cons d ds ih =>
    refine (retry_length env s symbol ht _).bind ?_
    rintro ⟨atLabel, trials⟩ ⟨-, ht⟩
    simp only
    split
    · refine (retry_length env s symbol ht _).bind ?_
      rintro ⟨atPlaceholder, trials⟩ ⟨hcode, ht⟩
      refine meets_pure ⟨?_, ht⟩
      intro field hfield
      obtain ⟨code, hat, rfl⟩ := Option.map_eq_some_iff.mp hfield
      apply Field.length_bytes
      rw [hcode code hat]
      exact hf.2
    · exact ih ht

theorem placeFields_length {n : Nat} (label : Labelled) {fs : List Field} (hfs : ∀ f ∈ fs, f.Within n)
    {trials : Trials} (ht : trials.Sized n) {placed : Bytes} (hn : placed.length = n) :
    Yields (placeFields env s symbol n label fs trials placed) (·.length = n) := by
  induction fs generalizing trials placed with
  | nil => exact meets_pure hn
  | cons f fs ih =>
    obtain ⟨hf, hfs⟩ := List.forall_mem_cons.mp hfs
    refine (placeField_length env s symbol label hf distances ht).bind ?_
    rintro ⟨field, trials⟩ ⟨hfield, ht⟩
    apply ih hfs ht
    cases field with
    | none => exact hn
    | some w => exact (Field.length_put (hfield w rfl) (by rw [hn]; exact hf.2)).trans hn

theorem place_length {code : Bytes} {fs : List Field} (hfs : ∀ f ∈ fs, f.Within code.length) :
    Yields (place env s symbol code fs) (·.length = code.length) := by
  refine (withLabel_length env s symbol code.length).bind ?_
  rintro (_ | label) hlabel
  · exact meets_pure rfl
  · simp only
    split
    · exact meets_pure (hlabel label rfl)
    · apply placeFields_length env s symbol label hfs _ rfl
      intro v c hlookup
      simp at hlookup

theorem relocationsOf_bounds (code : Bytes) : Yields (relocationsOf env s code symbol) fun rs =>
    rs ≠ [] ∧ (∀ r ∈ rs, r.target = symbol ∧ r.Fits code.length) ∧ rs.Pairwise Relocation.Apart := by
  refine (findFields_within env s symbol code sentinels).bind ?_
  rintro (_ | ⟨f, fs⟩) ⟨hfs, hbefore⟩
  · refine meets_pure ⟨by simp, ?_, List.pairwise_singleton _ _⟩
    intro r hr
    obtain rfl := List.mem_singleton.mp hr
    exact ⟨rfl, by simp [Relocation.Fits]⟩
  · refine (place_length env s symbol hfs).bind ?_
    intro placed hplaced
    refine meets_pure ⟨by simp, ?_, ?_⟩
    · intro r hr
      obtain ⟨g, hg, rfl⟩ := List.mem_map.mp hr
      obtain ⟨hsize, hstop⟩ := hfs g hg
      refine ⟨rfl, ?_⟩
      intro o ho
      obtain rfl := Option.some.inj ho
      have hlength : (g.bytes placed).length = g.size := Field.length_bytes (by omega)
      simp only [hlength, and_true]
      omega
    · apply List.pairwise_map.mpr
      apply hbefore.imp
      intro g h hgh o p ho hp
      obtain rfl := Option.some.inj ho
      obtain rfl := Option.some.inj hp
      simp only [Field.Before] at hgh
      simp only
      omega

end Assembler

end AssemblyConsole
