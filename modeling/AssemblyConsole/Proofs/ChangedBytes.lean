import AssemblyConsole.Proofs.FailureCauses
import AssemblyConsole.Proofs.FieldSearch

/-!
Which bytes of the code are found to depend on a symbol, for an assembler whose code depends on the symbols' values
only: those that the first telling pair of sentinels changes.
-/

namespace AssemblyConsole

open AssemblyConsole.Action

namespace Field

variable {os : List Nat} {n : Nat}

theorem covers_ofRun_iff (hos : ∀ i ∈ os, i < n) (i : Nat) :
    (∃ f ∈ (Run.ofOffsets (os.map fun (i : Nat) => (i : Int))).map ofRun, f.Covers i) ↔ i ∈ os := by
  have hmem : i ∈ os ↔ ∃ r ∈ Run.ofOffsets (os.map fun (i : Nat) => (i : Int)), (i : Int) ∈ r.offsets := by
    rw [← Run.mem_iff_exists_run]
    simp
  have hcovers : ∀ r ∈ Run.ofOffsets (os.map fun (i : Nat) => (i : Int)),
      (ofRun r).Covers i ↔ (i : Int) ∈ r.offsets := by
    intro r hr
    have hstart := (within_ofRun hos hr).2
    rw [Run.mem_offsets, Run.stop]
    simp only [Covers, ofRun]
    omega
  rw [hmem]
  constructor
  · rintro ⟨f, hf, hi⟩
    obtain ⟨r, hr, rfl⟩ := List.mem_map.mp hf
    exact ⟨r, hr, (hcovers r hr).mp hi⟩
  · rintro ⟨r, hr, hi⟩
    exact ⟨ofRun r, List.mem_map_of_mem hr, (hcovers r hr).mpr hi⟩

end Field

def Relocation.Covers (r : Relocation) (i : Nat) : Prop := ∃ o, r.offset = some o ∧ o ≤ i ∧ (i : Int) < o + r.size

namespace Assembler

def Unlocated (rs : List Relocation) (symbol : String) : Prop := ∃ r ∈ rs, r.target = symbol ∧ r.offset = none

def Covered (rs : List Relocation) (symbol : String) (i : Nat) : Prop := ∃ r ∈ rs, r.target = symbol ∧ r.Covers i

/-- The code of a text for the values that the symbols have. -/
abbrev Rendering := (String → UInt64) → Except Refusal Bytes

section Sentinels

variable (code : Rendering) (base : Bytes) (symbol : String)

/-- The code for a value of the symbol, if it is granted with the length of the code without one. -/
def granted? (v : Int) : Option Bytes :=
  (code ({ values := [(symbol, v)] } : Recorder).valueOf).toOption.filter (·.length = base.length)

def Alters (v : Int) (i : Nat) : Prop := ∃ other, granted? code base symbol v = some other ∧ other[i]? ≠ base[i]?

def Grants (pair : Int × Int) : Prop :=
  (granted? code base symbol pair.1).isSome ∧ (granted? code base symbol pair.2).isSome

def AltersEither (pair : Int × Int) (i : Nat) : Prop :=
  Alters code base symbol pair.1 i ∨ Alters code base symbol pair.2 i

def Tells (pair : Int × Int) : Prop := Grants code base symbol pair ∧ ∃ i, AltersEither code base symbol pair i

def TellsFirst (pairs : List (Int × Int)) (pair : Int × Int) : Prop :=
  ∃ before after, pairs = before ++ pair :: after ∧ (∀ q ∈ before, ¬Tells code base symbol q) ∧
    Tells code base symbol pair

/-- Nothing is found if no pair tells, and else the bytes that the first telling pair alters. -/
def Finds (pairs : List (Int × Int)) (nothing : Prop) (found : Nat → Prop) : Prop :=
  (nothing ↔ ∀ pair ∈ pairs, ¬Tells code base symbol pair) ∧
    ∀ pair, TellsFirst code base symbol pairs pair → ∀ i, found i ↔ AltersEither code base symbol pair i

end Sentinels

variable {code : Rendering} {base : Bytes} {symbol : String} {pair : Int × Int} {pairs : List (Int × Int)}

theorem Alters.lt_length {v : Int} {i : Nat} (h : Alters code base symbol v i) : i < base.length := by
  obtain ⟨c, hc, hne⟩ := h
  have hlength := ofLength_filter _ _ c hc
  by_contra hi
  rw [List.getElem?_eq_none (by omega), List.getElem?_eq_none (by omega)] at hne
  exact hne rfl

theorem alters_iff {v : Int} {other : Bytes} (hother : granted? code base symbol v = some other) (i : Nat) :
    Alters code base symbol v i ↔ i ∈ differences base other := by
  have hmem : i ∈ differences base other ↔ i < base.length ∧ base[i]? ≠ other[i]? := by simp [differences]
  rw [hmem]
  constructor
  · intro h
    refine ⟨h.lt_length, ?_⟩
    obtain ⟨found, hfound, hne⟩ := h
    obtain rfl := Option.some.inj (hother.symm.trans hfound)
    exact hne.symm
  · rintro ⟨-, hne⟩
    exact ⟨other, hother, hne.symm⟩

theorem Finds.skip {nothing : Prop} {found : Nat → Prop} (h : Finds code base symbol pairs nothing found)
    (hpair : ¬Tells code base symbol pair) : Finds code base symbol (pair :: pairs) nothing found := by
  constructor
  · rw [List.forall_mem_cons, h.1, and_iff_right hpair]
  · rintro q ⟨before, after, hpairs, hbefore, hq⟩
    apply h.2
    rcases List.cons_eq_append_iff.mp hpairs with ⟨rfl, hcons⟩ | ⟨before', rfl, hrest⟩
    · obtain ⟨rfl, -⟩ := List.cons.inj hcons
      exact absurd hq hpair
    · exact ⟨before', after, hrest, (List.forall_mem_cons.mp hbefore).2, hq⟩

theorem Finds.congr {nothing nothing' : Prop} {found found' : Nat → Prop}
    (h : Finds code base symbol pairs nothing found) (hnothing : nothing' ↔ nothing)
    (hfound : ∀ i, found' i ↔ found i) : Finds code base symbol pairs nothing' found' :=
  ⟨hnothing.trans h.1, fun pair hpair i => (hfound i).trans (h.2 pair hpair i)⟩

theorem Finds.of_mem_iff {rs rs' : List Relocation}
    (h : Finds code base symbol pairs (Unlocated rs symbol) (Covered rs symbol))
    (hmem : ∀ r, r.target = symbol → (r ∈ rs' ↔ r ∈ rs)) :
    Finds code base symbol pairs (Unlocated rs' symbol) (Covered rs' symbol) := by
  have hexists (P : Relocation → Prop) : (∃ r ∈ rs', r.target = symbol ∧ P r) ↔ ∃ r ∈ rs, r.target = symbol ∧ P r := by
    constructor
    · rintro ⟨r, hr, htarget, hP⟩
      exact ⟨r, (hmem r htarget).mp hr, htarget, hP⟩
    · rintro ⟨r, hr, htarget, hP⟩
      exact ⟨r, (hmem r htarget).mpr hr, htarget, hP⟩
  exact h.congr (hexists _) fun i => hexists _

theorem finds_first {nothing : Prop} {found : Nat → Prop} (hpair : Tells code base symbol pair) (hfound : ¬nothing)
    (h : ∀ i, found i ↔ AltersEither code base symbol pair i) :
    Finds code base symbol (pair :: pairs) nothing found := by
  constructor
  · constructor
    · exact fun hnothing => absurd hnothing hfound
    · exact fun hnone => absurd hpair (hnone pair List.mem_cons_self)
  · rintro q ⟨before, after, hpairs, hbefore, hq⟩
    rcases List.cons_eq_append_iff.mp hpairs with ⟨rfl, hcons⟩ | ⟨before', rfl, -⟩
    · obtain ⟨rfl, -⟩ := List.cons.inj hcons
      exact h
    · exact absurd hpair (hbefore pair List.mem_cons_self)

variable {env : Environment} {s : Source} {flags : EngineFlags}

section Search

variable (hflags : Numbering.assembler.flags? s.architecture = some flags)
  (hcode : ∀ clock value, env.assembler.code clock flags s.text s.address value = code value)
include hflags hcode

theorem call_values (values : List (String × Int)) : Meets (Session.Sound env) (call env s values)
    (fun r => (∃ clock, r = resultOf env clock flags s values) ∧
      r.map (·.code) = code ({ values } : Recorder).valueOf) fun _ => True := by
  apply (call_of_flags hflags values).mono
  · rintro r ⟨clock, rfl⟩
    refine ⟨⟨clock, rfl⟩, ?_⟩
    rw [resultOf_eq, hcode]
    cases code ({ values } : Recorder).valueOf <;> rfl
  · exact fun _ _ => trivial

theorem probe_values (values : List (String × Int)) : Meets (Session.Sound env) (probe env s values)
    (· = (code ({ values } : Recorder).valueOf).toOption) fun _ => True := by
  apply (probe_of_flags hflags values).mono
  · rintro c ⟨clock, rfl⟩
    rw [hcode]
  · exact fun _ _ => trivial

theorem trial_values (base : Bytes) (symbol : String) (v : Int) :
    Meets (Session.Sound env) (trial env s symbol base.length v) (· = granted? code base symbol v) fun _ => True := by
  refine (probe_values hflags hcode _).bind ?_
  rintro c rfl
  exact meets_pure rfl

theorem changes_values (base : Bytes) (symbol : String) (pair : Int × Int) :
    Meets (Session.Sound env) (changes env s symbol base pair)
      (fun os => (os.isSome ↔ Grants code base symbol pair) ∧
        ∀ l ∈ os, ∀ i, i ∈ l ↔ AltersEither code base symbol pair i) fun _ => True := by
  refine (trial_values hflags hcode base symbol pair.1).bind ?_
  intro first hfirst
  cases first with
  | none => exact meets_pure (by simp [Grants, ← hfirst])
  | some first =>
    refine (trial_values hflags hcode base symbol pair.2).bind ?_
    intro second hsecond
    cases second with
    | none => exact meets_pure (by simp [Grants, ← hsecond])
    | some second =>
      apply meets_pure
      refine ⟨by simp [Grants, ← hfirst, ← hsecond], ?_⟩
      intro l hl i
      obtain rfl := Option.some.inj hl
      rw [AltersEither, alters_iff hfirst.symm, alters_iff hsecond.symm]
      simp only [List.mem_filter, List.mem_range, Bool.or_eq_true, decide_eq_true_eq, and_iff_right_iff_imp,
        differences]
      rintro (⟨hi, -⟩ | ⟨hi, -⟩) <;> exact hi

theorem findFields_finds (base : Bytes) (symbol : String) (pairs : List (Int × Int)) :
    Meets (Session.Sound env) (findFields env s symbol base pairs)
      (fun fs => Finds code base symbol pairs (fs = []) fun i => ∃ f ∈ fs, f.Covers i) fun _ => True := by
  induction pairs with
  | nil =>
    apply meets_pure
    constructor
    · simp
    · rintro pair ⟨before, after, hpairs, -⟩
      simp at hpairs
  | cons pair rest ih =>
    have hskip (hpair : ¬Tells code base symbol pair) := ih.mono (fun _ h => h.skip hpair) fun _ h => h
    refine (changes_values hflags hcode base symbol pair).bind ?_
    rintro (_ | _ | ⟨o, os⟩) ⟨hgrants, hos⟩
    · apply hskip
      rintro ⟨hgrant, -⟩
      exact absurd (hgrants.mpr hgrant) (by simp)
    · apply hskip
      rintro ⟨-, i, hi⟩
      exact List.not_mem_nil ((hos _ rfl i).mpr hi)
    · have hlt : ∀ i ∈ o :: os, i < base.length := by
        intro i hi
        rcases (hos _ rfl i).mp hi with halters | halters
        · exact halters.lt_length
        · exact halters.lt_length
      have htells : Tells code base symbol pair := ⟨hgrants.mp rfl, o, (hos _ rfl o).mp List.mem_cons_self⟩
      apply meets_pure
      apply finds_first htells
      · obtain ⟨f, hf, -⟩ := (Field.covers_ofRun_iff hlt o).mpr List.mem_cons_self
        exact List.ne_nil_of_mem hf
      · intro i
        rw [Field.covers_ofRun_iff hlt]
        exact hos _ rfl i

theorem relocationsOf_finds (base : Bytes) (symbol : String) :
    Meets (Session.Sound env) (relocationsOf env s base symbol)
      (fun rs => (∀ r ∈ rs, r.target = symbol) ∧
        Finds code base symbol sentinels (Unlocated rs symbol) (Covered rs symbol)) fun _ => True := by
  refine (findFields_finds hflags hcode base symbol sentinels).bind ?_
  rintro (_ | ⟨f, fs⟩) hfound
  · apply meets_pure
    refine ⟨by simp, hfound.congr ?_ ?_⟩
    · simp [Unlocated]
    · simp [Covered, Relocation.Covers]
  · have hplace := ((bears_compositional env s.architecture).place s rfl symbol base (f :: fs)).mono
      (fun _ h => h) fun _ _ => trivial
    refine hplace.bind ?_
    intro placed _
    apply meets_pure
    refine ⟨?_, hfound.congr ?_ ?_⟩
    · intro r hr
      obtain ⟨g, -, rfl⟩ := List.mem_map.mp hr
      rfl
    · simp [Unlocated]
    · intro i
      simp only [Covered, Relocation.Covers, Field.Covers, List.mem_map, exists_exists_and_eq_and, Option.some.injEq,
        exists_eq_left', true_and]
      apply exists_congr
      intro g
      apply and_congr_right
      intro _
      omega

theorem relocationsOfAll_finds (base : Bytes) {symbols : List String} (hnodup : symbols.Nodup) :
    Meets (Session.Sound env) (relocationsOfAll env s base symbols)
      (fun rs => (∀ r ∈ rs, r.target ∈ symbols) ∧ ∀ symbol ∈ symbols,
        Finds code base symbol sentinels (Unlocated rs symbol) (Covered rs symbol)) fun _ => True := by
  induction symbols with
  | nil => exact meets_pure (by simp)
  | cons symbol rest ih =>
    obtain ⟨hnew, hnodup⟩ := List.nodup_cons.mp hnodup
    refine (relocationsOf_finds hflags hcode base symbol).bind ?_
    rintro here ⟨htarget, hhere⟩
    refine (ih hnodup).bind ?_
    rintro others ⟨htargets, hothers⟩
    apply meets_pure
    constructor
    · intro r hr
      rcases List.mem_append.mp hr with hr | hr
      · exact htarget r hr ▸ List.mem_cons_self
      · exact List.mem_cons_of_mem _ (htargets r hr)
    · intro name hname
      rcases List.mem_cons.mp hname with rfl | hname
      · apply hhere.of_mem_iff
        intro r hr
        have hnot : r ∉ others := fun hmem => hnew (hr ▸ htargets r hmem)
        simp [hnot]
      · apply (hothers name hname).of_mem_iff
        intro r hr
        have hnot : r ∉ here := fun hmem => hnew (htarget r hmem ▸ hr ▸ hname)
        simp [hnot]

end Search

theorem assembleWhole_finds (hflags : Numbering.assembler.flags? s.architecture = some flags)
    (hcode : ∀ clock value,
      env.assembler.code clock flags (prepare s.architecture s.text) s.address value = code value) :
    Meets (Session.Sound env) (assembleWhole env s) (fun p => code (fun _ => 0) = .ok p.code ∧
      ∀ symbol ∈ p.unresolved,
        Finds code p.code symbol sentinels (Unlocated p.relocations symbol) (Covered p.relocations symbol))
      fun _ => True := by
  refine (call_values (s := { s with text := prepare s.architecture s.text }) hflags hcode []).bind ?_
  rintro (refusal | assembled) ⟨⟨clock, hresult⟩, hbase⟩
  · have hlocate := ((bears_compositional env s.architecture).locate s.address
      (statements (prepare s.architecture s.text))).mono (fun _ h => h) fun _ _ => trivial
    refine hlocate.bind ?_
    intro place _
    exact meets_throw trivial
  · have hnodup : assembled.symbols.Nodup := by
      rw [symbols_resultOf hresult.symm]
      exact Dialogue.nodup_symbols_answer _ List.nodup_nil
    refine (relocationsOfAll_finds (s := { s with text := prepare s.architecture s.text }) hflags hcode
      assembled.code hnodup).bind ?_
    rintro rs ⟨htargets, hfinds⟩
    apply meets_pure
    refine ⟨hbase.symm, ?_⟩
    intro symbol hsymbol
    have hperm := List.mergeSort_perm rs Relocation.precedes
    obtain ⟨r, hr, rfl⟩ := (Payload.mem_unresolved _ _).mp hsymbol
    apply (hfinds r.target (htargets r (hperm.mem_iff.mp hr))).of_mem_iff
    intro q _
    exact hperm.mem_iff

end Assembler

end AssemblyConsole
