import AssemblyConsole.Assembler.Assemble
import AssemblyConsole.Proofs.FieldBounds
import AssemblyConsole.Proofs.FieldSearch

/-!
Each slot of a symbol is measured against the label, and its placeholder is the slot's word for the placeholder
address.
-/

namespace AssemblyConsole

open AssemblyConsole.Action

namespace Layout

def relocation (L : Layout) (f : Slot) : Relocation where
  offset := some (f.field.offset : Int)
  target := f.symbol
  size := f.field.size
  placeholder := word L.order f.field.size (Relocation.placeholderAddress + f.constant)

def unlocated (symbol : String) : Relocation := { offset := none, target := symbol }

def relocationsOf (L : Layout) (symbol : String) : List Relocation :=
  if L.slotsOf symbol = [] then [unlocated symbol] else (L.slotsOf symbol).map L.relocation

/-- What trials have shown is what the layout says. -/
def Trusts (L : Layout) (symbol : String) (trials : Assembler.Trials) : Prop :=
  ∀ v code, trials.lookup v = some code → code = some (L.valued symbol v)

end Layout

namespace Assembler

theorem mem_distances_iff (d : Int) : d ∈ distances ↔ -16 ≤ d ∧ d ≤ 16 := by
  simp only [distances, List.mem_cons, List.mem_flatMap, List.mem_range, List.not_mem_nil, or_false]
  constructor
  · rintro (rfl | ⟨i, hi, rfl | rfl⟩) <;> omega
  · intro hd
    by_cases hzero : d = 0
    · exact .inl hzero
    · exact .inr ⟨d.natAbs - 1, by omega, by omega⟩

variable {env : Environment} {s : Source} {flags : EngineFlags} {L : Layout} {symbol : String}
  (hflags : Numbering.assembler.flags? s.architecture = some flags)
  (h : env.assembler.Follows flags s.text s.address L)
include hflags h

theorem withLabel_follows {f : Slot} (hf : f ∈ L.slotsOf symbol) :
    Meets (Session.Sound env) (withLabel env s symbol L.template.length)
      (fun l => ∃ label, l = some label ∧ L.Labels symbol label.address label.code) fun _ => False := by
  obtain ⟨hslot, rfl⟩ := Layout.mem_slotsOf.mp hf
  have hstart := probe_granted (s := { s with text := labelLine f.symbol s.text }) hflags h.opens []
  rw [valueOf_nil] at hstart
  rcases h.labels f hslot with hlabels | ⟨hrefuses, hgap, hlabels⟩
  · refine hstart.bind ?_
    rintro c ⟨clock, rfl⟩
    obtain ⟨code, hcode, hl⟩ := hlabels clock
    simp only [hcode, Except.toOption, Option.filter_some, hl.length, decide_true, if_true]
    exact meets_pure ⟨_, rfl, hl⟩
  · refine hstart.bind ?_
    rintro c ⟨clock, rfl⟩
    have hnone : (env.assembler.code clock flags (labelLine f.symbol s.text) s.address fun _ => 0).toOption.filter
        (·.length = L.template.length) = none := by
      cases hcode : env.assembler.code clock flags (labelLine f.symbol s.text) s.address fun _ => 0 with
      | error r => rfl
      | ok code => simp [Except.toOption, hrefuses clock code hcode]
    rw [hnone]
    simp only [if_neg (Int.not_lt.mpr hgap)]
    have hpadded := probe_granted (s := { s with
      text := paddedLabelLine f.symbol s.text
      address := s.address - gap }) hflags h.opens []
    rw [valueOf_nil] at hpadded
    refine hpadded.bind ?_
    rintro c ⟨clock, rfl⟩
    obtain ⟨before, code, hcode, hbefore, hl⟩ := hlabels clock
    refine meets_pure ⟨⟨s.address - gap, code⟩, ?_, hl⟩
    simp [hcode, Except.toOption, hbefore, hl.length]

theorem retry_follows {trials : Trials} (ht : L.Trusts symbol trials) (v : Int) :
    Meets (Session.Sound env) (retry env s symbol L.template.length trials v)
      (fun r => r.1 = some (L.valued symbol v) ∧ L.Trusts symbol r.2) fun _ => False :=
  retry_meets env s symbol (fun v => trial_follows hflags h symbol v) ht v

/-- The slot's displacement is the one distance at which the slot has the label's bytes. -/
theorem placeField_follows {label : Labelled} (hl : L.Labels symbol label.address label.code) {f : Slot}
    (hf : f ∈ L.slotsOf symbol) {ds : List Int} (hds : ∀ d ∈ ds, -16 ≤ d ∧ d ≤ 16) (hd : f.displacement ∈ ds)
    {trials : Trials} (ht : L.Trusts symbol trials) :
    Meets (Session.Sound env) (placeField env s symbol L.template.length label f.field ds trials)
      (fun r => r.1 = some (L.relocation f).placeholder ∧ L.Trusts symbol r.2) fun _ => False := by
  obtain ⟨hslot, hs⟩ := Layout.mem_slotsOf.mp hf
  have hnear := L.near f hslot
  induction ds generalizing trials with
  | nil => simp at hd
  | cons d ds ih =>
    obtain ⟨hdnear, hds⟩ := List.forall_mem_cons.mp hds
    refine (retry_follows hflags h ht _).bind ?_
    rintro ⟨_, trials⟩ ⟨rfl, ht⟩
    simp only [Option.map_some, Option.some.injEq, Layout.bytes_valued hf, hl.shows f hslot hs]
    split
    · rename_i hfound
      -- two distances are at most 32 apart, so the lowest byte of the slot already tells them apart
      have hdisplacement := eq_of_word_eq (L.sized f hslot).1 hfound (by omega)
      refine (retry_follows hflags h ht _).bind ?_
      rintro ⟨_, trials⟩ ⟨rfl, ht⟩
      have hplaceholder : Relocation.placeholderAddress - d + f.displacement = Relocation.placeholderAddress := by
        omega
      refine meets_pure ⟨?_, ht⟩
      rw [Option.map_some, Layout.bytes_valued hf, hplaceholder]
      rfl
    · rename_i hmissed
      apply ih hds _ ht
      rcases List.mem_cons.mp hd with rfl | hd
      · exact absurd (by congr 1; omega) hmissed
      · exact hd

theorem placeFields_follows {label : Labelled} (hl : L.Labels symbol label.address label.code) {fs : List Slot}
    (hfs : ∀ f ∈ fs, f ∈ L.slotsOf symbol) {trials : Trials} (ht : L.Trusts symbol trials) (placed : Bytes) :
    Meets (Session.Sound env) (placeFields env s symbol L.template.length label (fs.map (·.field)) trials placed)
      (· = writeSlots L.order (fun f => Relocation.placeholderAddress + f.constant) fs placed) fun _ => False := by
  induction fs generalizing trials placed with
  | nil => exact meets_pure rfl
  | cons f fs ih =>
    obtain ⟨hf, hfs⟩ := List.forall_mem_cons.mp hfs
    have hd := (mem_distances_iff _).mpr (L.near f (Layout.mem_slotsOf.mp hf).1)
    refine (placeField_follows hflags h hl hf (fun d => (mem_distances_iff d).mp) hd ht).bind ?_
    rintro ⟨_, trials⟩ ⟨rfl, ht⟩
    exact ih hfs ht _

theorem place_follows {f : Slot} (hf : f ∈ L.slotsOf symbol) :
    Meets (Session.Sound env) (place env s symbol L.initial ((L.slotsOf symbol).map (·.field)))
      (fun placed => ∀ g ∈ L.slotsOf symbol, g.field.bytes placed = (L.relocation g).placeholder) fun _ => False := by
  unfold place
  rw [L.length_initial]
  refine (withLabel_follows hflags h hf).bind ?_
  rintro _ ⟨label, rfl, hl⟩
  simp only
  split
  · rename_i hzero
    refine meets_pure ?_
    intro g hg
    obtain ⟨hg, hs⟩ := Layout.mem_slotsOf.mp hg
    rw [hl.shows g hg hs, hzero, Layout.relocation]
  · refine (placeFields_follows hflags h hl (fun _ hg => hg) ?_ _).mono ?_ fun _ h => h
    · intro v code hlookup
      simp at hlookup
    · rintro _ rfl g hg
      have hin : ∀ g ∈ L.slotsOf symbol, g.field.offset + g.field.size ≤ L.template.length :=
        fun g hg => L.inside g (Layout.mem_slotsOf.mp hg).1
      exact bytes_writeSlots L.length_initial hin ((L.slotsOf_apart symbol).imp Nat.le_of_lt) hg

theorem relocationsOf_follows (symbol : String) :
    Meets (Session.Sound env) (relocationsOf env s L.initial symbol) (· = L.relocationsOf symbol)
      fun _ => False := by
  refine (findFields_follows hflags h symbol).bind ?_
  rintro _ rfl
  cases hslots : L.slotsOf symbol with
  | nil =>
    refine meets_pure ?_
    rw [Layout.relocationsOf, if_pos hslots, Layout.unlocated]
  | cons f fs =>
    have hf : f ∈ L.slotsOf symbol := by
      rw [hslots]
      exact List.mem_cons_self
    have hplace := place_follows hflags h hf
    rw [hslots] at hplace
    refine hplace.bind ?_
    intro placed hplaced
    refine meets_pure ?_
    rw [Layout.relocationsOf, if_neg (by simp [hslots]), ← hslots, List.map_map]
    apply List.map_congr_left
    intro g hg
    have hbytes := hplaced g (by rwa [← hslots])
    rw [Function.comp_apply, hbytes, ← (Layout.mem_slotsOf.mp hg).2]
    rfl

theorem relocationsOfAll_follows (symbols : List String) :
    Meets (Session.Sound env) (relocationsOfAll env s L.initial symbols) (· = symbols.flatMap L.relocationsOf)
      fun _ => False := by
  induction symbols with
  | nil => exact meets_pure rfl
  | cons symbol rest ih =>
    refine (relocationsOf_follows hflags h symbol).bind ?_
    rintro _ rfl
    refine ih.bind ?_
    rintro _ rfl
    exact meets_pure rfl

end Assembler

end AssemblyConsole
