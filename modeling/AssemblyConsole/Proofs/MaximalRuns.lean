import AssemblyConsole.Proofs.Runs
import Mathlib.Data.List.Sort

/-!
The runs of a list of offsets are told by what they hold: they are found reading the offsets from either side, and those
of ascending offsets are the maximal intervals of them.
-/

namespace AssemblyConsole.Run

/-- A further offset is the next one of the last run, or else begins a run. -/
def extend (rs : List Run) (o : Int) : List Run :=
  match rs.getLast? with
  | none => [⟨o, 1⟩]
  | some r => if r.stop = o then rs.dropLast ++ [⟨r.start, r.length + 1⟩] else rs ++ [⟨o, 1⟩]

/-- An interval of offsets that no larger one contains. -/
structure MaximalIn (os : List Int) (r : Run) : Prop where
  nonempty : 1 ≤ r.length
  inside : ∀ o ∈ r.offsets, o ∈ os
  widest : ∀ s : Run, (∀ o ∈ s.offsets, o ∈ os) → (∀ o ∈ r.offsets, o ∈ s.offsets) → s = r

/-- Maximal intervals that ascend without a common offset and leave no offset out. -/
structure MaximalIntervals (os : List Int) (rs : List Run) : Prop where
  disjoint : rs.Pairwise fun r s => r.stop ≤ s.start
  maximal : ∀ r ∈ rs, MaximalIn os r
  covers : ∀ o ∈ os, ∃ r ∈ rs, o ∈ r.offsets

variable {os : List Int} {rs : List Run} {r s : Run}

theorem Divides.extend (h : Divides os rs) (o : Int) : Divides (os ++ [o]) (extend rs o) := by
  obtain ⟨rfl, hpos, hapart⟩ := h
  rcases List.eq_nil_or_concat' rs with rfl | ⟨before, r, rfl⟩
  · exact ⟨offsets_singleton o, by simp [Run.extend], .singleton _⟩
  · obtain ⟨hbefore, hr⟩ := List.forall_mem_append.mp hpos
    obtain ⟨hchain, -, hlast⟩ := List.isChain_append.mp hapart
    rw [Run.extend, List.getLast?_concat]
    simp only
    split
    · rename_i hstop
      rw [List.dropLast_concat]
      refine ⟨?_, List.forall_mem_append.mpr ⟨hbefore, by simp⟩, List.isChain_append.mpr ⟨hchain, .singleton _, ?_⟩⟩
      · have hlonger : offsets ⟨r.start, r.length + 1⟩ = r.offsets ++ offsets ⟨o, 1⟩ :=
          offsets_append r ⟨o, 1⟩ hstop.symm
        simp [hlonger, offsets_singleton]
      · simpa using hlast
    · rename_i hstop
      refine ⟨?_, List.forall_mem_append.mpr ⟨hpos, by simp⟩, List.isChain_append.mpr ⟨hapart, .singleton _, ?_⟩⟩
      · simp [offsets_singleton]
      · simpa using Ne.symm hstop

theorem Divides.foldl (h : Divides os rs) (more : List Int) : Divides (os ++ more) (more.foldl Run.extend rs) := by
  induction more generalizing os rs with
  | nil => rwa [List.append_nil]
  | cons o more ih =>
    rw [List.append_cons]
    exact ih (h.extend o)

theorem ofOffsets_eq_foldl (os : List Int) : os.foldl extend [] = ofOffsets os :=
  Divides.eq ((divides_ofOffsets []).foldl os)

theorem eq_of_ends (hstart : r.start = s.start) (hstop : r.stop = s.stop) : r = s := by
  obtain ⟨start, length⟩ := r
  obtain ⟨start', length'⟩ := s
  simp only [stop] at hstart hstop
  simp only [mk.injEq]
  omega

theorem pairwise_offsets (r : Run) : r.offsets.Pairwise (· < ·) := by
  apply List.pairwise_map.mpr
  apply List.pairwise_lt_range.imp
  intro i j hij
  omega

section Ascending

variable (hos : os.Pairwise (· < ·))
include hos

theorem eq_of_near (hr : r ∈ ofOffsets os) (hs : s ∈ ofOffsets os) (hrs : s.start ≤ r.stop) (hsr : r.start ≤ s.stop) :
    s = r := by
  have hsymm : Std.Symm fun r s : Run => r.stop < s.start ∨ s.stop < r.start := ⟨fun _ _ => Or.symm⟩
  have hapart : (ofOffsets os).Pairwise fun r s => r.stop < s.start ∨ s.stop < r.start :=
    (pairwise_ofOffsets hos).imp .inl
  by_contra hne
  have := hapart.forall hs hr hne
  omega

theorem beside_notMem (hr : r ∈ ofOffsets os) : r.start - 1 ∉ os ∧ r.stop ∉ os := by
  have hlength := length_pos os r hr
  constructor
  · intro hmem
    obtain ⟨s, hs, ho⟩ := (mem_iff_exists_run os _).mp hmem
    rw [mem_offsets] at ho
    obtain rfl := eq_of_near hos hr hs (by rw [stop]; omega) (by omega)
    omega
  · intro hmem
    obtain ⟨s, hs, ho⟩ := (mem_iff_exists_run os _).mp hmem
    rw [mem_offsets] at ho
    obtain rfl := eq_of_near hos hr hs ho.1 (by rw [stop] at ho; omega)
    omega

theorem maximalIn_of_mem (hr : r ∈ ofOffsets os) : MaximalIn os r where
  nonempty := length_pos os r hr
  inside := fun o ho => (mem_iff_exists_run os o).mpr ⟨r, hr, ho⟩
  widest := by
    intro s hinside hcontains
    obtain ⟨hfirst, hlast⟩ := ends_mem_offsets (length_pos os r hr)
    have hstart := (mem_offsets s _).mp (hcontains _ hfirst)
    have hstop := (mem_offsets s _).mp (hcontains _ hlast)
    obtain ⟨hbefore, hbehind⟩ := beside_notMem hos hr
    -- a longer interval would hold an offset beside the run
    have hstart' : ¬s.start < r.start := fun hlt => hbefore (hinside _ ((mem_offsets s _).mpr (by omega)))
    have hstop' : ¬r.stop < s.stop := fun hlt => hbehind (hinside _ ((mem_offsets s _).mpr (by omega)))
    exact eq_of_ends (by omega) (by omega)

theorem maximalIntervals_ofOffsets : MaximalIntervals os (ofOffsets os) where
  disjoint := (pairwise_ofOffsets hos).imp fun h => Int.le_of_lt h
  maximal := fun _ hr => maximalIn_of_mem hos hr
  covers := fun o ho => (mem_iff_exists_run os o).mp ho

theorem MaximalIntervals.divides (h : MaximalIntervals os rs) : Divides os rs where
  lossless := by
    have hascending : (rs.flatMap offsets).Pairwise (· < ·) := by
      rw [List.pairwise_flatMap]
      refine ⟨fun r _ => pairwise_offsets r, h.disjoint.imp ?_⟩
      intro r s hrs o ho p hp
      rw [mem_offsets] at ho hp
      omega
    apply hascending.eq_of_mem_iff hos
    intro o
    rw [List.mem_flatMap]
    constructor
    · rintro ⟨r, hr, ho⟩
      exact (h.maximal r hr).inside o ho
    · exact h.covers o
  nonempty := fun r hr => (h.maximal r hr).nonempty
  apart := by
    apply List.Pairwise.isChain
    apply h.disjoint.imp_of_mem
    intro r s hr hs _ hnext
    have hs := h.maximal s hs
    have hr := h.maximal r hr
    -- both together are an interval, so that neither is maximal
    have hboth : (⟨r.start, r.length + s.length⟩ : Run) = r := by
      apply hr.widest
      · rw [offsets_append r s hnext]
        exact List.forall_mem_append.mpr ⟨hr.inside, hs.inside⟩
      · rw [offsets_append r s hnext]
        exact fun o ho => List.mem_append_left _ ho
    have hlength := congrArg Run.length hboth
    have hpos := hs.nonempty
    simp only at hlength
    omega

end Ascending

/-- The runs are the only nonempty runs that hold the offsets in their order so that none begins where the one in front
of it stops, and the offsets read one after another give them too. Those of ascending offsets are the only maximal
intervals that ascend without a common offset and leave none out. -/
theorem ofOffsets_lossless_maximal (os : List Int) :
    (∀ rs, Divides os rs ↔ rs = ofOffsets os) ∧ os.foldl extend [] = ofOffsets os ∧
      (os.Pairwise (· < ·) → ∀ rs, MaximalIntervals os rs ↔ rs = ofOffsets os) := by
  refine ⟨?_, ofOffsets_eq_foldl os, ?_⟩
  · intro rs
    constructor
    · exact Divides.eq
    · rintro rfl
      exact divides_ofOffsets os
  · intro hos rs
    constructor
    · intro h
      exact (h.divides hos).eq
    · rintro rfl
      exact maximalIntervals_ofOffsets hos

theorem ofOffsets_lossless_maximal_ascending : ([3, 4, 5, 9, 11, 12] : List Int).Pairwise (· < ·) ∧
    Divides [3, 4, 5, 9, 11, 12] [⟨3, 3⟩, ⟨9, 1⟩, ⟨11, 2⟩] ∧
    MaximalIntervals [3, 4, 5, 9, 11, 12] [⟨3, 3⟩, ⟨9, 1⟩, ⟨11, 2⟩] ∧
    ¬MaximalIntervals [3, 4, 5, 9, 11, 12] [⟨3, 2⟩, ⟨5, 1⟩, ⟨9, 1⟩, ⟨11, 2⟩] := by
  have hos : ([3, 4, 5, 9, 11, 12] : List Int).Pairwise (· < ·) := by decide
  obtain ⟨hdivides, -, hmaximal⟩ := ofOffsets_lossless_maximal [3, 4, 5, 9, 11, 12]
  exact ⟨hos, (hdivides _).mpr (by decide), (hmaximal hos _).mpr (by decide),
    fun h => absurd ((hmaximal hos _).mp h) (by decide)⟩

end AssemblyConsole.Run
