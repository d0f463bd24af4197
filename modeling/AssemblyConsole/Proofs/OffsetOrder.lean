import AssemblyConsole.Proofs.FieldWords
import AssemblyConsole.Proofs.PartsInOrder
import AssemblyConsole.Proofs.RelocationOrder

/-!
The order of the relocations of a payload that is put together from parts. The relocations of each part are in order,
and the located ones stay so behind one another, but those without an offset stay with their part, in front of what
the parts behind it have.
-/

namespace AssemblyConsole

open AssemblyConsole.Action

namespace Relocation

variable {rs : List Relocation}

/-- The located relocations come first, no offset after a higher one, and behind them those without an offset. -/
def InOffsetOrder (rs : List Relocation) : Prop :=
  ∃ (offsets : List Int) (n : Nat), offsets.Pairwise (· ≤ ·) ∧
    rs.map (·.offset) = offsets.map some ++ List.replicate n none

/-- Behind a relocation without an offset there is none that has one. -/
def LocatedFirst (rs : List Relocation) : Prop := rs.Pairwise fun r s => r.offset = none → s.offset = none

theorem precedes_iff (r s : Relocation) : r.precedes s ↔
    (∀ a, r.offset = some a → ∀ b, s.offset = some b → a ≤ b) ∧ (r.offset = none → s.offset = none) := by
  unfold precedes
  cases r.offset <;> cases s.offset <;> simp

theorem LocatedFirst.offsets (h : LocatedFirst rs) :
    ∃ n, rs.map (·.offset) = (rs.filterMap (·.offset)).map some ++ List.replicate n none := by
  induction rs with
  | nil => exact ⟨0, rfl⟩
  | cons r rs ih =>
    obtain ⟨hr, hrs⟩ := List.pairwise_cons.mp h
    obtain ⟨n, hn⟩ := ih hrs
    cases hoffset : r.offset with
    | some a =>
      refine ⟨n, ?_⟩
      rw [List.map_cons, hn, List.filterMap_cons_some hoffset, List.map_cons, hoffset, List.cons_append]
    | none =>
      have hnone : ∀ s ∈ r :: rs, s.offset = none := List.forall_mem_cons.mpr ⟨hoffset, fun s hs => hr s hs hoffset⟩
      have hoffsets : (r :: rs).filterMap (·.offset) = [] := List.filterMap_eq_nil_iff.mpr hnone
      refine ⟨(r :: rs).length, ?_⟩
      rw [hoffsets, List.map_nil, List.nil_append]
      apply List.eq_replicate_iff.mpr
      simpa using hnone

theorem inOffsetOrder_iff (rs : List Relocation) :
    InOffsetOrder rs ↔ (rs.filterMap (·.offset)).Pairwise (· ≤ ·) ∧ LocatedFirst rs := by
  constructor
  · rintro ⟨offsets, n, hascending, hrs⟩
    have hoffsets : rs.filterMap (·.offset) = offsets := by
      calc rs.filterMap (·.offset) = (rs.map (·.offset)).filterMap id := by rw [List.filterMap_map, Function.id_comp]
        _ = (offsets.map some ++ List.replicate n none).filterMap id := by rw [hrs]
        _ = offsets := by simp
    have hlocated : (rs.map (·.offset)).Pairwise fun a b => a = none → b = none := by
      rw [hrs, List.pairwise_append, List.pairwise_map]
      exact ⟨List.pairwise_of_forall (by simp), by simp [List.pairwise_replicate], by simp⟩
    exact ⟨hoffsets ▸ hascending, List.pairwise_map.mp hlocated⟩
  · rintro ⟨hascending, hlocated⟩
    obtain ⟨n, hn⟩ := hlocated.offsets
    exact ⟨_, n, hascending, hn⟩

theorem inOffsetOrder_iff_precedes (rs : List Relocation) :
    InOffsetOrder rs ↔ rs.Pairwise fun r s => r.precedes s := by
  rw [inOffsetOrder_iff, LocatedFirst, List.pairwise_filterMap, ← List.pairwise_and_iff]
  simp only [precedes_iff]

theorem inOffsetOrder_mergeSort (rs : List Relocation) : InOffsetOrder (rs.mergeSort precedes) :=
  (inOffsetOrder_iff_precedes _).mpr (List.pairwise_mergeSort precedes_trans precedes_total rs)

theorem offset_shift_eq_none (n : Nat) (r : Relocation) : (r.shift n).offset = none ↔ r.offset = none :=
  Option.map_eq_none_iff

end Relocation

open Relocation

namespace Payload

variable {qs : List Payload}

theorem offset_behind (hqs : ∀ q ∈ qs, q.WellFormed) {n : Nat} {r : Relocation} (hr : r ∈ relocationsBehind n qs)
    {a : Int} (ha : r.offset = some a) : n ≤ a := by
  induction qs generalizing n with
  | nil => simp [relocationsBehind] at hr
  | cons q qs ih =>
    obtain ⟨hq, hqs⟩ := List.forall_mem_cons.mp hqs
    rcases List.mem_append.mp hr with hr | hr
    · obtain ⟨k, hk, rfl⟩ := List.mem_map.mp hr
      obtain ⟨i, hi, rfl⟩ := offset_shift ha
      have hstart := (hq.fits k hk i hi).2.1
      omega
    · have hbehind := ih hqs hr
      omega

theorem ascending_behind (hqs : ∀ q ∈ qs, q.WellFormed)
    (horder : ∀ q ∈ qs, (q.relocations.filterMap (·.offset)).Pairwise (· ≤ ·)) (n : Nat) :
    ((relocationsBehind n qs).filterMap (·.offset)).Pairwise (· ≤ ·) := by
  induction qs generalizing n with
  | nil => exact .nil
  | cons q qs ih =>
    obtain ⟨hq, hrest⟩ := List.forall_mem_cons.mp hqs
    obtain ⟨hsorted, hsorts⟩ := List.forall_mem_cons.mp horder
    rw [List.pairwise_filterMap] at hsorted ⊢
    rw [relocationsBehind, List.pairwise_append, List.pairwise_map]
    refine ⟨?_, List.pairwise_filterMap.mp (ih hrest hsorts _), ?_⟩
    · apply hsorted.imp
      intro r s hrs a ha b hb
      obtain ⟨i, hi, rfl⟩ := offset_shift ha
      obtain ⟨j, hj, rfl⟩ := offset_shift hb
      have hij := hrs i hi j hj
      omega
    -- a field of this part ends where the next part begins, if not earlier
    · intro r hr s hs a ha b hb
      obtain ⟨k, hk, rfl⟩ := List.mem_map.mp hr
      obtain ⟨i, hi, rfl⟩ := offset_shift ha
      obtain ⟨hsize, -, hstop, -⟩ := hq.fits k hk i hi
      have hlength := hq.length_filled
      have hbehind := offset_behind hrest hs hb
      omega

theorem unlocated_behind (n : Nat) (qs : List Payload) :
    (∀ s ∈ relocationsBehind n qs, s.offset = none) ↔ ∀ q ∈ qs, ∀ s ∈ q.relocations, s.offset = none := by
  induction qs generalizing n with
  | nil => simp [relocationsBehind]
  | cons q qs ih =>
    simp only [relocationsBehind, List.forall_mem_append, List.forall_mem_map, offset_shift_eq_none, ih,
      List.forall_mem_cons]

theorem locatedFirst_behind (n : Nat) (qs : List Payload) : LocatedFirst (relocationsBehind n qs) ↔
    (∀ q ∈ qs, LocatedFirst q.relocations) ∧
      qs.Pairwise fun q q' => (∃ r ∈ q.relocations, r.offset = none) → ∀ s ∈ q'.relocations, s.offset = none := by
  unfold LocatedFirst
  induction qs generalizing n with
  | nil => simp [relocationsBehind]
  | cons q qs ih =>
    simp only [relocationsBehind, List.pairwise_append, List.pairwise_map, offset_shift_eq_none, ih,
      List.forall_mem_map, List.forall_mem_cons, List.pairwise_cons]
    have hbehind := unlocated_behind (n + q.filled.length) qs
    constructor
    · rintro ⟨hq, ⟨hqs, hpairs⟩, hacross⟩
      refine ⟨⟨hq, hqs⟩, ?_, hpairs⟩
      rintro q' hq' ⟨r, hr, hnone⟩
      exact hbehind.mp (fun s hs => hacross r hr s hs hnone) q' hq'
    · rintro ⟨⟨hq, hqs⟩, hfirst, hpairs⟩
      refine ⟨hq, ⟨hqs, hpairs⟩, ?_⟩
      intro r hr s hs hnone
      exact hbehind.mpr (fun q' hq' => hfirst q' hq' ⟨r, hr, hnone⟩) s hs

end Payload

namespace Assembler

open SpecialForm

variable {env : Environment} {s : Source} {a : Architecture} {address : Int} {session t : Session}
  {parts : List Part} {qs : List Payload} {p : Payload}

theorem assembleWhole_inOffsetOrder (env : Environment) (s : Source) :
    Yields (assembleWhole env s) fun p => InOffsetOrder p.relocations := by
  refine (yields_any _).bind ?_
  rintro (refusal | assembled) -
  · exact (refused_never env s refusal _ _).mono (fun _ h => h.elim) fun _ h => h
  · refine (yields_any _).bind ?_
    intro relocations _
    exact meets_pure (inOffsetOrder_mergeSort relocations)

theorem InOrder.inOffsetOrder (hparts : ∀ text, .ordinary text ∈ parts → (split text).any (·.isSpecial) = false)
    (h : InOrder env a address session parts qs t) : ∀ q ∈ qs, InOffsetOrder q.relocations := by
  induction h with
  | nil => simp
  | special _ ih =>
    have hbefore := ih fun text htext => hparts text (List.mem_append_left _ htext)
    intro q hq
    rcases List.mem_append.mp hq with hq | hq
    · exact hbefore q hq
    · rw [List.mem_singleton.mp hq]
      exact ⟨[], 0, .nil, rfl⟩
  | ordinary _ hq ih =>
    have hbefore := ih fun text htext => hparts text (List.mem_append_left _ htext)
    rw [assemble_eq_assembleWhole hparts (by simp)] at hq
    intro q' hq'
    rcases List.mem_append.mp hq' with hq' | hq'
    · exact hbefore q' hq'
    · rw [List.mem_singleton.mp hq']
      exact (assembleWhole_inOffsetOrder env _).of_outcome (by rw [hq])

theorem exists_inOrder (hparts : ∀ text, .ordinary text ∈ parts → (split text).any (·.isSpecial) = false)
    (h : (assembleParts env a address parts { code := [] }).outcome session = (.ok p, t)) :
    ∃ qs, InOrder env a address session parts qs t ∧ p = Payload.joined qs := by
  rcases inOrder_or_failsAt env a address session parts with ⟨qs, u, hin⟩ | ⟨e, u, hfails⟩
  · have hout := hin.outcome hparts []
    rw [List.append_nil, h] at hout
    obtain ⟨hp, rfl⟩ := Prod.mk.inj hout
    exact ⟨qs, hin, Except.ok.inj hp⟩
  · simp [hfails.outcome hparts] at h

/-- The located relocations of a payload ascend, and if the text has no special form the others are behind them. With
special forms that is so exactly if no part with a relocation that has no offset is in front of one that has an
offset. -/
theorem assemble_offsetOrder (h : (assemble env s).outcome session = (.ok p, t)) :
    (p.relocations.filterMap (·.offset)).Pairwise (· ≤ ·) ∧
    (s.architecture.isLongX86 = false ∨ (∀ part ∈ split s.text, part.isSpecial = false) →
      InOffsetOrder p.relocations) ∧
    (s.architecture.isLongX86 = true → (∃ part ∈ split s.text, part.isSpecial = true) →
      ∃ qs, InOrder env s.architecture s.address session (split s.text) qs t ∧
        p = { code := Payload.bytesOf qs, relocations := Payload.relocationsBehind 0 qs } ∧
        (∀ q ∈ qs, InOffsetOrder q.relocations) ∧
        (InOffsetOrder p.relocations ↔ qs.Pairwise fun q q' =>
          (∃ r ∈ q.relocations, r.offset = none) → ∀ r ∈ q'.relocations, r.offset = none)) := by
  unfold assemble at h
  simp only at h
  split at h
  · rename_i hspecial
    obtain ⟨hlong, hany⟩ := Bool.and_eq_true_iff.mp hspecial
    have hparts : ∀ text, .ordinary text ∈ split s.text → (split text).any (·.isSpecial) = false :=
      fun text htext => split_of_mem_split htext
    obtain ⟨qs, hin, rfl⟩ := exists_inOrder hparts h
    have hordered := hin.inOffsetOrder hparts
    have hascending : ((Payload.joined qs).relocations.filterMap (·.offset)).Pairwise (· ≤ ·) :=
      Payload.ascending_behind hin.wellFormed (fun q hq => ((inOffsetOrder_iff _).mp (hordered q hq)).1) 0
    refine ⟨hascending, ?_, ?_⟩
    · rintro (hother | hnone)
      · simp [hother] at hlong
      · obtain ⟨part, hpart, hspecial⟩ := List.any_eq_true.mp hany
        simp [hnone part hpart] at hspecial
    · intro _ _
      refine ⟨qs, hin, rfl, hordered, ?_⟩
      rw [inOffsetOrder_iff, and_iff_right hascending]
      apply (Payload.locatedFirst_behind 0 qs).trans
      exact and_iff_right fun q hq => ((inOffsetOrder_iff _).mp (hordered q hq)).2
  · rename_i hwhole
    have hordered : InOffsetOrder p.relocations := (assembleWhole_inOffsetOrder env s).of_outcome (by rw [h])
    refine ⟨((inOffsetOrder_iff _).mp hordered).1, fun _ => hordered, ?_⟩
    intro hlong hspecial
    simp [hlong, List.any_eq_true.mpr hspecial] at hwhole

/-- A byte that its symbol does not change and a word that is a symbol's address, with a special form between the
two. -/
def byteAndWord : Source := ⟨".byte a-a\nmov rax, qword ptr fs:[0x28]\n.quad b", .x86Long, 0⟩

def dataEngine : AssemblerEngine where
  opening _ _ := none
  assembling _ _ text address :=
    if text = ".byte a-a" then .ask "a".toByteArray.toList fun _ => .reply { result := .ok (some [0x00]) }
    else if text = ".quad b" then
      .ask "b".toByteArray.toList fun v => .reply { result := .ok (some (word .little 8 v.toNat)) }
    else if text = "b:\n.quad b" then .reply { result := .ok (some (word .little 8 address)) }
    else .reply { result := .error ⟨"KsError", "unknown"⟩ }

def dataConsole : Environment := ⟨dataEngine, ⟨fun _ _ => none, fun _ _ _ _ => .ok []⟩, true⟩

def dataPayload : Payload where
  code := [0x00, 0x64, 0x48, 0x8b, 0x04, 0x25, 0x28, 0x00, 0x00, 0x00, 0x00, 0x00, 0x00, 0x00, 0x00, 0x00, 0x00, 0x00]
  relocations := [⟨none, "a", 0, []⟩, ⟨some 10, "b", 8, [0x00, 0x00, 0x00, 0x00, 0x00, 0x00, 0x00, 0x00]⟩]

theorem outcome_byteAndWord : ((assemble dataConsole byteAndWord).outcome {}).1 = .ok dataPayload := by
  decide +kernel

theorem not_inOffsetOrder_dataPayload : ¬InOffsetOrder dataPayload.relocations := by
  rw [inOffsetOrder_iff_precedes]
  decide

theorem assemble_offsetOrder_byteAndWord :
    ((assemble dataConsole byteAndWord).outcome {}).1 = .ok dataPayload ∧
      (dataPayload.relocations.filterMap (·.offset)).Pairwise (· ≤ ·) ∧ ¬InOffsetOrder dataPayload.relocations ∧
      ∃ qs t, InOrder dataConsole .x86Long 0 {} (split byteAndWord.text) qs t ∧
        (∀ q ∈ qs, InOffsetOrder q.relocations) ∧ ¬qs.Pairwise fun q q' =>
          (∃ r ∈ q.relocations, r.offset = none) → ∀ r ∈ q'.relocations, r.offset = none := by
  have hspecial : ∃ part ∈ split byteAndWord.text, part.isSpecial = true := by decide +kernel
  have hpayload := outcome_byteAndWord
  rcases hout : (assemble dataConsole byteAndWord).outcome {} with ⟨r, t⟩
  rw [hout] at hpayload
  obtain rfl : r = .ok dataPayload := hpayload
  obtain ⟨hascending, -, hlong⟩ := assemble_offsetOrder hout
  obtain ⟨qs, hin, -, hordered, hiff⟩ := hlong rfl hspecial
  exact ⟨rfl, hascending, not_inOffsetOrder_dataPayload, qs, t, hin, hordered,
    fun hpairs => not_inOffsetOrder_dataPayload (hiff.mpr hpairs)⟩

/-- A relocation without an offset is in front of one that has an offset, if a special form is between the two. -/
theorem unlocated_before_located_byteAndWord :
    ¬∀ (env : Environment) (s : Source) (session t : Session) (p : Payload),
      (assemble env s).outcome session = (.ok p, t) → InOffsetOrder p.relocations := by
  intro hall
  have hpayload := outcome_byteAndWord
  rcases hout : (assemble dataConsole byteAndWord).outcome {} with ⟨r, t⟩
  rw [hout] at hpayload
  obtain rfl : r = .ok dataPayload := hpayload
  exact not_inOffsetOrder_dataPayload (hall _ _ _ _ _ hout)

end Assembler

end AssemblyConsole
