import AssemblyConsole.Proofs.AskedSymbols
import AssemblyConsole.Proofs.RepeatedFilling

/-!
Fields of different symbols may share bytes of the code. Filling writes them one after another, so of the placeholders
that disagree about a byte only the last is left complete. All of them stand in the filled code exactly if no two
disagree, and so does each that shares no byte with another symbol.
-/

namespace AssemblyConsole

namespace Relocation

def Stands (r : Relocation) (code : Bytes) : Prop :=
  ∀ o, r.offset = some o → (Field.mk o.toNat r.size.toNat).bytes code = r.placeholder

def AgreesWith (r q : Relocation) : Prop := ∀ i x y, r.byte? i = some x → q.byte? i = some y → x = y

/-- The byte at a position that is left of what the relocations write there one after another. -/
def lastByte? (rs : List Relocation) (i : Nat) : Option UInt8 := rs.reverse.findSome? (·.byte? i)

theorem byte?_eq_some_iff {f : Field} {target : String} {w : Bytes} (hw : w.length = f.size) {i : Nat} {x : UInt8} :
    (Relocation.mk (some f.offset) target f.size w).byte? i = some x ↔ f.Covers i ∧ w[i - f.offset]? = some x := by
  have hindex : ((i : Int) - f.offset).toNat = i - f.offset := by omega
  simp only [byte?, Option.bind_some, hindex, Int.ofNat_le, Option.ite_none_right_eq_some]
  constructor
  · rintro ⟨hlow, hx⟩
    have hlt := (List.getElem?_eq_some_iff.mp hx).1
    exact ⟨⟨hlow, by omega⟩, hx⟩
  · rintro ⟨hi, hx⟩
    exact ⟨hi.1, hx⟩

theorem stands_iff {r : Relocation} {code : Bytes} (hr : r.Fits code.length) :
    r.Stands code ↔ ∀ i x, r.byte? i = some x → code[i]? = some x := by
  rcases hr.cases with hnone | ⟨f, w, -, hw, hr⟩
  · simp [Stands, byte?, hnone]
  · rw [hr]
    have hstands : (Relocation.mk (some f.offset) r.target f.size w).Stands code ↔ f.bytes code = w := by
      simp [Stands]
    rw [hstands]
    constructor
    · rintro rfl i x hbyte
      obtain ⟨hi, hx⟩ := (byte?_eq_some_iff hw).mp hbyte
      have hoffset : f.offset + (i - f.offset) = i := by
        have := hi.1
        omega
      rw [Field.getElem?_bytes, hoffset] at hx
      exact (Option.ite_none_right_eq_some.mp hx).2
    · intro h
      apply List.ext_getElem?
      intro j
      rw [Field.getElem?_bytes]
      split
      · rename_i hj
        obtain ⟨x, hx⟩ : ∃ x, w[j]? = some x := ⟨_, List.getElem?_eq_getElem (by omega)⟩
        rw [hx]
        apply h
        apply (byte?_eq_some_iff hw).mpr
        rw [Nat.add_sub_cancel_left]
        exact ⟨⟨Nat.le_add_right _ _, Nat.add_lt_add_left hj _⟩, hx⟩
      · rw [List.getElem?_eq_none (by omega)]

theorem Apart.byte?_eq_none {n : Nat} {r q : Relocation} (h : r.Apart q) (hr : r.Fits n) (hq : q.Fits n) (i : Nat) :
    r.byte? i = none ∨ q.byte? i = none := by
  rcases hr.cases with hnone | ⟨f, w, -, hw, hr⟩
  · simp [byte?, hnone]
  rcases hq.cases with hnone | ⟨g, v, -, hv, hq⟩
  · simp [byte?, hnone]
  by_contra hboth
  rw [not_or] at hboth
  obtain ⟨x, hx⟩ := Option.ne_none_iff_exists'.mp hboth.1
  obtain ⟨y, hy⟩ := Option.ne_none_iff_exists'.mp hboth.2
  rw [hr] at hx h
  rw [hq] at hy h
  have hi := ((byte?_eq_some_iff hw).mp hx).1
  have hj := ((byte?_eq_some_iff hv).mp hy).1
  have hapart := h f.offset g.offset rfl rfl
  simp only [Field.Covers] at hi hj
  simp only at hapart
  omega

end Relocation

namespace Payload

open Relocation

variable {p : Payload} {before after : List Relocation} {r : Relocation}

theorem getElem?_filled (hp : p.WellFormed) (h : p.relocations = before ++ r :: after) {i : Nat} {x : UInt8}
    (hx : r.byte? i = some x) : p.filled[i]? = some ((lastByte? after i).getD x) := by
  rw [hp.getElem?_filled, h, List.reverse_append, List.reverse_cons, List.append_assoc,
    List.findSome?_append, List.singleton_append, List.findSome?_cons_of_isSome (by simp [hx]), hx, lastByte?]
  cases List.findSome? (fun q : Relocation => q.byte? i) after.reverse <;> rfl

/-- A placeholder stands in the filled code exactly if what is written behind it agrees with it. -/
theorem stands_filled_iff (hp : p.WellFormed) (h : p.relocations = before ++ r :: after) :
    r.Stands p.filled ↔ ∀ i x y, r.byte? i = some x → lastByte? after i = some y → y = x := by
  have hr : r.Fits p.filled.length := by
    rw [hp.length_filled]
    exact hp.fits r (by simp [h])
  rw [stands_iff hr]
  constructor
  · intro hall i x y hx hy
    have hbyte := hall i x hx
    rw [getElem?_filled hp h hx, hy] at hbyte
    exact Option.some.inj hbyte
  · intro hall i x hx
    rw [getElem?_filled hp h hx]
    cases hy : lastByte? after i with
    | none => rfl
    | some y => rw [hall i x y hx hy, Option.getD_some]

theorem stands_filled_of_agrees (hp : p.WellFormed) (h : p.relocations = before ++ r :: after)
    (hagrees : ∀ q ∈ after, r.AgreesWith q) : r.Stands p.filled := by
  apply (stands_filled_iff hp h).mpr
  intro i x y hx hy
  obtain ⟨q, hq, hy⟩ := List.exists_of_findSome?_eq_some hy
  exact (hagrees q (List.mem_reverse.mp hq) i x y hx hy).symm

theorem all_stand_filled_iff (hp : p.WellFormed) :
    (∀ r ∈ p.relocations, r.Stands p.filled) ↔ p.relocations.Pairwise AgreesWith := by
  constructor
  · intro hall
    have hbyte : ∀ r ∈ p.relocations, ∀ i x, r.byte? i = some x → p.filled[i]? = some x := by
      intro r hr
      apply (stands_iff _).mp (hall r hr)
      rw [hp.length_filled]
      exact hp.fits r hr
    apply List.pairwise_of_forall_mem_list
    intro r hr q hq i x y hx hy
    exact Option.some.inj ((hbyte r hr i x hx).symm.trans (hbyte q hq i y hy))
  · intro hpairwise r hr
    obtain ⟨before, after, h⟩ := List.append_of_mem hr
    rw [h, List.pairwise_append] at hpairwise
    exact stands_filled_of_agrees hp h (List.pairwise_cons.mp hpairwise.2.1).1

/-- Fields of one symbol are apart, so only those of another may share a byte with a field. -/
theorem stands_filled_of_alone (hp : p.WellFormed) (hr : r ∈ p.relocations)
    (halone : ∀ q ∈ p.relocations, q.target ≠ r.target → ∀ i, r.byte? i = none ∨ q.byte? i = none) :
    r.Stands p.filled := by
  obtain ⟨before, after, h⟩ := List.append_of_mem hr
  have hapart := hp.apart
  rw [h, List.pairwise_append] at hapart
  apply stands_filled_of_agrees hp h
  intro q hq i x y hx hy
  have hmem : q ∈ p.relocations := by simp [h, hq]
  have hnone : r.byte? i = none ∨ q.byte? i = none := by
    by_cases htarget : q.target = r.target
    · exact ((List.pairwise_cons.mp hapart.2.1).1 q hq htarget.symm).byte?_eq_none (hp.fits r hr) (hp.fits q hmem) i
    · exact halone q hmem htarget i
  rcases hnone with hnone | hnone
  · simp [hnone] at hx
  · simp [hnone] at hy

end Payload

namespace Assembler

open Relocation

variable {env : Environment} {s : Source} {session : Session} {p : Payload}

theorem assemble_stands_iff (h : ((assemble env s).outcome session).1 = .ok p) :
    (∀ before r after, p.relocations = before ++ r :: after →
      (r.Stands p.filled ↔ ∀ i x y, r.byte? i = some x → lastByte? after i = some y → y = x)) ∧
    ((∀ r ∈ p.relocations, r.Stands p.filled) ↔ p.relocations.Pairwise AgreesWith) ∧
    ∀ r ∈ p.relocations,
      (∀ q ∈ p.relocations, q.target ≠ r.target → ∀ i, r.byte? i = none ∨ q.byte? i = none) → r.Stands p.filled := by
  have hp := (assemble_yields_wellFormed env s).of_outcome h
  refine ⟨?_, Payload.all_stand_filled_iff hp, ?_⟩
  · intro before r after hr
    exact Payload.stands_filled_iff hp hr
  · intro r hr
    exact Payload.stands_filled_of_alone hp hr

theorem outcome_assembleWhole {assembled : Assembled} {rs : List Relocation}
    (hcall : ((call env { s with text := prepare s.architecture s.text } []).outcome session).1 = .ok (.ok assembled))
    (hrelocations : ((relocationsOfAll env { s with text := prepare s.architecture s.text } assembled.code
      assembled.symbols).outcome
        ((call env { s with text := prepare s.architecture s.text } []).outcome session).2).1 = .ok rs) :
    ((assembleWhole env s).outcome session).1 =
      .ok { code := assembled.code, relocations := rs.mergeSort precedes } := by
  rw [assembleWhole, Action.outcome_bind]
  rcases hfirst : (call env { s with text := prepare s.architecture s.text } []).outcome session with ⟨r, t⟩
  rw [hfirst] at hcall hrelocations
  obtain rfl : r = .ok (.ok assembled) := hcall
  simp only
  rw [Action.outcome_bind]
  rcases hrest : (relocationsOfAll env { s with text := prepare s.architecture s.text } assembled.code
    assembled.symbols).outcome t with ⟨r, u⟩
  rw [hrest] at hrelocations
  obtain rfl : r = .ok rs := hrelocations
  rfl

def difference : String := ".byte a-b, c"

/-- An assembler that knows this text alone and behind the label of one of its symbols. It puts a symbol one address
behind the value that it is given. -/
def differenceEngine : AssemblerEngine where
  opening _ _ := none
  assembling _ _ text address :=
    let given (symbol : String) (resume : Int → Dialogue) : Dialogue :=
      .ask symbol.toByteArray.toList fun v => resume (v.toNat + 1)
    let finish (x y z : Int) : Dialogue := .reply { result := .ok (some [byteAt 0 (x - y), byteAt 0 z]) }
    if text = difference then given "a" fun x => given "b" fun y => given "c" fun z => finish x y z
    else if text = labelLine "a" difference then given "b" fun y => given "c" fun z => finish address y z
    else if text = labelLine "b" difference then given "a" fun x => given "c" fun z => finish x address z
    else if text = labelLine "c" difference then given "a" fun x => given "b" fun y => finish x y address
    else .reply { result := .error ⟨"KsError", "unknown"⟩ }

def differenceConsole : Environment := ⟨differenceEngine, ⟨fun _ _ => none, fun _ _ _ _ => .ok []⟩, true⟩

def minuend : Relocation := ⟨some 0, "a", 1, [0xff]⟩

def subtrahend : Relocation := ⟨some 0, "b", 1, [0x01]⟩

def lone : Relocation := ⟨some 1, "c", 1, [0x00]⟩

def differencePayload : Payload where
  code := [0x00, 0x01]
  relocations := [minuend, subtrahend, lone]

theorem outcome_difference :
    ((assemble differenceConsole ⟨difference, .x86, 0⟩).outcome {}).1 = .ok differencePayload := by
  have hcall : ((call differenceConsole ⟨difference, .x86, 0⟩ []).outcome {}).1 =
      .ok (.ok ⟨differencePayload.code, ["a", "b", "c"]⟩) := by
    decide +kernel
  have hrelocations : ((relocationsOfAll differenceConsole ⟨difference, .x86, 0⟩ differencePayload.code
      ["a", "b", "c"]).outcome ((call differenceConsole ⟨difference, .x86, 0⟩ []).outcome {}).2).1 =
      .ok differencePayload.relocations := by
    decide +kernel
  have hsorted : differencePayload.relocations.mergeSort precedes = differencePayload.relocations :=
    List.mergeSort_of_pairwise (by decide)
  have hwhole : assemble differenceConsole ⟨difference, .x86, 0⟩ =
      assembleWhole differenceConsole ⟨difference, .x86, 0⟩ :=
    rfl
  rw [hwhole, outcome_assembleWhole (s := ⟨difference, .x86, 0⟩) hcall hrelocations, hsorted]
  rfl

theorem lone_alone : ∀ q ∈ differencePayload.relocations, q.target ≠ lone.target →
    ∀ i, lone.byte? i = none ∨ q.byte? i = none := by
  intro q hq htarget i
  have hoffset : q.offset = some 0 ∧ q.placeholder.length = 1 := by
    simp only [differencePayload, List.mem_cons, List.not_mem_nil, or_false] at hq
    rcases hq with rfl | rfl | rfl
    · exact ⟨rfl, rfl⟩
    · exact ⟨rfl, rfl⟩
    · exact absurd rfl htarget
  cases i with
  | zero => exact .inl rfl
  | succ i => exact .inr (by simp [byte?, hoffset])

theorem assemble_stands_iff_difference :
    ((assemble differenceConsole ⟨difference, .x86, 0⟩).outcome {}).1 = .ok differencePayload ∧
      ¬minuend.Stands differencePayload.filled ∧ subtrahend.Stands differencePayload.filled ∧
      lone.Stands differencePayload.filled ∧ ¬differencePayload.relocations.Pairwise AgreesWith := by
  obtain ⟨heach, hall, halone⟩ := assemble_stands_iff outcome_difference
  have hminuend : ¬minuend.Stands differencePayload.filled := by
    rw [heach [] minuend [subtrahend, lone] rfl]
    intro hagree
    exact absurd (hagree 0 0xff 0x01 (by decide) (by decide)) (by decide)
  have hsubtrahend : subtrahend.Stands differencePayload.filled := by
    apply (heach [minuend] subtrahend [lone] rfl).mpr
    intro i x y hx hy
    have hy : lone.byte? i = some y := by simpa [lastByte?] using hy
    rcases lone_alone subtrahend (by decide) (by decide) i with hnone | hnone
    · simp [hnone] at hy
    · simp [hnone] at hx
  refine ⟨outcome_difference, hminuend, hsubtrahend, halone lone (by decide) lone_alone, ?_⟩
  rw [← hall]
  intro hstand
  exact hminuend (hstand minuend (by decide))

/-- Of two placeholders that disagree about a byte, filling leaves one incomplete. -/
theorem stands_fails_difference :
    ¬∀ (env : Environment) (s : Source) (session : Session) (p : Payload),
      ((assemble env s).outcome session).1 = .ok p → ∀ r ∈ p.relocations, r.Stands p.filled := by
  intro hall
  have hstands := hall _ _ _ _ outcome_difference minuend (by decide) 0 rfl
  exact absurd hstands (by decide)

end Assembler

end AssemblyConsole
