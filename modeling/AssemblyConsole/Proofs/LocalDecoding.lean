import AssemblyConsole.Disassembler.Sweep
import AssemblyConsole.Proofs.SessionSound

/-!
Decoding in which the instruction at an address hangs on that address and the bytes from it on, and nothing else.
What is decoded from an address on is then told by the instructions at the single addresses of the buffer.
-/

namespace AssemblyConsole

open AssemblyConsole.Action

/-- What is found takes up bytes, and they are the first of those at the address. -/
def InstructionAt.Fits (find : InstructionAt) : Prop :=
  ∀ a bytes i, find a bytes = some i → i.raw ≠ [] ∧ i.raw <+: bytes

/-- The engine opens for the architecture, refuses nothing, and decodes each address on its own. -/
structure Disassembler.Local (env : Environment) (a : Architecture) (find : InstructionAt) : Prop where
  opens : ∃ flags, Numbering.disassembler.flags? a = some flags ∧
    (∀ clock, env.disassembler.opening clock flags = none) ∧
    ∀ clock bytes address, env.disassembler.decoding clock flags bytes address = .ok (sweep find address bytes)
  fits : find.Fits

namespace Buffer

/-- The engine decodes an instruction at the address that it reports at the address. -/
def Good (b : Buffer) (find : InstructionAt) (c : Int) : Prop :=
  b.Holds c ∧ ∃ i, find c (b.bytesFrom c) = some i ∧ i.address = c

def decodedAt (b : Buffer) (find : InstructionAt) (set : InstructionSet) (c : Int) : Option Decoded :=
  if b.Holds c then ((find c (b.bytesFrom c)).filter (·.address = c)).map (Decoded.ofRaw set) else none

/-- Each instruction is at its address and inside the buffer, takes up room, and names an address only if it may. -/
structure Carries (b : Buffer) (code : Int → Option Decoded) : Prop where
  holds : ∀ {c d}, code c = some d → b.Holds c
  address : ∀ {c d}, code c = some d → d.instruction.address = c
  lt_stop : ∀ {c d}, code c = some d → c < d.instruction.stop
  stop_le : ∀ {c d}, code c = some d → d.instruction.stop ≤ b.stop
  names : ∀ {c d}, code c = some d → d.target ≠ none → d.flow.mayName = true

/-- What may be decoded from an address on: the instructions one behind the other, up to an address without one. -/
inductive Swept (code : Int → Option Decoded) : Int → List Decoded → Prop
  | stop {c ds} (hc : code c = none) (hd : ∀ d ∈ ds.head?, d.instruction.address ≠ c) : Swept code c ds
  | step {c d ds} (hc : code c = some d) (hs : Swept code d.instruction.stop ds) : Swept code c (d :: ds)

variable {b : Buffer} {find : InstructionAt} {set : InstructionSet}

theorem decodedAt_eq_some_iff {c : Int} {d : Decoded} : b.decodedAt find set c = some d ↔
    b.Holds c ∧ ∃ i, find c (b.bytesFrom c) = some i ∧ i.address = c ∧ Decoded.ofRaw set i = d := by
  unfold decodedAt
  split
  · rename_i h
    simp [Option.filter_eq_some_iff, h, and_assoc]
  · rename_i h
    simp [h]

theorem good_iff {c : Int} : b.Good find c ↔ ∃ d, b.decodedAt find set c = some d := by
  simp only [decodedAt_eq_some_iff, Good]
  constructor
  · rintro ⟨hc, i, hi, ha⟩
    exact ⟨_, hc, i, hi, ha, rfl⟩
  · rintro ⟨_, hc, i, hi, ha, -⟩
    exact ⟨hc, i, hi, ha⟩

theorem length_bytesFrom {c : Int} (h : b.base ≤ c) : ((b.bytesFrom c).length : Int) = max 0 (b.stop - c) := by
  simp only [bytesFrom, List.length_drop, stop]
  omega

theorem bytesFrom_add {c : Int} (h : b.base ≤ c) (n : Nat) : b.bytesFrom (c + n) = (b.bytesFrom c).drop n := by
  simp only [bytesFrom, List.drop_drop]
  congr 1
  omega

theorem carries_decodedAt (b : Buffer) (set : InstructionSet) (hf : find.Fits) : b.Carries (b.decodedAt find set) := by
  have bounds {c : Int} {d : Decoded} (h : b.decodedAt find set c = some d) :
      c < d.instruction.stop ∧ d.instruction.stop ≤ b.stop := by
    obtain ⟨hc, i, hi, rfl, rfl⟩ := decodedAt_eq_some_iff.mp h
    obtain ⟨hne, hpre⟩ := hf _ _ _ hi
    have hpos := List.length_pos_iff.mpr hne
    have hle := hpre.length_le
    have hlen := b.length_bytesFrom hc.1
    have hlt := hc.2
    simp only [Decoded.ofRaw, Instruction.stop]
    omega
  refine ⟨?_, ?_, fun h => (bounds h).1, fun h => (bounds h).2, ?_⟩
  · intro c d h
    exact (decodedAt_eq_some_iff.mp h).1
  · intro c d h
    obtain ⟨_, i, _, ha, rfl⟩ := decodedAt_eq_some_iff.mp h
    exact ha
  · intro c d h ht
    obtain ⟨_, i, _, _, rfl⟩ := decodedAt_eq_some_iff.mp h
    by_cases hm : (Decoded.ofRaw set i).flow.mayName = true
    · exact hm
    · exact absurd (if_neg hm) ht

theorem swept_sweep (hf : find.Fits) {c : Int} (hc : b.base ≤ c) :
    Swept (b.decodedAt find set) c ((sweep find c (b.bytesFrom c)).map (Decoded.ofRaw set)) := by
  generalize hbs : b.bytesFrom c = bs
  fun_induction sweep find c bs with
  | case1 c =>
    refine .stop ?_ (by simp)
    have hlen := b.length_bytesFrom hc
    rw [hbs, List.length_nil] at hlen
    rw [decodedAt, if_neg]
    rintro ⟨_, hlt⟩
    omega
  | case2 c bs hb hi =>
    refine .stop ?_ (by simp)
    rw [decodedAt, hbs, hi]
    simp
  | case3 c bs hb i hi hr => exact absurd hr (hf _ _ _ hi).1
  | case4 c bs hb i hi hr ih =>
    have hpos := List.length_pos_iff.mpr hb
    have hlen := b.length_bytesFrom hc
    rw [hbs] at hlen
    have hh : b.Holds c := ⟨hc, by omega⟩
    by_cases ha : i.address = c
    · have hstop : (Decoded.ofRaw set i).instruction.stop = c + i.raw.length := by
        rw [← ha]
        rfl
      refine .step (decodedAt_eq_some_iff.mpr ⟨hh, i, by rw [hbs, hi], ha, rfl⟩) ?_
      rw [hstop]
      exact ih (by omega) (by rw [bytesFrom_add hc, hbs])
    · refine .stop ?_ ?_
      · rw [decodedAt, if_pos hh, hbs, hi]
        simp [ha]
      · intro d hd
        obtain rfl := Option.some.inj hd
        exact ha

end Buffer

theorem Disassembler.Local.decode_meets {env : Environment} {a : Architecture} {find : InstructionAt}
    (h : Disassembler.Local env a find) (b : Buffer) (c : Int) (hc : b.Holds c) :
    Meets (Session.Sound env) (decode env a c (b.bytesFrom c)) (Buffer.Swept (b.decodedAt find a.set) c)
      fun _ => False := by
  obtain ⟨flags, hf, hopen, hdecode⟩ := h.opens
  refine (Meets.ofView fun w => Disassembler.decode_meets env a w c (b.bytesFrom c)).mono ?_ ?_
  · rintro ds ⟨clock, flags', raws, ⟨hf', -⟩, hr, rfl⟩
    obtain rfl := Option.some.inj (hf.symm.trans hf')
    rw [hdecode] at hr
    obtain rfl := Except.ok.inj hr
    exact Buffer.swept_sweep h.fits hc.1
  · rintro e (he | ⟨clock, flags', r, ⟨hf', -⟩, hr, -⟩)
    · exact not_unavailable_of_opening hf hopen e he
    · obtain rfl := Option.some.inj (hf.symm.trans hf')
      rw [hdecode] at hr
      simp at hr

/-- Knows an instruction without effect, a return, and a short conditional jump forward. -/
def shortJumps : InstructionAt := fun address bytes =>
  match bytes with
  | 0x90 :: _ => some ⟨address, [0x90], "nop", "", []⟩
  | 0xc3 :: _ => some ⟨address, [0xc3], "ret", "", []⟩
  | 0x74 :: n :: _ => some ⟨address, [0x74, n], "je", Text.hexMarked (address + 2 + n.toNat), []⟩
  | _ => none

def shortJumpEnvironment : Environment where
  assembler := ⟨fun _ _ => none, fun _ _ _ _ => .reply { result := .ok none }⟩
  disassembler := ⟨fun _ _ => none, fun _ _ bytes address => .ok (sweep shortJumps address bytes)⟩

theorem fits_shortJumps : shortJumps.Fits := by
  intro a bytes i hi
  unfold shortJumps at hi
  split at hi
  case h_4 => simp at hi
  all_goals
    obtain rfl := Option.some.inj hi
    simp

theorem local_shortJumps : Disassembler.Local shortJumpEnvironment ⟨.x86, .bits32, .little, .ordinary⟩ shortJumps :=
  ⟨⟨⟨3, 4⟩, by decide, fun _ => rfl, fun _ _ _ => rfl⟩, fits_shortJumps⟩

end AssemblyConsole
