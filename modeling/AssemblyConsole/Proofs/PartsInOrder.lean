import AssemblyConsole.Proofs.AskedSymbols
import AssemblyConsole.Proofs.OrdinaryParts
import AssemblyConsole.Proofs.RepeatedFilling

/-!
The payload of a text with special forms is put together from the payloads of its parts. Each part is assembled at the
address behind the bytes of those before it, and the first part that fails tells the error.
-/

namespace AssemblyConsole

open AssemblyConsole.Action

namespace Payload

def bytesOf (qs : List Payload) : Bytes := qs.flatMap (·.filled)

/-- The relocations of payloads that are put one behind the other, where `n` bytes stand before the first. -/
def relocationsBehind : (n : Nat) → List Payload → List Relocation
  | _, [] => []
  | n, q :: qs => q.relocations.map (·.shift n) ++ relocationsBehind (n + q.filled.length) qs

def joined (qs : List Payload) : Payload := { code := bytesOf qs, relocations := relocationsBehind 0 qs }

theorem code_joined (qs : List Payload) : (joined qs).code = bytesOf qs := rfl

theorem bytesOf_concat (qs : List Payload) (q : Payload) : bytesOf (qs ++ [q]) = bytesOf qs ++ q.filled := by
  simp [bytesOf]

theorem relocationsBehind_concat (n : Nat) (qs : List Payload) (q : Payload) :
    relocationsBehind n (qs ++ [q]) =
      relocationsBehind n qs ++ q.relocations.map (·.shift (n + (bytesOf qs).length)) := by
  induction qs generalizing n with
  | nil => simp [relocationsBehind, bytesOf]
  | cons k qs ih =>
    rw [List.cons_append, relocationsBehind, ih, relocationsBehind, List.append_assoc]
    simp only [bytesOf, List.flatMap_cons, List.length_append, Nat.add_assoc]

theorem joined_concat (qs : List Payload) (q : Payload) : joined (qs ++ [q]) = (joined qs).append q := by
  rw [joined, bytesOf_concat, relocationsBehind_concat, Nat.zero_add]
  rfl

theorem joined_concat_code (qs : List Payload) (code : Bytes) :
    joined (qs ++ [{ code := code }]) = { joined qs with code := (joined qs).code ++ code } := by
  rw [joined_concat]
  simp only [append, List.map_nil, List.append_nil]
  rfl

theorem foldl_fillOne_behind {qs : List Payload} (hqs : ∀ q ∈ qs, q.WellFormed) (xs : Bytes) :
    (relocationsBehind xs.length qs).foldl fillOne (xs ++ bytesOf qs) = xs ++ bytesOf qs := by
  induction qs generalizing xs with
  | nil => rfl
  | cons q qs ih =>
    obtain ⟨hq, hqs⟩ := List.forall_mem_cons.mp hqs
    have hfillable : ∀ r ∈ q.relocations, r.Fillable q.filled.length := by
      rw [hq.length_filled]
      exact hq.fillable
    have hbefore : ∀ r ∈ q.relocations, r.Fillable (q.filled ++ bytesOf qs).length :=
      fun r hr => (hfillable r hr).mono (by simp)
    have hagain : q.relocations.foldl fillOne q.filled = q.filled := foldl_fillOne_twice hq.fillable
    calc (relocationsBehind xs.length (q :: qs)).foldl fillOne (xs ++ bytesOf (q :: qs))
        = (relocationsBehind (xs.length + q.filled.length) qs).foldl fillOne
            ((q.relocations.map (·.shift xs.length)).foldl fillOne (xs ++ (q.filled ++ bytesOf qs))) :=
          List.foldl_append
      _ = (relocationsBehind (xs.length + q.filled.length) qs).foldl fillOne (xs ++ (q.filled ++ bytesOf qs)) := by
          rw [foldl_fillOne_shift xs hbefore, foldl_fillOne_append_left hfillable, hagain]
      _ = xs ++ (q.filled ++ bytesOf qs) := by
          rw [← List.append_assoc, ← List.length_append, ih hqs]

theorem filled_joined {qs : List Payload} (hqs : ∀ q ∈ qs, q.WellFormed) : (joined qs).filled = (joined qs).code :=
  foldl_fillOne_behind hqs []

end Payload

namespace Assembler

open SpecialForm

/-- The parts are assembled one after another, each at the address behind the bytes of those before it. -/
inductive InOrder (env : Environment) (a : Architecture) (address : Int) (session : Session) :
    List Part → List Payload → Session → Prop
  | nil : InOrder env a address session [] [] session
  | special {before qs t code} (h : InOrder env a address session before qs t) :
      InOrder env a address session (before ++ [.special code]) (qs ++ [{ code := code }]) t
  | ordinary {before qs t text q u} (h : InOrder env a address session before qs t)
      (hq : (assemble env ⟨text, a, address + (Payload.bytesOf qs).length⟩).outcome t = (.ok q, u)) :
      InOrder env a address session (before ++ [.ordinary text]) (qs ++ [q]) u

/-- A part is not assembled, and those before it are. -/
inductive FailsAt (env : Environment) (a : Architecture) (address : Int) (session : Session) :
    List Part → EncodeError → Session → Prop
  | intro {before text after qs t e u} (h : InOrder env a address session before qs t)
      (he : (assemble env ⟨text, a, address + (Payload.bytesOf qs).length⟩).outcome t = (.error e, u)) :
      FailsAt env a address session (before ++ .ordinary text :: after) e u

variable {env : Environment} {a : Architecture} {address : Int} {session t : Session} {parts : List Part}
  {qs : List Payload}

theorem InOrder.wellFormed (h : InOrder env a address session parts qs t) : ∀ q ∈ qs, q.WellFormed := by
  induction h with
  | nil => simp
  | special _ ih =>
    intro q hq
    rcases List.mem_append.mp hq with hq | hq
    · exact ih q hq
    · rw [List.mem_singleton.mp hq]
      exact ⟨by simp, .nil⟩
  | ordinary _ hq ih =>
    intro q' hq'
    rcases List.mem_append.mp hq' with hq' | hq'
    · exact ih q' hq'
    · rw [List.mem_singleton.mp hq']
      exact (assemble_yields_wellFormed env _).of_outcome (by rw [hq])

theorem inOrder_or_failsAt (env : Environment) (a : Architecture) (address : Int) (session : Session)
    (parts : List Part) : (∃ qs t, InOrder env a address session parts qs t) ∨
      ∃ e t, FailsAt env a address session parts e t := by
  induction parts using List.reverseRecOn with
  | nil => exact .inl ⟨[], session, .nil⟩
  | append_singleton before part ih =>
    rcases ih with ⟨qs, t, h⟩ | ⟨e, t, h⟩
    · cases part with
      | special code => exact .inl ⟨_, _, h.special⟩
      | ordinary text =>
        rcases hq : (assemble env ⟨text, a, address + (Payload.bytesOf qs).length⟩).outcome t with ⟨e | q, u⟩
        · exact .inr ⟨e, u, .intro h hq⟩
        · exact .inl ⟨_, _, h.ordinary hq⟩
    · right
      obtain ⟨h, he⟩ := h
      rw [List.append_assoc, List.cons_append]
      exact ⟨e, t, .intro h he⟩

section Cut

variable (hparts : ∀ text, .ordinary text ∈ parts → (split text).any (·.isSpecial) = false)
include hparts

theorem assemble_eq_assembleWhole {text : String} (htext : .ordinary text ∈ parts) (n : Int) :
    assemble env ⟨text, a, n⟩ = assembleWhole env ⟨text, a, n⟩ := by
  unfold assemble
  simp [hparts text htext]

theorem InOrder.outcome (h : InOrder env a address session parts qs t) (rest : List Part) :
    (assembleParts env a address (parts ++ rest) { code := [] }).outcome session =
      (assembleParts env a address rest (Payload.joined qs)).outcome t := by
  induction h generalizing rest with
  | nil => rfl
  | @special before qs t code _ ih =>
    rw [List.append_assoc, List.singleton_append, ih (fun text h => hparts text (List.mem_append_left _ h)),
      assembleParts, Payload.joined_concat_code]
  | @ordinary before qs t text q u _ hq ih =>
    rw [List.append_assoc, List.singleton_append, ih (fun text h => hparts text (List.mem_append_left _ h)),
      assembleParts, outcome_bind]
    rw [assemble_eq_assembleWhole hparts (by simp)] at hq
    rw [Payload.code_joined, hq, Payload.joined_concat]
    rfl

theorem FailsAt.outcome {e : EncodeError} (h : FailsAt env a address session parts e t) :
    (assembleParts env a address parts { code := [] }).outcome session = (.error e, t) := by
  obtain ⟨h, he⟩ := h
  rw [assemble_eq_assembleWhole hparts (by simp)] at he
  rw [h.outcome (fun text h => hparts text (List.mem_append_left _ h)), assembleParts, outcome_bind]
  rw [Payload.code_joined, he]

end Cut

/-- A text with special forms is assembled exactly if each of its parts is, and then its code is that of the parts,
one behind the other, and complete. -/
theorem assemble_inOrder {s : Source} (hlong : s.architecture.isLongX86 = true)
    (hspecial : ∃ part ∈ split s.text, part.isSpecial = true) (env : Environment) (session : Session) :
    (∀ p t, (assemble env s).outcome session = (.ok p, t) ↔
      ∃ qs, InOrder env s.architecture s.address session (split s.text) qs t ∧
        p = { code := Payload.bytesOf qs, relocations := Payload.relocationsBehind 0 qs }) ∧
    (∀ e t, (assemble env s).outcome session = (.error e, t) ↔
      FailsAt env s.architecture s.address session (split s.text) e t) ∧
    (∀ p t, (assemble env s).outcome session = (.ok p, t) → p.fill.bytes? = some p.code) ∧
    ∀ text, .ordinary text ∈ split s.text → ∀ part ∈ split text, part.isSpecial = false := by
  have hparts : ∀ text, .ordinary text ∈ split s.text → (split text).any (·.isSpecial) = false :=
    fun text htext => split_of_mem_split htext
  have hany : (split s.text).any (·.isSpecial) = true := List.any_eq_true.mpr hspecial
  have hassemble : assemble env s = assembleParts env s.architecture s.address (split s.text) { code := [] } := by
    simp [assemble, hlong, hany]
  have hok {qs : List Payload} {t : Session} (h : InOrder env s.architecture s.address session (split s.text) qs t) :
      (assemble env s).outcome session = (.ok (Payload.joined qs), t) := by
    have hout := h.outcome hparts []
    rw [List.append_nil] at hout
    rw [hassemble, hout]
    rfl
  have herror {e : EncodeError} {t : Session}
      (h : FailsAt env s.architecture s.address session (split s.text) e t) :
      (assemble env s).outcome session = (.error e, t) := by
    rw [hassemble, h.outcome hparts]
  -- of the two ways in which the parts can come out, the outcome leaves one
  have hways := inOrder_or_failsAt env s.architecture s.address session (split s.text)
  have hform {p : Payload} {t : Session} (h : (assemble env s).outcome session = (.ok p, t)) :
      ∃ qs, InOrder env s.architecture s.address session (split s.text) qs t ∧ p = Payload.joined qs := by
    rcases hways with ⟨qs, u, hin⟩ | ⟨e, u, hfails⟩
    · obtain ⟨hp, rfl⟩ := Prod.mk.inj (h.symm.trans (hok hin))
      exact ⟨qs, hin, Except.ok.inj hp⟩
    · simp [herror hfails] at h
  refine ⟨?_, ?_, ?_, ?_⟩
  · intro p t
    constructor
    · exact hform
    · rintro ⟨qs, hin, rfl⟩
      exact hok hin
  · intro e t
    constructor
    · intro h
      rcases hways with ⟨qs, u, hin⟩ | ⟨e', u, hfails⟩
      · simp [hok hin] at h
      · obtain ⟨he, rfl⟩ := Prod.mk.inj (h.symm.trans (herror hfails))
        obtain rfl := Except.error.inj he
        exact hfails
    · exact herror
  · intro p t h
    obtain ⟨qs, hin, rfl⟩ := hform h
    rw [Payload.bytes?_fill, Payload.filled_joined hin.wellFormed]
  · intro text htext part hpart
    have hnone := List.any_eq_false.mp (hparts text htext) part hpart
    simpa using hnone

theorem assemble_inOrder_jumpBack :
    jumpBack.architecture.isLongX86 = true ∧ (∃ part ∈ split jumpBack.text, part.isSpecial = true) ∧
      ((assemble jumpConsole jumpBack).outcome {}).1 = .ok jumpPayload ∧
      (∃ qs t, InOrder jumpConsole .x86Long 0 {} (split jumpBack.text) qs t ∧
        jumpPayload = { code := Payload.bytesOf qs, relocations := Payload.relocationsBehind 0 qs }) ∧
      jumpPayload.fill.bytes? = some jumpPayload.code := by
  have hspecial : ∃ part ∈ split jumpBack.text, part.isSpecial = true := by decide +kernel
  obtain ⟨hok, -, hfilled, -⟩ := assemble_inOrder (s := jumpBack) rfl hspecial jumpConsole {}
  have hpayload := outcome_jumpBack
  rcases hout : (assemble jumpConsole jumpBack).outcome {} with ⟨r, t⟩
  rw [hout] at hpayload
  obtain rfl : r = .ok jumpPayload := hpayload
  obtain ⟨qs, hin, hp⟩ := (hok jumpPayload t).mp hout
  exact ⟨rfl, hspecial, rfl, ⟨qs, t, hin, hp⟩, hfilled jumpPayload t hout⟩

end Assembler

end AssemblyConsole
