import AssemblyConsole.Proofs.FailureCauses
import AssemblyConsole.Proofs.LabelScope
import AssemblyConsole.Proofs.PartsInOrder

/-!
Where an error is located. The statements of a refused text are assembled one after another, each alone and at the
address behind the code of those before it, and the first that is refused then is named together with its address.
-/

namespace AssemblyConsole.Assembler

open AssemblyConsole.Action SpecialForm

/-- The statements are accepted one after another; together they have the code. -/
inductive Accepted (env : Environment) (a : Architecture) (address : Int) (session : Session) :
    List String → Bytes → Session → Prop
  | nil : Accepted env a address session [] [] session
  | snoc {before code t statement assembled u} (h : Accepted env a address session before code t)
      (hcall : (call env ⟨statement, a, address + code.length⟩ []).outcome t = (.ok (.ok assembled), u)) :
      Accepted env a address session (before ++ [statement]) (code ++ assembled.code) u

/-- The statement at the place is refused, and those before it are accepted. -/
inductive RefusedAt (env : Environment) (a : Architecture) (address : Int) (session : Session) :
    List String → Place → Session → Prop
  | intro {before statement after code t r u} (h : Accepted env a address session before code t)
      (hcall : (call env ⟨statement, a, address + code.length⟩ []).outcome t = (.ok (.error r), u)) :
      RefusedAt env a address session (before ++ statement :: after)
        ⟨String.ofList (Text.trim statement.toList), address + code.length⟩ u

structure Locates (env : Environment) (a : Architecture) (address : Int) (session : Session) (ss : List String)
    (place : Option Place) : Prop where
  refused : ∀ p, place = some p ↔ ∃ t, RefusedAt env a address session ss p t
  accepted : place = none ↔ ∃ code t, Accepted env a address session ss code t

variable {env : Environment} {a : Architecture} {address : Int} {session t : Session} {ss : List String}

theorem Locates.unique {p q : Option Place} (hp : Locates env a address session ss p)
    (hq : Locates env a address session ss q) : p = q := by
  cases p with
  | none => exact (hq.accepted.mpr (hp.accepted.mp rfl)).symm
  | some p => exact ((hq.refused p).mpr ((hp.refused p).mp rfl)).symm

theorem Accepted.outcome {code : Bytes} (h : Accepted env a address session ss code t) (rest : List String) :
    (locate env a address (ss ++ rest)).outcome session = (locate env a (address + code.length) rest).outcome t := by
  induction h generalizing rest with
  | nil => simp
  | @snoc before code t statement assembled u _ hcall ih =>
    rw [List.append_assoc, List.singleton_append, ih, locate, probe, outcome_bind, outcome_bind, hcall,
      List.length_append, Nat.cast_add, ← Int.add_assoc]
    rfl

theorem Accepted.outcome_all {code : Bytes} (h : Accepted env a address session ss code t) :
    (locate env a address ss).outcome session = (.ok none, t) := by
  have hout := h.outcome []
  rw [List.append_nil] at hout
  exact hout

theorem RefusedAt.outcome {p : Place} (h : RefusedAt env a address session ss p t) :
    (locate env a address ss).outcome session = (.ok (some p), t) := by
  obtain ⟨h, hcall⟩ := h
  rw [h.outcome, locate, probe, outcome_bind, outcome_bind, hcall]
  rfl

section Opens

variable (hopens : Opens env a)
include hopens

theorem Opens.call_answers (s : Source) (hs : s.architecture = a) (values : List (String × Int)) (session : Session) :
    ∃ r t, (call env s values).outcome session = (.ok r, t) := by
  subst hs
  obtain ⟨flags, hflags, hopen⟩ := hopens
  have hinstance : ∃ i t, (instanceFor env s.architecture).outcome session = (.ok i, t) := by
    rw [instanceFor, outcome_bind, outcome_get]
    cases hfound : session.assembler? s.architecture with
    | some i =>
      simp only [hfound]
      exact ⟨i, session, rfl⟩
    | none =>
      simp only [hfound, hflags, hopen]
      exact ⟨⟨s.architecture, flags⟩, _, rfl⟩
  obtain ⟨i, t, hi⟩ := hinstance
  rw [call, outcome_bind, hi]
  exact ⟨_, _, rfl⟩

theorem accepted_or_refusedAt (address : Int) (session : Session) (ss : List String) :
    (∃ code t, Accepted env a address session ss code t) ∨ ∃ p t, RefusedAt env a address session ss p t := by
  induction ss using List.reverseRecOn with
  | nil => exact .inl ⟨[], session, .nil⟩
  | append_singleton before statement ih =>
    rcases ih with ⟨code, t, h⟩ | ⟨p, t, h⟩
    · obtain ⟨r, u, hcall⟩ := hopens.call_answers ⟨statement, a, address + code.length⟩ rfl [] t
      cases r with
      | error r => exact .inr ⟨_, u, .intro h hcall⟩
      | ok assembled => exact .inl ⟨_, u, h.snoc hcall⟩
    · right
      obtain ⟨h, hcall⟩ := h
      rw [List.append_assoc, List.cons_append]
      exact ⟨_, t, .intro h hcall⟩

theorem Opens.compositional :
    Compositional env env a fun _ x _ => Meets (fun _ => True) x (fun _ => True) fun _ => False where
  pure _ := meets_pure trivial
  bind hx hf := hx.bind fun r _ => hf r
  call s values hs := by
    intro session _
    obtain ⟨r, t, h⟩ := hopens.call_answers s hs values session
    simp [h]

theorem locate_eq_some_iff {p : Place} : (locate env a address ss).outcome session = (.ok (some p), t) ↔
    RefusedAt env a address session ss p t := by
  constructor
  · intro hout
    rcases accepted_or_refusedAt hopens address session ss with ⟨code, u, h⟩ | ⟨q, u, h⟩
    · simp [h.outcome_all] at hout
    · obtain ⟨hq, rfl⟩ := Prod.mk.inj (h.outcome.symm.trans hout)
      obtain rfl := Option.some.inj (Except.ok.inj hq)
      exact h
  · exact RefusedAt.outcome

theorem locate_eq_none_iff : (locate env a address ss).outcome session = (.ok none, t) ↔
    ∃ code, Accepted env a address session ss code t := by
  constructor
  · intro hout
    rcases accepted_or_refusedAt hopens address session ss with ⟨code, u, h⟩ | ⟨q, u, h⟩
    · obtain ⟨-, rfl⟩ := Prod.mk.inj (h.outcome_all.symm.trans hout)
      exact ⟨code, h⟩
    · simp [h.outcome] at hout
  · rintro ⟨code, h⟩
    exact h.outcome_all

theorem locate_locates (address : Int) (session : Session) (ss : List String) :
    ∃ place u, (locate env a address ss).outcome session = (.ok place, u) ∧ Locates env a address session ss place := by
  obtain ⟨place, u, hout, -, -⟩ := (hopens.compositional.locate address ss).result (s := session) trivial
  refine ⟨place, u, hout, ?_, ?_⟩
  · intro p
    simp only [← locate_eq_some_iff hopens, hout, Prod.mk.injEq, Except.ok.injEq, exists_and_left, exists_eq', and_true]
  · rw [exists_comm]
    simp only [← locate_eq_none_iff hopens, hout, Prod.mk.injEq, Except.ok.injEq, exists_and_left, exists_eq', and_true]

end Opens

/-- The text is refused as a whole. The error names the first statement refused alone, if there is one. -/
inductive Refused (env : Environment) (s : Source) (session : Session) : EncodeError → Prop
  | intro {r t place}
      (hcall : (call env { s with text := prepare s.architecture s.text } []).outcome session = (.ok (.error r), t))
      (hplace : Locates env s.architecture s.address t (statements (prepare s.architecture s.text)) place) :
      Refused env s session (.refused r place)

/-- Where instances open, nothing but a refusal of the whole text makes it fail. -/
theorem assembleWhole_error_iff {s : Source} (hopens : Opens env s.architecture) (session : Session) (e : EncodeError) :
    ((assembleWhole env s).outcome session).1 = .error e ↔ Refused env s session e := by
  obtain ⟨answer, t, hcall⟩ := hopens.call_answers { s with text := prepare s.architecture s.text } rfl [] session
  cases answer with
  | ok assembled =>
    obtain ⟨relocations, u, hrelocations, -⟩ := (hopens.compositional.relocationsOfAll
      { s with text := prepare s.architecture s.text } rfl assembled.code assembled.symbols).result trivial (s := t)
    rw [assembleWhole, outcome_bind, hcall]
    simp only [outcome_bind, hrelocations]
    constructor
    · intro h
      simp at h
    · rintro ⟨hrefused, -⟩
      simp [hcall] at hrefused
  | error r =>
    obtain ⟨place, u, hlocate, hplace⟩ :=
      locate_locates hopens s.address t (statements (prepare s.architecture s.text))
    rw [assembleWhole, outcome_bind, hcall]
    simp only [outcome_bind, hlocate]
    constructor
    · intro h
      obtain rfl := Except.error.inj h
      exact .intro hcall hplace
    · rintro ⟨hrefused, hplace'⟩
      obtain ⟨hr, rfl⟩ := Prod.mk.inj (hcall.symm.trans hrefused)
      obtain rfl := Except.error.inj (Except.ok.inj hr)
      rw [hplace.unique hplace']
      rfl

/-- Parts fail at the first that is refused, whose statements are located behind the bytes of the parts before it. -/
theorem assembleParts_error_iff (hopens : Opens env a) {parts : List Part}
    (hparts : ∀ text, .ordinary text ∈ parts → (split text).any (·.isSpecial) = false) (session : Session)
    (e : EncodeError) :
    ((assembleParts env a address parts { code := [] }).outcome session).1 = .error e ↔
      ∃ before text after qs t, parts = before ++ .ordinary text :: after ∧
        InOrder env a address session before qs t ∧
        Refused env ⟨text, a, address + (Payload.bytesOf qs).length⟩ t e := by
  constructor
  · intro h
    rcases inOrder_or_failsAt env a address session parts with ⟨qs, t, hin⟩ | ⟨e', t, hfails⟩
    · have hout := hin.outcome hparts []
      rw [List.append_nil] at hout
      rw [hout, assembleParts] at h
      simp at h
    · rw [hfails.outcome hparts] at h
      obtain rfl := Except.error.inj h
      obtain ⟨hin, he⟩ := hfails
      rw [assemble_eq_assembleWhole hparts (by simp)] at he
      exact ⟨_, _, _, _, _, rfl, hin, (assembleWhole_error_iff hopens _ _).mp (by rw [he])⟩
  · rintro ⟨before, text, after, qs, t, rfl, hin, hrefused⟩
    have hwhole := (assembleWhole_error_iff hopens t e).mpr hrefused
    rcases hout : (assembleWhole env ⟨text, a, address + (Payload.bytesOf qs).length⟩).outcome t with ⟨r, u⟩
    rw [hout] at hwhole
    obtain rfl : r = .error e := hwhole
    rw [← assemble_eq_assembleWhole hparts (by simp)] at hout
    rw [(FailsAt.intro hin hout).outcome hparts]

theorem refused_of_call {s : Source} (hopens : Opens env s.architecture) {r : Refusal}
    (hcall : (call env { s with text := prepare s.architecture s.text } []).outcome session = (.ok (.error r), t)) :
    ∃ place, Locates env s.architecture s.address t (statements (prepare s.architecture s.text)) place ∧
      Refused env s session (.refused r place) := by
  obtain ⟨place, -, -, hplace⟩ := locate_locates hopens s.address t (statements (prepare s.architecture s.text))
  exact ⟨place, hplace, .intro hcall hplace⟩

/-- If the engine refuses a text, or a part of it behind parts that are assembled, the text fails with the engine's
error. The place of the first statement refused alone is told behind it, if there is one. The text fails for nothing
else. -/
theorem assemble_locates_error {s : Source} (hopens : Opens env s.architecture) (session : Session) :
    ((s.architecture.isLongX86 && (split s.text).any (·.isSpecial)) = false →
      (∀ r t, (call env { s with text := prepare s.architecture s.text } []).outcome session = (.ok (.error r), t) →
        ∃ place, Locates env s.architecture s.address t (statements (prepare s.architecture s.text)) place ∧
          ((assemble env s).outcome session).1 = .error (.refused r place)) ∧
      ∀ e, ((assemble env s).outcome session).1 = .error e → Refused env s session e) ∧
    (s.architecture.isLongX86 = true → (∃ part ∈ split s.text, part.isSpecial = true) →
      (∀ before text after qs t r u, split s.text = before ++ .ordinary text :: after →
        InOrder env s.architecture s.address session before qs t →
        (call env ⟨text, s.architecture, s.address + (Payload.bytesOf qs).length⟩ []).outcome t = (.ok (.error r), u) →
        ∃ place,
          Locates env s.architecture (s.address + (Payload.bytesOf qs).length) u (statements text) place ∧
          ((assemble env s).outcome session).1 = .error (.refused r place)) ∧
      ∀ e, ((assemble env s).outcome session).1 = .error e →
        ∃ before text after qs t, split s.text = before ++ .ordinary text :: after ∧
          InOrder env s.architecture s.address session before qs t ∧
          Refused env ⟨text, s.architecture, s.address + (Payload.bytesOf qs).length⟩ t e) ∧
    ∀ (r : Refusal) (place : Option Place), (EncodeError.refused r place).kind = r.kind ∧
      (EncodeError.refused r place).message = match place with
        | some p => r.message ++ s!" (instruction '{p.statement}' @ {Text.hexMarked p.address})"
        | none => r.message := by
  refine ⟨?_, ?_, ?_⟩
  · intro hunsplit
    have hassemble : assemble env s = assembleWhole env s := by simp [assemble, hunsplit]
    rw [hassemble]
    constructor
    · intro r t hcall
      obtain ⟨place, hplace, hrefused⟩ := refused_of_call hopens hcall
      exact ⟨place, hplace, (assembleWhole_error_iff hopens _ _).mpr hrefused⟩
    · intro e h
      exact (assembleWhole_error_iff hopens _ _).mp h
  · intro hlong hspecial
    have hany : (split s.text).any (·.isSpecial) = true := List.any_eq_true.mpr hspecial
    have hassemble : assemble env s = assembleParts env s.architecture s.address (split s.text) { code := [] } := by
      simp [assemble, hlong, hany]
    have hordinary : ∀ text, .ordinary text ∈ split s.text → (split text).any (·.isSpecial) = false :=
      fun text htext => split_of_mem_split htext
    have hparts (e : EncodeError) :
        ((assembleParts env s.architecture s.address (split s.text) { code := [] }).outcome session).1 = .error e ↔ _ :=
      assembleParts_error_iff hopens hordinary session e
    rw [hassemble]
    constructor
    · intro before text after qs t r u hsplit hin hcall
      have hprepare : prepare s.architecture text = text := prepare_of_isLongX86 hlong text
      rw [← hprepare] at hcall
      obtain ⟨place, hplace, hrefused⟩ :=
        refused_of_call (s := ⟨text, s.architecture, s.address + (Payload.bytesOf qs).length⟩) hopens hcall
      rw [hprepare] at hplace
      exact ⟨place, hplace, (hparts _).mpr ⟨before, text, after, qs, t, hsplit, hin, hrefused⟩⟩
    · intro e h
      exact (hparts e).mp h
  · intro r place
    refine ⟨rfl, ?_⟩
    cases place with
    | none => exact String.append_empty
    | some p => rfl

/-- Assembles single instructions without effect, and refuses whatever else it is asked. -/
def plainEngine : AssemblerEngine where
  opening _ _ := none
  assembling _ _ text _ :=
    .reply { result := if text = "nop" then .ok (some [0x90]) else .error ⟨"KsError", "Invalid mnemonic"⟩ }

def plainConsole : Environment := ⟨plainEngine, ⟨fun _ _ => none, fun _ _ _ _ => .ok []⟩, true⟩

/-- Statements in two lines with a blank one between, of which the second is refused. -/
def haltBehind : Source := ⟨"nop\n \n  hcf", .x86Long, 0x10⟩

/-- The same behind an instruction and a special form. -/
def haltBehindSpecial : Source := ⟨"nop\nmov rax, qword ptr fs:[0x28]\nnop\n \n  hcf", .x86Long, 0x10⟩

theorem outcome_haltBehind : ((assemble plainConsole haltBehind).outcome {}).1 =
    .error (.refused ⟨"KsError", "Invalid mnemonic"⟩ (some ⟨"hcf", 0x11⟩)) := by
  decide +kernel

theorem outcome_haltBehindSpecial : ((assemble plainConsole haltBehindSpecial).outcome {}).1 =
    .error (.refused ⟨"KsError", "Invalid mnemonic"⟩ (some ⟨"hcf", 0x1b⟩)) := by
  decide +kernel

theorem assemble_locates_error_haltBehind :
    Opens plainConsole .x86Long ∧
      (haltBehind.architecture.isLongX86 && (split haltBehind.text).any (·.isSpecial)) = false ∧
      (∃ t, (call plainConsole ⟨prepare .x86Long haltBehind.text, .x86Long, 0x10⟩ []).outcome {} =
          (.ok (.error ⟨"KsError", "Invalid mnemonic"⟩), t) ∧
        ∃ place, Locates plainConsole .x86Long 0x10 t (statements (prepare .x86Long haltBehind.text)) place ∧
          ((assemble plainConsole haltBehind).outcome {}).1 =
            .error (.refused ⟨"KsError", "Invalid mnemonic"⟩ place)) ∧
      Refused plainConsole haltBehind {} (.refused ⟨"KsError", "Invalid mnemonic"⟩ (some ⟨"hcf", 0x11⟩)) ∧
      haltBehindSpecial.architecture.isLongX86 = true ∧
      (∃ part ∈ split haltBehindSpecial.text, part.isSpecial = true) ∧
      (∃ before text after qs t, split haltBehindSpecial.text = before ++ .ordinary text :: after ∧
        InOrder plainConsole .x86Long 0x10 {} before qs t ∧
        Refused plainConsole ⟨text, .x86Long, 0x10 + (Payload.bytesOf qs).length⟩ t
          (.refused ⟨"KsError", "Invalid mnemonic"⟩ (some ⟨"hcf", 0x1b⟩))) ∧
      (EncodeError.refused ⟨"KsError", "Invalid mnemonic"⟩ (some ⟨"hcf", 0x1b⟩)).message =
        "Invalid mnemonic (instruction 'hcf' @ 0x1b)" := by
  have hopens : Opens plainConsole .x86Long := ⟨⟨4, 8⟩, by decide, fun _ => rfl⟩
  have hunsplit : (haltBehind.architecture.isLongX86 && (split haltBehind.text).any (·.isSpecial)) = false := by
    decide +kernel
  have hspecial : ∃ part ∈ split haltBehindSpecial.text, part.isSpecial = true := by decide +kernel
  have hresult : ((call plainConsole ⟨prepare .x86Long haltBehind.text, .x86Long, 0x10⟩ []).outcome {}).1 =
      .ok (.error ⟨"KsError", "Invalid mnemonic"⟩) := by decide +kernel
  rcases hcall : (call plainConsole ⟨prepare .x86Long haltBehind.text, .x86Long, 0x10⟩ []).outcome {} with ⟨r, t⟩
  rw [hcall] at hresult
  obtain rfl : r = .ok (.error ⟨"KsError", "Invalid mnemonic"⟩) := hresult
  obtain ⟨hwhole, -, -⟩ := assemble_locates_error (s := haltBehind) hopens {}
  obtain ⟨hplaced, honly⟩ := hwhole hunsplit
  obtain ⟨-, hparts, hmessage⟩ := assemble_locates_error (s := haltBehindSpecial) hopens {}
  refine ⟨hopens, hunsplit, ⟨t, rfl, hplaced _ t hcall⟩, honly _ outcome_haltBehind, rfl, hspecial,
    (hparts rfl hspecial).2 _ outcome_haltBehindSpecial, ?_⟩
  rw [(hmessage _ _).2]
  decide +kernel

end AssemblyConsole.Assembler
