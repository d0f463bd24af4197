import AssemblyConsole.Proofs.AskedSymbols
import AssemblyConsole.Proofs.Requests
import AssemblyConsole.Proofs.SessionSound
import AssemblyConsole.Proofs.Traversal

/-!
Why requests fail. An error is told by what has caused it, and its kind is one of a few: there are no numbers for the
architecture, an engine has refused, or the bytes hold no instruction where control comes to.
-/

namespace AssemblyConsole

open AssemblyConsole.Action

/-- The engines refuse with the kinds of error that are known of them. -/
structure Environment.KnownRefusals (env : Environment) : Prop where
  assemblerOpening : ∀ clock flags r, env.assembler.opening clock flags = some r → r.kind = "KsError"
  assembling : ∀ clock flags text address recorder r,
    ((env.assembler.assembling clock flags text address).answer recorder).2.result = .error r →
      r.kind = "KsError" ∨ r.kind = "UnicodeEncodeError"
  disassemblerOpening : ∀ clock flags r, env.disassembler.opening clock flags = some r → r.kind = "CsError"
  decoding : ∀ clock flags bytes address r,
    env.disassembler.decoding clock flags bytes address = .error r → r.kind = "CsError"

namespace Assembler

/-- The action bears every refusal of a request, and fails only for want of an instance for the architecture. -/
abbrev Bears (env : Environment) (a : Architecture) {α : Type} (x : Action Session EncodeError α) : Prop :=
  Meets (Session.Sound env) x (fun _ => True) (Unavailable env a)

theorem call_bears (env : Environment) (s : Source) (values : List (String × Int)) :
    Bears env s.architecture (call env s values) :=
  (call_meets env s values).mono (fun _ _ => trivial) fun _ he => he

theorem bears_compositional (env : Environment) (a : Architecture) :
    Compositional env env a fun _ x _ => Bears env a x where
  pure _ := meets_pure trivial
  bind hx hf := hx.bind fun r _ => hf r
  call s values hs := hs ▸ call_bears env s values

inductive Cause (env : Environment) (a : Architecture) (texts : List String) : EncodeError → Prop
  | unavailable {e} (he : Unavailable env a e) : Cause env a texts e
  | refused {text address clock flags r place} (htext : text ∈ texts)
      (hflags : Numbering.assembler.flags? a = some flags)
      (hr : resultOf env clock flags ⟨prepare a text, a, address⟩ [] = .error r) : Cause env a texts (.refused r place)

variable {env : Environment} {a : Architecture} {e : EncodeError}

theorem Cause.mono {texts texts' : List String} (h : Cause env a texts e) (hsub : texts ⊆ texts') :
    Cause env a texts' e := by
  cases h with
  | unavailable he => exact .unavailable he
  | refused htext hflags hr => exact .refused (hsub htext) hflags hr

theorem resultOf_eq_error {clock : Nat} {flags : EngineFlags} {s : Source} {values : List (String × Int)} {r : Refusal}
    (h : resultOf env clock flags s values = .error r) :
    ((env.assembler.assembling clock flags s.text s.address).answer { values }).2.result = .error r := by
  unfold resultOf at h
  cases hresult : ((env.assembler.assembling clock flags s.text s.address).answer { values }).2.result with
  | error r' =>
    simp only [hresult, Except.map, Except.error.injEq] at h
    rw [h]
  | ok code => simp [hresult, Except.map] at h

theorem Cause.kind {texts : List String} (h : Cause env a texts e) (henv : env.KnownRefusals) :
    e.kind = "AssemblerArchSupportError" ∨ e.kind = "KsError" ∨ e.kind = "UnicodeEncodeError" := by
  cases h with
  | unavailable he =>
    rcases he with ⟨rfl, -⟩ | ⟨flags, r, clock, -, hr, rfl⟩
    · exact .inl rfl
    · exact .inr (.inl (henv.assemblerOpening clock flags r hr))
  | refused _ _ hr => exact .inr (henv.assembling _ _ _ _ _ _ (resultOf_eq_error hr))

theorem assembleWhole_fails (env : Environment) (s : Source) :
    Meets (Session.Sound env) (assembleWhole env s) (fun _ => True) (Cause env s.architecture [s.text]) := by
  refine ((call_meets env { s with text := prepare s.architecture s.text } []).mono (fun _ h => h)
    fun _ he => .unavailable he).bind ?_
  rintro (r | assembled) ⟨clock, flags, hi, hr⟩
  · have hlocate := (bears_compositional env s.architecture).locate s.address
      (statements (prepare s.architecture s.text))
    refine (hlocate.mono (fun _ h => h) fun _ he => .unavailable he).bind ?_
    intro place _
    exact meets_throw (.refused List.mem_cons_self hi.1 hr.symm)
  · have hrelocations := (bears_compositional env s.architecture).relocationsOfAll
      { s with text := prepare s.architecture s.text } rfl assembled.code assembled.symbols
    refine (hrelocations.mono (fun _ h => h) fun _ he => .unavailable he).bind ?_
    intro relocations _
    exact meets_pure trivial

theorem assembleParts_fails (env : Environment) (a : Architecture) (address : Int) (parts : List SpecialForm.Part)
    (p : Payload) : Meets (Session.Sound env) (assembleParts env a address parts p) (fun _ => True)
      (Cause env a (parts.filterMap SpecialForm.Part.text?)) := by
  induction parts generalizing p with
  | nil => exact meets_pure trivial
  | cons part rest ih =>
    cases part with
    | special code => exact ih _
    | ordinary text =>
      refine ((assembleWhole_fails env _).mono (fun _ h => h) fun _ he => he.mono ?_).bind ?_
      · simp [SpecialForm.Part.text?]
      · intro q _
        apply (ih _).mono fun _ h => h
        intro e he
        apply he.mono
        simp [SpecialForm.Part.text?]

theorem assemble_fails (env : Environment) (s : Source) :
    Meets (Session.Sound env) (assemble env s) (fun _ => True) (Cause env s.architecture (textsOf s)) := by
  unfold assemble textsOf
  simp only
  split
  · exact assembleParts_fails env s.architecture s.address _ _
  · exact assembleWhole_fails env s

def Opens (env : Environment) (a : Architecture) : Prop :=
  ∃ flags, Numbering.assembler.flags? a = some flags ∧ ∀ clock, env.assembler.opening clock flags = none

theorem Opens.not_unavailable (h : Opens env a) : ¬Unavailable env a e := by
  obtain ⟨flags, hflags, hopen⟩ := h
  exact not_unavailable_of_opening hflags hopen e

theorem assembleWhole_of_call {s : Source} (h : Opens env s.architecture) {session : Session} (hs : session.Sound env)
    {assembled : Assembled}
    (hcall : ((call env { s with text := prepare s.architecture s.text } []).outcome session).1 = .ok (.ok assembled)) :
    ∃ p, ((assembleWhole env s).outcome session).1 = .ok p ∧ p.code = assembled.code := by
  have ht := (call_bears env { s with text := prepare s.architecture s.text } [] session hs).1
  rw [assembleWhole, outcome_bind]
  rcases hout : (call env { s with text := prepare s.architecture s.text } []).outcome session with ⟨r, t⟩
  rw [hout] at hcall ht
  obtain rfl : r = .ok (.ok assembled) := hcall
  have hbears := (bears_compositional env s.architecture).relocationsOfAll
    { s with text := prepare s.architecture s.text } rfl assembled.code assembled.symbols
  obtain ⟨relocations, u, hrelocations, -⟩ := (hbears.mono (fun _ h => h) fun _ => h.not_unavailable).result ht
  simp only [outcome_bind, hrelocations]
  exact ⟨_, rfl, rfl⟩

end Assembler

theorem Growth.gather_eq_error {arch : Architecture} {b : Buffer} {starts : List Int} {g : Growth} {ds : List Decoded}
    {e : DecodeError} (h : gather arch b starts g ds = .error e) :
    ∃ c, b.Holds c ∧ e = .undecodable arch c ((b.bytesFrom c).take 16) := by
  have hfinish {g : Growth} (h : g.finish arch b = .error e) :
      ∃ c, b.Holds c ∧ e = .undecodable arch c ((b.bytesFrom c).take 16) := by
    unfold finish at h
    split at h
    · rename_i hnext
      obtain rfl := Except.error.inj h
      exact ⟨g.next, hnext, rfl⟩
    · simp at h
  induction ds generalizing g with
  | nil => exact hfinish h
  | cons d ds ih =>
    rw [gather] at h
    split at h
    · exact hfinish h
    · split at h
      · simp at h
      · simp only at h
        split at h
        · simp at h
        · simp at h
        · simp at h
        · exact ih h
        · exact ih h

namespace Disassembler

inductive Cause (env : Environment) (a : Architecture) (b : Buffer) (entry : Int) : DecodeError → Prop
  | unavailable {e} (he : Unavailable env a e) : Cause env a b entry e
  | refused {c clock flags r} (hc : b.Holds c) (hflags : Numbering.disassembler.flags? a = some flags)
      (hr : env.disassembler.decoding clock flags (b.bytesFrom c) c = .error r) : Cause env a b entry (.refused r)
  | outside (hentry : ¬b.Holds entry) (hempty : ¬(b.data = [] ∧ entry = b.base)) :
      Cause env a b entry (.outside entry b.base b.stop)
  | undecodable {c} (hc : b.Holds c) : Cause env a b entry (.undecodable a c ((b.bytesFrom c).take 16))

variable {env : Environment} {a : Architecture} {b : Buffer} {entry : Int} {e : DecodeError}

theorem Cause.kind (h : Cause env a b entry e) (henv : env.KnownRefusals) :
    e.kind = "DisassemblerArchSupportError" ∨ e.kind = "CsError" ∨ e.kind = "EntryPointError" ∨
      e.kind = "InvalidInstructionError" := by
  cases h with
  | unavailable he =>
    rcases he with ⟨rfl, -⟩ | ⟨flags, r, clock, -, hr, rfl⟩
    · exact .inl rfl
    · exact .inr (.inl (henv.disassemblerOpening clock flags r hr))
  | refused _ _ hr => exact .inr (.inl (henv.decoding _ _ _ _ _ hr))
  | outside => exact .inr (.inr (.inl rfl))
  | undecodable => exact .inr (.inr (.inr rfl))

theorem graph_fails (env : Environment) (a : Architecture) (b : Buffer) (entry : Int) :
    Meets (Session.Sound env) (graph env a b entry) (fun _ => True) (Cause env a b entry) := by
  have hdecode (c : Int) (hc : b.Holds c) :
      Meets (Session.Sound env) (decode env a c (b.bytesFrom c)) (fun _ => True) (Cause env a b entry) := by
    apply (Meets.ofView fun w => decode_meets env a w c (b.bytesFrom c)).mono fun _ _ => trivial
    rintro e (he | ⟨clock, flags, r, hi, hr, rfl⟩)
    · exact .unavailable he
    · exact .refused hc hi.1 hr
  by_cases he : b.Holds entry
  · apply (explore_ends hdecode he).mono fun _ _ => trivial
    rintro e (⟨p, -, c, hc, rest, ds, -, -, hg⟩ | ⟨_, _, hcause⟩)
    · obtain ⟨c, hc, rfl⟩ := Growth.gather_eq_error hg
      exact .undecodable hc
    · exact hcause
  · rw [graph, Graph.explore, dif_neg he]
    split
    · exact meets_pure trivial
    · rename_i hempty
      exact meets_throw (.outside he hempty)

end Disassembler

/-- Whatever is asked for ends with a result or with an error of a known cause and kind. Where instances open, the
first request for a text without special forms decides: a refusal of a later one does no harm. -/
theorem fails_for_cause {env : Environment} (henv : env.KnownRefusals) {session : Session} (hs : session.Sound env) :
    (∀ s, ((Assembler.assemble env s).outcome session).2.Sound env ∧
      ((∃ p, ((Assembler.assemble env s).outcome session).1 = .ok p) ∨
        ∃ e, ((Assembler.assemble env s).outcome session).1 = .error e ∧
          Assembler.Cause env s.architecture (Assembler.textsOf s) e ∧
          (e.kind = "AssemblerArchSupportError" ∨ e.kind = "KsError" ∨ e.kind = "UnicodeEncodeError"))) ∧
    (∀ a b entry, ((Disassembler.graph env a b entry).outcome session).2.Sound env ∧
      ((∃ g, ((Disassembler.graph env a b entry).outcome session).1 = .ok g) ∨
        ∃ e, ((Disassembler.graph env a b entry).outcome session).1 = .error e ∧
          Disassembler.Cause env a b entry e ∧
          (e.kind = "DisassemblerArchSupportError" ∨ e.kind = "CsError" ∨ e.kind = "EntryPointError" ∨
            e.kind = "InvalidInstructionError"))) ∧
    ∀ s assembled, (s.architecture.isLongX86 && (SpecialForm.split s.text).any (·.isSpecial)) = false →
      Assembler.Opens env s.architecture →
      ((Assembler.call env { s with text := Assembler.prepare s.architecture s.text } []).outcome session).1 =
        .ok (.ok assembled) →
      ∃ p, ((Assembler.assemble env s).outcome session).1 = .ok p ∧ p.code = assembled.code := by
  refine ⟨?_, ?_, ?_⟩
  · intro s
    obtain ⟨ht, -, herror⟩ := Assembler.assemble_fails env s session hs
    refine ⟨ht, ?_⟩
    cases hout : ((Assembler.assemble env s).outcome session).1 with
    | ok p => exact .inl ⟨p, rfl⟩
    | error e => exact .inr ⟨e, rfl, herror e hout, (herror e hout).kind henv⟩
  · intro a b entry
    obtain ⟨ht, -, herror⟩ := Disassembler.graph_fails env a b entry session hs
    refine ⟨ht, ?_⟩
    cases hout : ((Disassembler.graph env a b entry).outcome session).1 with
    | ok g => exact .inl ⟨g, rfl⟩
    | error e => exact .inr ⟨e, rfl, herror e hout, (herror e hout).kind henv⟩
  · intro s assembled hwhole hopens hcall
    obtain ⟨p, hp, hcode⟩ := Assembler.assembleWhole_of_call hopens hs hcall
    refine ⟨p, ?_, hcode⟩
    unfold Assembler.assemble
    simp only [hwhole]
    exact hp

/-- Assembles one jump, with its symbol at the placeholder address only, and refuses whatever else it is asked. -/
def fussyEngine : AssemblerEngine where
  opening _ flags := if flags.family = 3 then some ⟨"KsError", "Invalid/unsupported architecture"⟩ else none
  assembling _ _ text _ :=
    if text = "jmp top" then .ask "top".toByteArray.toList fun v =>
      .reply { result := if v = 0 then .ok (some [0xeb, 0xfe]) else .error ⟨"KsError", "Invalid operand"⟩ }
    else .reply { result := .error ⟨"UnicodeEncodeError", "ordinal not in range(128)"⟩ }

def fussyConsole : Environment :=
  ⟨fussyEngine, ⟨fun _ _ => none, fun _ _ _ _ => .error ⟨"CsError", "Invalid handle"⟩⟩, true⟩

theorem knownRefusals_fussy : fussyConsole.KnownRefusals := by
  constructor
  · intro clock flags r hr
    simp only [fussyConsole, fussyEngine, Option.ite_none_right_eq_some, Option.some.injEq] at hr
    rw [← hr.2]
  · intro clock flags text address recorder r hr
    simp only [fussyConsole, fussyEngine] at hr
    split at hr
    · simp only [Dialogue.answer] at hr
      split at hr
      · simp at hr
      · obtain rfl := Except.error.inj hr
        exact .inl rfl
    · obtain rfl := Except.error.inj hr
      exact .inr rfl
  · simp [fussyConsole]
  · intro clock flags bytes address r hr
    obtain rfl := Except.error.inj hr
    rfl

theorem fails_for_cause_fussy :
    fussyConsole.KnownRefusals ∧ Session.Sound fussyConsole {} ∧ Assembler.Opens fussyConsole .x86Long ∧
      ((Assembler.call fussyConsole ⟨"jmp top", .x86Long, 0⟩ []).outcome {}).1 = .ok (.ok ⟨[0xeb, 0xfe], ["top"]⟩) ∧
      ((Assembler.call fussyConsole ⟨"jmp top", .x86Long, 0⟩ [("top", 80)]).outcome {}).1 =
        .ok (.error ⟨"KsError", "Invalid operand"⟩) ∧
      ∃ p, ((Assembler.assemble fussyConsole ⟨"jmp top", .x86Long, 0⟩).outcome {}).1 = .ok p ∧
        p.code = [0xeb, 0xfe] := by
  have hs := Session.sound_empty fussyConsole
  have hopens : Assembler.Opens fussyConsole .x86Long := ⟨⟨4, 8⟩, by decide, fun _ => rfl⟩
  have hfirst : ((Assembler.call fussyConsole ⟨"jmp top", .x86Long, 0⟩ []).outcome {}).1 =
      .ok (.ok ⟨[0xeb, 0xfe], ["top"]⟩) := by decide +kernel
  have hlater : ((Assembler.call fussyConsole ⟨"jmp top", .x86Long, 0⟩ [("top", 80)]).outcome {}).1 =
      .ok (.error ⟨"KsError", "Invalid operand"⟩) := by decide +kernel
  obtain ⟨-, -, hwhole⟩ := fails_for_cause knownRefusals_fussy hs
  exact ⟨knownRefusals_fussy, hs, hopens, hfirst, hlater,
    hwhole ⟨"jmp top", .x86Long, 0⟩ _ (by decide +kernel) hopens hfirst⟩

end AssemblyConsole
