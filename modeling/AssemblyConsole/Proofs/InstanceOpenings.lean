import AssemblyConsole.Proofs.AskedSymbols
import AssemblyConsole.Proofs.InstanceHistory

/-!
Instances are opened no more often than needed, and an opening that was refused is tried again by the next request
that leaves something to the engine.
-/

namespace AssemblyConsole

open AssemblyConsole.Action

namespace Event

/-- The event is a request to the engine for the architecture. -/
def asks (side : Side) (a : Architecture) : Event → Bool
  | .assembling c => side = .assembler && c.architecture = a
  | .decoding a' => side = .disassembler && a' = a
  | .opening .. => false

end Event

/-- The call was watched, returned, and printed a warning. -/
structure AssemblerCall.Warns (c : AssemblerCall) : Prop where
  isWatched : Assembler.isWatched c.architecture = true
  returned : ∃ code, c.reply.result = .ok code
  warning : ∃ text, c.watched = some text ∧ Text.occursIn warningWords text = true

section History

variable {env : Environment} {side : Side} {a : Architecture} {past later : List Event} {e : Event}

theorem Follows.isOpen_of_asks (h : Follows env past e) (he : e.asks side a = true) : isOpen side a past = true := by
  cases h with
  | opening => simp [Event.asks] at he
  | assembling hopen reply =>
    simp only [Event.asks, Bool.and_eq_true, decide_eq_true_eq, Assembler.architecture_callOf] at he
    rwa [he.1, ← he.2]
  | decoding hopen =>
    simp only [Event.asks, Bool.and_eq_true, decide_eq_true_eq] at he
    rwa [he.1, ← he.2]

theorem Follows.of_opening {flags : EngineFlags} {refusal : Option Refusal}
    (h : Follows env past (.opening side a flags refusal)) :
    isOpen side a past = false ∧ side.numbering.flags? a = some flags := by
  cases h with
  | opening hclosed hflags => exact ⟨hclosed, hflags⟩

theorem Follows.warns_of_drops {c : AssemblerCall} (h : Follows env past (.assembling c))
    (hc : (Event.assembling c).drops side = true) : c.Warns := by
  simp only [Event.drops, AssemblerCall.warned, Bool.and_eq_true] at hc
  obtain ⟨-, hgranted, hwords⟩ := hc
  have hresult : ∃ code, c.reply.result = .ok code := by
    cases hresult : c.reply.result with
    | error r => simp [hresult, Except.toOption] at hgranted
    | ok code => exact ⟨code, rfl⟩
  cases hwatched : c.watched with
  | none => simp [hwatched] at hwords
  | some text =>
    rw [hwatched] at hwords
    refine ⟨?_, hresult, text, hwatched, hwords⟩
    cases h with
    | @assembling a' hopen reply =>
      rw [Assembler.architecture_callOf]
      by_cases hstream : env.errorStream = true
      · by_cases ha : Assembler.isWatched a' = true
        · exact ha
        · simp [Assembler.callOf, hstream, ha] at hwatched
      · simp [Assembler.callOf, hstream] at hwatched

theorem Orderly.follows_of_mem (h : Orderly env past) (he : e ∈ past) : ∃ before, Follows env before e := by
  obtain ⟨later, before, rfl⟩ := List.append_of_mem he
  exact ⟨before, (h.of_append later).1⟩

theorem drops_disassembler (e : Event) : e.drops .disassembler = false := by
  cases e <;> rfl

/-- No instance of the disassembler is ever dropped, so that it is opened once if it is open, and else not at all. -/
theorem Orderly.countP_opens (h : Orderly env past) :
    past.countP (·.opens .disassembler a) = (isOpen .disassembler a past).toNat := by
  induction past with
  | nil => rfl
  | cons e past ih =>
    obtain ⟨he, hpast⟩ := h
    rw [List.countP_cons, ih hpast, isOpen, drops_disassembler]
    by_cases hopens : e.opens .disassembler a = true
    · obtain ⟨flags, rfl⟩ := Event.opens_iff.mp hopens
      simp [hopens, he.of_opening.1]
    · simp [hopens]

theorem Orderly.closed_of_refused {flags : EngineFlags} {r : Refusal}
    (h : Orderly env (.opening side a flags (some r) :: past)) :
    isOpen side a (.opening side a flags (some r) :: past) = false := by
  simp [isOpen, Event.opens, h.1.of_opening.1]

end History

namespace Session

variable {env : Environment} {s t : Session}

theorem Step.history (h : Step env s t) : ∃ e, t.history = e :: s.history := by
  cases h with
  | refused => exact ⟨_, rfl⟩
  | opened => exact ⟨_, history_add _ _ _⟩
  | called => exact ⟨_, history_recordCall _ _⟩
  | decoded => exact ⟨_, rfl⟩

theorem Leads.history (h : Leads env s t) : ∃ later, t.history = later ++ s.history := by
  induction h with
  | refl => exact ⟨[], rfl⟩
  | tail _ hstep ih =>
    obtain ⟨later, hlater⟩ := ih
    obtain ⟨e, he⟩ := hstep.history
    exact ⟨e :: later, by rw [he, hlater, List.cons_append]⟩

end Session

/-- What has happened stays on record. -/
def Extends {ε α : Type} (x : Action Session ε α) : Prop :=
  ∀ s, ∃ later, (x.outcome s).2.history = later ++ s.history

/-- Where there is no instance, the action begins with an attempt to open one. -/
def Tries (side : Side) (a : Architecture) (flags : EngineFlags) {ε α : Type} (x : Action Session ε α) : Prop :=
  ∀ s, s.instance? side a = none →
    ∃ refusal later, (x.outcome s).2.history = later ++ .opening side a flags refusal :: s.history

section Tries

variable {env : Environment} {side : Side} {a : Architecture} {flags : EngineFlags} {ε α β : Type}

theorem Moves.extends {x : Action Session ε α} (hx : Moves env x) : Extends x := fun s => (moves_iff.mp hx s).history

theorem Tries.bind {x : Action Session ε α} {f : α → Action Session ε β} (hx : Tries side a flags x)
    (hf : ∀ r, Extends (f r)) : Tries side a flags (x >>= f) := by
  intro s hs
  obtain ⟨refusal, later, hhistory⟩ := hx s hs
  rw [outcome_bind]
  rcases hout : x.outcome s with ⟨e | r, t⟩
  · rw [hout] at hhistory
    exact ⟨refusal, later, hhistory⟩
  · rw [hout] at hhistory
    obtain ⟨latest, hlatest⟩ := hf r t
    exact ⟨refusal, latest ++ later, by rw [hlatest, hhistory, List.append_assoc]⟩

theorem instanceOr_tries (env : Environment) (side : Side) (hflags : side.numbering.flags? a = some flags)
    (unsupported : ε) (unopened : Refusal → ε) :
    Tries side a flags (instanceOr (·.instance? side a) side side.numbering (env.opening side) a
      (fun i s => s.add side i) unsupported unopened) := by
  intro s hs
  refine ⟨env.opening side s.clock flags, [], ?_⟩
  simp only [instanceOr, outcome_bind, outcome_get, outcome_modify, hs, hflags]
  cases env.opening side s.clock flags with
  | some r => rfl
  | none => exact Session.history_add _ _ _

end Tries

namespace Assembler

variable {env : Environment} {flags : EngineFlags}

theorem instanceFor_tries {a : Architecture} (hflags : Numbering.assembler.flags? a = some flags) :
    Tries .assembler a flags (instanceFor env a) :=
  instanceOr_tries env .assembler hflags (EncodeError.unsupported a) (EncodeError.unopened a)

theorem call_tries {s : Source} (hflags : Numbering.assembler.flags? s.architecture = some flags)
    (values : List (String × Int)) : Tries .assembler s.architecture flags (call env s values) := by
  apply (instanceFor_tries hflags).bind
  intro i t
  exact ⟨[_], Session.history_recordCall _ _⟩

theorem assembleWhole_tries {s : Source} (hflags : Numbering.assembler.flags? s.architecture = some flags) :
    Tries .assembler s.architecture flags (assembleWhole env s) := by
  apply (call_tries (s := { s with text := prepare s.architecture s.text }) hflags []).bind
  have hmoves := moves_compositional env s.architecture
  rintro (refusal | assembled)
  · exact ((hmoves.locate _ _).bind fun place => moves_throw _).extends
  · have hrelocations := hmoves.relocationsOfAll { s with text := prepare s.architecture s.text } rfl
      assembled.code assembled.symbols
    exact (hrelocations.bind fun rs => moves_pure _).extends

theorem assembleParts_tries {a : Architecture} (hflags : Numbering.assembler.flags? a = some flags) (address : Int)
    {parts : List SpecialForm.Part} (hparts : parts.filterMap SpecialForm.Part.text? ≠ []) (p : Payload) :
    Tries .assembler a flags (assembleParts env a address parts p) := by
  induction parts generalizing p with
  | nil => exact absurd rfl hparts
  | cons part rest ih =>
    cases part with
    | special code => exact ih hparts _
    | ordinary text =>
      apply (assembleWhole_tries (s := ⟨text, a, address + p.code.length⟩) hflags).bind
      intro q
      exact ((moves_compositional env a).assembleParts moves_throw address rest _).extends

theorem assembleParts_of_special (env : Environment) (a : Architecture) (address : Int) {parts : List SpecialForm.Part}
    (hparts : parts.filterMap SpecialForm.Part.text? = []) (p : Payload) (session : Session) :
    ((assembleParts env a address parts p).outcome session).2 = session := by
  induction parts generalizing p with
  | nil => rfl
  | cons part rest ih =>
    cases part with
    | special code => exact ih hparts _
    | ordinary text => simp [SpecialForm.Part.text?] at hparts

end Assembler

namespace Disassembler

variable {env : Environment} {flags : EngineFlags} {a : Architecture}

theorem instanceFor_tries (hflags : Numbering.disassembler.flags? a = some flags) :
    Tries .disassembler a flags (instanceFor env a) :=
  instanceOr_tries env .disassembler hflags (DecodeError.unsupported a) (DecodeError.unopened a)

theorem decode_tries (hflags : Numbering.disassembler.flags? a = some flags) (address : Int) (bytes : Bytes) :
    Tries .disassembler a flags (decode env a address bytes) := by
  apply (instanceFor_tries hflags).bind
  intro i t
  refine ⟨[.decoding a], ?_⟩
  simp only [outcome_bind, outcome_get, outcome_modify]
  cases env.disassembler.decoding t.clock i.flags bytes address <;> rfl

theorem graph_tries (hflags : Numbering.disassembler.flags? a = some flags) {b : Buffer} {entry : Int}
    (he : b.Holds entry) : Tries .disassembler a flags (graph env a b entry) := by
  have hnone : ({ base := b.base, entry := entry } : Graph).split? entry = none := rfl
  rw [graph, explore_of_holds he, follow_gather (by simp [Graph.starts]) hnone]
  apply (decode_tries hflags entry (b.bytesFrom entry)).bind
  intro ds
  split
  · exact fun t => ⟨[], rfl⟩
  · exact (follow_moves env a _ _).extends

end Disassembler

namespace Session

/-- What a session can be asked for. -/
inductive Demand
  | assemble (source : Source)
  | decode (a : Architecture) (address : Int) (bytes : Bytes)
  | graph (a : Architecture) (b : Buffer) (entry : Int)

namespace Demand

def side : Demand → Side
  | .assemble _ => .assembler
  | .decode .. | .graph .. => .disassembler

def architecture : Demand → Architecture
  | .assemble source => source.architecture
  | .decode a .. | .graph a .. => a

/-- Something is left to the engine: a statement that is no special form, or the bytes at an entry address. -/
def Needs : Demand → Prop
  | .assemble source => Assembler.textsOf source ≠ []
  | .decode .. => True
  | .graph _ b entry => b.Holds entry

/-- The session after the demand is served or has failed. -/
def after (env : Environment) (s : Session) : Demand → Session
  | .assemble source => ((Assembler.assemble env source).outcome s).2
  | .decode a address bytes => ((Disassembler.decode env a address bytes).outcome s).2
  | .graph a b entry => ((Disassembler.graph env a b entry).outcome s).2

variable {env : Environment} {s : Session} {flags : EngineFlags}

theorem history_after (d : Demand) (env : Environment) (hneeds : d.Needs)
    (hflags : d.side.numbering.flags? d.architecture = some flags) (hnone : s.instance? d.side d.architecture = none) :
    ∃ refusal later,
      (d.after env s).history = later ++ .opening d.side d.architecture flags refusal :: s.history := by
  cases d with
  | assemble source =>
    change Numbering.assembler.flags? source.architecture = some flags at hflags
    have htries : Tries .assembler source.architecture flags (Assembler.assemble env source) := by
      simp only [Needs, Assembler.textsOf] at hneeds
      simp only [Assembler.assemble]
      split
      · rename_i hparts
        rw [if_pos hparts] at hneeds
        exact Assembler.assembleParts_tries hflags _ hneeds _
      · exact Assembler.assembleWhole_tries hflags
    exact htries s hnone
  | decode a address bytes => exact Disassembler.decode_tries hflags address bytes s hnone
  | graph a b entry => exact Disassembler.graph_tries hflags hneeds s hnone

theorem after_eq_self (d : Demand) (hneeds : ¬d.Needs) : d.after env s = s := by
  cases d with
  | assemble source =>
    simp only [Needs, Assembler.textsOf, ne_eq, not_not] at hneeds
    simp only [after, Assembler.assemble]
    split at hneeds
    · rename_i hparts
      rw [if_pos hparts]
      exact Assembler.assembleParts_of_special env _ _ hneeds _ s
    · simp at hneeds
  | decode => exact absurd trivial hneeds
  | graph a b entry =>
    change ¬b.Holds entry at hneeds
    simp only [after, Disassembler.graph, Graph.explore, dif_neg hneeds]
    split <;> rfl

end Demand

variable {env : Environment} {s : Session}

/-- Between two openings for one architecture the assembler's instances were dropped. -/
theorem Kept.dropped_between (hs : s.Kept env) {before mid after : List Event} {a : Architecture} {f f' : EngineFlags}
    {refusal : Option Refusal}
    (h : s.events = before ++ .opening .assembler a f none :: (mid ++ .opening .assembler a f' refusal :: after)) :
    ∃ c, .assembling c ∈ mid ∧ c.Warns := by
  have horderly := hs.past h
  simp only [List.reverse_append, List.reverse_cons, List.append_assoc, List.cons_append, List.nil_append] at horderly
  have hmid := horderly.of_append after.reverse
  have hdrops : ∃ e ∈ mid, e.drops .assembler = true := by
    by_contra hkeep
    simp only [not_exists, not_and, Bool.not_eq_true] at hkeep
    have hopen : isOpen .assembler a (.opening .assembler a f none :: before.reverse) = true := by
      simp [isOpen, Event.opens]
    have hstill := isOpen_append hopen fun e he => hkeep e (List.mem_reverse.mp he)
    rw [hmid.1.of_opening.1] at hstill
    exact absurd hstill (by simp)
  obtain ⟨e, he, hdrops⟩ := hdrops
  cases e with
  | assembling c =>
    obtain ⟨past, hfollows⟩ := hmid.follows_of_mem
      (List.mem_cons_of_mem _ (List.mem_append_left _ (List.mem_reverse.mpr he)))
    exact ⟨c, he, hfollows.warns_of_drops hdrops⟩
  | opening => simp [Event.drops] at hdrops
  | decoding => simp [Event.drops] at hdrops

theorem Kept.countP_opens (hs : s.Kept env) (a : Architecture) : s.events.countP (·.opens .disassembler a) ≤ 1 := by
  rw [events, List.countP_reverse, hs.orderly.countP_opens]
  exact Bool.toNat_le _

section Refused

variable {before after : List Event} {side : Side} {a : Architecture} {f : EngineFlags} {r : Refusal}

theorem Kept.opened_after_refused (hs : s.Kept env) (h : s.events = before ++ .opening side a f (some r) :: after)
    {mid rest : List Event} {e : Event} (hsplit : after = mid ++ e :: rest) (he : e.asks side a = true) :
    ∃ f', .opening side a f' none ∈ mid := by
  have horderly := hs.past h
  simp only [hsplit, List.reverse_append, List.reverse_cons, List.append_assoc, List.singleton_append] at horderly
  obtain ⟨hfollows, hmid⟩ := horderly.of_append rest.reverse
  have hclosed := (hmid.of_append mid.reverse).closed_of_refused
  obtain ⟨f', hmem⟩ := opening_of_isOpen_append (hfollows.isOpen_of_asks he) hclosed
  exact ⟨f', List.mem_reverse.mp hmem⟩

/-- The next demand that needs an instance tries again, as long as no opening has been granted since. -/
theorem Kept.tries_again (hs : s.Kept env) (h : s.events = before ++ .opening side a f (some r) :: after)
    (hnever : ∀ f', .opening side a f' none ∉ after) {d : Demand} (hside : d.side = side)
    (harchitecture : d.architecture = a) (hneeds : d.Needs) :
    ∃ refusal later, (d.after env s).events = s.events ++ .opening side a f refusal :: later := by
  subst hside harchitecture
  have horderly := hs.past h
  simp only [List.reverse_cons, List.append_assoc, List.singleton_append] at horderly
  have hrefused := horderly.of_append after.reverse
  have hhistory : s.history = after.reverse ++ .opening d.side d.architecture f (some r) :: before.reverse := by
    rw [← List.reverse_reverse s.history, ← events, h]
    simp
  have hnone : s.instance? d.side d.architecture = none := by
    rw [← Option.not_isSome_iff_eq_none, hs.present, hhistory]
    intro hopen
    obtain ⟨f', hmem⟩ := opening_of_isOpen_append hopen hrefused.closed_of_refused
    exact hnever f' (List.mem_reverse.mp hmem)
  obtain ⟨refusal, later, hlater⟩ := d.history_after env hneeds hrefused.1.of_opening.2 hnone
  refine ⟨refusal, later.reverse, ?_⟩
  simp [events, hlater]

end Refused

/-- For one architecture the assembler is opened anew only behind a watched call that returned with a warning, and the
disassembler only once. A refused opening opens nothing: what is asked later is asked through an instance opened later,
and the next demand that needs one tries again, while a demand that needs none leaves everything as it is. Nothing is
opened without flags. -/
theorem Reached.opens_sparingly (hs : s.Reached env) :
    (∀ before mid after a f f',
      s.events = before ++ .opening .assembler a f none :: (mid ++ .opening .assembler a f' none :: after) →
        ∃ c, .assembling c ∈ mid ∧ c.Warns) ∧
    (∀ a, s.events.countP (·.opens .disassembler a) ≤ 1) ∧
    (∀ before after side a f r, s.events = before ++ .opening side a f (some r) :: after →
      (∀ mid e rest, after = mid ++ e :: rest → e.asks side a = true → ∃ f', .opening side a f' none ∈ mid) ∧
      ((∀ f', .opening side a f' none ∉ after) → ∀ d : Demand, d.side = side → d.architecture = a → d.Needs →
        ∃ refusal later, (d.after env s).events = s.events ++ .opening side a f refusal :: later)) ∧
    (∀ d : Demand, ¬d.Needs → d.after env s = s) ∧
    ∀ side a f refusal, .opening side a f refusal ∈ s.events → side.numbering.flags? a = some f := by
  have hkept := hs.kept
  refine ⟨?_, hkept.countP_opens, ?_, fun d => d.after_eq_self, ?_⟩
  · intro before mid after a f f' h
    exact hkept.dropped_between h
  · intro before after side a f r h
    constructor
    · intro mid e rest hsplit he
      exact hkept.opened_after_refused h hsplit he
    · intro hnever d hside harchitecture hneeds
      exact hkept.tries_again h hnever hside harchitecture hneeds
  · intro side a f refusal hmem
    obtain ⟨past, hfollows⟩ := hkept.orderly.follows_of_mem (List.mem_reverse.mp hmem)
    exact hfollows.of_opening.2

/-- Consoles whose assembler prints a warning with each statement, and refuses to open for the PowerPC at first. -/
def moody : Environment :=
  let opening (clock : Nat) (flags : EngineFlags) : Option Refusal :=
    if flags = ⟨5, 0x40000004⟩ ∧ clock < 5 then some ⟨"KsError", "not now"⟩ else none
  { gruff with assembler := { gruff.assembler with opening } }

def moodyAsk (a : Architecture) (s : Session) : Session := ((Assembler.assemble moody ⟨"nop", a, 0⟩).outcome s).2

def moodyRefused : Session := moodyAsk .ppc (moodyAsk .armLittle (moodyAsk .armLittle {}))

def moodySession : Session := ((Disassembler.decode moody .x86 0 []).outcome (moodyAsk .ppc moodyRefused)).2

theorem reached_moodyRefused : moodyRefused.Reached moody := ((Reached.start.assembled _).assembled _).assembled _

theorem reached_moodySession : moodySession.Reached moody := (reached_moodyRefused.assembled _).decoded _ _ _

def moodyPast : List Event := [gruffOpening, .assembling gruffGranted, gruffOpening, .assembling gruffGranted]

def moodyOpening (refusal : Option Refusal) : Event := .opening .assembler .ppc ⟨5, 0x40000004⟩ refusal

theorem events_moodyRefused :
    moodyRefused.events = moodyPast ++ moodyOpening (some ⟨"KsError", "not now"⟩) :: [] := by
  with_unfolding_all rfl

def moodyCall : AssemblerCall := ⟨.ppc, ⟨[], [], .error Transcript.unanswered⟩, none, []⟩

theorem events_moodySession : moodySession.events = moodyPast ++ moodyOpening (some ⟨"KsError", "not now"⟩) ::
    [moodyOpening none, .assembling moodyCall, .assembling moodyCall, .opening .disassembler .x86 ⟨3, 4⟩ none,
      .decoding .x86] := by
  with_unfolding_all rfl

theorem Reached.opens_sparingly_moody :
    moodyRefused.Reached moody ∧ moodySession.Reached moody ∧
      (∃ c, Event.assembling c ∈ [.assembling gruffGranted] ∧ c.Warns) ∧
      moodySession.events.countP (·.opens .disassembler .x86) ≤ 1 ∧
      (∃ f, .opening .assembler .ppc f none ∈ [moodyOpening none]) ∧
      (∃ refusal later, ((Demand.assemble ⟨"nop", .ppc, 0⟩).after moody moodyRefused).events =
        moodyRefused.events ++ .opening .assembler .ppc ⟨5, 0x40000004⟩ refusal :: later) ∧
      (Demand.graph .x86 ⟨0, [0x90]⟩ 1).after moody moodySession = moodySession ∧
      Side.disassembler.numbering.flags? .x86 = some ⟨3, 4⟩ := by
  obtain ⟨-, -, hrefused, -⟩ := reached_moodyRefused.opens_sparingly
  obtain ⟨hbetween, honce, hopened, hidle, hflags⟩ := reached_moodySession.opens_sparingly
  refine ⟨reached_moodyRefused, reached_moodySession, ?_, honce _, ?_, ?_, hidle _ ?_, ?_⟩
  · exact hbetween [] _ _ .armLittle _ _ events_moodySession
  · obtain ⟨hasked, -⟩ := hopened _ _ _ _ _ _ events_moodySession
    exact hasked [moodyOpening none] (.assembling moodyCall) _ rfl rfl
  · obtain ⟨-, hagain⟩ := hrefused _ _ _ _ _ _ events_moodyRefused
    apply hagain (by simp) _ rfl rfl
    change Assembler.textsOf ⟨"nop", .ppc, 0⟩ ≠ []
    decide
  · change ¬Buffer.Holds ⟨0, [0x90]⟩ 1
    decide
  · apply hflags _ _ _ none
    rw [events_moodySession]
    simp

end Session

end AssemblyConsole
