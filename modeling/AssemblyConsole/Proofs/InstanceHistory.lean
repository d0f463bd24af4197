import AssemblyConsole.Architecture.Names
import AssemblyConsole.Engine.Transcript
import AssemblyConsole.Proofs.CapturedStream
import AssemblyConsole.Proofs.SessionSteps

/-!
Which instances are open, told from the events alone. An instance is opened only where none is, and whatever is asked
of an engine is asked through an instance that is open; a warning with a granted request closes all instances of the
assembler, and a warning with a refused one closes none.
-/

namespace AssemblyConsole

namespace Event

def opens (side : Side) (a : Architecture) : Event → Bool
  | .opening side' a' _ refusal => side' = side && a' = a && refusal.isNone
  | _ => false

def drops (side : Side) : Event → Bool
  | .assembling c => side = .assembler && c.warned
  | _ => false

theorem opens_iff {side : Side} {a : Architecture} {e : Event} :
    e.opens side a = true ↔ ∃ flags, e = .opening side a flags none := by
  cases e <;> simp [opens, and_assoc]

end Event

/-- Whether an instance for the architecture is open after these events, the latest first. -/
def isOpen (side : Side) (a : Architecture) : List Event → Bool
  | [] => false
  | e :: past => e.opens side a || !e.drops side && isOpen side a past

/-- What can happen after these events, the latest first. -/
inductive Follows (env : Environment) (past : List Event) : Event → Prop
  | opening {side a flags} (hclosed : isOpen side a past = false) (hflags : side.numbering.flags? a = some flags) :
      Follows env past (.opening side a flags (env.opening side past.length flags))
  | assembling {a} (hopen : isOpen .assembler a past = true) (reply : Reply) :
      Follows env past (.assembling (Assembler.callOf env a reply))
  | decoding {a} (hopen : isOpen .disassembler a past = true) : Follows env past (.decoding a)

/-- Each of these events, the latest first, can happen after those before it. -/
def Orderly (env : Environment) : List Event → Prop
  | [] => True
  | e :: past => Follows env past e ∧ Orderly env past

/-- The events are orderly, and they tell which instances are there. -/
structure Session.Kept (env : Environment) (s : Session) : Prop where
  orderly : Orderly env s.history
  present : ∀ side a, (s.instance? side a).isSome = isOpen side a s.history

namespace Session

variable {env : Environment} {s t : Session}

theorem kept_start (env : Environment) : Kept env {} := by
  refine ⟨trivial, ?_⟩
  intro side a
  cases side <;> rfl

theorem instance?_record (s : Session) (e : Event) (side : Side) (a : Architecture) :
    (s.record e).instance? side a = s.instance? side a := by
  cases side <;> rfl

theorem history_add (s : Session) (side : Side) (i : EngineInstance) : (s.add side i).history = s.history := by
  cases side <;> rfl

theorem isSome_instance?_add (s : Session) (side side' : Side) (i : EngineInstance) (a : Architecture) :
    ((s.add side i).instance? side' a).isSome =
      (side = side' && i.architecture = a || (s.instance? side' a).isSome) := by
  have hfind (is : List EngineInstance) : ((is ++ [i]).find? (·.architecture = a)).isSome =
      (i.architecture = a || (is.find? (·.architecture = a)).isSome) := by
    rw [List.find?_append, Option.isSome_or, Bool.or_comm]
    by_cases hi : i.architecture = a <;> simp [hi]
  cases side <;> cases side'
  · exact hfind s.assemblers
  · rfl
  · rfl
  · exact hfind s.disassemblers

theorem history_recordCall (s : Session) (c : AssemblerCall) :
    (s.recordCall c).history = .assembling c :: s.history := by
  unfold recordCall
  split <;> rfl

theorem isSome_instance?_recordCall (s : Session) (c : AssemblerCall) (side : Side) (a : Architecture) :
    ((s.recordCall c).instance? side a).isSome =
      (!(Event.assembling c).drops side && (s.instance? side a).isSome) := by
  cases hw : c.warned <;> cases side <;> simp only [recordCall, Event.drops, hw] <;> rfl

theorem Kept.isOpen_of_some (hs : s.Kept env) {side : Side} {a : Architecture} {i : EngineInstance}
    (hi : s.instance? side a = some i) : isOpen side a s.history = true := by
  rw [← hs.present, hi, Option.isSome_some]

theorem Kept.isOpen_of_none (hs : s.Kept env) {side : Side} {a : Architecture} (h : s.instance? side a = none) :
    isOpen side a s.history = false := by
  rw [← hs.present, h, Option.isSome_none]

theorem Step.kept (h : Step env s t) (hs : s.Kept env) : t.Kept env := by
  cases h with
  | @refused side a flags r hnone hflags hr =>
    have hfollows : Follows env s.history (.opening side a flags (some r)) :=
      hr ▸ .opening (hs.isOpen_of_none hnone) hflags
    refine ⟨⟨hfollows, hs.orderly⟩, ?_⟩
    intro side' a'
    rw [instance?_record, hs.present]
    simp [isOpen, Event.opens, Event.drops, record]
  | @opened side a flags hnone hflags hr =>
    have hfollows : Follows env s.history (.opening side a flags none) :=
      hr ▸ .opening (hs.isOpen_of_none hnone) hflags
    constructor
    · rw [history_add]
      exact ⟨hfollows, hs.orderly⟩
    · intro side' a'
      rw [isSome_instance?_add, instance?_record, history_add, hs.present]
      simp [isOpen, Event.opens, Event.drops, record]
  | @called i source hi values =>
    constructor
    · rw [history_recordCall]
      exact ⟨.assembling (hs.isOpen_of_some hi) _, hs.orderly⟩
    · intro side a
      rw [isSome_instance?_recordCall, history_recordCall, hs.present]
      rfl
  | @decoded a i hi =>
    refine ⟨⟨.decoding (hs.isOpen_of_some hi), hs.orderly⟩, ?_⟩
    intro side a'
    rw [instance?_record, hs.present]
    rfl

theorem Leads.kept (h : Leads env s t) (hs : s.Kept env) : t.Kept env := by
  induction h with
  | refl => exact hs
  | tail _ hstep ih => exact hstep.kept ih

theorem Reached.kept (h : Reached env s) : s.Kept env := h.leads.kept (kept_start env)

end Session

section History

variable {env : Environment} {side : Side} {a : Architecture} {past later : List Event} {e : Event}

theorem Orderly.of_append (later : List Event) (h : Orderly env (later ++ past)) : Orderly env past := by
  induction later with
  | nil => exact h
  | cons e later ih => exact ih h.2

theorem Follows.isOpen_of_assembling {c : AssemblerCall} (h : Follows env past (.assembling c)) :
    isOpen .assembler c.architecture past = true := by
  cases h with
  | assembling hopen reply => rwa [Assembler.architecture_callOf]

theorem opening_of_isOpen_append (h : isOpen side a (later ++ past) = true) (hpast : isOpen side a past = false) :
    ∃ flags, .opening side a flags none ∈ later := by
  induction later with
  | nil =>
    rw [List.nil_append, hpast] at h
    simp at h
  | cons e later ih =>
    simp only [List.cons_append, isOpen, Bool.or_eq_true, Bool.and_eq_true, Event.opens_iff] at h
    rcases h with ⟨flags, rfl⟩ | ⟨-, h⟩
    · exact ⟨flags, List.mem_cons_self⟩
    · obtain ⟨flags, hmem⟩ := ih h
      exact ⟨flags, List.mem_cons_of_mem e hmem⟩

theorem isOpen_append (hpast : isOpen side a past = true) (hkeep : ∀ e ∈ later, e.drops side = false) :
    isOpen side a (later ++ past) = true := by
  induction later with
  | nil => exact hpast
  | cons e later ih =>
    have hopen := ih fun e' he' => hkeep e' (List.mem_cons_of_mem e he')
    simp [isOpen, hopen, hkeep e List.mem_cons_self]

/-- While an instance is open, none is opened for its architecture, and none is tried. -/
theorem Orderly.no_opening (h : Orderly env (later ++ past)) (hpast : isOpen side a past = true)
    (hkeep : ∀ e ∈ later, e.drops side = false) (flags : EngineFlags) (refusal : Option Refusal) :
    .opening side a flags refusal ∉ later := by
  intro hmem
  obtain ⟨after, before, rfl⟩ := List.append_of_mem hmem
  rw [List.append_assoc] at h
  obtain ⟨hfollows, -⟩ := h.of_append after
  have hopen : isOpen side a (before ++ past) = true := by
    apply isOpen_append hpast
    intro e he
    exact hkeep e (List.mem_append_right _ (List.mem_cons_of_mem _ he))
  cases hfollows with
  | opening hclosed =>
    change isOpen side a (before ++ past) = false at hclosed
    simp [hclosed] at hopen

end History

namespace Assembler

theorem warned_callOf {env : Environment} {a : Architecture} {reply : Reply} {printed : List Char}
    (hstream : env.errorStream = true) (ha : isWatched a = true)
    (hprinted : reply.printed = Text.Utf8.encode printed) (hmark : '\x08' ∉ printed)
    (hwords : Text.occursIn warningWords printed = true) :
    (callOf env a reply).warned = reply.result.toOption.isSome := by
  have hwatch : Stream.watch reply.printed = (printed, Text.Utf8.encode printed) := by
    rw [hprinted, Stream.watch_encode hmark]
  simp [callOf, AssemblerCall.warned, hstream, ha, hwatch, hwords]

end Assembler

/-- Whatever is asked of the assembler in these events is asked through an instance opened in them. -/
def Renewed (after : List Event) : Prop :=
  ∀ mid c rest, after = mid ++ .assembling c :: rest → ∃ flags, .opening .assembler c.architecture flags none ∈ mid

/-- As long as the assembler's instances are not dropped in these events, none is opened for the architecture. -/
def Retained (a : Architecture) (after : List Event) : Prop :=
  ∀ mid rest, after = mid ++ rest → (∀ e ∈ mid, e.drops .assembler = false) →
    ∀ flags refusal, .opening .assembler a flags refusal ∉ mid

namespace Session

variable {env : Environment} {s : Session}

theorem Kept.past (hs : s.Kept env) {before after : List Event} (h : s.events = before ++ after) :
    Orderly env (after.reverse ++ before.reverse) := by
  have hhistory : s.history = after.reverse ++ before.reverse := by
    rw [← List.reverse_append, ← h, events, List.reverse_reverse]
  exact hhistory ▸ hs.orderly

/-- A warning that comes with a granted request closes every instance of the assembler. One that comes with a refused
request closes none. -/
theorem Reached.warning_renews (hs : s.Reached env) (hstream : env.errorStream = true) {before after : List Event}
    {c : AssemblerCall} (h : s.events = before ++ .assembling c :: after)
    (hc : Assembler.isWatched c.architecture = true) {printed : List Char}
    (hprinted : c.reply.printed = Text.Utf8.encode printed) (hmark : '\x08' ∉ printed)
    (hwords : Text.occursIn warningWords printed = true) :
    (∀ code, c.reply.result = .ok code → Renewed after) ∧
      ∀ r, c.reply.result = .error r → isOpen .assembler c.architecture before.reverse = true ∧
        ∀ a, isOpen .assembler a before.reverse = true → Retained a after := by
  have horderly := hs.kept.past h
  rw [List.reverse_cons, List.append_assoc, List.singleton_append] at horderly
  obtain ⟨hcall, -⟩ := horderly.of_append after.reverse
  have hwarned : c.warned = c.reply.result.toOption.isSome := by
    cases hcall with
    | @assembling a hopen reply =>
      rw [Assembler.architecture_callOf] at hc
      rw [Assembler.reply_callOf] at hprinted ⊢
      exact Assembler.warned_callOf hstream hc hprinted hmark hwords
  constructor
  · -- behind the call nothing is open, so that what a later call finds open was opened in between
    rintro code hcode mid c' rest rfl
    have hclosed : isOpen .assembler c'.architecture (.assembling c :: before.reverse) = false := by
      simp [isOpen, Event.opens, Event.drops, hwarned, hcode, Except.toOption]
    rw [List.reverse_append, List.reverse_cons, List.append_assoc, List.append_assoc] at horderly
    obtain ⟨hcall', -⟩ := horderly.of_append rest.reverse
    have hopen : isOpen .assembler c'.architecture (mid.reverse ++ .assembling c :: before.reverse) = true :=
      hcall'.isOpen_of_assembling
    obtain ⟨flags, hmem⟩ := opening_of_isOpen_append hopen hclosed
    exact ⟨flags, List.mem_reverse.mp hmem⟩
  · -- the call drops nothing, and an opening has to find no instance
    intro r hr
    refine ⟨hcall.isOpen_of_assembling, ?_⟩
    rintro a ha mid rest rfl hkeep flags refusal hmem
    have hopen : isOpen .assembler a (.assembling c :: before.reverse) = true := by
      simp [isOpen, Event.drops, hwarned, hr, Except.toOption, ha]
    rw [List.reverse_append, List.append_assoc] at horderly
    have hlater := horderly.of_append rest.reverse
    refine hlater.no_opening hopen ?_ flags refusal (List.mem_reverse.mpr hmem)
    intro e he
    exact hkeep e (List.mem_reverse.mp he)

/-- An assembler for 32-bit ARM that prints a warning with the code of one statement and with the refusal of another. -/
def gruffRecord : Transcript where
  requests := [
    ⟨⟨1, 1⟩, "nop", 0, [⟨[], ⟨"warning: odd\n".toUTF8.toList, [], .ok (some [0x00, 0xf0, 0x20, 0xe3])⟩⟩]⟩,
    ⟨⟨1, 1⟩, "hcf", 0, [⟨[], ⟨"warning: odd\n".toUTF8.toList, [], .error ⟨"KsError", "unknown"⟩⟩⟩]⟩]

def gruff : Environment := ⟨gruffRecord.assembler, gruffRecord.disassembler, true⟩

/-- The session after three requests, of which the first is refused and sought for its error. -/
def gruffSession : Session :=
  let ask (text : String) (s : Session) : Session := ((Assembler.assemble gruff ⟨text, .armLittle, 0⟩).outcome s).2
  ask "nop" (ask "nop" (ask "hcf" {}))

def gruffText : List Char := "warning: odd\n".toList

def gruffCall (result : Except Refusal (Option Bytes)) : AssemblerCall :=
  ⟨.armLittle, ⟨Text.Utf8.encode gruffText, [], result⟩, some gruffText, Text.Utf8.encode gruffText⟩

def gruffRefused : AssemblerCall := gruffCall (.error ⟨"KsError", "unknown"⟩)

def gruffGranted : AssemblerCall := gruffCall (.ok (some [0x00, 0xf0, 0x20, 0xe3]))

def gruffOpening : Event := .opening .assembler .armLittle ⟨1, 1⟩ none

theorem reached_gruffSession : gruffSession.Reached gruff := ((Reached.start.assembled _).assembled _).assembled _

theorem events_gruffSession : gruffSession.events =
    [gruffOpening, .assembling gruffRefused, .assembling gruffRefused, .assembling gruffGranted, gruffOpening,
      .assembling gruffGranted] := by
  with_unfolding_all rfl

theorem Reached.warning_renews_gruff :
    Renewed [gruffOpening, .assembling gruffGranted] ∧
      isOpen .assembler .armLittle [gruffOpening] = true ∧
      Retained .armLittle [.assembling gruffRefused, .assembling gruffGranted, gruffOpening,
        .assembling gruffGranted] := by
  have hmark : '\x08' ∉ gruffText := by decide
  have hwords : Text.occursIn warningWords gruffText = true := by decide
  have hgranted : gruffSession.events = [gruffOpening, .assembling gruffRefused, .assembling gruffRefused] ++
      .assembling gruffGranted :: [gruffOpening, .assembling gruffGranted] := events_gruffSession
  have hrefused : gruffSession.events = [gruffOpening] ++ .assembling gruffRefused ::
      [.assembling gruffRefused, .assembling gruffGranted, gruffOpening, .assembling gruffGranted] :=
    events_gruffSession
  obtain ⟨hrenewed, -⟩ := reached_gruffSession.warning_renews rfl hgranted rfl rfl hmark hwords
  obtain ⟨-, hretained⟩ := reached_gruffSession.warning_renews rfl hrefused rfl rfl hmark hwords
  obtain ⟨hopen, hall⟩ := hretained _ rfl
  exact ⟨hrenewed _ rfl, hopen, hall .armLittle hopen⟩

/-- A request behind a refused one that printed a warning may be made through the instance of the refused one. -/
theorem not_renewed_gruff :
    ¬∀ (env : Environment) (s : Session) (before after : List Event) (c : AssemblerCall) (printed : List Char),
      s.Reached env → env.errorStream = true → s.events = before ++ .assembling c :: after →
        Assembler.isWatched c.architecture = true → c.reply.printed = Text.Utf8.encode printed →
        '\x08' ∉ printed → Text.occursIn warningWords printed = true → Renewed after := by
  intro hall
  have hrefused : gruffSession.events = [gruffOpening] ++ .assembling gruffRefused ::
      [.assembling gruffRefused, .assembling gruffGranted, gruffOpening, .assembling gruffGranted] :=
    events_gruffSession
  have h := hall gruff gruffSession _ _ gruffRefused gruffText reached_gruffSession rfl hrefused rfl rfl
    (by decide) (by decide)
  obtain ⟨flags, hmem⟩ := h [] gruffRefused _ rfl
  exact List.not_mem_nil hmem

end Session

end AssemblyConsole
