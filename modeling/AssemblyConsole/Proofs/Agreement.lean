import AssemblyConsole.Proofs.Requests
import AssemblyConsole.Proofs.SessionSound
import AssemblyConsole.Proofs.Traversal

/-!
Two runs of one request, each in a session of its own and one of them perhaps without an error stream. Engines that
answer alike whenever they are asked make both end alike, with the same warnings behind those that were there.
-/

namespace AssemblyConsole

open AssemblyConsole.Action

def Environment.withStream (env : Environment) (v : Bool) : Environment := { env with errorStream := v }

variable {env : Environment} {v : Bool} {ε α β : Type}

/-- From any two sound sessions the actions end alike, in sound sessions, with the same warnings raised. -/
def Agrees (env : Environment) (x y : Action Session ε α) : Prop :=
  ∀ s t, s.Sound env → t.Sound env →
    (x.outcome s).1 = (y.outcome t).1 ∧ (x.outcome s).2.Sound env ∧ (y.outcome t).2.Sound env ∧
      ∃ w, (x.outcome s).2.warnings = s.warnings ++ w ∧ (y.outcome t).2.warnings = t.warnings ++ w

theorem agrees_pure (a : α) : Agrees env (pure a : Action Session ε α) (pure a) := by
  intro s t hs ht
  exact ⟨rfl, hs, ht, [], by simp⟩

theorem agrees_throw (e : ε) : Agrees env (throw e : Action Session ε α) (throw e) := by
  intro s t hs ht
  refine ⟨rfl, hs, ht, [], ?_, ?_⟩ <;> rw [outcome_throw, List.append_nil]

theorem Agrees.bind {x y : Action Session ε α} {f g : α → Action Session ε β} (hx : Agrees env x y)
    (hf : ∀ a, Agrees env (f a) (g a)) : Agrees env (x >>= f) (y >>= g) := by
  intro s t hs ht
  obtain ⟨heq, hs', ht', w, hw, hw'⟩ := hx s t hs ht
  rw [outcome_bind, outcome_bind]
  rcases h : x.outcome s with ⟨r | a, s'⟩ <;> rcases h' : y.outcome t with ⟨r' | a', t'⟩ <;>
    simp only [h, h', Except.error.injEq, Except.ok.injEq, reduceCtorEq] at heq hs' ht' hw hw'
  · subst heq
    exact ⟨rfl, hs', ht', w, hw, hw'⟩
  · subst heq
    obtain ⟨he, hs'', ht'', u, hu, hu'⟩ := hf a s' t' hs' ht'
    refine ⟨he, hs'', ht'', w ++ u, ?_, ?_⟩
    · rw [hu, hw, List.append_assoc]
    · rw [hu', hw', List.append_assoc]

theorem sound_withStream {s : Session} : s.Sound (env.withStream v) ↔ s.Sound env :=
  ⟨fun h => ⟨h.assemblers, h.disassemblers⟩, fun h => ⟨h.assemblers, h.disassemblers⟩⟩

/-- Actions agree that raise no warning and of which contracts leave one outcome only. -/
theorem agrees_of_meets {x y : Action Session ε α} {Q : α → Prop} {E : ε → Prop}
    (hx : ∀ w, Meets (Session.SoundWith env w) x Q E)
    (hy : ∀ w, Meets (Session.SoundWith (env.withStream v) w) y Q E)
    (hQ : ∀ a b, Q a → Q b → a = b) (hE : ∀ e f, E e → E f → e = f) (hQE : ∀ a e, Q a → ¬E e) : Agrees env x y := by
  intro s t hs ht
  obtain ⟨hs', hok, herror⟩ := hx s.warnings s ⟨hs, rfl⟩
  obtain ⟨ht', hok', herror'⟩ := hy t.warnings t ⟨sound_withStream.mpr ht, rfl⟩
  refine ⟨?_, hs'.1, sound_withStream.mp ht'.1, [], by rw [hs'.2, List.append_nil], by rw [ht'.2, List.append_nil]⟩
  rcases h : (x.outcome s).1 with e | a <;> rcases h' : (y.outcome t).1 with f | b
  · rw [hE e f (herror e h) (herror' f h')]
  · exact absurd (herror e h) (hQE b e (hok' b h'))
  · exact absurd (herror' f h') (hQE a f (hok a h))
  · rw [hQ a b (hok a h) (hok' b h')]

section Opening

variable {n : Numbering} {opening : Nat → EngineFlags → Option Refusal} {a : Architecture} {unsupported : ε}
  {unopened : Refusal → ε} (h : ∀ s t, opening s = opening t)

theorem Granted.unique {i j : EngineInstance} (hi : Granted n opening i) (hj : Granted n opening j)
    (ha : i.architecture = j.architecture) : i = j := by
  obtain ⟨a, flags⟩ := i
  obtain ⟨c, flags'⟩ := j
  obtain rfl : a = c := ha
  obtain rfl : flags = flags' := Option.some.inj (hi.1.symm.trans hj.1)
  rfl

include h

theorem Unavailable.unique {e f : ε} (he : Unavailable n opening a unsupported unopened e)
    (hf : Unavailable n opening a unsupported unopened f) : e = f := by
  rcases he with ⟨rfl, hn⟩ | ⟨flags, r, c, hflags, hr, rfl⟩ <;>
    rcases hf with ⟨rfl, hn'⟩ | ⟨flags', r', c', hflags', hr', rfl⟩
  · rfl
  · rw [hn] at hflags'
    simp at hflags'
  · rw [hn'] at hflags
    simp at hflags
  · obtain rfl := Option.some.inj (hflags.symm.trans hflags')
    rw [h c c', hr'] at hr
    rw [Option.some.inj hr]

theorem Granted.not_unavailable {i : EngineInstance} {e : ε} (hi : Granted n opening i) :
    ¬Unavailable n opening i.architecture unsupported unopened e := by
  obtain ⟨hflags, clock, hg⟩ := hi
  have hopen (c : Nat) : opening c i.flags = none := by rw [h c clock, hg]
  exact not_unavailable_of_opening hflags hopen e

end Opening

namespace Assembler

variable (h : env.assembler.Steady) (s : Source)
include h

theorem instanceFor_agrees (a : Architecture) :
    Agrees env (instanceFor env a) (instanceFor (env.withStream v) a) := by
  refine agrees_of_meets (instanceFor_meets env a) (instanceFor_meets (env.withStream v) a) ?_ ?_ ?_
  · rintro i j ⟨hi, hgi⟩ ⟨hj, hgj⟩
    exact hgi.unique hgj (hi.trans hj.symm)
  · exact fun e f he hf => he.unique h.1 hf
  · rintro i e ⟨rfl, hgi⟩
    exact hgi.not_unavailable h.1

theorem call_agrees (values : List (String × Int)) :
    Agrees env (call env s values) (call (env.withStream v) s values) := by
  -- the instance is the same, so the dialogues are; only the clocks and what is shown differ
  refine (instanceFor_agrees h s.architecture).bind ?_
  intro i t u ht hu
  have hassembling : (env.withStream v).assembler.assembling u.clock = env.assembler.assembling t.clock := h.2 _ _
  simp only [outcome_bind, outcome_get, outcome_modify, outcome_pure, hassembling]
  refine ⟨trivial, ht.recordCall _, hu.recordCall _, _, Session.warnings_recordCall _ _, ?_⟩
  rw [Session.warnings_recordCall, reply_callOf, reply_callOf]

theorem agrees_compositional (a : Architecture) :
    Compositional env (env.withStream v) a fun _ x y => Agrees env x y where
  pure := agrees_pure
  bind hx hf := hx.bind hf
  call s values _ := call_agrees h s values

theorem assemble_agrees : Agrees env (assemble env s) (assemble (env.withStream v) s) :=
  (agrees_compositional h s.architecture).assemble s rfl agrees_throw

end Assembler

namespace Disassembler

theorem decode_agrees (h : env.disassembler.Steady) (a : Architecture) (address : Int) (bytes : Bytes) :
    Agrees env (decode env a address bytes) (decode (env.withStream v) a address bytes) := by
  have flags {i j : EngineFlags} (hi : Granted .disassembler env.disassembler.opening ⟨a, i⟩)
      (hj : Granted .disassembler env.disassembler.opening ⟨a, j⟩) : i = j :=
    congrArg EngineInstance.flags (hi.unique hj rfl)
  refine agrees_of_meets (decode_meets env a · address bytes) (decode_meets (env.withStream v) a · address bytes)
    ?_ ?_ ?_
  · rintro ds ds' ⟨c, f, raws, hi, hd, rfl⟩ ⟨c', f', raws', hi', hd', rfl⟩
    obtain rfl := flags hi hi'
    rw [h.2 c c', hd'] at hd
    rw [Except.ok.inj hd]
  · rintro e e' (he | ⟨c, f, r, hi, hd, rfl⟩) (he' | ⟨c', f', r', hi', hd', rfl⟩)
    · exact he.unique h.1 he'
    · exact absurd he (hi'.not_unavailable h.1)
    · exact absurd he' (hi.not_unavailable h.1)
    · obtain rfl := flags hi hi'
      rw [h.2 c c', hd'] at hd
      rw [Except.error.inj hd]
  · rintro ds e ⟨c, f, raws, hi, hd, -⟩ (he | ⟨c', f', r, hi', hd', -⟩)
    · exact hi.not_unavailable h.1 he
    · obtain rfl := flags hi hi'
      rw [h.2 c c', hd'] at hd
      simp at hd

end Disassembler

section Traversal

variable {arch : Architecture} {b : Buffer} {d d' : Decoder Session}

theorem follow_agrees (hd : ∀ a bytes, Agrees env (d a bytes) (d' a bytes)) (queue : List { a : Int // b.Holds a })
    (g : Graph) : Agrees env (Graph.follow d arch b queue g) (Graph.follow d' arch b queue g) := by
  induction queue, g using Graph.follow.induct arch b with
  | case1 g =>
    rw [Graph.follow, Graph.follow]
    exact agrees_pure _
  | case2 g a ha rest hk ih =>
    rw [follow_known hk, follow_known hk]
    exact ih
  | case3 g a ha rest hk h hs ih =>
    rw [follow_cut hk hs, follow_cut hk hs]
    exact ih
  | case4 g a ha rest hk hn ih =>
    rw [follow_gather hk hn, follow_gather hk hn]
    refine (hd a _).bind ?_
    intro ds
    cases hg : Growth.gather arch b g.starts (.start a) ds with
    | error e => exact agrees_throw e
    | ok s => exact ih ds s hg

theorem explore_agrees (hd : ∀ a bytes, Agrees env (d a bytes) (d' a bytes)) (entry : Int) :
    Agrees env (Graph.explore d arch b entry) (Graph.explore d' arch b entry) := by
  unfold Graph.explore
  by_cases hempty : b.data = [] ∧ entry = b.base
  · rw [if_pos hempty, if_pos hempty]
    exact agrees_pure _
  · rw [if_neg hempty, if_neg hempty]
    by_cases he : b.Holds entry
    · rw [dif_pos he, dif_pos he]
      exact follow_agrees hd _ _
    · rw [dif_neg he, dif_neg he]
      exact agrees_throw _

end Traversal

theorem Disassembler.graph_agrees (h : env.disassembler.Steady) (a : Architecture) (b : Buffer) (entry : Int) :
    Agrees env (graph env a b entry) (graph (env.withStream v) a b entry) :=
  explore_agrees (decode_agrees h a) entry

end AssemblyConsole
