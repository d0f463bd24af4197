import AssemblyConsole.Assembler.Assemble
import AssemblyConsole.Proofs.FieldBounds
import AssemblyConsole.Proofs.LastWriter
import AssemblyConsole.Proofs.OrdinaryParts
import AssemblyConsole.Proofs.SessionSound

/-!
The form of every payload, for an engine of which nothing is known: its located fields are inside the code, those of
one symbol do not touch, and filling does not change its length.
-/

namespace AssemblyConsole

open AssemblyConsole.Action

theorem Relocation.Fits.fillable {n : Nat} {r : Relocation} (h : r.Fits n) : r.Fillable n := by
  cases ho : r.offset with
  | none => exact .inl (.inl ho)
  | some o =>
    obtain ⟨-, hfirst, hlast, -⟩ := h o ho
    exact .inr ⟨o, ho, hfirst, hlast⟩

namespace Payload

structure WellFormed (p : Payload) : Prop where
  fits : ∀ r ∈ p.relocations, r.Fits p.code.length
  apart : p.relocations.Pairwise fun r s => r.target = s.target → r.Apart s

variable {p q : Payload}

theorem WellFormed.fillable (h : p.WellFormed) : ∀ r ∈ p.relocations, r.Fillable p.code.length :=
  fun r hr => (h.fits r hr).fillable

theorem WellFormed.length_filled (h : p.WellFormed) : p.filled.length = p.code.length :=
  length_foldl_fillOne h.fillable rfl

theorem WellFormed.perm {code : Bytes} {rs rs' : List Relocation}
    (h : ({ code, relocations := rs } : Payload).WellFormed) (hperm : rs.Perm rs') :
    ({ code, relocations := rs' } : Payload).WellFormed := by
  constructor
  · intro r hr
    exact h.fits r (hperm.mem_iff.mpr hr)
  · exact h.apart.perm hperm fun hrs htarget => (hrs htarget.symm).symm

theorem mem_unresolved (p : Payload) (name : String) : name ∈ p.unresolved ↔ ∃ r ∈ p.relocations, r.target = name := by
  rw [unresolved, List.mem_eraseDups, List.mem_map]

theorem nodup_eraseDups (names : List String) : names.eraseDups.Nodup := by
  cases names with
  | nil => simp
  | cons name rest =>
    rw [List.eraseDups_cons]
    apply List.nodup_cons.mpr
    constructor
    · rw [List.mem_eraseDups]
      simp
    · exact nodup_eraseDups _
termination_by names.length
decreasing_by
  have hle := List.length_filter_le (fun b => !b == name) rest
  rw [List.length_cons]
  omega

/-- The code goes on behind every field. -/
def Guarded (p : Payload) : Prop := ∀ r ∈ p.relocations, ∀ o, r.offset = some o → o + r.size < p.code.length

theorem WellFormed.append_code (h : p.WellFormed) (code : Bytes) :
    ({ p with code := p.code ++ code } : Payload).WellFormed := by
  refine ⟨?_, h.apart⟩
  intro r hr
  exact (h.fits r hr).mono (by simp)

theorem WellFormed.guarded_append_code (h : p.WellFormed) {code : Bytes} (hcode : code ≠ []) :
    ({ p with code := p.code ++ code } : Payload).Guarded := by
  intro r hr o ho
  have hlast := (h.fits r hr o ho).2.2.1
  have hpos := List.length_pos_iff.mpr hcode
  simp only [List.length_append]
  omega

theorem offset_shift {n : Nat} {r : Relocation} {o : Int} (h : (r.shift n).offset = some o) :
    ∃ o', r.offset = some o' ∧ o = o' + n := by
  obtain ⟨o', ho, rfl⟩ := Option.map_eq_some_iff.mp h
  exact ⟨o', ho, rfl⟩

def append (p q : Payload) : Payload :=
  { p with
    code := p.code ++ q.filled
    relocations := p.relocations ++ q.relocations.map (·.shift p.code.length) }

theorem mem_unresolved_append (p q : Payload) (name : String) :
    name ∈ (p.append q).unresolved ↔ name ∈ p.unresolved ∨ name ∈ q.unresolved := by
  simp only [mem_unresolved, append, List.mem_append, or_and_right, exists_or, List.mem_map, exists_exists_and_eq_and,
    Relocation.shift]

theorem WellFormed.append (hp : p.WellFormed) (hguarded : p.Guarded) (hq : q.WellFormed) :
    (p.append q).WellFormed := by
  have hlength : (p.append q).code.length = p.code.length + q.code.length := by
    rw [Payload.append, List.length_append, hq.length_filled]
  constructor
  · intro r hr
    rcases List.mem_append.mp hr with hr | hr
    · exact (hp.append_code q.filled).fits r hr
    · obtain ⟨r', hr', rfl⟩ := List.mem_map.mp hr
      intro o ho
      obtain ⟨o', ho', rfl⟩ := offset_shift ho
      obtain ⟨hsize, hfirst, hlast, hplaceholder⟩ := hq.fits r' hr' o' ho'
      refine ⟨hsize, by omega, ?_, hplaceholder⟩
      simp only [hlength, Relocation.shift]
      omega
  · apply List.pairwise_append.mpr
    refine ⟨hp.apart, ?_, ?_⟩
    · apply List.pairwise_map.mpr
      apply hq.apart.imp
      intro r s hrs htarget o u ho hu
      obtain ⟨o', ho', rfl⟩ := offset_shift ho
      obtain ⟨u', hu', rfl⟩ := offset_shift hu
      have hapart := hrs htarget o' u' ho' hu'
      simp only [Relocation.shift]
      omega
    · intro r hr s hs _ o u ho hu
      obtain ⟨s', hs', rfl⟩ := List.mem_map.mp hs
      obtain ⟨u', hu', rfl⟩ := offset_shift hu
      have hlast := hguarded r hr o ho
      have hfirst := (hq.fits s' hs' u' hu').2.1
      left
      omega

end Payload

namespace Assembler

open SpecialForm

theorem symbols_resultOf {env : Environment} {s : Source} {clock : Nat} {flags : EngineFlags}
    {values : List (String × Int)} {assembled : Assembled} (h : resultOf env clock flags s values = .ok assembled) :
    assembled.symbols = ((env.assembler.assembling clock flags s.text s.address).answer { values }).1.symbols := by
  unfold resultOf at h
  cases hresult : ((env.assembler.assembling clock flags s.text s.address).answer { values }).2.result with
  | error r => simp [hresult, Except.map] at h
  | ok code =>
    simp only [hresult, Except.map, Except.ok.injEq] at h
    rw [← h]

variable (env : Environment) (s : Source)

theorem call_nodup (values : List (String × Int)) :
    Yields (call env s values) fun r => ∀ assembled, r = .ok assembled → assembled.symbols.Nodup := by
  refine (yields_any _).bind ?_
  intro i _
  refine (yields_any _).bind ?_
  intro t _
  refine (yields_any _).bind ?_
  intro _ _
  apply meets_pure
  intro assembled h
  have hresult : resultOf env t.clock i.flags s values = .ok assembled := h
  rw [symbols_resultOf hresult]
  exact Dialogue.nodup_symbols_answer _ List.nodup_nil

theorem relocationsOfAll_bounds (code : Bytes) {symbols : List String} (hnodup : symbols.Nodup) :
    Yields (relocationsOfAll env s code symbols) fun rs =>
      ({ code, relocations := rs } : Payload).WellFormed ∧ ∀ name, (∃ r ∈ rs, r.target = name) ↔ name ∈ symbols := by
  induction symbols with
  | nil => exact meets_pure ⟨⟨by simp, .nil⟩, by simp⟩
  | cons symbol rest ih =>
    obtain ⟨hnew, hnodup⟩ := List.nodup_cons.mp hnodup
    refine (relocationsOf_bounds env s symbol code).bind ?_
    rintro here ⟨hnonempty, hhere, hapart⟩
    refine (ih hnodup).bind ?_
    rintro others ⟨hothers, htargets⟩
    have hdistinct : ∀ r ∈ here, ∀ t ∈ others, r.target ≠ t.target := by
      intro r hr t ht heq
      apply hnew
      rw [← (hhere r hr).1, heq]
      exact (htargets t.target).mp ⟨t, ht, rfl⟩
    refine meets_pure ⟨⟨?_, ?_⟩, ?_⟩
    · intro r hr
      rcases List.mem_append.mp hr with hr | hr
      · exact (hhere r hr).2
      · exact hothers.fits r hr
    · apply List.pairwise_append.mpr
      refine ⟨?_, hothers.apart, ?_⟩
      · apply hapart.imp
        intro r t hrt _
        exact hrt
      · intro r hr t ht heq
        exact absurd heq (hdistinct r hr t ht)
    · intro name
      rw [List.mem_cons, ← htargets name]
      constructor
      · rintro ⟨r, hr, rfl⟩
        rcases List.mem_append.mp hr with hr | hr
        · exact .inl (hhere r hr).1
        · exact .inr ⟨r, hr, rfl⟩
      · rintro (rfl | ⟨r, hr, rfl⟩)
        · obtain ⟨r, hr⟩ := List.exists_mem_of_ne_nil here hnonempty
          exact ⟨r, List.mem_append_left _ hr, (hhere r hr).1⟩
        · exact ⟨r, List.mem_append_right _ hr, rfl⟩

theorem relocated_wellFormed {assembled : Assembled} (hnodup : assembled.symbols.Nodup) :
    Yields (do
      let relocations ← relocationsOfAll env s assembled.code assembled.symbols
      return { code := assembled.code, relocations := relocations.mergeSort Relocation.precedes })
      fun p : Payload => p.WellFormed ∧ ∀ name, name ∈ p.unresolved ↔ name ∈ assembled.symbols := by
  refine (relocationsOfAll_bounds env s assembled.code hnodup).bind ?_
  rintro relocations ⟨hformed, htargets⟩
  have hperm := List.mergeSort_perm relocations Relocation.precedes
  refine meets_pure ⟨hformed.perm hperm.symm, ?_⟩
  intro name
  rw [Payload.mem_unresolved, ← htargets name]
  simp only [hperm.mem_iff]

theorem refused_never (r : Refusal) (address : Int) (lines : List String) :
    Yields (do throw (.refused r (← locate env s.architecture address lines)) : Action Session EncodeError Payload)
      fun _ => False := by
  refine (yields_any _).bind ?_
  intro place _
  exact meets_throw trivial

theorem assembleWhole_wellFormed : Yields (assembleWhole env s) Payload.WellFormed := by
  refine (call_nodup env _ []).bind ?_
  rintro (refusal | assembled) hnodup
  · exact (refused_never env s refusal _ _).mono (fun _ h => h.elim) fun _ h => h
  · exact (relocated_wellFormed env _ (hnodup assembled rfl)).mono (fun _ h => h.1) fun _ h => h

theorem assembleParts_wellFormed (a : Architecture) (address : Int) {parts : List Part} (halternating : Alternating parts)
    (hspecial : ∀ code, .special code ∈ parts → code ≠ []) {p : Payload} (hp : p.WellFormed)
    (hguarded : ∀ text rest, parts = .ordinary text :: rest → p.Guarded) :
    Yields (assembleParts env a address parts p) Payload.WellFormed := by
  induction parts generalizing p with
  | nil => exact meets_pure hp
  | cons part rest ih =>
    have hrest : Alternating rest := halternating.tail
    have hspecials : ∀ code, .special code ∈ rest → code ≠ [] := fun code h => hspecial code (List.mem_cons_of_mem _ h)
    cases part with
    | special code =>
      have hcode := hspecial code List.mem_cons_self
      exact ih hrest hspecials (hp.append_code code) fun _ _ _ => hp.guarded_append_code hcode
    | ordinary text =>
      refine (assembleWhole_wellFormed env _).bind ?_
      intro q hq
      apply ih hrest hspecials (hp.append (hguarded text rest rfl) hq)
      -- two ordinary parts do not follow one another
      rintro text' rest' rfl
      have hpair := (List.isChain_cons_cons.mp halternating).1
      simp [Part.isSpecial] at hpair

theorem assemble_yields_wellFormed : Yields (assemble env s) Payload.WellFormed := by
  unfold assemble
  simp only
  split
  · apply assembleParts_wellFormed env _ _ (alternating_partsFrom _ _) (special_partsFrom _ _)
    · exact ⟨by simp, .nil⟩
    · intro _ _ _ r hr
      simp at hr
  · exact assembleWhole_wellFormed env s

end Assembler

end AssemblyConsole
