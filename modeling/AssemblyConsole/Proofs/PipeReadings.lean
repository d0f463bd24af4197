import AssemblyConsole.Proofs.CapturedStream
import Mathlib.Algebra.Order.BigOperators.Group.List
import Mathlib.Logic.Relation

/-!
The readings of a pipe bring in what is written to it in pieces of any sizes. What a capture takes from a pipe with the
end mark in it does not depend on them.
-/

namespace AssemblyConsole.Stream

open Text.Utf8 (decode)

variable {bs before behind : Bytes} {css : List Bytes}

theorem takeWhile_before (h : endMark ∉ before) : (before ++ endMark :: behind).takeWhile (· ≠ endMark) = before := by
  rw [takeWhile_append_of_notMem h, List.takeWhile_cons_of_neg (by simp), List.append_nil]

theorem drain_append (hne : [] ∉ css) (hopen : endMark ∉ css.flatten) (more : List Bytes) :
    drain (css ++ more) = css.flatten ++ drain more := by
  induction css with
  | nil => rfl
  | cons c css ih =>
    rw [List.mem_cons, not_or] at hne
    rw [List.flatten_cons, List.mem_append, not_or] at hopen
    have hc : ¬c.isEmpty = true := fun hempty => hne.1 (List.isEmpty_iff.mp hempty).symm
    rw [List.cons_append, drain, if_neg hc, if_neg hopen.1, ih hne.2 hopen.2, List.flatten_cons, List.append_assoc]

theorem drain_cons_of_mem (hmark : endMark ∈ bs) (more : List Bytes) :
    drain (bs :: more) = bs.takeWhile (· ≠ endMark) := by
  have hne : ¬bs.isEmpty = true := by simpa using List.ne_nil_of_mem hmark
  rw [drain, if_neg hne, if_pos hmark]

theorem length_le_flatten (hne : [] ∉ css) : css.length ≤ css.flatten.length := by
  rw [List.length_flatten, ← css.length_map (f := List.length)]
  apply List.length_le_sum_of_one_le
  rw [List.forall_mem_map]
  intro c hc
  apply List.length_pos_iff.mpr
  rintro rfl
  exact hne hc

/-- A pipe that is being emptied: what is still in it, and what the readings so far brought in. -/
structure Draining where
  left : Bytes
  readings : List Bytes

namespace Draining

variable {content : Bytes} {d e : Draining}

def Ended (d : Draining) : Prop := endMark ∈ d.readings.flatten

/-- Until the mark is found, a reading brings in some of the next bytes, and no more than a chunk of them. -/
inductive Reads : Draining → Draining → Prop
  | piece (bs rest : Bytes) {readings : List Bytes} (hopen : endMark ∉ readings.flatten) (hne : bs ≠ [])
      (hsize : bs.length ≤ chunkSize) : Reads ⟨bs ++ rest, readings⟩ ⟨rest, readings ++ [bs]⟩

abbrev Reached (content : Bytes) : Draining → Prop := Relation.ReflTransGen Reads ⟨content, []⟩

/-- What the readings of the content keep: nothing is lost, and only the last of them can have brought in the mark. -/
structure Sound (content : Bytes) (d : Draining) : Prop where
  whole : d.readings.flatten ++ d.left = content
  nonempty : [] ∉ d.readings
  unmarked : endMark ∉ d.readings.dropLast.flatten

theorem Sound.reads (h : Sound content d) (hreads : Reads d e) : Sound content e := by
  obtain ⟨bs, rest, hopen, hne, -⟩ := hreads
  obtain ⟨hwhole, hnonempty, -⟩ := h
  refine ⟨?_, ?_, ?_⟩
  · rw [List.flatten_append, List.flatten_singleton, List.append_assoc, hwhole]
  · rw [List.mem_append, List.mem_singleton, not_or]
    exact ⟨hnonempty, hne.symm⟩
  · rwa [List.dropLast_concat]

theorem sound_of_reached (h : Reached content d) : Sound content d := by
  induction h with
  | refl => exact ⟨rfl, List.not_mem_nil, List.not_mem_nil⟩
  | tail _ hreads ih => exact ih.reads hreads

theorem exists_reads (hleft : d.left ≠ []) (hopen : ¬d.Ended) : ∃ e, Reads d e := by
  obtain ⟨left, readings⟩ := d
  obtain ⟨b, rest, rfl⟩ := List.exists_cons_of_ne_nil hleft
  have hsize : [b].length ≤ chunkSize := by rw [List.length_singleton, chunkSize]; omega
  exact ⟨⟨rest, readings ++ [[b]]⟩, .piece [b] rest hopen (List.cons_ne_nil b []) hsize⟩

theorem not_reads_of_ended (h : d.Ended) (e : Draining) : ¬Reads d e := by
  rintro ⟨bs, rest, hopen⟩
  exact hopen h

theorem Sound.left_ne_nil (h : Sound content d) (hmark : endMark ∈ content) (hopen : ¬d.Ended) : d.left ≠ [] := by
  rw [← h.whole, List.mem_append] at hmark
  exact List.ne_nil_of_mem (hmark.resolve_left hopen)

theorem Sound.concat {left : Bytes} (h : Sound content ⟨left, css ++ [bs]⟩) :
    css.flatten ++ (bs ++ left) = content ∧ [] ∉ css ∧ endMark ∉ css.flatten := by
  obtain ⟨hwhole, hne, hunmarked⟩ := h
  rw [List.flatten_append, List.flatten_singleton, List.append_assoc] at hwhole
  rw [List.dropLast_concat] at hunmarked
  exact ⟨hwhole, fun hmem => hne (List.mem_append_left _ hmem), hunmarked⟩

theorem Sound.length_le (h : Sound (before ++ endMark :: behind) d) (hbefore : endMark ∉ before) :
    d.readings.length ≤ before.length + 1 := by
  obtain ⟨left, readings⟩ := d
  rcases List.eq_nil_or_concat' readings with rfl | ⟨css, bs, rfl⟩
  · exact Nat.zero_le _
  · obtain ⟨hwhole, hne, hunmarked⟩ := h.concat
    have hfront : css.flatten ++ (bs ++ left).takeWhile (· ≠ endMark) = before := by
      rw [← takeWhile_append_of_notMem hunmarked, hwhole, takeWhile_before hbefore]
    have hlength := congrArg List.length hfront
    have hcss := length_le_flatten hne
    rw [List.length_append] at hlength
    rw [List.length_append, List.length_singleton]
    omega

theorem Sound.drain_eq (h : Sound (before ++ endMark :: behind) d) (hbefore : endMark ∉ before) (hended : d.Ended)
    (more : List Bytes) : drain (d.readings ++ more) = before := by
  obtain ⟨left, readings⟩ := d
  rcases List.eq_nil_or_concat' readings with rfl | ⟨css, bs, rfl⟩
  · exact absurd hended List.not_mem_nil
  · obtain ⟨hwhole, hne, hunmarked⟩ := h.concat
    have hmark : endMark ∈ bs := by
      rw [Ended, List.flatten_append, List.flatten_singleton, List.mem_append] at hended
      exact hended.resolve_left hunmarked
    rw [List.append_assoc, drain_append hne hunmarked]
    calc css.flatten ++ drain (bs :: more) = css.flatten ++ bs.takeWhile (· ≠ endMark) := by
          rw [drain_cons_of_mem hmark]
      _ = css.flatten ++ (bs ++ left).takeWhile (· ≠ endMark) := by rw [takeWhile_append_of_mem hmark]
      _ = (before ++ endMark :: behind).takeWhile (· ≠ endMark) := by
          rw [← takeWhile_append_of_notMem hunmarked, hwhole]
      _ = before := takeWhile_before hbefore

end Draining

variable (s : Stream)

theorem drainPipe_append (hne : [] ∉ css) (hopen : endMark ∉ css.flatten) (more : List Bytes) :
    s.drainPipe (css ++ more) = (s.drainPipe css).drainPipe more := by
  have hcss : drain css = css.flatten := by simpa [drain] using drain_append hne hopen []
  simp only [drainPipe, drain_append hne hopen, hcss, List.append_assoc]

theorem captured_stop {p : List Bytes} (hp : s.pipe = some p) :
    s.stop.captured = s.captured ++ (p.flatten ++ s.waiting ++ [endMark]).takeWhile (· ≠ endMark) := by
  rw [stop_eq s hp, takeWhile_endMark]

/-- However a pipe with the mark in it is read, the readings do not wait for bytes that never come, and they end after
at most one more of them than there are bytes before the mark. These bytes are then captured, so that the text is read
from them as a whole. -/
theorem drainPipe_of_reached {content : Bytes} (hmark : endMark ∈ content) :
    ∃ before behind, content = before ++ endMark :: behind ∧ endMark ∉ before ∧
      (∀ d, Draining.Reached content d →
        d.readings.length ≤ before.length + 1 ∧
        (¬d.Ended → (∃ e, d.Reads e) ∧
          ∀ more, s.drainPipe (d.readings ++ more) = (s.drainPipe d.readings).drainPipe more) ∧
        (d.Ended → (∀ e, ¬d.Reads e) ∧
          ∀ more, (s.drainPipe (d.readings ++ more)).captured = s.captured ++ before ∧
            (s.drainPipe (d.readings ++ more)).capturedText = decode (s.captured ++ before))) ∧
      ∀ p, s.pipe = some p → p.flatten ++ s.waiting ++ [endMark] = content →
        s.stop.captured = s.captured ++ before ∧ s.stop.capturedText = decode (s.captured ++ before) := by
  obtain ⟨before, behind, rfl, hbefore⟩ := List.eq_append_cons_of_mem hmark
  refine ⟨before, behind, rfl, hbefore, ?_, ?_⟩
  · intro d hd
    have hsound := Draining.sound_of_reached hd
    refine ⟨hsound.length_le hbefore, ?_, ?_⟩
    · intro hopen
      exact ⟨Draining.exists_reads (hsound.left_ne_nil hmark hopen) hopen, drainPipe_append s hsound.nonempty hopen⟩
    · intro hended
      refine ⟨Draining.not_reads_of_ended hended, ?_⟩
      intro more
      have hdrain := hsound.drain_eq hbefore hended more
      rw [capturedText, drainPipe, hdrain]
      exact ⟨rfl, rfl⟩
  · intro p hp hcontent
    have hcaptured : s.stop.captured = s.captured ++ before := by
      rw [captured_stop s hp, hcontent, takeWhile_before hbefore]
    exact ⟨hcaptured, by rw [capturedText, hcaptured]⟩

/-- The first piece ends inside a character, and the last one holds a second mark. -/
theorem drainPipe_of_reached_cut :
    let content : Bytes := [0x61, 0xc3, 0xa9, 0x08, 0x7a, 0x08]
    let d : Draining := ⟨[0x08], [[0x61, 0xc3], [0xa9, 0x08, 0x7a]]⟩
    let s : Stream := { waiting := [0x7a], pipe := some [[0x61, 0xc3], [0xa9, 0x08]] }
    endMark ∈ content ∧ Draining.Reached content d ∧ d.Ended ∧
      (s.drainPipe d.readings).capturedText = ['a', 'é'] ∧ s.stop.capturedText = ['a', 'é'] ∧
      decode [0x61, 0xc3] ++ decode [0xa9] ≠ ['a', 'é'] := by
  intro content d s
  have hmark : endMark ∈ content := by decide
  have hreached : Draining.Reached content d := by
    have hfirst : Draining.Reads ⟨content, []⟩ ⟨[0xa9, 0x08, 0x7a, 0x08], [[0x61, 0xc3]]⟩ :=
      .piece [0x61, 0xc3] [0xa9, 0x08, 0x7a, 0x08] (by decide) (by decide) (by decide)
    have hlast : Draining.Reads ⟨[0xa9, 0x08, 0x7a, 0x08], [[0x61, 0xc3]]⟩ d :=
      .piece [0xa9, 0x08, 0x7a] [0x08] (by decide) (by decide) (by decide)
    exact .tail (.single hfirst) hlast
  have hended : d.Ended := by
    change endMark ∈ d.readings.flatten
    decide
  obtain ⟨before, behind, hcontent, hbefore, hreadings, hstop⟩ := drainPipe_of_reached s hmark
  have hsplit : before = [0x61, 0xc3, 0xa9] := by
    rw [← takeWhile_before hbefore, ← hcontent]
    decide
  have htext : decode (s.captured ++ before) = ['a', 'é'] := by
    rw [hsplit]
    decide
  have hdrained := ((hreadings d hreached).2.2 hended).2 []
  rw [List.append_nil] at hdrained
  exact ⟨hmark, hreached, hended, hdrained.2.trans htext, (hstop _ rfl rfl).2.trans htext, by decide⟩

end AssemblyConsole.Stream
