import AssemblyConsole.Capture
import AssemblyConsole.Proofs.EncodedText
import Mathlib.Algebra.GroupWithZero.Nat
import Mathlib.Data.List.TakeWhile

/-!
What becomes of all that is written to a stream before, during and after one capture. If the pipe has room for it, what
is written meanwhile reaches its destination unchanged exactly if it is text without a backspace.
-/

namespace AssemblyConsole

open Text.Utf8 (encode decode)

/-- The writes in which the bytes reach the descriptor, the last one by a flush behind all others. -/
def Write.pieces : (waiting : Bytes) → List Write → List Bytes
  | waiting, [] => [waiting]
  | waiting, .text cs :: ws => pieces (waiting ++ encode cs) ws
  | waiting, .native bs :: ws => bs :: pieces waiting ws
  | waiting, .flush :: ws => waiting :: pieces [] ws
  | waiting, .passed count :: ws => waiting.take count :: pieces (waiting.drop count) ws

/-- The bytes in the order in which they reach the descriptor, if a flush follows the writes. -/
def Write.sent (waiting : Bytes) (ws : List Write) : Bytes := (pieces waiting ws).flatten

theorem Write.sent_concat_text (waiting : Bytes) (ws : List Write) (cs : List Char) :
    sent waiting (ws ++ [.text cs]) = sent waiting ws ++ encode cs := by
  unfold sent
  induction ws generalizing waiting with
  | nil => simp [pieces]
  | cons w ws ih => cases w <;> simp [pieces, ih]

def Room.ofBytes (capacity : Nat) : Room where
  holds ns := ns.sum ≤ capacity
  empty := by simp
  earlier := by
    intro ns ms h
    simp only [List.sum_append, decide_eq_true_eq] at h ⊢
    omega

namespace Stream

def writeAll (s : Stream) (ws : List Write) : Stream := ws.foldl write s

variable (s : Stream) (bs cs : Bytes)

theorem writeBytes_waiting (waiting : Bytes) :
    { s with waiting }.writeBytes bs = { s.writeBytes bs with waiting } := by
  unfold writeBytes
  cases s.pipe <;> rfl

theorem waiting_writeBytes : (s.writeBytes bs).waiting = s.waiting := by
  unfold writeBytes
  cases s.pipe <;> rfl

theorem foldl_writeBytes_waiting (waiting : Bytes) (pieces : List Bytes) :
    pieces.foldl writeBytes { s with waiting } = { pieces.foldl writeBytes s with waiting } := by
  induction pieces generalizing s with
  | nil => rfl
  | cons bs pieces ih => rw [List.foldl_cons, writeBytes_waiting, ih, List.foldl_cons]

/-- However the writes are mixed, the stream's present destination gets what they send, in order. -/
theorem flush_writeAll (ws : List Write) :
    (s.writeAll ws).flush = { (Write.pieces s.waiting ws).foldl writeBytes s with waiting := [] } := by
  induction ws generalizing s with
  | nil => rfl
  | cons w ws ih =>
    change ((s.write w).writeAll ws).flush = _
    rw [ih]
    cases w with
    | text cs => simp only [write, writeText, Write.pieces, foldl_writeBytes_waiting]
    | native bs => simp only [write, Write.pieces, waiting_writeBytes, List.foldl_cons]
    | flush => simp only [write, flush, Write.pieces, foldl_writeBytes_waiting, List.foldl_cons]
    | passed count => simp only [write, pass, Write.pieces, foldl_writeBytes_waiting, List.foldl_cons]

theorem foldl_writeBytes_of_none (hs : s.pipe = none) (pieces : List Bytes) :
    pieces.foldl writeBytes s = { s with received := s.received ++ pieces.flatten } := by
  induction pieces generalizing s with
  | nil => simp
  | cons bs pieces ih =>
    have hwrite : s.writeBytes bs = { s with received := s.received ++ bs } := by rw [writeBytes, hs]
    rw [List.foldl_cons, hwrite, ih { s with received := s.received ++ bs } hs]
    simp

theorem foldl_writeBytes_of_some {p : List Bytes} (hs : s.pipe = some p) (pieces : List Bytes) :
    pieces.foldl writeBytes s = { s with pipe := some (p ++ pieces) } := by
  induction pieces generalizing s p with
  | nil => simp [← hs]
  | cons bs pieces ih =>
    have hwrite : s.writeBytes bs = { s with pipe := some (p ++ [bs]) } := by rw [writeBytes, hs]
    rw [List.foldl_cons, hwrite, ih { s with pipe := some (p ++ [bs]) } rfl]
    simp

/-- The mark is not taken, so that the bytes before the first one are the same with it. -/
theorem takeWhile_endMark : (bs ++ [endMark]).takeWhile (· ≠ endMark) = bs.takeWhile (· ≠ endMark) := by
  induction bs with
  | nil => rfl
  | cons b bs ih => rw [List.cons_append, List.takeWhile_cons, List.takeWhile_cons, ih]

theorem mem_of_endMark (bs : Bytes) : endMark ∈ bs ++ [endMark] := List.mem_append_right bs List.mem_cons_self

/-- What a capture makes of a pipe in which the end is marked. -/
theorem replay_eq {p : List Bytes} (hp : s.pipe = some p) (hwaiting : s.waiting = []) (hmark : endMark ∈ p.flatten) :
    s.replay = { s with
      pipe := none
      captured := s.captured ++ p.flatten.takeWhile (· ≠ endMark)
      received := s.received ++ encode (decode (s.captured ++ p.flatten.takeWhile (· ≠ endMark))) } := by
  have hdrain : drain (chunks chunkSize p.flatten) = p.flatten.takeWhile (· ≠ endMark) := by
    rw [drain_eq_takeWhile (nil_notMem_chunks chunkSize (List.ne_nil_of_mem hmark)), flatten_chunks]
  simp only [replay, flush, writeBytes, writeText, drainPipe, capturedText, hp, hwaiting, Option.getD_some,
    List.nil_append, hdrain]

theorem mark_eq {p : List Bytes} (hp : s.pipe = some p) :
    s.mark = { s with waiting := [], pipe := some (p ++ [s.waiting ++ [endMark]]) } := by
  simp only [mark, flush, writeBytes, hp]

theorem stop_eq {p : List Bytes} (hp : s.pipe = some p) :
    let taken := (p.flatten ++ s.waiting).takeWhile (· ≠ endMark)
    s.stop = { s with
      waiting := []
      pipe := none
      captured := s.captured ++ taken
      received := s.received ++ encode (decode (s.captured ++ taken)) } := by
  have hflatten : (p ++ [s.waiting ++ [endMark]]).flatten = p.flatten ++ s.waiting ++ [endMark] := by simp
  have hmark : endMark ∈ (p ++ [s.waiting ++ [endMark]]).flatten := by
    rw [hflatten]
    exact mem_of_endMark _
  have hon : ¬s.pipe.isNone = true := by simp [hp]
  rw [stop, if_neg hon, mark_eq s hp, replay_eq _ rfl rfl hmark, hflatten, takeWhile_endMark]

/-- A write only adds to what is in the pipe. -/
theorem exists_pipe_write (w : Write) : ∃ ps, (s.write w).pipe = s.pipe.map (· ++ ps) := by
  have hnone : s.pipe = s.pipe.map (· ++ []) := by simp
  have hbytes (t : Stream) (bs : Bytes) : (t.writeBytes bs).pipe = t.pipe.map (· ++ [bs]) := by
    rw [writeBytes]
    cases t.pipe <;> rfl
  cases w with
  | text cs => exact ⟨[], hnone⟩
  | native bs => exact ⟨[bs], hbytes s bs⟩
  | flush => exact ⟨[s.waiting], hbytes s s.waiting⟩
  | passed count => exact ⟨[s.waiting.take count], hbytes s _⟩

theorem fits_of_write {room : Room} (w : Write) (h : (s.write w).fits room) : s.fits room := by
  obtain ⟨ps, hps⟩ := s.exists_pipe_write w
  rw [fits, hps] at h
  rw [fits]
  cases hp : s.pipe with
  | none => rfl
  | some p =>
    rw [hp, Option.map_some, Option.all_some, List.map_append] at h
    exact room.earlier _ _ h

theorem fits_of_writeAll {room : Room} {ws : List Write} (h : (s.writeAll ws).fits room) : s.fits room := by
  induction ws generalizing s with
  | nil => exact h
  | cons w ws ih => exact s.fits_of_write w (ih (s.write w) h)

/-- The writes that find no room are told by what is in the pipe behind all of them. -/
theorem foldlM_write? {room : Room} (hs : s.fits room) (ws : List Write) :
    ws.foldlM (write? room) s = Option.guard (fits room) (s.writeAll ws) := by
  induction ws generalizing s with
  | nil => exact (Option.guard_eq_some_iff.mpr ⟨rfl, hs⟩).symm
  | cons w ws ih =>
    rw [List.foldlM_cons, write?]
    by_cases hw : (s.write w).fits room
    · rw [Option.guard_eq_some_iff.mpr ⟨rfl, hw⟩]
      exact ih (s.write w) hw
    · have hall : ¬(s.writeAll (w :: ws)).fits room := fun h => hw ((s.write w).fits_of_writeAll h)
      rw [Option.guard_eq_none_iff.mpr (by simpa using hw), Option.guard_eq_none_iff.mpr (by simpa using hall)]
      rfl

theorem isNone_pipe_writeAll (ws : List Write) : (s.writeAll ws).pipe.isNone = s.pipe.isNone := by
  induction ws generalizing s with
  | nil => rfl
  | cons w ws ih =>
    obtain ⟨ps, hps⟩ := s.exists_pipe_write w
    rw [writeAll, List.foldl_cons]
    exact (ih (s.write w)).trans (by rw [hps, Option.isNone_map])

theorem foldlM_write?_of_none {room : Room} (hs : s.pipe = none) (ws : List Write) :
    ws.foldlM (write? room) s = some (s.writeAll ws) := by
  have fits_of_none {t : Stream} (ht : t.pipe = none) : t.fits room = true := by rw [fits, ht, Option.all_none]
  have hafter : (s.writeAll ws).pipe = none := by
    rw [← Option.isNone_iff_eq_none, isNone_pipe_writeAll, hs, Option.isNone_none]
  rw [foldlM_write? s (fits_of_none hs) ws, Option.guard_eq_some_iff]
  exact ⟨rfl, fits_of_none hafter⟩

/-- If the pipe has room for the mark behind all that was written, it had room on the way. -/
theorem foldlM_write?_stop? {room : Room} (hs : s.fits room) (hon : s.pipe ≠ none) (ws : List Write) :
    (ws.foldlM (write? room) s).bind (stop? room) = (Option.guard (fits room) (s.writeAll ws).mark).map replay := by
  have hon' : ¬(s.writeAll ws).pipe.isNone = true := by rwa [isNone_pipe_writeAll, Option.isNone_iff_eq_none]
  rw [foldlM_write? s hs ws]
  by_cases hfits : (s.writeAll ws).fits room
  · rw [Option.guard_eq_some_iff.mpr ⟨rfl, hfits⟩, Option.bind_some, stop?, if_neg hon']
  · have hmark : ¬(s.writeAll ws).mark.fits room := by
      intro h
      exact hfits (fits_of_write { s.writeAll ws with waiting := (s.writeAll ws).waiting ++ [endMark] } .flush h)
    rw [Option.guard_eq_none_iff.mpr (by simpa using hfits), Option.guard_eq_none_iff.mpr (by simpa using hmark)]
    rfl

/-- The writes that the pipe has to hold, the last one with the mark. -/
def arriving (during : List Write) : List Bytes := Write.pieces [] (during ++ [.text ['\x08']])

theorem flatten_arriving (during : List Write) : (arriving during).flatten = Write.sent [] during ++ [endMark] :=
  Write.sent_concat_text [] during ['\x08']

theorem mark_writeAll (received : Bytes) (during : List Write) :
    (({ received, pipe := some [] } : Stream).writeAll during).mark =
      { received, pipe := some (arriving during) } := by
  have hwrites : (({ received, pipe := some [] } : Stream).writeAll during).mark =
      (({ received, pipe := some [] } : Stream).writeAll (during ++ [.text ['\x08']])).flush := by
    simp only [writeAll, List.foldl_append]
    rfl
  rw [hwrites, flush_writeAll, foldl_writeBytes_of_some _ rfl]
  rfl

theorem captureRun_eq (room : Room) (before during after : List Write) :
    let taken := (Write.sent [] during).takeWhile (· ≠ endMark)
    captureRun room before during after = if room.holds ((arriving during).map List.length) then
        some {
          received := Write.sent [] before ++ encode (decode taken) ++ Write.sent [] after
          captured := taken }
      else none := by
  intro taken
  have hstart : (({} : Stream).writeAll before).start = { received := Write.sent [] before, pipe := some [] } := by
    rw [start, flush_writeAll, foldl_writeBytes_of_none _ rfl]
    rfl
  have hreplay : ({ received := Write.sent [] before, pipe := some (arriving during) } : Stream).replay =
      { received := Write.sent [] before ++ encode (decode taken), captured := taken } := by
    have hmark : endMark ∈ (arriving during).flatten := by
      rw [flatten_arriving]
      exact mem_of_endMark _
    rw [replay_eq _ rfl rfl hmark, flatten_arriving, takeWhile_endMark]
    rfl
  have hempty : fits room { received := Write.sent [] before, pipe := some [] } := room.empty
  rw [captureRun, foldlM_write?_of_none _ rfl, Option.bind_eq_bind, Option.bind_some, hstart, ← Option.bind_assoc,
    foldlM_write?_stop? _ hempty (Option.some_ne_none []), mark_writeAll]
  by_cases hroom : room.holds ((arriving during).map List.length)
  · have hfits : fits room { received := Write.sent [] before, pipe := some (arriving during) } := hroom
    rw [if_pos hroom, Option.guard_eq_some_iff.mpr ⟨rfl, hfits⟩, Option.map_some, hreplay, Option.bind_some,
      foldlM_write?_of_none _ rfl, Option.bind_some, flush_writeAll, foldl_writeBytes_of_none _ rfl]
    rfl
  · have hfits : ¬fits room { received := Write.sent [] before, pipe := some (arriving during) } := hroom
    rw [if_neg hroom, Option.guard_eq_none_iff.mpr (by simpa using hfits)]
    rfl

theorem watch_eq (printed : Bytes) : watch printed =
    (decode (printed.takeWhile (· ≠ endMark)), encode (decode (printed.takeWhile (· ≠ endMark)))) := by
  have hpipe : (({} : Stream).start.writeBytes printed).pipe = some [[] ++ printed] := rfl
  rw [watch, stop_eq _ hpipe]
  simp [capturedText, start, flush, writeBytes]

theorem endMark_mem_encode_iff (text : List Char) : endMark ∈ encode text ↔ '\x08' ∈ text := by
  rw [Text.Utf8.mem_encode_iff (by decide)]
  constructor
  · rintro ⟨c, hc, heq⟩
    rwa [← Char.toNat_inj.mp (show '\x08'.toNat = c.toNat from heq)] at hc
  · intro h
    exact ⟨_, h, rfl⟩

theorem endMark_notMem_encode_decode {bs : Bytes} (h : endMark ∉ bs) : endMark ∉ encode (decode bs) := by
  rw [endMark_mem_encode_iff]
  intro hmem
  obtain ⟨b, hb, heq⟩ := Text.Utf8.mem_of_mem_decode hmem (by decide) (by decide)
  obtain rfl : endMark = b := UInt8.toNat_inj.mp heq
  exact h hb

theorem takeWhile_eq_self {bs : Bytes} (h : endMark ∉ bs) : bs.takeWhile (· ≠ endMark) = bs := by
  simpa using takeWhile_append_of_notMem h []

theorem endMark_notMem_takeWhile (bs : Bytes) : endMark ∉ bs.takeWhile (· ≠ endMark) := by
  intro h
  simpa using List.mem_takeWhile_imp h

theorem takeWhile_encode {text : List Char} (h : '\x08' ∉ text) :
    (encode text).takeWhile (· ≠ endMark) = encode text := by
  apply takeWhile_eq_self
  intro hmem
  exact h ((endMark_mem_encode_iff text).mp hmem)

theorem watch_encode {text : List Char} (h : '\x08' ∉ text) : watch (encode text) = (text, encode text) := by
  rw [watch_eq, takeWhile_encode h, Text.Utf8.decode_encode]

/-- A capture comes to its end if the pipe has room for all that is sent meanwhile and the mark. Up to the first byte
like the end mark, what is sent meanwhile is captured, and passed on as the text it is read as. So it is all passed on
as it was sent exactly if it is text without a backspace, and then that text is captured. -/
theorem captureRun_passes_on (room : Room) (before during after : List Write) :
    ((captureRun room before during after).isSome ↔ room.holds ((arriving during).map List.length)) ∧
    ∀ s ∈ captureRun room before during after,
      s.captured = (Write.sent [] during).takeWhile (· ≠ endMark) ∧
      s.capturedText = decode ((Write.sent [] during).takeWhile (· ≠ endMark)) ∧
      s.received = Write.sent [] before ++ encode s.capturedText ++ Write.sent [] after ∧
      endMark ∉ s.captured ∧ endMark ∉ encode s.capturedText ∧
      (s.received = Write.sent [] before ++ Write.sent [] during ++ Write.sent [] after ↔
        ∃ text, '\x08' ∉ text ∧ Write.sent [] during = encode text) ∧
      ∀ text, '\x08' ∉ text → Write.sent [] during = encode text →
        s.captured = Write.sent [] during ∧ s.capturedText = text := by
  have htext {text : List Char} (hmark : '\x08' ∉ text) (hsent : Write.sent [] during = encode text) :
      (Write.sent [] during).takeWhile (· ≠ endMark) = encode text := by
    rw [hsent, takeWhile_encode hmark]
  have hnone := endMark_notMem_takeWhile (Write.sent [] during)
  rw [captureRun_eq]
  constructor
  · rw [Option.isSome_ite]
  intro s hs
  rw [Option.mem_ite_none_right, Option.mem_some_iff] at hs
  obtain ⟨-, rfl⟩ := hs
  refine ⟨rfl, rfl, rfl, hnone, endMark_notMem_encode_decode hnone, ?_, ?_⟩
  · simp only [List.append_cancel_right_eq, List.append_cancel_left_eq]
    constructor
    · intro h
      refine ⟨_, ?_, h.symm⟩
      rw [← endMark_mem_encode_iff]
      exact endMark_notMem_encode_decode hnone
    · rintro ⟨text, hmark, hsent⟩
      rw [htext hmark hsent, Text.Utf8.decode_encode, hsent]
  · intro text hmark hsent
    refine ⟨(htext hmark hsent).trans hsent.symm, ?_⟩
    rw [capturedText, htext hmark hsent, Text.Utf8.decode_encode]

/-- The stream sends the first letter on by itself before the bytes are written. -/
theorem captureRun_passes_on_mixed :
    let during : List Write :=
      [.text ['t', 'u', '\n'], .passed 1, .native [0x77, 0xc3, 0xa9], .flush, .text ['z']]
    ∃ s, captureRun (.ofBytes 65536) [.text ['a']] during [.native [0x62]] = some s ∧
      Write.sent [] during = encode ['t', 'w', 'é', 'u', '\n', 'z'] ∧
      s.capturedText = ['t', 'w', 'é', 'u', '\n', 'z'] ∧
      s.received = [0x61] ++ [0x74, 0x77, 0xc3, 0xa9, 0x75, 0x0a, 0x7a] ++ [0x62] := by
  intro during
  obtain ⟨hends, hpasses⟩ := captureRun_passes_on (.ofBytes 65536) [.text ['a']] during [.native [0x62]]
  obtain ⟨s, hs⟩ := Option.isSome_iff_exists.mp (hends.mpr (by decide))
  obtain ⟨-, -, -, -, -, hall, htext⟩ := hpasses s hs
  have hsent : Write.sent [] during = encode ['t', 'w', 'é', 'u', '\n', 'z'] := by decide
  exact ⟨s, hs, hsent, (htext _ (by decide) hsent).2, hall.mpr ⟨_, by decide, hsent⟩⟩

/-- A byte that encodes no character is changed, and what is written behind a backspace is lost. In a pipe that holds no
more than these bytes the mark waits for ever. -/
theorem captureRun_loses :
    let during : List Write := [.native [0x41, 0xff, 0x08, 0x42]]
    (∃ s, captureRun (.ofBytes 65536) [] during [] = some s ∧
      s.received = [0x41, 0xef, 0xbf, 0xbd] ∧ s.capturedText = ['A', Text.Utf8.replacement] ∧
      s.received ≠ Write.sent [] [] ++ Write.sent [] during ++ Write.sent [] [] ∧
      s.capturedText ≠ decode (Write.sent [] during)) ∧
    captureRun (.ofBytes 4) [] during [] = none := by
  intro during
  have hrun : captureRun (.ofBytes 65536) [] during [] =
      some { received := [0x41, 0xef, 0xbf, 0xbd], captured := [0x41, 0xff] } := by
    rw [captureRun_eq]
    decide
  refine ⟨⟨_, hrun, rfl, by decide, by decide, by decide⟩, ?_⟩
  rw [captureRun_eq]
  decide

end Stream

end AssemblyConsole
