import SnapdAsserts.Stream.Unread

/-!
# What the decoder reads from a clean reader

`Unread` says what a successful read returns; this module says when a read
succeeds.  A clean reader (`CleanScript`) answers every read with some bytes
or with `io.EOF`.  Over it, `peek(size)` returns exactly the first `size`
unread bytes (`Decoder.peek_clean`), `readExact` returns the next bytes when
there are enough (`Decoder.readExact_clean`), and `readUntil` returns up to
the first `"\n\n"` when one of the windows it may double to holds it
(`Decoder.readUntil_found`), and all that is left with `io.EOF` when the
reader ends first (`Decoder.readUntil_exhausted`).
-/

namespace SnapdAsserts

/-- A plain reader each of whose reads returns some bytes or `io.EOF`: no
empty read and no error of its own. -/
def CleanScript (results : List ReadResult) : Prop :=
  ∀ result ∈ results, (result.err = none ∧ result.data ≠ []) ∨ result.err = some .eof

theorem scriptRead_clean_rest (n : Nat) {results : List ReadResult} (clean : CleanScript results) :
    CleanScript (scriptRead n results).2 := by
  cases results with
  | nil => exact fun _ none => absurd none (List.not_mem_nil _)
  | cons result rest =>
      have rest_clean : CleanScript rest := fun r mem => clean r (List.mem_cons_of_mem _ mem)
      simp only [scriptRead]
      split_ifs with fits eof <;> dsimp only
      · exact fun _ none => absurd none (List.not_mem_nil _)
      · exact rest_clean
      · intro r mem
        rcases List.mem_cons.mp mem with rfl | later
        · rcases clean result (List.mem_cons_self _ _) with ⟨none, -⟩ | eof
          · exact .inl ⟨none, List.ne_nil_of_length_pos (by simp; omega)⟩
          · exact .inr eof
        · exact rest_clean r later

theorem scriptRead_clean_result {n : Nat} (positive : 0 < n) {results : List ReadResult}
    (clean : CleanScript results) :
    ((scriptRead n results).1.err = none ∧ (scriptRead n results).1.data ≠ []) ∨
      (scriptRead n results).1.err = some .eof := by
  cases results with
  | nil => exact .inr rfl
  | cons result rest =>
      by_cases fits : result.data.length ≤ n
      · simp only [scriptRead, fits, if_true]
        exact clean result (List.mem_cons_self _ _)
      · simp only [scriptRead, fits, if_false]
        exact .inl ⟨trivial, List.ne_nil_of_length_pos (by simp; omega)⟩

namespace BufReader

/-- A buffer over a clean plain reader, which has seen no error but
`io.EOF`. -/
structure Clean (br : BufReader) : Prop where
  plain : br.Plain
  results : ∀ results, br.rd = .script results → CleanScript results
  err : br.err = none ∨ br.err = some .eof

theorem readSource_clean {br : BufReader} (clean : br.Clean) (room : br.buffered.length < br.size) :
    (∀ results, br.readSource.2.rd = .script results → CleanScript results) ∧
      ((br.readSource.1.err = none ∧ br.readSource.1.data ≠ []) ∨ br.readSource.1.err = some .eof) := by
  obtain ⟨results, script⟩ := clean.plain.script
  by_cases empty : br.pending = []
  · simp only [readSource, empty, if_true, script, Reader.read_script]
    refine ⟨fun rest same => ?_, scriptRead_clean_result (by omega) (clean.results results script)⟩
    cases same
    exact scriptRead_clean_rest _ (clean.results results script)
  · rw [readSource_of_pending empty]
    refine ⟨clean.results, .inl ⟨rfl, ?_⟩⟩
    simp only [ne_eq, List.take_eq_nil_iff, empty, or_false]
    omega

theorem clean_fill {br : BufReader} (clean : br.Clean) (clear : br.err = none)
    (room : br.buffered.length < br.size) : br.fill.Clean := by
  refine ⟨plain_fillTries 100 clean.plain, ?_, ?_⟩
  all_goals
    obtain ⟨rd_clean, result⟩ := readSource_clean clean room
    have err := readSource_err br
    unfold fill
    rw [fillTries]
    generalize br.readSource = read at rd_clean result err
    obtain ⟨⟨data, readErr⟩, br'⟩ := read
    dsimp only at rd_clean result err ⊢
  · rcases result with ⟨rfl, nonempty⟩ | rfl
    · simpa [nonempty] using rd_clean
    · exact rd_clean
  · rcases result with ⟨rfl, nonempty⟩ | rfl
    · simp [nonempty, err, clear]
    · simp

theorem clean_peekLoop (n fuel : Nat) {br : BufReader} (clean : br.Clean) : (br.peekLoop n fuel).Clean := by
  induction fuel generalizing br with
  | zero => exact clean
  | succ fuel ih =>
      unfold peekLoop
      split_ifs with running
      · exact ih (clean_fill clean running.2.2 running.2.1)
      · exact clean

theorem clean_peek (n : Nat) {br : BufReader} (clean : br.Clean) : (br.peek n).2.Clean := by
  have loop := clean_peekLoop n n clean
  unfold peek
  generalize br.peekLoop n n = br' at loop
  dsimp only
  split_ifs
  · exact loop
  · exact ⟨⟨loop.plain.script, by simp⟩, loop.results, .inl rfl⟩
  · exact loop

/-- On a clean reader, `Peek(n)` with `n` within the buffer size returns the
first `n` bytes still to be read, or all of them with `io.EOF` when there
are fewer. -/
theorem peek_clean {n : Nat} {br : BufReader} (clean : br.Clean) (fits : n ≤ br.size) :
    (br.peek n).1 = (br.stream.take n, if n ≤ br.stream.length then none else some .eof) := by
  have grows := grows_peekLoop n n br
  have loop := clean_peekLoop n n clean
  have done := peekLoop_done n n br (by omega)
  have within := grows.buffered
  unfold peek
  generalize br.peekLoop n n = br' at grows loop done within
  have stream := grows.stream
  dsimp only at done ⊢
  rw [if_neg (by rw [grows.size]; omega)]
  have prefix_stream : br'.buffered <+: br.stream := by
    rw [← stream]; exact List.prefix_append _ _
  by_cases short : br'.buffered.length < n
  · rw [if_pos short]
    have failed : br'.err = some .eof := by
      rcases loop.err with none | eof
      · exact absurd ⟨short, by rw [grows.size]; omega, none⟩ done
      · exact eof
    have all : br.stream = br'.buffered := by
      rw [← stream, BufReader.stream, loop.plain.drained failed, List.append_nil]
    simp [all, failed, List.take_of_length_le short.le, Nat.not_le.mpr short]
  · rw [if_neg short]
    have long : n ≤ br.stream.length := le_trans (Nat.not_lt.mp short) prefix_stream.length_le
    simp [long, Decoder.take_of_prefix prefix_stream (Nat.not_lt.mp short)]

end BufReader

theorem BufReader.peek_of_gt {n : Nat} {br : BufReader} (over : br.size < n) :
    (br.peek n).1.2 = some .bufferFull := by
  unfold BufReader.peek
  dsimp only
  rw [if_pos (by rw [(BufReader.grows_peekLoop n n br).size]; exact over)]

namespace Decoder

/-- A settled decoder over a clean reader, which has seen no error but
`io.EOF`. -/
structure Clean (d : Decoder) : Prop where
  settled : d.Settled
  buffer : d.b.Clean
  err : d.err = none ∨ d.err = some .eof

/-- Once a clean decoder has seen `io.EOF`, it has buffered all there is. -/
theorem Clean.buffered_eq {d : Decoder} (clean : d.Clean) (eof : d.err = some .eof) :
    d.b.buffered = d.unread := by
  rw [unread, BufReader.stream, clean.settled.drained eof, List.append_nil]

theorem or_eof_of_clean {d : Decoder} (clean : d.Clean) (fresh : Option IoError)
    (eof : fresh = none ∨ fresh = some .eof) :
    d.err.or fresh = if fresh = none then d.err else some .eof := by
  rcases clean.err with known | known <;> rcases eof with rfl | rfl <;> simp [known]

/-- On a clean decoder, `peek(size)` returns the first `size` unread bytes,
with the sticky error, or all of them with `io.EOF` when there are fewer. -/
theorem peek_clean {d : Decoder} (clean : d.Clean) (size : Nat) :
    ∃ d', d.peek size =
        .ok ((d.unread.take size, if size ≤ d.unread.length then d.err else some .eof), d') ∧
      Peeks d size (d.unread.take size) (if size ≤ d.unread.length then d.err else some .eof) d' ∧
      d'.Clean := by
  obtain ⟨buf, err, d', peeked, peeks⟩ := peek_settled clean.settled size
  have facts : buf = d.unread.take size ∧ err = (if size ≤ d.unread.length then d.err else some .eof) ∧
      d'.b.Clean := by
    by_cases full : (d.b.peek size).1.2 = some .bufferFull
    · have bounded : (d.b.peek size).2.buffered.length ≤ (d.b.peek size).2.size := by
        have := (BufReader.peeked_peek size d.b).grows.bounded
        have := (BufReader.peeked_peek size d.b).grows.size
        have := clean.settled.bounded
        omega
      rw [peek_of_full full bounded] at peeked
      simp only [Except.ok.injEq, Prod.mk.injEq] at peeked
      obtain ⟨⟨rfl, rfl⟩, rfl⟩ := peeked
      have cleanFirst := BufReader.clean_peek size clean.buffer
      generalize hS : (size / d.initialBufSize + 1) * d.initialBufSize = S
      have bigger : size < S := by
        rw [← hS, Nat.add_mul, one_mul]
        exact Nat.lt_div_mul_add d.initialBufSize_pos
      have rd : ({ d with b := (d.b.peek size).2 } : Decoder).rd = (d.b.peek size).2.rd := by
        simp [rd, clean.settled.not_aliased]
      simp only [rd, hS]
      have cleanNew : (newReaderSize (d.b.peek size).2.buffered (d.b.peek size).2.rd S).Clean :=
        ⟨⟨cleanFirst.plain.script, by simp [newReaderSize]⟩, cleanFirst.results, .inl rfl⟩
      have stream : (newReaderSize (d.b.peek size).2.buffered (d.b.peek size).2.rd S).stream = d.unread := by
        have pending : (d.b.peek size).2.pending = [] := by
          rw [BufReader.peek_pending]
          exact BufReader.peekLoop_pending_nil _ _ clean.settled.pending_nil
        rw [unread, ← (BufReader.peeked_peek size d.b).grows.stream]
        simp [newReaderSize, BufReader.stream, BufReader.source, pending]
      rw [BufReader.peek_clean cleanNew (by simp [newReaderSize]; omega), stream]
      refine ⟨rfl, ?_, by simpa using BufReader.clean_peek size cleanNew⟩
      simp only [noteErr_err]
      rw [or_eof_of_clean clean _ (by split_ifs <;> simp)]
      split_ifs <;> simp_all
    · have fits : size ≤ d.b.size := by
        by_contra over
        exact full (BufReader.peek_of_gt (by omega))
      rw [peek_of_ne full] at peeked
      simp only [Except.ok.injEq, Prod.mk.injEq] at peeked
      obtain ⟨⟨rfl, rfl⟩, rfl⟩ := peeked
      rw [BufReader.peek_clean clean.buffer fits]
      refine ⟨rfl, ?_, by simpa using BufReader.clean_peek size clean.buffer⟩
      simp only [noteErr_err]
      rw [or_eof_of_clean clean _ (by split_ifs <;> simp)]
      simp only [unread]
      split_ifs <;> simp_all
  obtain ⟨rfl, rfl, buffer⟩ := facts
  refine ⟨d', peeked, peeks, peeks.settled, buffer, ?_⟩
  rw [peeks.err_eq]
  split_ifs
  exacts [clean.err, .inr rfl]

/-- Dropping buffered bytes keeps a decoder clean. -/
theorem discard_clean {d : Decoder} (clean : d.Clean) {n : Nat} (within : n ≤ d.b.buffered.length) :
    (d.discard n).Clean := by
  have eq : d.discard n = { d with b := { d.b with buffered := d.b.buffered.drop n } } := by
    simp [discard, BufReader.discard_of_le within]
  refine ⟨(discard_settled clean.settled within).1, ?_, ?_⟩ <;> rw [eq]
  exacts [⟨⟨clean.buffer.plain.script, clean.buffer.plain.drained⟩, clean.buffer.results, clean.buffer.err⟩,
    clean.err]

/-! ### `readUntil` on a clean decoder -/

/-- Two prefixes of one byte string that each end at their first `"\n\n"`
are the same. -/
theorem endsAtFirstSep_unique {front other unread : Bytes} (ends : EndsAtFirstSep front)
    (ends' : EndsAtFirstSep other) (window : front <+: unread) (window' : other <+: unread) :
    front = other := by
  have shorter : ∀ {a b : Bytes}, EndsAtFirstSep a → EndsAtFirstSep b → a <+: b → a = b := by
    rintro a b ⟨ha, rfl, -⟩ ⟨hb, rfl, first⟩ within
    have notBefore : ¬ha.length < hb.length := fun earlier =>
      (index_eq_some_iff.mp first).2 _ earlier (by simpa using prefix_drop within ha.length)
    exact within.eq_of_length (by have := within.length_le; simp at this ⊢; omega)
  rcases List.prefix_or_prefix_of_prefix window window' with within | within
  exacts [shorter ends ends' within, (shorter ends' ends within).symm]

/-- A `"\n\n"` inside the first `m` unread bytes means the first one ends
within them. -/
theorem length_le_of_sep_take {front unread : Bytes} (ends : EndsAtFirstSep front)
    (window : front <+: unread) {m : Nat} (sep : nlnl <:+: unread.take m) : front.length ≤ m := by
  obtain ⟨head, rfl, first⟩ := ends
  obtain ⟨j, found⟩ := infix_iff_exists_prefix_drop.mp sep
  have inTake : j + 2 ≤ m := by
    have := found.length_le
    simp [nlnl] at this
    omega
  have inUnread : nlnl <+: unread.drop j := found.trans (prefix_drop (List.take_prefix _ _) j)
  by_contra late
  have earlier : j < head.length := by simp [nlnl] at late; omega
  refine (index_eq_some_iff.mp first).2 j earlier
    (List.prefix_of_prefix_length_le inUnread (prefix_drop window j) ?_)
  simp [nlnl]
  omega

variable {maxSize size : Nat} {positive : 0 < size} {last : Nat} {d : Decoder}

/-- A window that holds the first `"\n\n"`: `readUntil` returns up to it. -/
theorem readUntilLoop_found_here (clean : d.Clean) (within : last ≤ d.b.buffered.length) (below : last ≤ size)
    (free : SepFree d.unread last) {front rest : Bytes} (unread : d.unread = front ++ rest)
    (ends : EndsAtFirstSep front) (fits : front.length ≤ size) :
    ∃ d', readUntilLoop nlnl maxSize last size positive d = .ok ((front, none), d') ∧
      d'.unread = rest ∧ d'.Clean ∧ d'.settings = d.settings := by
  obtain ⟨d₁, peeked, peeks, clean₁⟩ := peek_clean clean size
  have window : d.unread.take size <+: d.unread := List.take_prefix _ _
  have inside : front <+: d.unread.take size := by
    rw [unread, List.take_append_eq_append_take, List.take_of_length_le fits]
    exact List.prefix_append _ _
  have keeps := peeks.keeps
  rw [readUntilLoop, peeked]
  dsimp only
  rw [if_neg (by omega), Int.toNat_natCast]
  cases found : index ((d.unread.take size).drop last) nlnl with
  | some i =>
      obtain ⟨fits', ends'⟩ := endsAtFirstSep_take window free found
      have same : (d.unread.take size).take (last + i + 2) = front :=
        endsAtFirstSep_unique ends' ends ((List.take_prefix _ _).trans window) (unread ▸ List.prefix_append _ _)
      obtain ⟨settled₂, settings₂, -, -, unread₂⟩ :=
        discard_settled peeks.settled (fits'.trans peeks.prefix_buffered.length_le)
      refine ⟨_, by rw [← same]; rfl, ?_, discard_clean clean₁ (fits'.trans peeks.prefix_buffered.length_le),
        settings₂.trans peeks.settings⟩
      rw [peeks.unread, take_of_prefix peeks.prefix_buffered fits', same, unread] at unread₂
      exact (List.append_cancel_left unread₂).symm
  | none =>
      obtain ⟨head, rfl, -⟩ := ends
      exact absurd ((List.infix_append head nlnl []).trans (by simpa using inside.isInfix))
        (not_sep_of_index_none window free found)

/-- A window past all the unread bytes, none of them a `"\n\n"`, once the
reader has ended: `readUntil` returns them all with `io.EOF`. -/
theorem readUntilLoop_exhausted_here (clean : d.Clean) (within : last ≤ d.b.buffered.length)
    (below : last ≤ size) (noSep : ¬nlnl <:+: d.unread) (fits : d.unread.length ≤ size)
    (ended : d.unread.length < size ∨ d.err = some .eof) :
    ∃ d', readUntilLoop nlnl maxSize last size positive d = .ok ((d.unread, some (.io .eof)), d') ∧
      d'.unread = [] ∧ d'.Clean ∧ d'.settings = d.settings := by
  obtain ⟨d₁, peeked, peeks, clean₁⟩ := peek_clean clean size
  have all : d.unread.take size = d.unread := List.take_of_length_le fits
  have eof : (if size ≤ d.unread.length then d.err else some .eof) = some .eof := by
    split_ifs <;> first | rfl | (rcases ended with _ | eof; omega; exact eof)
  have keeps := peeks.keeps
  have buffered : d₁.b.buffered = d.unread := by
    rw [clean₁.buffered_eq (by rw [peeks.err_eq, eof]), peeks.unread]
  rw [readUntilLoop, peeked, all, eof]
  dsimp only
  rw [if_neg (by rw [all] at keeps; omega), Int.toNat_natCast,
    index_eq_none_iff_not_infix.mpr fun sep => noSep (sep.trans (List.drop_suffix _ _).isInfix)]
  dsimp only
  rw [if_pos ⟨rfl, by rw [buffered]⟩]
  have len : d.unread.length ≤ d₁.b.buffered.length := by rw [buffered]
  obtain ⟨settled₂, settings₂, -, -, unread₂⟩ := discard_settled peeks.settled len
  refine ⟨_, rfl, ?_, discard_clean clean₁ len, settings₂.trans peeks.settings⟩
  rw [peeks.unread, ← buffered, List.take_length, buffered] at unread₂
  simpa using unread₂.symm

/-- A window without `"\n\n"` that the unread bytes fill, and that the
reader has not ended at: `readUntil` doubles the window, from a state in which
the unread bytes are the same and the search resumes at the window's last
byte. -/
theorem readUntilLoop_grow (clean : d.Clean) (below : last ≤ size)
    (free : SepFree d.unread last) (noSep : ¬nlnl <:+: d.unread.take size) (more : size ≤ d.unread.length)
    (going : size < d.unread.length ∨ d.err = none) (room : 2 * size ≤ maxSize) :
    ∃ d₁, readUntilLoop nlnl maxSize last size positive d =
        readUntilLoop nlnl maxSize (size - 1 : Nat) (2 * size) (by omega) d₁ ∧
      d₁.Clean ∧ d₁.unread = d.unread ∧ d₁.settings = d.settings ∧
      size - 1 ≤ d₁.b.buffered.length ∧ SepFree d₁.unread (size - 1) := by
  obtain ⟨d₁, peeked, peeks, clean₁⟩ := peek_clean clean size
  have full : (d.unread.take size).length = size := by simp; omega
  have found : index ((d.unread.take size).drop last) nlnl = none :=
    index_eq_none_iff_not_infix.mpr fun sep => noSep (sep.trans (List.drop_suffix _ _).isInfix)
  have longer := peeks.prefix_buffered.length_le
  have keeps := peeks.keeps
  have stays : ¬(((if size ≤ d.unread.length then d.err else some .eof).isSome = true) ∧
      (d.unread.take size).length = d₁.b.buffered.length) := by
    rintro ⟨failed, same⟩
    rw [if_pos more] at failed
    rcases going with bigger | none
    · have eof : d.err = some .eof := by rcases clean.err with none | eof <;> simp_all
      have all := clean₁.buffered_eq (by rw [peeks.err_eq, if_pos more, eof])
      rw [all, peeks.unread] at same
      omega
    · simp [none] at failed
  refine ⟨d₁, ?_, clean₁, peeks.unread, peeks.settings, by omega, ?_⟩
  · rw [readUntilLoop, peeked]
    dsimp only
    rw [if_neg (by omega), Int.toNat_natCast, found]
    dsimp only
    rw [if_neg stays, dif_neg (by omega), nextLast_eq positive]
  · rw [peeks.unread, ← full]
    exact sepFree_window (List.take_prefix _ _) free found

/-- A window that may double `k + 1` times within `maxSize` may double
once. -/
theorem doubled_le {size k : Nat} (room : size * 2 ^ (k + 1) ≤ maxSize) : 2 * size ≤ maxSize :=
  calc 2 * size ≤ 2 * size * 2 ^ k := Nat.le_mul_of_pos_right _ (Nat.two_pow_pos k)
    _ = size * 2 ^ (k + 1) := by ring
    _ ≤ maxSize := room

/-- `readUntil`'s loop finds the first `"\n\n"` when some window it may
reach holds it. -/
theorem readUntilLoop_found (k : Nat) (clean : d.Clean) (within : last ≤ d.b.buffered.length)
    (below : last ≤ size) (free : SepFree d.unread last) {front rest : Bytes} (unread : d.unread = front ++ rest)
    (ends : EndsAtFirstSep front) (budget : front.length ≤ size * 2 ^ k) (room : size * 2 ^ k ≤ maxSize) :
    ∃ d', readUntilLoop nlnl maxSize last size positive d = .ok ((front, none), d') ∧
      d'.unread = rest ∧ d'.Clean ∧ d'.settings = d.settings := by
  induction k generalizing size last d with
  | zero => exact readUntilLoop_found_here clean within below free unread ends (by simpa using budget)
  | succ k ih =>
      by_cases fits : front.length ≤ size
      · exact readUntilLoop_found_here clean within below free unread ends fits
      have window : front <+: d.unread := unread ▸ List.prefix_append _ _
      have step : size * 2 ^ (k + 1) = 2 * size * 2 ^ k := by ring
      obtain ⟨d₁, run, clean₁, unread₁, settings₁, within₁, free₁⟩ :=
        @readUntilLoop_grow maxSize size positive last d clean below free
          (fun sep => fits (length_le_of_sep_take ends window sep))
          (by have := window.length_le; omega) (.inl (by have := window.length_le; omega))
          (doubled_le room)
      obtain ⟨d', run', rest', clean', settings'⟩ :=
        ih clean₁ within₁ (by omega) free₁ (unread₁.trans unread) (step ▸ budget) (step ▸ room)
      exact ⟨d', run.trans run', rest', clean', settings'.trans settings₁⟩

/-- `readUntil`'s loop returns all that is left with `io.EOF` when the reader
ends, without a `"\n\n"`, before the largest window it may reach is full. -/
theorem readUntilLoop_exhausted (k : Nat) (clean : d.Clean) (within : last ≤ d.b.buffered.length)
    (below : last ≤ size) (free : SepFree d.unread last) (noSep : ¬nlnl <:+: d.unread)
    (budget : d.unread.length < size * 2 ^ k) (room : size * 2 ^ k ≤ maxSize) :
    ∃ d', readUntilLoop nlnl maxSize last size positive d = .ok ((d.unread, some (.io .eof)), d') ∧
      d'.unread = [] ∧ d'.Clean ∧ d'.settings = d.settings := by
  induction k generalizing size last d with
  | zero =>
      exact readUntilLoop_exhausted_here clean within below noSep (by simp at budget; omega)
        (.inl (by simpa using budget))
  | succ k ih =>
      by_cases here : d.unread.length < size ∨ (d.unread.length = size ∧ d.err = some .eof)
      · exact readUntilLoop_exhausted_here clean within below noSep (by omega) (by tauto)
      have step : size * 2 ^ (k + 1) = 2 * size * 2 ^ k := by ring
      obtain ⟨d₁, run, clean₁, unread₁, settings₁, within₁, free₁⟩ :=
        @readUntilLoop_grow maxSize size positive last d clean below free
          (fun sep => noSep (sep.trans (List.take_prefix _ _).isInfix)) (by omega)
          (by rcases clean.err with none | eof
              exacts [.inr none, .inl (by simp only [eof, and_true, not_or] at here; omega)])
          (doubled_le room)
      rw [← unread₁] at noSep budget
      obtain ⟨d', run', rest', clean', settings'⟩ :=
        ih clean₁ within₁ (by omega) free₁ noSep (step ▸ budget) (step ▸ room)
      exact ⟨d', unread₁ ▸ run.trans run', rest', clean', settings'.trans settings₁⟩

/-- `readUntil(nlnl, maxSize)` returns up to the first `"\n\n"` when a window
it may reach holds it. -/
theorem readUntil_found (k : Nat) (clean : d.Clean) {front rest : Bytes} (unread : d.unread = front ++ rest)
    (ends : EndsAtFirstSep front) (budget : front.length ≤ d.initialBufSize * 2 ^ k)
    (room : d.initialBufSize * 2 ^ k ≤ maxSize) :
    ∃ d', d.readUntil nlnl maxSize = .ok ((front, none), d') ∧ d'.unread = rest ∧ d'.Clean ∧
      d'.settings = d.settings :=
  readUntilLoop_found k clean (Nat.zero_le _) (Nat.zero_le _) (fun _ none => absurd none (by omega)) unread ends
    budget room

/-- `readUntil(nlnl, maxSize)` returns all that is left with `io.EOF` when the
reader ends, without a `"\n\n"`, before the largest window it may reach is
full. -/
theorem readUntil_exhausted (k : Nat) (clean : d.Clean) (noSep : ¬nlnl <:+: d.unread)
    (budget : d.unread.length < d.initialBufSize * 2 ^ k) (room : d.initialBufSize * 2 ^ k ≤ maxSize) :
    ∃ d', d.readUntil nlnl maxSize = .ok ((d.unread, some (.io .eof)), d') ∧ d'.unread = [] ∧ d'.Clean ∧
      d'.settings = d.settings :=
  @readUntilLoop_exhausted maxSize d.initialBufSize d.initialBufSize_pos 0 d k clean (Nat.zero_le _) (Nat.zero_le _)
    (fun _ none => absurd none (by omega)) noSep budget room

/-- `readExact(size)` returns the next `size` unread bytes when there are that
many. -/
theorem readExact_clean (clean : d.Clean) {size : Nat} (fits : size ≤ d.unread.length) :
    ∃ d', d.readExact size = .ok ((d.unread.take size, none), d') ∧ d'.unread = d.unread.drop size ∧
      d'.Clean ∧ d'.settings = d.settings := by
  obtain ⟨d₁, peeked, peeks, clean₁⟩ := peek_clean clean size
  have full : (d.unread.take size).length = size := by simp; omega
  have within : size ≤ d₁.b.buffered.length := full ▸ peeks.prefix_buffered.length_le
  obtain ⟨-, settings₂, -, -, unread₂⟩ := discard_settled peeks.settled within
  refine ⟨d₁.discard size, by simp only [readExact, peeked, Except.map, full, if_true], ?_,
    discard_clean clean₁ within, settings₂.trans peeks.settings⟩
  rw [peeks.unread, take_of_prefix peeks.prefix_buffered (by omega), List.take_take, min_self] at unread₂
  conv_lhs at unread₂ => rw [← List.take_append_drop size d.unread]
  exact (List.append_cancel_left unread₂).symm

/-- A fresh decoder over a clean reader is clean. -/
theorem clean_newDecoder {results : List ReadResult} (clean : CleanScript results) :
    (newDecoder (.script results)).Clean :=
  ⟨settled_newDecoder results, ⟨(settled_newDecoder results).plain,
    fun _ same => by cases same; exact clean, .inl rfl⟩, .inl rfl⟩

end Decoder

end SnapdAsserts