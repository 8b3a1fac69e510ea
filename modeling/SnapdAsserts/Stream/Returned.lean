import SnapdAsserts.Stream.Unread

/-!
# What `Decode` returns over any reader

`Unread` follows a decoder over a plain reader, whose unread bytes no read
changes.  Over a reader of any kind, the caller's `*bufio.Reader` included,
a rebuffering may change the bytes still to be read, but never those a
`peek` has returned: each `peek` returns what was buffered before it, up to
its size, and leaves all it returns buffered (`Decoder.peek_extends`).  So
the windows `readUntil` searches only grow, and it stops at the first
`"\n\n"` it meets (`Decoder.readUntil_delimited`).  Whatever the reader and
whatever the decoder's state, an assertion that `Decode` returns is then
`Decoded`: its content is a header block that parses to its headers, and
then its body, and its signature holds no `"\n\n"`
(`Decoder.decode_decoded`).  The single-shot `Decode` returns `Decoded`
assertions too (`decoded_of_decode`).
-/

namespace SnapdAsserts

/-- An assertion as a decoder returns it: its headers and body are those of
the header block and body of its content, `Assemble` accepts it, and its
signature holds no `"\n\n"`. -/
structure Decoded [Assemblers] (assert : AssertionBase) : Prop where
  headers : parseHeaders (splitContent assert.content).1 = .ok assert.headers
  body : assert.body = (splitContent assert.content).2
  assembled : assemble assert.headers assert.body assert.content assert.signature = .ok assert
  no_sep : ¬nlnl <:+: assert.signature

theorem decoded_of_decode [Assemblers] {serialized : Bytes} {assert : AssertionBase} (decoded : decode serialized = .ok assert) :
    Decoded assert := by
  obtain ⟨split, found, decoded⟩ := decode_eq_ok decoded
  obtain ⟨parsed, body, content, signature, -⟩ := decodeContent_eq_ok decoded
  unfold decodeContent at decoded
  rw [parsed] at decoded
  have assembled := except_mapError_eq_ok.mp decoded
  rw [← body, ← content, ← signature] at assembled
  rw [← content] at parsed body
  refine ⟨parsed, body, assembled, fun inside => ?_⟩
  obtain ⟨j, sep⟩ := infix_iff_exists_prefix_drop.mp inside
  rw [signature, List.drop_drop] at sep
  exact ((lastIndex_eq_some_iff (by simp [nlnl])).mp found).2 _ (by omega) sep

/-- The assertion `finishDecode` builds from a content whose header block
parses, and a signature that keeps no `"\n\n"`, is `Decoded`. -/
theorem decoded_of_finishDecode [Assemblers] {headers : Headers} {length : Int} {head content sig : Bytes}
    {assert : AssertionBase} (parsed : parseHeaders head = .ok headers)
    (split : splitContent content = (head, if 0 < length then content.drop (head.length + 2) else []))
    (noSep : ¬nlnl <:+: normalizeSig sig)
    (finished : finishDecode headers length content head.length sig = .ok (.ok assert)) : Decoded assert := by
  have assembled := Decoder.finishDecode_eq_ok finished
  obtain ⟨revision, -, rfl, -⟩ := assemble_eq_ok_iff.mp assembled
  exact ⟨by rw [split]; exact parsed, by rw [split], assembled, noSep⟩

namespace BufReader

/-- A `Peek` that does not report `ErrBufferFull` returns at most what it
was asked for. -/
theorem peek_length_le {n : Nat} {br : BufReader} (notFull : (br.peek n).1.2 ≠ some .bufferFull) :
    (br.peek n).1.1.length ≤ n := by
  unfold peek at notFull ⊢
  dsimp only at notFull ⊢
  split_ifs at notFull ⊢ with over short
  · simp at notFull
  · exact short.le
  · simp

/-- A `Peek` that reports `ErrBufferFull` and leaves its buffer within its
size has fewer bytes than it was asked for. -/
theorem peek_full_short {n : Nat} {br : BufReader} (full : (br.peek n).1.2 = some .bufferFull)
    (bounded : (br.peek n).2.buffered.length ≤ (br.peek n).2.size) : (br.peek n).2.buffered.length < n := by
  unfold peek at full bounded ⊢
  dsimp only at full bounded ⊢
  split_ifs at full bounded ⊢ with over short
  · simp only at bounded ⊢
    omega
  · exact short

/-- `Peek` leaves buffered what was buffered before, and returns it up to
the size asked. -/
theorem Peeked.take_prefix {n : Nat} {start br' : BufReader} {buf old : Bytes} {err : Option IoError}
    (peeked : start.Peeked n buf err br') (kept : old <+: br'.buffered) : old.take n <+: buf := by
  refine List.prefix_of_prefix_length_le ((List.take_prefix _ _).trans kept) peeked.prefix_buffered ?_
  rw [List.length_take]
  by_cases less : buf.length < n
  · have := (peeked.short less).2 ▸ kept.length_le
    omega
  · omega

end BufReader

namespace Decoder

/-- A rebuffering of a buffer that holds more than its size panics: `Peek`
of all it holds reports `ErrBufferFull`. -/
theorem rebuffer_of_unbounded {d : Decoder} (size : Nat) (over : d.b.size < d.b.buffered.length) :
    d.rebuffer size = .error (.peek .bufferFull) := by
  have loop : d.b.peekLoop d.b.buffered.length d.b.buffered.length = d.b :=
    BufReader.peekLoop_of_not (by omega)
  simp [rebuffer, BufReader.peek, loop, over]

/-- What `peek(size)` returns and leaves, whatever the reader: what was
buffered before it, up to `size`, and then maybe more, at most `size` bytes,
all kept in the buffer; when it is short of `size`, an error and all that
is buffered. -/
structure Extends (d : Decoder) (size : Nat) (buf : Bytes) (err : Option IoError) (d' : Decoder) : Prop where
  kept : d.b.buffered.take size <+: buf
  prefix_buffered : buf <+: d'.b.buffered
  at_most : buf.length ≤ size
  short : buf.length < size → err.isSome ∧ buf.length = d'.b.buffered.length

theorem extends_of {d d₁ : Decoder} {size : Nat} {start : BufReader} {buf : Bytes} {e : Option IoError}
    (peeked : start.Peeked size buf e d₁.b) (kept : d.b.buffered.take size <+: buf) (atMost : buf.length ≤ size) :
    Extends d size buf (d₁.noteErr e).err (d₁.noteErr e) := by
  refine ⟨kept, by simpa using peeked.prefix_buffered, atMost, fun less => ?_⟩
  obtain ⟨failed, all⟩ := peeked.short less
  refine ⟨?_, by rw [noteErr_b, all]⟩
  simp [noteErr_err, failed]

/-- `peek` does what `Extends` says whenever it does not panic. -/
theorem peek_extends {d d' : Decoder} {size : Nat} {buf : Bytes} {err : Option IoError}
    (peeked : d.peek size = .ok ((buf, err), d')) : Extends d size buf err d' := by
  have first := BufReader.peeked_peek size d.b
  by_cases full : (d.b.peek size).1.2 = some .bufferFull
  · by_cases bounded : (d.b.peek size).2.buffered.length ≤ (d.b.peek size).2.size
    · rw [peek_of_full full bounded] at peeked
      simp only [Except.ok.injEq, Prod.mk.injEq] at peeked
      obtain ⟨⟨rfl, rfl⟩, rfl⟩ := peeked
      have positive : 0 < size := Nat.pos_of_ne_zero (by rintro rfl; simp [BufReader.peek] at full)
      have short := BufReader.peek_full_short full bounded
      generalize hS : (size / d.initialBufSize + 1) * d.initialBufSize = S
      have bigger : size < S := by
        rw [← hS, Nat.add_mul, one_mul]
        exact Nat.lt_div_mul_add d.initialBufSize_pos
      obtain ⟨taken, -⟩ := @rebuffered_peek (d.b.peek size).2.buffered
        ({ d with b := (d.b.peek size).2 } : Decoder).rd size S positive (by omega)
      have second := BufReader.peeked_peek size
        (newReaderSize (d.b.peek size).2.buffered ({ d with b := (d.b.peek size).2 } : Decoder).rd S)
      exact extends_of second (second.take_prefix (first.grows.buffered.trans taken))
        (second.at_most (by simp [newReaderSize]))
    · simp [peek, full, @rebuffer_of_unbounded { d with b := (d.b.peek size).2 } size (Nat.lt_of_not_le bounded)]
        at peeked
  · rw [peek_of_ne full] at peeked
    obtain ⟨⟨rfl, rfl⟩, rfl⟩ := peeked
    exact extends_of first (first.take_prefix first.grows.buffered) (BufReader.peek_length_le full)

/-- What `readUntil(nlnl, _)` returns, whatever the reader: what ends at
its first `"\n\n"` when it reports no error, and no `"\n\n"` on a read
error. -/
structure Delimited (buf : Bytes) (err : Option ReadError) : Prop where
  found : err = none → EndsAtFirstSep buf
  failed : ∀ e, err = some (.io e) → ¬nlnl <:+: buf

/-- No `"\n\n"` starts before `last` in a longer window when none does in a
window that reaches past `last`. -/
theorem sepFree_of_prefix {seen buf : Bytes} {last : Nat} (window : seen <+: buf)
    (early : last = 0 ∨ last < seen.length) (free : SepFree seen last) : SepFree buf last := by
  intro j before found
  refine free j before (List.prefix_of_prefix_length_le found (prefix_drop window j) ?_)
  simp only [nlnl, List.length_cons, List.length_nil, List.length_drop]
  omega

/-- The loop of `readUntil(nlnl, maxSize)` on any decoder returns what
`Delimited` says, from a window whose search start lies in what an earlier
`peek` returned, with no `"\n\n"` before it. -/
theorem readUntilLoop_delimited (maxSize size : Nat) (positive : 0 < size) (last : Nat) (d : Decoder)
    {seen : Bytes} (window : seen <+: d.b.buffered) (within : seen.length ≤ size)
    (early : last = 0 ∨ last < seen.length) (free : SepFree seen last) {buf : Bytes} {err : Option ReadError}
    {d' : Decoder} (read : readUntilLoop nlnl maxSize last size positive d = .ok ((buf, err), d')) :
    Delimited buf err := by
  induction' hk : maxSize + 1 - size using Nat.strong_induction_on with k ih
    generalizing size last d seen
  rw [readUntilLoop] at read
  cases peeked : d.peek size with
  | error p => simp [peeked] at read
  | ok result =>
  obtain ⟨⟨buf₁, err₁⟩, d₁⟩ := result
  have ext := peek_extends peeked
  have seen₁ : seen <+: buf₁ :=
    (List.prefix_take_iff.mpr ⟨window, within⟩).trans ext.kept
  have free₁ := sepFree_of_prefix seen₁ early free
  have reaches : last ≤ buf₁.length := by have := seen₁.length_le; omega
  simp only [peeked] at read
  rw [if_neg (by omega), Int.toNat_natCast] at read
  cases found : index (buf₁.drop last) nlnl with
  | some i =>
      simp only [found, Except.ok.injEq, Prod.mk.injEq] at read
      obtain ⟨⟨rfl, rfl⟩, -⟩ := read
      exact ⟨fun _ => (endsAtFirstSep_take (List.prefix_refl _) free₁ found).2, fun _ h => by cases h⟩
  | none =>
      simp only [found] at read
      split_ifs at read with stop tooLarge
      · obtain ⟨⟨rfl, rfl⟩, -⟩ := read
        refine ⟨fun none => ?_, fun _ _ => not_sep_of_index_none (List.prefix_refl _) free₁ found⟩
        rw [Option.map_eq_none'] at none
        simp [none] at stop
      · obtain ⟨⟨rfl, rfl⟩, -⟩ := read
        exact ⟨fun h => (nomatch h), fun _ h => (nomatch h)⟩
      · have full : buf₁.length = size := by
          by_contra shorter
          exact stop (ext.short (by have := ext.at_most; omega))
        rw [nextLast_eq positive] at read
        exact ih _ (by omega) (2 * size) (by omega) (size - 1) d₁ ext.prefix_buffered (by omega)
          (.inr (by omega)) (full ▸ sepFree_window (List.prefix_refl _) free₁ found) read rfl

/-- `readUntil(nlnl, maxSize)` returns what `Delimited` says whenever it does
not panic, whatever the reader. -/
theorem readUntil_delimited {d d' : Decoder} {maxSize : Nat} {buf : Bytes} {err : Option ReadError}
    (read : d.readUntil nlnl maxSize = .ok ((buf, err), d')) : Delimited buf err :=
  readUntilLoop_delimited maxSize _ _ 0 d List.nil_prefix (Nat.zero_le _) (.inl rfl)
    (fun _ none => absurd none (by omega)) read

/-- A signature read without an error but `io.EOF` keeps no `"\n\n"`. -/
theorem Delimited.signature {sig : Bytes} {err : Option ReadError} (delimited : Delimited sig err)
    (ok : err.filter (· != .io .eof) = none) : ¬nlnl <:+: normalizeSig sig := by
  rcases filter_ne_eof_eq_none.mp ok with rfl | rfl
  · exact (normalizeSig_of_first (delimited.found rfl)).2
  · rw [normalizeSig_of_not_sep (delimited.failed .eof rfl)]
    exact delimited.failed .eof rfl

section
variable {d d' : Decoder} {headers : Headers} {length : Int} {head : Bytes} {assert : AssertionBase}

theorem decodeSignature_decoded [Assemblers] (parsed : parseHeaders head = .ok headers) (noSep : ¬nlnl <:+: head)
    (lastNe : head.getLast? ≠ some 10) {body endOfBody : Bytes} (bodyNil : ¬0 < length → body = [])
    (endNoSep : ¬nlnl <:+: normalizeSig endOfBody)
    (decoded : d.decodeSignature headers length (head ++ nlnl ++ body) head.length endOfBody =
      .ok (.ok assert, d')) : Decoded assert := by
  unfold decodeSignature at decoded
  split_ifs at decoded with sep positive short
  · cases read : d.readUntil nlnl d.maxSigSize with
    | error p => simp [read] at decoded
    | ok result =>
    obtain ⟨⟨sig, err⟩, d₁⟩ := result
    simp only [read] at decoded
    cases ok : err.filter (· != .io .eof) with
    | some e => simp [ok] at decoded
    | none =>
    cases finished : finishDecode headers length (head ++ nlnl ++ body) head.length sig with
    | error p => simp [ok, finished, Except.map, -List.append_assoc] at decoded
    | ok outcome =>
    simp only [ok, finished, Except.map, Except.ok.injEq, Prod.mk.injEq] at decoded
    obtain ⟨rfl, -⟩ := decoded
    refine decoded_of_finishDecode parsed ?_ ((readUntil_delimited read).signature ok) finished
    rw [splitContent_block_append noSep lastNe]
    split_ifs with positive
    · simp [nlnl]
    · rw [bodyNil positive]
  · cases decoded
  · rw [bodyNil positive, List.append_nil, List.take_left' rfl] at decoded
    cases finished : finishDecode headers length head head.length endOfBody with
    | error p => simp [finished, Except.map] at decoded
    | ok outcome =>
    simp only [finished, Except.map, Except.ok.injEq, Prod.mk.injEq] at decoded
    obtain ⟨rfl, -⟩ := decoded
    exact decoded_of_finishDecode parsed (by rw [splitContent_block noSep, if_neg positive]) endNoSep finished

theorem decodeTrailer_decoded [Assemblers] (parsed : parseHeaders head = .ok headers) (noSep : ¬nlnl <:+: head)
    (lastNe : head.getLast? ≠ some 10) {body : Bytes} (bodyNil : ¬0 < length → body = [])
    (decoded : d.decodeTrailer headers length (head ++ nlnl ++ body) head.length = .ok (.ok assert, d')) :
    Decoded assert := by
  unfold decodeTrailer at decoded
  cases read : d.readUntil nlnl d.maxSigSize with
  | error p => simp [read] at decoded
  | ok result =>
  obtain ⟨⟨endOfBody, err⟩, d₁⟩ := result
  simp only [read] at decoded
  cases ok : err.filter (· != .io .eof) with
  | some e => simp [ok] at decoded
  | none =>
  rw [ok] at decoded
  exact decodeSignature_decoded parsed noSep lastNe bodyNil ((readUntil_delimited read).signature ok) decoded

theorem decodeBody_decoded [Assemblers] (parsed : parseHeaders head = .ok headers) (noSep : ¬nlnl <:+: head)
    (lastNe : head.getLast? ≠ some 10)
    (decoded : d.decodeBody headers length (head ++ nlnl) head.length = .ok (.ok assert, d')) :
    Decoded assert := by
  unfold decodeBody at decoded
  split_ifs at decoded with positive
  · cases read : d.readExact length.toNat with
    | error p => simp [read] at decoded
    | ok result =>
    obtain ⟨⟨body, err⟩, d₁⟩ := result
    cases err with
    | some e => simp [read] at decoded
    | none =>
    simp only [read] at decoded
    exact decodeTrailer_decoded parsed noSep lastNe (fun h => absurd positive h) decoded
  · have noBody : d.decodeTrailer headers length (head ++ nlnl ++ []) head.length = .ok (.ok assert, d') := by
      simpa using decoded
    exact decodeTrailer_decoded parsed noSep lastNe (fun _ => rfl) noBody

/-- Every assertion that `Decode` returns is `Decoded`, whatever the reader
and whatever the state of the decoder. -/
theorem decode_decoded [Assemblers] (decoded : d.decode = .ok (.ok assert, d')) : Decoded assert := by
  obtain ⟨headAndSep, d₁, headers, length, read, -, parsed, -, -, decoded⟩ := decode_eq_ok_ok decoded
  obtain ⟨head, rfl, first⟩ := (readUntil_delimited read).found rfl
  obtain ⟨noSep, lastNe⟩ := not_sep_of_first first
  have headLen : (head ++ nlnl).length - nlnl.length = head.length := by simp
  rw [headLen, List.take_left' rfl] at parsed
  rw [headLen] at decoded
  exact decodeBody_decoded parsed noSep lastNe decoded

end

/-- Every assertion that successive `Decode` calls return is `Decoded`. -/
theorem decodeN_decoded [Assemblers] {n : Nat} {d d' : Decoder} {outcomes : List (Except StreamError AssertionBase)}
    (run : d.decodeN n = .ok (outcomes, d')) {assert : AssertionBase} (returned : .ok assert ∈ outcomes) :
    Decoded assert := by
  induction n generalizing d outcomes with
  | zero => cases run; simp at returned
  | succ n ih =>
      unfold decodeN at run
      split at run
      · cases run
      · rename_i result d₁ decoded
        cases rest : d₁.decodeN n with
        | error p => simp [rest, Except.map] at run
        | ok later =>
            obtain ⟨results, d₂⟩ := later
            simp only [rest, Except.map, Except.ok.injEq, Prod.mk.injEq] at run
            obtain ⟨rfl, rfl⟩ := run
            rcases List.mem_cons.mp returned with here | there
            · exact decode_decoded (here ▸ decoded)
            · exact ih rest there

end Decoder

end SnapdAsserts
