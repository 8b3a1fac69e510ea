import SnapdAsserts.Bytes

/-!
# Readers and `bufio.Reader`

The streaming decoder reads through a `bufio.Reader`.  A plain `io.Reader` is
described by the results its successive `Read` calls return
(`Reader.script`); a `bufio.Reader` by its buffer size, its unread buffered
bytes, its pending error and the reader under it.  `Read`, `fill`, `Peek` and
`Discard` are translated from the standard library, with explicit fuel for
the loops of `Peek` and `Discard`; `peekLoop_done` shows the fuel given is
never what stops `Peek`'s loop.

Every operation keeps the bytes a reader will still deliver (`stream`): a
read returns a prefix of them and leaves the rest, and `Peek` returns a
prefix of what is buffered without consuming anything.
-/

namespace SnapdAsserts

/-- Errors of a read: `io.EOF`, `io.ErrUnexpectedEOF`, `io.ErrNoProgress`,
`bufio.ErrBufferFull`, or an error of the reader itself. -/
inductive IoError where
  | eof
  | unexpectedEOF
  | noProgress
  | bufferFull
  | other (code : Nat)
  deriving DecidableEq, Repr

/-- What one `Read` call returns: the bytes read and the error. -/
structure ReadResult where
  data : Bytes
  err : Option IoError
  deriving DecidableEq, Repr

/-- An `io.Reader`: a plain reader, given by the results of its successive
`Read` calls, or a `*bufio.Reader` (`len(b.buf)`, the unread bytes
`b.buf[b.r:b.w]`, `b.err`) over another reader. -/
inductive Reader where
  | script (results : List ReadResult)
  | bufio (size : Nat) (buffered : Bytes) (err : Option IoError) (rd : Reader)
  deriving DecidableEq, Repr

/-! ## Plain readers -/

/-- `Read(p)` on a plain reader, `len(p) = n`: the next result, cut to `n`
bytes with the rest left for the next call.  Once it has returned `io.EOF`,
and once its results run out, the reader returns `io.EOF` on every call. -/
def scriptRead (n : Nat) : List ReadResult → ReadResult × List ReadResult
  | [] => (⟨[], some .eof⟩, [])
  | result :: rest =>
      if result.data.length ≤ n then (result, if result.err = some .eof then [] else rest)
      else (⟨result.data.take n, none⟩, ⟨result.data.drop n, result.err⟩ :: rest)

/-- The bytes a plain reader will still deliver. -/
def scriptStream : List ReadResult → Bytes
  | [] => []
  | result :: rest => result.data ++ if result.err = some .eof then [] else scriptStream rest

@[simp]
theorem scriptStream_nil : scriptStream [] = [] := rfl

/-- Reads that return nothing deliver nothing. -/
theorem scriptStream_emptyReads (m : Nat) (rest : List ReadResult) :
    scriptStream (List.replicate m ⟨[], none⟩ ++ rest) = scriptStream rest := by
  induction m with
  | zero => rfl
  | succ m ih => simpa [List.replicate_succ, scriptStream] using ih

theorem scriptRead_stream (n : Nat) (results : List ReadResult) :
    (scriptRead n results).1.data ++ scriptStream (scriptRead n results).2 = scriptStream results := by
  cases results with
  | nil => rfl
  | cons result rest =>
      simp only [scriptRead]
      split_ifs with fits eof
      · simp [scriptStream, eof]
      · simp [scriptStream, eof]
      · simp [scriptStream, ← List.append_assoc]

theorem scriptRead_length (n : Nat) (results : List ReadResult) :
    (scriptRead n results).1.data.length ≤ n := by
  cases results with
  | nil => simp [scriptRead]
  | cons result rest =>
      simp only [scriptRead]
      split_ifs <;> simp_all [Nat.min_le_left]

/-- After a read that returns `io.EOF`, a plain reader delivers nothing more. -/
theorem scriptRead_eof {n : Nat} {results : List ReadResult}
    (eof : (scriptRead n results).1.err = some .eof) : (scriptRead n results).2 = [] := by
  cases results with
  | nil => rfl
  | cons result rest =>
      simp only [scriptRead] at eof ⊢
      split_ifs at eof ⊢ <;> simp_all

/-! ## Reading from a reader -/

/-- `rd.Read(p)` with `len(p) = n`; for a `*bufio.Reader`, the standard
library's `(*bufio.Reader).Read`. -/
def Reader.read : Reader → Nat → ReadResult × Reader
  | .script results, n =>
      let (result, rest) := scriptRead n results
      (result, .script rest)
  | .bufio size buffered err rd, n =>
      if n = 0 then
        if buffered ≠ [] then (⟨[], none⟩, .bufio size buffered err rd)
        else (⟨[], err⟩, .bufio size buffered none rd)
      else if buffered ≠ [] then
        (⟨buffered.take n, none⟩, .bufio size (buffered.drop n) err rd)
      else if err.isSome then (⟨[], err⟩, .bufio size buffered none rd)
      else if size ≤ n then
        -- a large read into an empty buffer goes to `rd` directly
        let (result, rd) := rd.read n
        (result, .bufio size buffered none rd)
      else
        -- one read into the buffer, without `fill`'s loop
        let (result, rd) := rd.read size
        if result.data = [] then (⟨[], result.err⟩, .bufio size [] none rd)
        else (⟨result.data.take n, none⟩, .bufio size (result.data.drop n) result.err rd)

/-- The bytes a reader will still deliver. -/
def Reader.stream : Reader → Bytes
  | .script results => scriptStream results
  | .bufio _ buffered _ rd => buffered ++ rd.stream

/-- A read returns a prefix of what the reader delivers and leaves the rest. -/
theorem Reader.read_stream (rd : Reader) (n : Nat) :
    (rd.read n).1.data ++ (rd.read n).2.stream = rd.stream := by
  induction rd generalizing n with
  | script results => exact scriptRead_stream n results
  | bufio size buffered err rd ih =>
      by_cases zero : n = 0
      · by_cases full : buffered = [] <;> simp [Reader.read, zero, full, Reader.stream]
      by_cases full : buffered = []
      swap
      · simp [Reader.read, zero, full, Reader.stream, ← List.append_assoc]
      by_cases failed : err.isSome
      · simp_all [Reader.read, Reader.stream]
      by_cases direct : size ≤ n
      · have read := ih n
        simp only [Reader.read, zero, full, failed, direct, if_false, if_true, not_true_eq_false]
        generalize rd.read n = step at read
        simp_all [Reader.stream]
      · have read := ih size
        simp only [Reader.read, zero, full, failed, direct, if_false, not_true_eq_false]
        generalize rd.read size = step at read
        obtain ⟨⟨data, readErr⟩, rd'⟩ := step
        by_cases empty : data = [] <;> simp_all [Reader.stream, ← List.append_assoc]

theorem Reader.read_length (rd : Reader) (n : Nat) : (rd.read n).1.data.length ≤ n := by
  induction rd generalizing n with
  | script results => exact scriptRead_length n results
  | bufio size buffered err rd ih =>
      by_cases zero : n = 0
      · by_cases full : buffered = [] <;> simp [Reader.read, zero, full]
      by_cases full : buffered = []
      swap
      · simp [Reader.read, zero, full, Nat.min_le_left]
      by_cases failed : err.isSome
      · simp [Reader.read, zero, full, failed]
      by_cases direct : size ≤ n
      · simpa [Reader.read, zero, full, failed, direct] using ih n
      · have read := ih size
        simp only [Reader.read, zero, full, failed, direct, if_false, not_true_eq_false]
        generalize rd.read size = step at read
        obtain ⟨⟨data, readErr⟩, rd'⟩ := step
        by_cases empty : data = [] <;> simp_all [Nat.min_le_left]

/-! ## The decoder's `bufio.Reader` -/

/-- A `bufio.Reader` the decoder reads through: its buffer size, unread
bytes and pending error, and what it reads from, which is the bytes left in
the `bytes.Buffer` at the front of its `io.MultiReader` (none when it reads
`rd` directly) and then `rd`. -/
structure BufReader where
  size : Nat
  buffered : Bytes
  err : Option IoError
  pending : Bytes
  rd : Reader

namespace BufReader

/-- The bytes the reader under the buffer will still deliver. -/
def source (br : BufReader) : Bytes := br.pending ++ br.rd.stream

/-- The bytes still to be read through the buffer. -/
def stream (br : BufReader) : Bytes := br.buffered ++ br.source

/-- The read `fill` makes into `b.buf[b.w:]`: from the front `bytes.Buffer`
while it holds bytes, else from `rd` (an empty `bytes.Buffer` answers
`io.EOF`, and `io.MultiReader` moves on to `rd` in the same call). -/
def readSource (br : BufReader) : ReadResult × BufReader :=
  let n := br.size - br.buffered.length
  if br.pending = [] then
    let (result, rd) := br.rd.read n
    (result, { br with rd := rd })
  else (⟨br.pending.take n, none⟩, { br with pending := br.pending.drop n })

/-- `b.fill()`: reads until one returns bytes or an error, at most
`maxConsecutiveEmptyReads` (100) times, after which `io.ErrNoProgress`.
(Sliding the unread bytes to the front of `b.buf` is invisible here.) -/
def fillTries : Nat → BufReader → BufReader
  | 0, br => { br with err := some .noProgress }
  | tries + 1, br =>
      let (result, br) := br.readSource
      let br := { br with buffered := br.buffered ++ result.data }
      match result.err with
      | some err => { br with err := some err }
      | none => if result.data = [] then fillTries tries br else br

/-- `b.fill()`. -/
def fill (br : BufReader) : BufReader := br.fillTries 100

/-- The loop of `b.Peek(n)`:
`for b.w-b.r < n && b.w-b.r < len(b.buf) && b.err == nil { b.fill() }`. -/
def peekLoop (n : Nat) : Nat → BufReader → BufReader
  | 0, br => br
  | fuel + 1, br =>
      if br.buffered.length < n ∧ br.buffered.length < br.size ∧ br.err = none then
        peekLoop n fuel br.fill
      else br

/-- `b.Peek(n)`, with `n` rounds of its loop (enough, by `peekLoop_done`). -/
def peek (n : Nat) (br : BufReader) : (Bytes × Option IoError) × BufReader :=
  let br := br.peekLoop n n
  if br.size < n then ((br.buffered, some .bufferFull), br)
  else if br.buffered.length < n then
    ((br.buffered, some (br.err.getD .bufferFull)), { br with err := none })
  else ((br.buffered.take n, none), br)

/-- The loop of `b.Discard(n)` with `remain` bytes left to skip: each round
skips at least one byte or returns. -/
def discardLoop : Nat → Nat → BufReader → BufReader
  | 0, _, br => br
  | fuel + 1, remain, br =>
      let br := if br.buffered = [] then br.fill else br
      let skip := min br.buffered.length remain
      let br := { br with buffered := br.buffered.drop skip }
      if remain - skip = 0 then br
      else if br.err.isSome then { br with err := none }
      else discardLoop fuel (remain - skip) br

/-- `b.Discard(n)`; the decoder ignores what it returns. -/
def discard (n : Nat) (br : BufReader) : BufReader :=
  if n = 0 then br else br.discardLoop n n

/-! ### `fill` -/

@[simp]
theorem readSource_size (br : BufReader) : br.readSource.2.size = br.size := by
  unfold readSource; split_ifs <;> rfl

@[simp]
theorem readSource_buffered (br : BufReader) : br.readSource.2.buffered = br.buffered := by
  unfold readSource; split_ifs <;> rfl

@[simp]
theorem readSource_err (br : BufReader) : br.readSource.2.err = br.err := by
  unfold readSource; split_ifs <;> rfl

/-- A read from the source returns a prefix of what it delivers and leaves
the rest. -/
theorem readSource_source (br : BufReader) :
    br.readSource.1.data ++ br.readSource.2.source = br.source := by
  unfold readSource source
  split_ifs with empty
  · simpa [empty] using Reader.read_stream br.rd (br.size - br.buffered.length)
  · simp [← List.append_assoc]

theorem readSource_length (br : BufReader) :
    br.readSource.1.data.length ≤ br.size - br.buffered.length := by
  unfold readSource
  split_ifs
  · exact Reader.read_length _ _
  · simp only [List.length_take]; omega

/-- While the front `bytes.Buffer` holds bytes, the read takes them from it. -/
theorem readSource_of_pending {br : BufReader} (nonempty : br.pending ≠ []) :
    br.readSource = (⟨br.pending.take (br.size - br.buffered.length), none⟩,
      { br with pending := br.pending.drop (br.size - br.buffered.length) }) := by
  simp [readSource, nonempty]

theorem readSource_pending_nil {br : BufReader} (empty : br.pending = []) : br.readSource.2.pending = [] := by
  simp [readSource, empty]

/-- What reading into the buffer keeps: the size and everything still to be
read; the buffer only grows, and not past its size. -/
structure Grows (br br' : BufReader) : Prop where
  size : br'.size = br.size
  stream : br'.stream = br.stream
  buffered : br.buffered <+: br'.buffered
  bounded : br'.buffered.length ≤ max br.buffered.length br.size

theorem Grows.refl (br : BufReader) : Grows br br :=
  ⟨rfl, rfl, List.prefix_refl _, le_max_left _ _⟩

theorem Grows.trans {br mid br' : BufReader} (first : Grows br mid) (second : Grows mid br') : Grows br br' := by
  refine ⟨second.size.trans first.size, second.stream.trans first.stream, first.buffered.trans second.buffered, ?_⟩
  have := first.bounded
  have := second.bounded
  rw [first.size] at this
  omega

/-- Once the reader has nothing more to deliver, a buffer that has kept
the bytes and buffered more has nothing more to read either. -/
theorem source_nil_of_prefix {br br' : BufReader} (same : br'.stream = br.stream)
    (grows : br.buffered <+: br'.buffered) (empty : br.source = []) : br'.source = [] := by
  have longer := grows.length_le
  unfold BufReader.stream at same
  rw [empty, List.append_nil] at same
  have := congrArg List.length same
  simp only [List.length_append] at this
  exact List.eq_nil_of_length_eq_zero (by omega)

/-- What one `fill` does: besides growing the buffer, it buffers a byte
unless it sets an error. -/
structure Fills (br br' : BufReader) extends Grows br br' : Prop where
  progress : br'.err = none → br.buffered.length < br'.buffered.length

theorem Fills.of_same {br mid br' : BufReader} (fills : Fills mid br') (size : mid.size = br.size)
    (buffered : mid.buffered = br.buffered) (stream : mid.stream = br.stream) : Fills br br' := by
  obtain ⟨⟨sameSize, sameStream, grows, bounded⟩, progress⟩ := fills
  exact ⟨⟨sameSize.trans size, sameStream.trans stream, buffered ▸ grows, by rw [← buffered, ← size]; exact bounded⟩,
    by rw [← buffered]; exact progress⟩

theorem fills_fillTries (tries : Nat) (br : BufReader) : Fills br (br.fillTries tries) := by
  induction tries generalizing br with
  | zero => exact ⟨⟨rfl, rfl, List.prefix_refl _, le_max_left _ _⟩, by simp [fillTries]⟩
  | succ tries ih =>
      have size := readSource_size br
      have buffered := readSource_buffered br
      have source := readSource_source br
      have length := readSource_length br
      unfold fillTries
      generalize br.readSource = read at size buffered source length
      obtain ⟨⟨data, readErr⟩, br'⟩ := read
      dsimp only at size buffered source length ⊢
      have stream : br.buffered ++ data ++ br'.source = br.stream := by
        rw [List.append_assoc, source]; rfl
      have bounded : (br.buffered ++ data).length ≤ max br.buffered.length br.size := by
        simp only [List.length_append]; omega
      cases readErr with
      | some e =>
          exact ⟨⟨size, by simpa [BufReader.stream, buffered] using stream, by simp [buffered],
            by simpa [buffered] using bounded⟩, by simp⟩
      | none =>
          dsimp only
          split_ifs with empty
          · subst empty
            simp only [List.append_nil]
            exact (ih br').of_same size buffered (by simpa [BufReader.stream, buffered] using stream)
          · exact ⟨⟨size, by simpa [BufReader.stream, buffered] using stream, by simp [buffered],
              by simpa [buffered] using bounded⟩, fun _ => by simp [buffered, List.length_pos.mpr empty]⟩

theorem fills_fill (br : BufReader) : Fills br br.fill :=
  fills_fillTries 100 br

theorem fillTries_pending_nil (tries : Nat) {br : BufReader} (empty : br.pending = []) :
    (br.fillTries tries).pending = [] := by
  induction tries generalizing br with
  | zero => exact empty
  | succ tries ih =>
      have pending := readSource_pending_nil empty
      unfold fillTries
      generalize br.readSource = read at pending
      obtain ⟨⟨data, readErr⟩, br'⟩ := read
      cases readErr with
      | some e => exact pending
      | none =>
          dsimp only
          split_ifs
          exacts [ih pending, pending]

/-- A `fill` with room for the whole front `bytes.Buffer` buffers all of it. -/
theorem fill_buffered_pending {br : BufReader} (fits : br.pending.length ≤ br.size - br.buffered.length) :
    br.buffered ++ br.pending <+: br.fill.buffered := by
  by_cases empty : br.pending = []
  · simpa [empty] using (fills_fill br).buffered
  · simp [fill, fillTries, readSource_of_pending empty, List.take_of_length_le fits,
      List.drop_eq_nil_of_le fits, empty]

/-- A `fill` with room for the whole front `bytes.Buffer` empties it. -/
theorem fill_pending {br : BufReader} (fits : br.pending.length ≤ br.size - br.buffered.length) :
    br.fill.pending = [] := by
  by_cases empty : br.pending = []
  · exact fillTries_pending_nil 100 empty
  · simp [fill, fillTries, readSource_of_pending empty, List.take_of_length_le fits,
      List.drop_eq_nil_of_le fits, empty]

/-- `fill` gives up with `io.ErrNoProgress` after as many reads in a row
that return nothing as it tries. -/
theorem fillTries_emptyReads (m : Nat) (rest : List ReadResult) (tries : Nat) {br : BufReader}
    (pending : br.pending = []) (rd : br.rd = .script (List.replicate (tries + m) ⟨[], none⟩ ++ rest)) :
    br.fillTries tries = { br with err := some .noProgress, rd := .script (List.replicate m ⟨[], none⟩ ++ rest) } := by
  induction tries generalizing br with
  | zero => rw [fillTries, ← Nat.zero_add m, ← rd]
  | succ tries ih =>
      rw [Nat.succ_add, List.replicate_succ, List.cons_append] at rd
      rw [fillTries]
      simp only [readSource, pending, rd, if_true, Reader.read, scriptRead, List.length_nil, Nat.zero_le,
        List.append_nil]
      exact ih rfl rfl

/-! ### `Peek` -/

theorem peekLoop_of_not {n fuel : Nat} {br : BufReader}
    (stop : ¬(br.buffered.length < n ∧ br.buffered.length < br.size ∧ br.err = none)) :
    br.peekLoop n fuel = br := by
  cases fuel <;> simp [peekLoop, stop]

theorem grows_peekLoop (n fuel : Nat) (br : BufReader) : Grows br (br.peekLoop n fuel) := by
  induction fuel generalizing br with
  | zero => exact Grows.refl br
  | succ fuel ih =>
      unfold peekLoop
      split_ifs
      · exact (fills_fill br).toGrows.trans (ih _)
      · exact Grows.refl br

theorem peekLoop_pending_nil (n fuel : Nat) {br : BufReader} (empty : br.pending = []) :
    (br.peekLoop n fuel).pending = [] := by
  induction fuel generalizing br with
  | zero => exact empty
  | succ fuel ih =>
      unfold peekLoop
      split_ifs
      exacts [ih (fillTries_pending_nil 100 empty), empty]

/-- `Peek`'s loop has ended when its fuel runs out: `n` rounds are enough,
since each round buffers a byte or sets an error. -/
theorem peekLoop_done (n fuel : Nat) (br : BufReader) (enough : n ≤ fuel + br.buffered.length) :
    let br' := br.peekLoop n fuel
    ¬(br'.buffered.length < n ∧ br'.buffered.length < br'.size ∧ br'.err = none) := by
  induction fuel generalizing br with
  | zero => simp only [peekLoop]; omega
  | succ fuel ih =>
      unfold peekLoop
      split_ifs with running
      · by_cases failed : br.fill.err = none
        · exact ih _ (by have := (fills_fill br).progress failed; omega)
        · rw [peekLoop_of_not (by simp [failed])]
          simp [failed]
      · exact running

/-- What `Peek(n)` returns and leaves. -/
structure Peeked (n : Nat) (br : BufReader) (buf : Bytes) (err : Option IoError) (br' : BufReader) :
    Prop where
  grows : Grows br br'
  prefix_buffered : buf <+: br'.buffered
  keeps : min n br.buffered.length ≤ buf.length
  short : buf.length < n → err.isSome ∧ buf = br'.buffered
  full : err = none → buf.length = n
  failed : br.buffered.length ≤ br.size → err.isSome → buf.length < n
  at_most : br.buffered.length ≤ br.size → buf.length ≤ n

theorem peeked_peek (n : Nat) (br : BufReader) : Peeked n br (br.peek n).1.1 (br.peek n).1.2 (br.peek n).2 := by
  have grows := grows_peekLoop n n br
  have keeps := grows.buffered.length_le
  unfold peek
  generalize br.peekLoop n n = br' at grows keeps
  have size := grows.size
  have bounded := grows.bounded
  dsimp only
  split_ifs with over short <;> dsimp only
  · exact ⟨grows, List.prefix_refl _, by omega, fun _ => ⟨rfl, rfl⟩, by simp, fun _ _ => by omega,
      fun _ => by omega⟩
  · exact ⟨⟨grows.size, grows.stream, grows.buffered, grows.bounded⟩, List.prefix_refl _, by omega,
      fun _ => ⟨rfl, rfl⟩, by simp, fun _ _ => short, fun _ => by omega⟩
  · exact ⟨grows, List.take_prefix _ _, by simp only [List.length_take]; omega,
      fun long => by simp at long; omega, fun _ => by simp; omega, by simp,
      fun _ => by simp only [List.length_take]; omega⟩

theorem peek_pending (n : Nat) (br : BufReader) : (br.peek n).2.pending = (br.peekLoop n n).pending := by
  unfold peek; dsimp only; split_ifs <;> rfl

theorem peek_buffered_eq (n : Nat) (br : BufReader) :
    (br.peek n).2.buffered = (br.peekLoop n n).buffered := by
  unfold peek; dsimp only; split_ifs <;> rfl

@[simp]
theorem peek_size (n : Nat) (br : BufReader) : (br.peek n).2.size = br.size := by
  rw [← (grows_peekLoop n n br).size]
  unfold peek; dsimp only; split_ifs <;> rfl

/-- `Peek` keeps what is buffered within the buffer. -/
theorem peek_bounded (n : Nat) {br : BufReader} (bounded : br.buffered.length ≤ br.size) :
    (br.peek n).2.buffered.length ≤ (br.peek n).2.size := by
  have grows := (grows_peekLoop n n br).bounded
  rw [peek_buffered_eq, peek_size]
  omega

/-- `Peek` of exactly the buffered bytes returns them and changes nothing. -/
theorem peek_buffered {br : BufReader} (bounded : br.buffered.length ≤ br.size) :
    br.peek br.buffered.length = ((br.buffered, none), br) := by
  have loop : br.peekLoop br.buffered.length br.buffered.length = br :=
    peekLoop_of_not (by omega)
  simp [peek, loop, Nat.not_lt.mpr bounded]

/-! ### Over a plain reader -/

@[simp]
theorem Reader.read_script (results : List ReadResult) (n : Nat) :
    (Reader.script results).read n = ((scriptRead n results).1, .script (scriptRead n results).2) := rfl

/-- A buffer over a plain reader, which has read all there is once it has
seen `io.EOF`. -/
structure Plain (br : BufReader) : Prop where
  script : ∃ results, br.rd = .script results
  drained : br.err = some .eof → br.source = []

theorem readSource_plain {br : BufReader} (script : ∃ results, br.rd = .script results) :
    (∃ results, br.readSource.2.rd = .script results) ∧
      (br.readSource.1.err = some .eof → br.readSource.2.source = []) := by
  obtain ⟨results, rd⟩ := script
  unfold readSource
  split_ifs with empty
  · simp only [rd, Reader.read_script]
    exact ⟨⟨_, rfl⟩, fun eof => by simp [source, empty, Reader.stream, scriptRead_eof eof]⟩
  · exact ⟨⟨results, rd⟩, by simp⟩

theorem plain_fillTries (tries : Nat) {br : BufReader} (plain : br.Plain) : (br.fillTries tries).Plain := by
  induction tries generalizing br with
  | zero => exact ⟨plain.script, by simp [fillTries]⟩
  | succ tries ih =>
      obtain ⟨script, eofSource⟩ := readSource_plain plain.script
      have source := readSource_source br
      have err := readSource_err br
      unfold fillTries
      generalize br.readSource = read at script eofSource source err
      obtain ⟨⟨data, readErr⟩, br'⟩ := read
      dsimp only at script eofSource source err ⊢
      cases readErr with
      | some e =>
          refine ⟨script, fun eof => ?_⟩
          cases eof
          exact eofSource rfl
      | none =>
          have grown : Plain { br' with buffered := br'.buffered ++ data } := by
            refine ⟨script, fun eof => ?_⟩
            have drained := plain.drained (err ▸ eof)
            rw [← source] at drained
            exact (List.append_eq_nil.mp drained).2
          dsimp only
          split_ifs
          exacts [ih grown, grown]

theorem plain_peekLoop (n fuel : Nat) {br : BufReader} (plain : br.Plain) : (br.peekLoop n fuel).Plain := by
  induction fuel generalizing br with
  | zero => exact plain
  | succ fuel ih =>
      unfold peekLoop
      split_ifs
      exacts [ih (plain_fillTries 100 plain), plain]

/-- `Peek` over a plain reader keeps it plain, and returns `io.EOF` only once
the reader has delivered everything. -/
theorem plain_peek (n : Nat) {br : BufReader} (plain : br.Plain) :
    (br.peek n).2.Plain ∧ ((br.peek n).1.2 = some .eof → (br.peek n).2.source = []) := by
  have loop := plain_peekLoop n n plain
  unfold peek
  generalize br.peekLoop n n = br' at loop
  dsimp only
  split_ifs
  · exact ⟨loop, by simp⟩
  · refine ⟨⟨loop.script, by simp⟩, fun eof => loop.drained ?_⟩
    cases found : br'.err with
    | none => simp [found] at eof
    | some e => simpa [found] using eof
  · exact ⟨loop, by simp⟩

/-! ### `Discard` -/

/-- `Discard(n)` of at most the buffered bytes drops them from the buffer. -/
theorem discard_of_le {n : Nat} {br : BufReader} (within : n ≤ br.buffered.length) :
    br.discard n = { br with buffered := br.buffered.drop n } := by
  unfold discard
  split_ifs with zero
  · simp [zero]
  · obtain ⟨fuel, rfl⟩ : ∃ fuel, n = fuel + 1 := ⟨n - 1, by omega⟩
    have nonempty : br.buffered ≠ [] := by
      intro empty; simp [empty] at within
    simp [discardLoop, nonempty, Nat.min_eq_right within]

end BufReader

end SnapdAsserts
