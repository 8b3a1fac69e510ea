import SnapdAsserts.Stream.Decoder

/-!
# What the decoder consumes

`Decoder.unread` is what the decoder has still to decode: the bytes `d.b`
has buffered and those it will still read.  On a decoder over a plain reader
(`Settled`), `peek` never panics, keeps the unread bytes and returns a prefix
of them, also across a rebuffering (`peek_settled`); `readExact` and
`readUntil` consume what they return, and `readUntil` stops right after the
first `"\n\n"`, or returns all that is left without one on an error
(`readUntil_settled`).  From these, `decode_settled` says what a successful
`Decode` returns and consumes.
-/

namespace SnapdAsserts
namespace Decoder

/-- The bytes the decoder has still to decode: what `d.b` has buffered and
what it will still read. -/
def unread (d : Decoder) : Bytes := d.b.stream

/-- The settings, which no read changes. -/
def settings (d : Decoder) : Nat × Nat × Nat × Nat :=
  (d.initialBufSize, d.maxHeadersSize, d.maxBodySize, d.maxSigSize)

/-- A decoder over a plain reader between two reads: `d.b` is not the
caller's reader, it has taken in what its `bytes.Buffer` held, its buffer is
within its size, and once `d.err` is `io.EOF` the reader has delivered
everything. -/
structure Settled (d : Decoder) : Prop where
  not_aliased : d.aliased = false
  pending_nil : d.b.pending = []
  bounded : d.b.buffered.length ≤ d.b.size
  plain : d.b.Plain
  drained : d.err = some .eof → d.b.source = []

@[simp]
theorem noteErr_b (d : Decoder) (err : Option IoError) : (d.noteErr err).b = d.b := by
  unfold noteErr; split_ifs <;> rfl

@[simp]
theorem noteErr_aliased (d : Decoder) (err : Option IoError) : (d.noteErr err).aliased = d.aliased := by
  unfold noteErr; split_ifs <;> rfl

@[simp]
theorem noteErr_settings (d : Decoder) (err : Option IoError) : (d.noteErr err).settings = d.settings := by
  unfold noteErr; split_ifs <;> rfl

@[simp]
theorem noteErr_err (d : Decoder) (err : Option IoError) : (d.noteErr err).err = d.err.or err := by
  unfold noteErr
  cases known : d.err <;> cases err <;> simp [known]

theorem peek_of_ne {d : Decoder} {size : Nat} (notFull : (d.b.peek size).1.2 ≠ some .bufferFull) :
    d.peek size = .ok (((d.b.peek size).1.1,
      ({ d with b := (d.b.peek size).2 }.noteErr (d.b.peek size).1.2).err),
      { d with b := (d.b.peek size).2 }.noteErr (d.b.peek size).1.2) := by
  simp [peek, notFull]
  rfl

theorem rebuffer_of_bounded {d : Decoder} (size : Nat) (bounded : d.b.buffered.length ≤ d.b.size) :
    d.rebuffer size = .ok { d with
      b := newReaderSize d.b.buffered d.rd ((size / d.initialBufSize + 1) * d.initialBufSize)
      aliased := false } := by
  simp [rebuffer, BufReader.peek_buffered bounded]

theorem peek_of_full {d : Decoder} {size : Nat} (full : (d.b.peek size).1.2 = some .bufferFull)
    (bounded : (d.b.peek size).2.buffered.length ≤ (d.b.peek size).2.size) :
    let d₁ := { d with b := (d.b.peek size).2 }
    let b₂ := newReaderSize d₁.b.buffered d₁.rd ((size / d.initialBufSize + 1) * d.initialBufSize)
    let d₂ := { d₁ with b := (b₂.peek size).2, aliased := false }
    d.peek size = .ok (((b₂.peek size).1.1, (d₂.noteErr (b₂.peek size).1.2).err), d₂.noteErr (b₂.peek size).1.2) := by
  simp [peek, full, @rebuffer_of_bounded { d with b := (d.b.peek size).2 } size bounded]

/-- What `peek(size)` returns and leaves on a settled decoder: the same
unread bytes, a prefix of them returned, all that is buffered when it is
short of `size`, and the first error seen. -/
structure Peeks (d : Decoder) (size : Nat) (buf : Bytes) (err : Option IoError) (d' : Decoder) : Prop where
  settled : d'.Settled
  settings : d'.settings = d.settings
  unread : d'.unread = d.unread
  prefix_buffered : buf <+: d'.b.buffered
  keeps : min size d.b.buffered.length ≤ buf.length
  short : buf.length < size → err.isSome ∧ buf = d'.b.buffered
  full : err = none → buf.length = size
  at_most : buf.length ≤ size
  err_eq : d'.err = err
  sticky : d.err.isSome → err = d.err

/-- What `peek` returns is a prefix of the unread bytes. -/
theorem Peeks.prefix_unread {d d' : Decoder} {size : Nat} {buf : Bytes} {err : Option IoError}
    (peeks : Peeks d size buf err d') : buf <+: d.unread := by
  rw [← peeks.unread]
  exact peeks.prefix_buffered.trans (List.prefix_append _ _)

theorem peeks_of {d : Decoder} (settled : d.Settled) {size : Nat} {start b' : BufReader} {buf : Bytes}
    {e : Option IoError} (peeked : start.Peeked size buf e b') (startBounded : start.buffered.length ≤ start.size)
    (plain : b'.Plain)
    (eofSource : e = some .eof → b'.source = []) (pending : b'.pending = [])
    (bounded : b'.buffered.length ≤ b'.size) (stream : b'.stream = d.b.stream)
    (grows : d.b.buffered <+: b'.buffered) :
    Peeks d size buf ({ d with b := b', aliased := false }.noteErr e).err
      ({ d with b := b', aliased := false }.noteErr e) := by
  refine ⟨⟨by simp, by simpa using pending, by simpa using bounded, by simpa using plain, ?_⟩,
    by rw [noteErr_settings]; rfl, by simpa [unread] using stream, by simpa using peeked.prefix_buffered, ?_,
    ?_, ?_, peeked.at_most startBounded, rfl, ?_⟩
  · intro eof
    simp only [noteErr_b, noteErr_err] at eof ⊢
    cases known : d.err with
    | some first =>
        simp only [known, Option.or] at eof
        exact BufReader.source_nil_of_prefix stream grows (settled.drained (known.trans eof))
    | none =>
        simp only [known, Option.or] at eof
        exact eofSource eof
  · by_cases long : size ≤ buf.length
    · omega
    · have := (peeked.short (by omega)).2 ▸ grows.length_le
      omega
  · intro less
    obtain ⟨failed, all⟩ := peeked.short less
    refine ⟨?_, by simpa using all⟩
    cases d.err <;> simp_all
  · intro none
    cases known : d.err <;> simp_all [peeked.full]
  · intro known
    obtain ⟨first, found⟩ := Option.isSome_iff_exists.mp known
    simp [found]

/-- The new buffer of a rebuffering takes in, on its first read, all that the
old one held. -/
theorem rebuffered_peek {rebuf : Bytes} {rd : Reader} {size S : Nat} (positive : 0 < size)
    (fits : rebuf.length < S) :
    rebuf <+: ((newReaderSize rebuf rd S).peek size).2.buffered ∧
      ((newReaderSize rebuf rd S).peek size).2.pending = [] := by
  obtain ⟨rounds, rfl⟩ : ∃ rounds, size = rounds + 1 := ⟨size - 1, by omega⟩
  have running : (newReaderSize rebuf rd S).buffered.length < rounds + 1 ∧
      (newReaderSize rebuf rd S).buffered.length < (newReaderSize rebuf rd S).size ∧
      (newReaderSize rebuf rd S).err = none := by
    simp [newReaderSize]
  have first : (newReaderSize rebuf rd S).peekLoop (rounds + 1) (rounds + 1) =
      (newReaderSize rebuf rd S).fill.peekLoop (rounds + 1) rounds := by
    rw [BufReader.peekLoop, if_pos running]
  have fits' : (newReaderSize rebuf rd S).pending.length ≤
      (newReaderSize rebuf rd S).size - (newReaderSize rebuf rd S).buffered.length := by
    simp only [newReaderSize, List.length_nil]; omega
  have taken : rebuf <+: (newReaderSize rebuf rd S).fill.buffered := by
    simpa [newReaderSize] using BufReader.fill_buffered_pending fits'
  rw [BufReader.peek_buffered_eq, BufReader.peek_pending, first]
  exact ⟨taken.trans (BufReader.grows_peekLoop _ _ _).buffered,
    BufReader.peekLoop_pending_nil _ _ (BufReader.fill_pending fits')⟩

/-- `peek` on a settled decoder never panics, and does what `Peeks` says. -/
theorem peek_settled {d : Decoder} (settled : d.Settled) (size : Nat) :
    ∃ buf err d', d.peek size = .ok ((buf, err), d') ∧ Peeks d size buf err d' := by
  have peeked := BufReader.peeked_peek size d.b
  obtain ⟨plain, eofSource⟩ := BufReader.plain_peek size settled.plain
  have pending : (d.b.peek size).2.pending = [] := by
    rw [BufReader.peek_pending]
    exact BufReader.peekLoop_pending_nil _ _ settled.pending_nil
  have bounded : (d.b.peek size).2.buffered.length ≤ (d.b.peek size).2.size := by
    have := peeked.grows.bounded
    have := peeked.grows.size
    have := settled.bounded
    omega
  by_cases full : (d.b.peek size).1.2 = some .bufferFull
  · have short : (d.b.peek size).1.1.length < size := peeked.failed settled.bounded (by simp [full])
    have all := (peeked.short short).2
    rw [peek_of_full full bounded]
    refine ⟨_, _, _, rfl, ?_⟩
    have rd : ({ d with b := (d.b.peek size).2 } : Decoder).rd = (d.b.peek size).2.rd := by
      simp [rd, settled.not_aliased]
    simp only [rd]
    generalize hS : (size / d.initialBufSize + 1) * d.initialBufSize = S
    have bigger : size < S := by
      rw [← hS, Nat.add_mul, one_mul]
      exact Nat.lt_div_mul_add d.initialBufSize_pos
    generalize (d.b.peek size).2 = b₀ at pending bounded all plain peeked
    have ⟨grows, pendingFinal⟩ := @rebuffered_peek b₀.buffered b₀.rd size S (by omega)
      (by rw [← all]; omega)
    have plain₂ : (newReaderSize b₀.buffered b₀.rd S).Plain := ⟨plain.script, by simp [newReaderSize]⟩
    have peeked₂ := BufReader.peeked_peek size (newReaderSize b₀.buffered b₀.rd S)
    obtain ⟨plainFinal, eofFinal⟩ := BufReader.plain_peek size plain₂
    refine peeks_of settled peeked₂ (by simp [newReaderSize]) plainFinal eofFinal pendingFinal ?_ ?_
      (peeked.grows.buffered.trans grows)
    · have bound := peeked₂.grows.bounded
      rw [peeked₂.grows.size]
      simpa [newReaderSize] using bound
    · rw [peeked₂.grows.stream, ← peeked.grows.stream]
      simp [BufReader.stream, BufReader.source, newReaderSize, pending]
  · rw [peek_of_ne full]
    refine ⟨_, _, _, rfl, ?_⟩
    have same : ({ d with b := (d.b.peek size).2 } : Decoder) =
        { d with b := (d.b.peek size).2, aliased := false } := by
      have := settled.not_aliased
      cases d
      subst this
      rfl
    rw [same]
    exact peeks_of settled peeked settled.bounded plain eofSource pending bounded peeked.grows.stream
      peeked.grows.buffered

theorem discard_settled {d : Decoder} (settled : d.Settled) {n : Nat} (within : n ≤ d.b.buffered.length) :
    (d.discard n).Settled ∧ (d.discard n).settings = d.settings ∧ (d.discard n).err = d.err ∧
      (d.discard n).b.buffered = d.b.buffered.drop n ∧
      d.unread = d.b.buffered.take n ++ (d.discard n).unread := by
  have eq : d.discard n = { d with b := { d.b with buffered := d.b.buffered.drop n } } := by
    simp [discard, BufReader.discard_of_le within]
  rw [eq]
  refine ⟨⟨settled.not_aliased, settled.pending_nil, ?_, ⟨settled.plain.script, settled.plain.drained⟩,
    settled.drained⟩, rfl, rfl, rfl, ?_⟩
  · simp only [List.length_drop]
    have := settled.bounded
    omega
  · show d.b.buffered ++ d.b.source = _ ++ (_ ++ d.b.source)
    rw [← List.append_assoc, List.take_append_drop]

/-! ## `readUntil` -/

/-- No `"\n\n"` starts in `s` before position `last`. -/
def SepFree (s : Bytes) (last : Nat) : Prop := ∀ j < last, ¬nlnl <+: s.drop j

/-- Where `readUntil` with `"\n\n"` stops: right after the first `"\n\n"`. -/
def EndsAtFirstSep (buf : Bytes) : Prop :=
  ∃ head, buf = head ++ nlnl ∧ index buf nlnl = some head.length

theorem prefix_drop {front whole : Bytes} (window : front <+: whole) (n : Nat) :
    front.drop n <+: whole.drop n := by
  rw [List.prefix_iff_eq_take.mp window, List.drop_take]
  exact List.take_prefix _ _

/-- A window of the unread bytes with no `"\n\n"` from `last` on, and none
before `last` in the unread bytes, holds none at all. -/
theorem not_sep_of_index_none {buf unread : Bytes} {last : Nat} (window : buf <+: unread)
    (free : SepFree unread last) (none : index (buf.drop last) nlnl = none) : ¬nlnl <:+: buf := by
  rw [infix_iff_exists_prefix_drop]
  rintro ⟨j, found⟩
  by_cases before : j < last
  · exact free j before (found.trans (prefix_drop window j))
  · refine index_eq_none_iff.mp none (j - last) ?_
    rwa [List.drop_drop, Nat.add_sub_cancel' (by omega)]

/-- Then the unread bytes hold no `"\n\n"` that starts early enough to end
inside the window. -/
theorem sepFree_window {buf unread : Bytes} {last : Nat} (window : buf <+: unread)
    (free : SepFree unread last) (none : index (buf.drop last) nlnl = none) :
    SepFree unread (buf.length - 1) := by
  intro j early found
  refine not_sep_of_index_none window free none (infix_iff_exists_prefix_drop.mpr ⟨j, ?_⟩)
  exact List.prefix_of_prefix_length_le found (prefix_drop window j) (by simp [nlnl]; omega)

/-- A `"\n\n"` found from `last` on, with none before `last`, is the first one. -/
theorem endsAtFirstSep_take {buf unread : Bytes} {last i : Nat} (window : buf <+: unread)
    (free : SepFree unread last) (found : index (buf.drop last) nlnl = some i) :
    last + i + 2 ≤ buf.length ∧ EndsAtFirstSep (buf.take (last + i + 2)) := by
  obtain ⟨at_i, before_i⟩ := index_eq_some_iff.mp found
  rw [List.drop_drop] at at_i
  have fits : last + i + 2 ≤ buf.length := by
    have := at_i.length_le
    simp [nlnl] at this
    omega
  have split : buf.take (last + i + 2) = buf.take (last + i) ++ nlnl := by
    rw [List.take_add, List.prefix_iff_eq_take.mp at_i]
    rfl
  refine ⟨fits, buf.take (last + i), split, ?_⟩
  rw [index_eq_some_iff, List.length_take, Nat.min_eq_left (by omega)]
  refine ⟨by rw [split, List.drop_left' (by simp; omega)], fun j early sep => ?_⟩
  have inBuf : nlnl <+: buf.drop j := sep.trans (prefix_drop (List.take_prefix _ _) j)
  by_cases before : j < last
  · exact free j before (inBuf.trans (prefix_drop window j))
  · refine before_i (j - last) (by omega) ?_
    rwa [List.drop_drop, Nat.add_sub_cancel' (by omega)]

theorem take_of_prefix {buf whole : Bytes} (window : buf <+: whole) {k : Nat} (within : k ≤ buf.length) :
    whole.take k = buf.take k := by
  rw [List.prefix_iff_eq_take.mp window, List.take_take, Nat.min_eq_left within]

/-- What `readUntil(nlnl, _)` returns and leaves on a settled decoder: a
prefix of the unread bytes, which it consumes; it ends at the first
`"\n\n"` when there is no error, and on a read error it holds no `"\n\n"`
and is all that was buffered. -/
structure ReadsUntil (d : Decoder) (buf : Bytes) (err : Option ReadError) (d' : Decoder) : Prop where
  settled : d'.Settled
  settings : d'.settings = d.settings
  unread : d.unread = buf ++ d'.unread
  found : err = none → EndsAtFirstSep buf
  failed : ∀ e, err = some (.io e) → ¬nlnl <:+: buf ∧ d'.err = some e ∧ d'.b.buffered = []

theorem ReadsUntil.after_peek {d d₁ d' : Decoder} {buf : Bytes} {err : Option ReadError}
    (reads : ReadsUntil d₁ buf err d') (settings : d₁.settings = d.settings) (unread : d₁.unread = d.unread) :
    ReadsUntil d buf err d' :=
  ⟨reads.settled, reads.settings.trans settings, unread ▸ reads.unread, reads.found, reads.failed⟩

/-- After a window of `size` bytes without `"\n\n"`, `readUntil` resumes the
search at the window's last byte. -/
theorem nextLast_eq {size : Nat} (positive : 0 < size) :
    (size : Int) - (nlnl.length : Int) + 1 = ((size - 1 : Nat) : Int) := by
  rw [length_nlnl]
  omega

/-- The loop of `readUntil(nlnl, maxSize)` on a settled decoder never panics
and does what `ReadsUntil` says, from any window whose search start lies in
the buffer and after which no `"\n\n"` starts. -/
theorem readUntilLoop_settled (maxSize size : Nat) (positive : 0 < size) (last : Nat) (d : Decoder)
    (settled : d.Settled) (within : last ≤ d.b.buffered.length) (below : last ≤ size)
    (free : SepFree d.unread last) :
    ∃ buf err d', readUntilLoop nlnl maxSize last size positive d = .ok ((buf, err), d') ∧
      ReadsUntil d buf err d' := by
  induction' hk : maxSize + 1 - size using Nat.strong_induction_on with k ih
    generalizing size last d
  obtain ⟨buf, err, d₁, peeked, peeks⟩ := peek_settled settled size
  have window := peeks.prefix_unread
  have keeps := peeks.keeps
  rw [readUntilLoop, peeked]
  dsimp only
  rw [if_neg (by omega), Int.toNat_natCast]
  cases found : index (buf.drop last) nlnl with
  | some i =>
      obtain ⟨fits, ends⟩ := endsAtFirstSep_take window free found
      obtain ⟨settled₂, settings₂, -, -, unread₂⟩ :=
        discard_settled peeks.settled (fits.trans peeks.prefix_buffered.length_le)
      refine ⟨_, _, _, rfl, settled₂, settings₂.trans peeks.settings, ?_, fun _ => ends, fun _ h => by cases h⟩
      rw [← peeks.unread, unread₂, take_of_prefix peeks.prefix_buffered fits]
      rfl
  | none =>
      dsimp only
      split_ifs with stop tooLarge
      · have all : buf = d₁.b.buffered := peeks.prefix_buffered.eq_of_length stop.2
        obtain ⟨settled₂, settings₂, err₂, buffered₂, unread₂⟩ := discard_settled peeks.settled stop.2.le
        refine ⟨_, _, _, rfl, settled₂, settings₂.trans peeks.settings, ?_, fun none => ?_, fun e failed => ?_⟩
        · rw [← peeks.unread, unread₂, take_of_prefix peeks.prefix_buffered le_rfl, List.take_length]
        · rw [Option.map_eq_none'] at none
          simp [none] at stop
        · obtain ⟨e', rfl, same⟩ := Option.map_eq_some'.mp failed
          cases same
          refine ⟨not_sep_of_index_none window free found, by rw [err₂, peeks.err_eq], ?_⟩
          rw [buffered₂, stop.2, List.drop_length]
      · refine ⟨_, _, _, rfl, peeks.settled, peeks.settings, ?_, ?_, ?_⟩
        · rw [peeks.unread]; rfl
        · intro h; cases h
        · intro _ h; cases h
      · have full : buf.length = size := by
          by_contra shorter
          have := peeks.at_most
          obtain ⟨failed, all⟩ := peeks.short (by omega)
          exact stop ⟨failed, congrArg List.length all⟩
        have free₁ : SepFree d₁.unread (size - 1) := by
          rw [peeks.unread, ← full]
          exact sepFree_window window free found
        rw [nextLast_eq positive]
        obtain ⟨buf', err', d', run, reads⟩ := ih _ (by omega) (2 * size) (by omega) (size - 1) d₁
          peeks.settled (by rw [← full]; have := peeks.prefix_buffered.length_le; omega) (by omega) free₁ rfl
        exact ⟨buf', err', d', run, reads.after_peek peeks.settings peeks.unread⟩


/-- `readUntil(nlnl, maxSize)` on a settled decoder never panics and does
what `ReadsUntil` says. -/
theorem readUntil_settled {d : Decoder} (settled : d.Settled) (maxSize : Nat) :
    ∃ buf err d', d.readUntil nlnl maxSize = .ok ((buf, err), d') ∧ ReadsUntil d buf err d' :=
  readUntilLoop_settled maxSize _ _ 0 d settled (Nat.zero_le _) (Nat.zero_le _) (fun _ none => absurd none (by omega))

/-- `readExact(size)` on a settled decoder never panics, and consumes what it
returns, `size` bytes when it reports no error. -/
theorem readExact_settled {d : Decoder} (settled : d.Settled) (size : Nat) :
    ∃ buf err d', d.readExact size = .ok ((buf, err), d') ∧ d'.Settled ∧ d'.settings = d.settings ∧
      d.unread = buf ++ d'.unread ∧ (err = none → buf.length = size) ∧ err ≠ some .eof := by
  obtain ⟨buf, e, d₁, peeked, peeks⟩ := peek_settled settled size
  obtain ⟨settled₂, settings₂, -, -, unread₂⟩ := discard_settled peeks.settled peeks.prefix_buffered.length_le
  have consumed : d.unread = buf ++ (d₁.discard buf.length).unread := by
    rw [← peeks.unread, unread₂, take_of_prefix peeks.prefix_buffered le_rfl, List.take_length]
  simp only [readExact, peeked, Except.map]
  split_ifs with exact eof
  · exact ⟨_, _, _, rfl, settled₂, settings₂.trans peeks.settings, consumed, fun _ => exact, by simp⟩
  · exact ⟨_, _, _, rfl, settled₂, settings₂.trans peeks.settings, consumed, (fun h => by cases h), by simp⟩
  · exact ⟨_, _, _, rfl, settled₂, settings₂.trans peeks.settings, consumed, peeks.full, eof⟩

/-! ## Signatures -/

theorem not_sep_of_first {head : Bytes} (first : index (head ++ nlnl) nlnl = some head.length) :
    ¬nlnl <:+: head ∧ head.getLast? ≠ some 10 := by
  obtain ⟨-, before⟩ := index_eq_some_iff.mp first
  refine ⟨fun inside => ?_, fun last => ?_⟩
  · obtain ⟨j, found⟩ := infix_iff_exists_prefix_drop.mp inside
    have short := found.length_le
    simp only [nlnl, List.length_drop, List.length_cons, List.length_nil] at short
    exact before j (by omega) (found.trans (by rw [List.drop_append_of_le_length (by omega)]; exact List.prefix_append _ _))
  · have nonempty : head ≠ [] := by rintro rfl; simp at last
    obtain ⟨front, x, rfl⟩ : ∃ front x, head = front ++ [x] :=
      ⟨head.dropLast, head.getLast nonempty, (List.dropLast_append_getLast nonempty).symm⟩
    simp only [List.getLast?_append, List.getLast?_singleton, Option.or, Option.some.injEq] at last
    subst last
    exact before front.length (by simp) (by simp [nlnl])

/-- A signature read up to its first `"\\n\\n"` keeps all but the last
newline, and what it keeps holds no `"\\n\\n"`. -/
theorem normalizeSig_of_first {sig : Bytes} (ends : EndsAtFirstSep sig) :
    sig = normalizeSig sig ++ nl ∧ ¬nlnl <:+: normalizeSig sig := by
  obtain ⟨head, rfl, first⟩ := ends
  have kept : normalizeSig (head ++ nlnl) = head ++ nl := by
    simp [normalizeSig, nlnl, nl, List.dropLast_append_of_ne_nil]
  obtain ⟨noSep, lastNe⟩ := not_sep_of_first first
  refine ⟨by rw [kept]; simp [nlnl, nl], ?_⟩
  rw [kept]
  intro inside
  obtain ⟨j, found⟩ := infix_iff_exists_prefix_drop.mp inside
  have short := found.length_le
  simp only [nlnl, nl, List.length_drop, List.length_append, List.length_cons, List.length_nil] at short
  by_cases inHead : j + 2 ≤ head.length
  · exact noSep (infix_iff_exists_prefix_drop.mpr ⟨j, List.prefix_of_prefix_length_le found
      (by rw [List.drop_append_of_le_length (by omega)]; exact List.prefix_append _ _) (by simp [nlnl]; omega)⟩)
  · have nonempty : head ≠ [] := by rintro rfl; simp at short; omega
    obtain ⟨front, x, rfl⟩ : ∃ front x, head = front ++ [x] :=
      ⟨head.dropLast, head.getLast nonempty, (List.dropLast_append_getLast nonempty).symm⟩
    have : j = front.length := by simp at short inHead; omega
    subst this
    simp [nlnl, nl] at found
    exact lastNe (by simp [found])

theorem normalizeSig_of_not_sep {sig : Bytes} (noSep : ¬nlnl <:+: sig) : normalizeSig sig = sig := by
  have : ¬nlnl <:+ sig := fun suffix => noSep suffix.isInfix
  simp [normalizeSig, List.isSuffixOf_iff_suffix, this]

theorem filter_ne_eof_eq_none {err : Option ReadError} :
    err.filter (· != .io .eof) = none ↔ err = none ∨ err = some (.io .eof) := by
  cases err with
  | none => simp
  | some e => by_cases eof : e = .io .eof <;> simp [Option.filter, eof]

/-- A read that ends a signature: what the decoder keeps holds no `"\\n\\n"`,
and the read took it and one newline more, or it and all that was left. -/
theorem ReadsUntil.signature {d d' : Decoder} {sig : Bytes} {err : Option ReadError}
    (reads : ReadsUntil d sig err d') (ok : err.filter (· != .io .eof) = none) :
    ¬nlnl <:+: normalizeSig sig ∧
      (d.unread = normalizeSig sig ++ nl ++ d'.unread ∨ (d.unread = normalizeSig sig ∧ d'.unread = [])) := by
  rcases filter_ne_eof_eq_none.mp ok with rfl | rfl
  · obtain ⟨kept, noSep⟩ := normalizeSig_of_first (reads.found rfl)
    exact ⟨noSep, .inl (by rw [reads.unread, ← kept])⟩
  · obtain ⟨noSep, eof, empty⟩ := reads.failed .eof rfl
    have drained := reads.settled.drained eof
    rw [normalizeSig_of_not_sep noSep]
    refine ⟨noSep, .inr ?_⟩
    have nothing : d'.unread = [] := by
      show d'.b.buffered ++ d'.b.source = []
      rw [empty, drained]; rfl
    exact ⟨by rw [reads.unread, nothing, List.append_nil], nothing⟩

/-! ## `Decode` -/

theorem finishDecode_eq_ok [Assemblers] {headers : Headers} {length : Int} {content : Bytes} {headLen : Nat} {sig : Bytes}
    {assert : AssertionBase} (finished : finishDecode headers length content headLen sig = .ok (.ok assert)) :
    assemble headers (if 0 < length then content.drop (headLen + 2) else []) content (normalizeSig sig) =
      .ok assert := by
  unfold finishDecode at finished
  split_ifs at finished ⊢ <;> simp_all [nlnl]

theorem decodeSignature_eq_ok [Assemblers] {d d' : Decoder} {headers : Headers} {length : Int} {content : Bytes}
    {headLen : Nat} {endOfBody : Bytes} {assert : AssertionBase} (settled : d.Settled)
    (decoded : d.decodeSignature headers length content headLen endOfBody = .ok (.ok assert, d')) :
    (endOfBody = nlnl ∧ ∃ sig err, ReadsUntil d sig err d' ∧ err.filter (· != .io .eof) = none ∧
        finishDecode headers length content headLen sig = .ok (.ok assert)) ∨
      (endOfBody ≠ nlnl ∧ ¬0 < length ∧ d' = d ∧
        finishDecode headers length (content.take headLen) headLen endOfBody = .ok (.ok assert)) := by
  unfold decodeSignature at decoded
  by_cases sep : endOfBody = nlnl
  · rw [if_pos sep] at decoded
    obtain ⟨sig, err, d₁, read, reads⟩ := readUntil_settled settled d.maxSigSize
    rw [read] at decoded
    dsimp only at decoded
    cases ok : err.filter (· != .io .eof) with
    | some e => simp [ok] at decoded
    | none =>
        cases finished : finishDecode headers length content headLen sig with
        | error p => simp [ok, finished, Except.map] at decoded
        | ok result =>
            simp only [ok, finished, Except.map] at decoded
            obtain ⟨rfl, rfl⟩ := (Prod.mk.injEq _ _ _ _).mp (Except.ok.inj decoded)
            exact .inl ⟨sep, sig, err, reads, ok, finished⟩
  · rw [if_neg sep] at decoded
    by_cases positive : 0 < length
    · rw [if_pos positive] at decoded
      cases decoded
    · rw [if_neg positive] at decoded
      by_cases short : content.length < headLen
      · rw [if_pos short] at decoded
        cases decoded
      · rw [if_neg short] at decoded
        cases finished : finishDecode headers length (content.take headLen) headLen endOfBody with
        | error p => simp [finished, Except.map] at decoded
        | ok result =>
            simp only [finished, Except.map] at decoded
            obtain ⟨rfl, rfl⟩ := (Prod.mk.injEq _ _ _ _).mp (Except.ok.inj decoded)
            exact .inr ⟨sep, positive, rfl, rfl⟩

theorem decodeTrailer_eq_ok [Assemblers] {d d' : Decoder} {headers : Headers} {length : Int} {content : Bytes}
    {headLen : Nat} {assert : AssertionBase} (settled : d.Settled)
    (decoded : d.decodeTrailer headers length content headLen = .ok (.ok assert, d')) :
    ∃ endOfBody err d₁, ReadsUntil d endOfBody err d₁ ∧ err.filter (· != .io .eof) = none ∧
      d₁.decodeSignature headers length content headLen endOfBody = .ok (.ok assert, d') := by
  obtain ⟨endOfBody, err, d₁, read, reads⟩ := readUntil_settled settled d.maxSigSize
  rw [decodeTrailer, read] at decoded
  dsimp only at decoded
  cases ok : err.filter (· != .io .eof) with
  | some e => simp [ok] at decoded
  | none =>
      rw [ok] at decoded
      exact ⟨endOfBody, err, d₁, reads, ok, decoded⟩

theorem decodeBody_eq_ok [Assemblers] {d d' : Decoder} {headers : Headers} {length : Int} {headAndSep : Bytes}
    {headLen : Nat} {assert : AssertionBase} (settled : d.Settled)
    (decoded : d.decodeBody headers length headAndSep headLen = .ok (.ok assert, d')) :
    ∃ (body : Bytes) (d₁ : Decoder), d₁.Settled ∧ d₁.settings = d.settings ∧ d.unread = body ++ d₁.unread ∧
      (0 < length → body.length = length) ∧ (¬0 < length → body = []) ∧
      d₁.decodeTrailer headers length (headAndSep ++ body) headLen = .ok (.ok assert, d') := by
  unfold decodeBody at decoded
  split_ifs at decoded with positive
  · obtain ⟨body, err, d₁, read, settled₁, settings₁, unread₁, full, -⟩ := readExact_settled settled length.toNat
    rw [read] at decoded
    cases err with
    | some e => cases decoded
    | none =>
        refine ⟨body, d₁, settled₁, settings₁, unread₁, fun _ => ?_, fun h => absurd positive h, decoded⟩
        rw [full rfl]
        omega
  · exact ⟨[], d, settled, rfl, rfl, fun h => absurd h positive, fun _ => rfl, by simpa using decoded⟩

/-- What a `Decode` call that returns an assertion did before the body:
read a header block and its `"\n\n"`, parse it, and check the body length
against the cap.  This holds over every reader and in every state. -/
theorem decode_eq_ok_ok [Assemblers] {d d' : Decoder} {assert : AssertionBase} (decoded : d.decode = .ok (.ok assert, d')) :
    ∃ headAndSep d₁ headers length, d.readUntil nlnl d.maxHeadersSize = .ok ((headAndSep, none), d₁) ∧
      nlnl.length ≤ headAndSep.length ∧
      parseHeaders (headAndSep.take (headAndSep.length - nlnl.length)) = .ok headers ∧
      checkInteger headers (ascii "body-length") 0 = .ok length ∧ length ≤ d₁.maxBodySize ∧
      d₁.decodeBody headers length headAndSep (headAndSep.length - nlnl.length) = .ok (.ok assert, d') := by
  unfold decode at decoded
  cases read : d.readUntil nlnl d.maxHeadersSize with
  | error p => simp [read] at decoded
  | ok step =>
  obtain ⟨⟨headAndSep, err⟩, d₁⟩ := step
  cases err with
  | some e => simp [read] at decoded
  | none =>
  simp only [read, length_nlnl] at decoded ⊢
  split_ifs at decoded with short
  cases parsed : parseHeaders (headAndSep.take (headAndSep.length - 2)) with
  | error e => simp [parsed] at decoded
  | ok headers =>
  simp only [parsed] at decoded
  cases lengthOk : checkInteger headers (ascii "body-length") 0 with
  | error e => simp [lengthOk] at decoded
  | ok length =>
  simp only [lengthOk] at decoded
  split_ifs at decoded with tooBig
  · cases decoded
  · exact ⟨headAndSep, d₁, headers, length, rfl, by omega, parsed, lengthOk, by omega, decoded⟩

/-- What a successful `Decode` on a settled decoder returns and consumes: an
assertion whose headers and body are those of the header block and body of
its content, as `Assemble` checks them, and whose signature holds no
`"\n\n"`; the decoder consumed its encoding and then one newline, or all
that was left. -/
structure Decodes [Assemblers] (d : Decoder) (assert : AssertionBase) (d' : Decoder) : Prop where
  settled : d'.Settled
  settings : d'.settings = d.settings
  headers : parseHeaders (splitContent assert.content).1 = .ok assert.headers
  body : assert.body = (splitContent assert.content).2
  assembled : assemble assert.headers assert.body assert.content assert.signature = .ok assert
  no_sep : ¬nlnl <:+: assert.signature
  consumed : d.unread = encode assert ++ nl ++ d'.unread ∨ (d.unread = encode assert ∧ d'.unread = [])

theorem decode_settled [Assemblers] {d d' : Decoder} {assert : AssertionBase} (settled : d.Settled)
    (decoded : d.decode = .ok (.ok assert, d')) : Decodes d assert d' := by
  obtain ⟨headAndSep, d₁, headers, length, read, -, parsed, -, -, decoded⟩ := decode_eq_ok_ok decoded
  obtain ⟨headAndSep', err, d₁', read', reads⟩ := readUntil_settled settled d.maxHeadersSize
  rw [read, Except.ok.injEq, Prod.mk.injEq, Prod.mk.injEq] at read'
  obtain ⟨⟨rfl, rfl⟩, rfl⟩ := read'
  obtain ⟨head, rfl, first⟩ := reads.found rfl
  obtain ⟨noSepHead, lastNe⟩ := not_sep_of_first first
  have headLen : (head ++ nlnl).length - nlnl.length = head.length := by simp
  rw [headLen, List.take_left' rfl] at parsed
  rw [headLen] at decoded
  obtain ⟨body, dₜ, settledₜ, settingsₜ, unreadₜ, bodyLength, bodyNil, trailer⟩ :=
    decodeBody_eq_ok reads.settled decoded
  obtain ⟨endOfBody, errₜ, dₛ, readsₜ, okₜ, signature⟩ := decodeTrailer_eq_ok settledₜ trailer
  rcases decodeSignature_eq_ok readsₜ.settled signature with
    ⟨sep, sig, errₛ, readsₛ, okₛ, finished⟩ | ⟨sep, notPositive, rfl, finished⟩
  · have finalBody : (if 0 < length then (head ++ nlnl ++ body).drop (head.length + 2) else []) = body := by
      split_ifs with positive
      · simp [nlnl]
      · exact (bodyNil positive).symm
    have assembled := finishDecode_eq_ok finished
    rw [finalBody] at assembled
    obtain ⟨revision, -, rfl, -⟩ := assemble_eq_ok_iff.mp assembled
    obtain ⟨noSepSig, consumedSig⟩ := readsₛ.signature okₛ
    have split := splitContent_block_append noSepHead lastNe body
    refine ⟨readsₛ.settled, ?_, by rw [split]; exact parsed, by rw [split], assembled, noSepSig, ?_⟩
    · rw [readsₛ.settings, readsₜ.settings, settingsₜ, reads.settings]
    · have trailerRead := readsₜ.unread
      rw [sep] at trailerRead
      rw [reads.unread, unreadₜ, trailerRead]
      rcases consumedSig with tail | ⟨tail, rest⟩
      · exact .inl (by rw [tail]; simp [encode])
      · exact .inr ⟨by rw [tail]; simp [encode], rest⟩
  · have body_nil := bodyNil notPositive
    subst body_nil
    have assembled := finishDecode_eq_ok finished
    simp only [notPositive, if_false, List.append_nil, List.take_left' rfl] at assembled
    obtain ⟨revision, -, rfl, -⟩ := assemble_eq_ok_iff.mp assembled
    obtain ⟨noSepSig, consumedSig⟩ := readsₜ.signature okₜ
    have split := splitContent_block noSepHead
    refine ⟨readsₜ.settled, ?_, by rw [split]; exact parsed, by rw [split], assembled, noSepSig, ?_⟩
    · rw [readsₜ.settings, settingsₜ, reads.settings]
    · rw [reads.unread, unreadₜ]
      rcases consumedSig with tail | ⟨tail, rest⟩
      · exact .inl (by rw [tail]; simp [encode])
      · exact .inr ⟨by rw [tail]; simp [encode], rest⟩


theorem pair_ok_inj {α : Type} {a a' : α} {d d' : Decoder}
    (same : (Except.ok (a, d) : Except Panic (α × Decoder)) = .ok (a', d')) : d' = d :=
  ((Prod.mk.injEq _ _ _ _).mp (Except.ok.inj same)).2.symm

theorem map_pair_ok {α : Type} {x : Except Panic α} {a : α} {d d' : Decoder}
    (same : x.map (·, d) = .ok (a, d')) : d' = d := by
  cases x with
  | error p => cases same
  | ok v => exact pair_ok_inj same

/-- Whatever it returns, a `Decode` that does not panic leaves a settled
decoder settled. -/
theorem decodeSignature_keeps [Assemblers] {d d' : Decoder} {headers : Headers} {length : Int} {content : Bytes}
    {headLen : Nat} {endOfBody : Bytes} {result : Except StreamError AssertionBase} (settled : d.Settled)
    (decoded : d.decodeSignature headers length content headLen endOfBody = .ok (result, d')) : d'.Settled := by
  unfold decodeSignature at decoded
  split_ifs at decoded
  · obtain ⟨sig, err, d₁, read, reads⟩ := readUntil_settled settled d.maxSigSize
    rw [read] at decoded
    dsimp only at decoded
    split at decoded
    · exact pair_ok_inj decoded ▸ reads.settled
    · exact map_pair_ok decoded ▸ reads.settled
  · exact pair_ok_inj decoded ▸ settled
  · exact map_pair_ok decoded ▸ settled

theorem decodeTrailer_keeps [Assemblers] {d d' : Decoder} {headers : Headers} {length : Int} {content : Bytes}
    {headLen : Nat} {result : Except StreamError AssertionBase} (settled : d.Settled)
    (decoded : d.decodeTrailer headers length content headLen = .ok (result, d')) : d'.Settled := by
  obtain ⟨endOfBody, err, d₁, read, reads⟩ := readUntil_settled settled d.maxSigSize
  rw [decodeTrailer, read] at decoded
  dsimp only at decoded
  split at decoded
  · exact pair_ok_inj decoded ▸ reads.settled
  · exact decodeSignature_keeps reads.settled decoded

theorem decodeBody_keeps [Assemblers] {d d' : Decoder} {headers : Headers} {length : Int} {headAndSep : Bytes}
    {headLen : Nat} {result : Except StreamError AssertionBase} (settled : d.Settled)
    (decoded : d.decodeBody headers length headAndSep headLen = .ok (result, d')) : d'.Settled := by
  unfold decodeBody at decoded
  split_ifs at decoded
  · obtain ⟨body, err, d₁, read, settled₁, -⟩ := readExact_settled settled length.toNat
    rw [read] at decoded
    cases err with
    | some e => exact pair_ok_inj decoded ▸ settled₁
    | none => exact decodeTrailer_keeps settled₁ decoded
  · exact decodeTrailer_keeps settled decoded

theorem decode_keeps [Assemblers] {d d' : Decoder} {result : Except StreamError AssertionBase} (settled : d.Settled)
    (decoded : d.decode = .ok (result, d')) : d'.Settled := by
  obtain ⟨headAndSep, err, d₁, read, reads⟩ := readUntil_settled settled d.maxHeadersSize
  rw [decode, read] at decoded
  cases err with
  | some e =>
      dsimp only at decoded
      exact pair_ok_inj decoded ▸ reads.settled
  | none =>
      dsimp only at decoded
      by_cases short : headAndSep.length < nlnl.length
      · rw [if_pos short] at decoded
        cases decoded
      rw [if_neg short] at decoded
      split at decoded
      · exact pair_ok_inj decoded ▸ reads.settled
      split at decoded
      · exact pair_ok_inj decoded ▸ reads.settled
      rename_i length _
      by_cases tooBig : (d₁.maxBodySize : Int) < length
      · rw [if_pos tooBig] at decoded
        exact pair_ok_inj decoded ▸ reads.settled
      rw [if_neg tooBig] at decoded
      by_cases negative : (headAndSep.length : Int) + length < 0
      · rw [if_pos negative] at decoded
        cases decoded
      rw [if_neg negative] at decoded
      exact decodeBody_keeps reads.settled decoded

theorem settled_newDecoder (results : List ReadResult) : (newDecoder (.script results)).Settled :=
  ⟨rfl, rfl, by simp [newDecoder, initBuffer, newReaderSize], ⟨⟨results, rfl⟩, by simp [newDecoder, initBuffer, newReaderSize]⟩,
    by simp [newDecoder]⟩

@[simp]
theorem unread_newDecoder (results : List ReadResult) :
    (newDecoder (.script results)).unread = scriptStream results := by
  simp [newDecoder, initBuffer, newReaderSize, unread, BufReader.stream, BufReader.source, Reader.stream]

/-- Every assertion that successive `Decode` calls on a settled decoder
return comes out of one `Decode` call on a settled decoder. -/
theorem decodeN_settled [Assemblers] {n : Nat} {d d' : Decoder} {results : List (Except StreamError AssertionBase)}
    (settled : d.Settled) (run : d.decodeN n = .ok (results, d')) :
    d'.Settled ∧ ∀ assert, .ok assert ∈ results → ∃ e e', e.Settled ∧ Decodes e assert e' := by
  induction n generalizing d results with
  | zero =>
      cases run
      exact ⟨settled, by simp⟩
  | succ n ih =>
      unfold decodeN at run
      split at run
      · cases run
      · rename_i result d₁ decoded
        cases rest : d₁.decodeN n with
        | error p => simp [rest, Except.map] at run
        | ok later =>
            obtain ⟨others, d₂⟩ := later
            simp only [rest, Except.map, Except.ok.injEq, Prod.mk.injEq] at run
            obtain ⟨rfl, rfl⟩ := run
            have settled₁ := decode_keeps settled decoded
            obtain ⟨settled₂, each⟩ := ih settled₁ rest
            refine ⟨settled₂, fun assert found => ?_⟩
            rcases List.mem_cons.mp found with here | there
            · subst here
              exact ⟨d, d₁, settled, decode_settled settled decoded⟩
            · exact each assert there

end Decoder
end SnapdAsserts
