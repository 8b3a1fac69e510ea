import SnapdAsserts.Stream.Complete

/-!
# What a rebuffering keeps and what it loses

When `peek` asks for more than `d.b` can hold, `Decode` replaces `d.b` by a
larger `bufio.Reader` over the bytes `d.b` buffered, followed by `d.rd`.
Over a plain reader that keeps the unread bytes; over a `*bufio.Reader` that
`NewDecoder` took as `d.b`, `d.rd` is that same reader, which still holds
the buffered bytes, and they come twice (`Decoder.rebuffer_unread`).  An
error the reader gave `d.b` and `Peek` did not yet report stays in the old
buffer: after the rebuffering, the decoder reads on as over a reader that
never failed (`Decoder.peek_forgets_pending_error`).
-/

namespace SnapdAsserts
namespace Decoder

/-- A rebuffering keeps the unread bytes of a decoder over a plain reader,
and puts the buffered bytes in front a second time when `d.b` is the
caller's `*bufio.Reader`. -/
theorem rebuffer_unread {d : Decoder} (bounded : d.b.buffered.length ≤ d.b.size) (pending : d.b.pending = [])
    (size : Nat) :
    ∃ d', d.rebuffer size = .ok d' ∧ d'.unread = (if d.aliased then d.b.buffered else []) ++ d.unread := by
  refine ⟨_, rebuffer_of_bounded size bounded, ?_⟩
  cases aliased : d.aliased <;>
    simp [unread, rd, aliased, newReaderSize, BufReader.stream, BufReader.source, Reader.stream, pending]

/-- A caller's `*bufio.Reader` holding `"ab"` over a reader with `"cd"` left:
the rebuffered decoder reads `"ab"` twice. -/
theorem rebuffer_unread_aliased :
    (newDecoder (.bufio 4096 (ascii "ab") none (.script [⟨ascii "cd", some .eof⟩]))).unread = ascii "abcd" ∧
      ∃ d', (newDecoder (.bufio 4096 (ascii "ab") none (.script [⟨ascii "cd", some .eof⟩]))).rebuffer 8192 = .ok d' ∧
        d'.unread = ascii "ababcd" := by
  obtain ⟨d', rebuffered, unread⟩ := @rebuffer_unread
    (newDecoder (.bufio 4096 (ascii "ab") none (.script [⟨ascii "cd", some .eof⟩]))) (by decide) rfl 8192
  exact ⟨by decide, d', rebuffered, by rw [unread]; decide⟩

/-- On a settled decoder whose buffer holds an error of the reader that
`Peek` has not reported yet, a `peek` beyond the buffer returns what a clean
reader gives, and leaves a clean decoder: the error is gone. -/
theorem peek_forgets_pending_error {d : Decoder} (settled : d.Settled) {e : IoError} (pendingErr : d.b.err = some e)
    {size : Nat} (over : d.b.size < size)
    (rest : ∀ results, d.b.rd = .script results → CleanScript results) (unreported : d.err = none) :
    ∃ d', d.peek size =
        .ok ((d.unread.take size, if size ≤ d.unread.length then none else some .eof), d') ∧ d'.Clean := by
  have first : d.b.peek size = ((d.b.buffered, some .bufferFull), d.b) := by
    unfold BufReader.peek
    rw [BufReader.peekLoop_of_not (by simp [pendingErr])]
    simp [over]
  generalize hS : (size / d.initialBufSize + 1) * d.initialBufSize = S
  have bigger : size < S := by
    rw [← hS, Nat.add_mul, one_mul]
    exact Nat.lt_div_mul_add d.initialBufSize_pos
  have clean₂ : (newReaderSize d.b.buffered d.b.rd S).Clean :=
    ⟨⟨settled.plain.script, by simp [newReaderSize]⟩, rest, .inl rfl⟩
  have stream : (newReaderSize d.b.buffered d.b.rd S).stream = d.unread := by
    simp [newReaderSize, unread, BufReader.stream, BufReader.source, settled.pending_nil]
  have fits : size ≤ (newReaderSize d.b.buffered d.b.rd S).size := by simp [newReaderSize]; omega
  obtain ⟨buf, err, d', peeked, peeks⟩ := peek_settled settled size
  have computed := peeked
  rw [peek_of_full (by rw [first]) (by rw [first]; exact settled.bounded)] at computed
  simp only [first, rd, settled.not_aliased, Bool.false_eq_true, if_false, hS, BufReader.peek_clean clean₂ fits,
    stream, noteErr_err, unreported, Option.none_or, Except.ok.injEq, Prod.mk.injEq] at computed
  obtain ⟨⟨rfl, rfl⟩, rfl⟩ := computed
  refine ⟨_, peeked, peeks.settled, by simpa using BufReader.clean_peek size clean₂, ?_⟩
  simp only [noteErr_err, unreported, Option.none_or]
  split_ifs
  exacts [.inl rfl, .inr rfl]

/-- A reader that fails after its first two bytes: `peek(1)` leaves the
failure pending in `d.b`, and `peek(5000)` rebuffers, reads on and returns
`io.EOF` as if the reader had not failed. -/
theorem peek_forgets_pending_error_twoReads :
    ∃ d₁ d', (newDecoder (.script [⟨ascii "ab", some (.other 1)⟩, ⟨ascii "cd", some .eof⟩])).peek 1 =
        .ok ((ascii "a", none), d₁) ∧ d₁.b.err = some (.other 1) ∧
      d₁.peek 5000 = .ok ((ascii "abcd", some .eof), d') ∧ d'.Clean := by
  have first : ∃ d₁, (newDecoder (.script [⟨ascii "ab", some (.other 1)⟩, ⟨ascii "cd", some .eof⟩])).peek 1 =
      .ok ((ascii "a", none), d₁) ∧ d₁.Settled ∧ d₁.b.err = some (.other 1) ∧ d₁.b.size = 4096 ∧
      d₁.b.rd = .script [⟨ascii "cd", some .eof⟩] ∧ d₁.err = none ∧ d₁.unread = ascii "abcd" :=
    ⟨_, rfl, ⟨rfl, rfl, by decide, ⟨⟨_, rfl⟩, by decide⟩, by decide⟩, rfl, rfl, rfl, rfl, by decide⟩
  obtain ⟨d₁, peeked₁, settled, pendingErr, size, rd, unreported, unread⟩ := first
  obtain ⟨d', peeked, clean⟩ := @peek_forgets_pending_error d₁ settled (.other 1) pendingErr 5000
    (by rw [size]; decide) (fun _ same => by rw [rd] at same; cases same; unfold CleanScript; decide) unreported
  exact ⟨d₁, d', peeked₁, pendingErr, by rw [peeked, unread]; rfl, clean⟩

end Decoder

end SnapdAsserts
