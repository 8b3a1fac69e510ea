import SnapdAsserts.Stream.Caps
import SnapdAsserts.Stream.RoundTrip

/-!
# What a run of `Decode` calls keeps

A program reads a stream by calling `Decode` until it returns an error.
Over any number of calls, whatever each of them returns, two things hold.

The decoder's memory stays bounded.  `peek` replaces `d.b` by a larger
`bufio.Reader` only for a request beyond its buffer, and every request of a
`Decode` call is within the largest cap, so the buffer never grows past
`(cap/initialBufSize+1)*initialBufSize` bytes for that cap, whatever the
reader delivers (`Decoder.decodeN_bounded`).

On a plain reader no byte is used twice.  Every call leaves a suffix of the
unread bytes, and every assertion returned has used up its own encoding, so
the encodings of the assertions of a run, one after the other, are a
sublist of the bytes that were unread (`Decoder.decodeN_consumes`).  A
loop over a finite stream therefore stops.
-/

namespace SnapdAsserts
namespace Decoder

/-! ## The decoder's buffer -/

/-- The largest buffer `peek` makes for a request of at most `cap` bytes:
`(size/d.initialBufSize+1)*d.initialBufSize` at `size = cap`, and no less
than `bufio`'s smallest buffer. -/
def bufferBound (cap initialBufSize : Nat) : Nat :=
  max ((cap / initialBufSize + 1) * initialBufSize) 16

/-- The buffer a decoder may grow to, for requests up to its largest cap. -/
def largestBuffer (d : Decoder) : Nat :=
  bufferBound (max d.maxHeadersSize (max d.maxBodySize d.maxSigSize)) d.initialBufSize

/-- A decoder whose `bufio.Reader` holds no more than its buffer, of at most
`bound` bytes. -/
structure Bounded (bound : Nat) (d : Decoder) : Prop where
  buffered : d.b.buffered.length ≤ d.b.size
  size : d.b.size ≤ bound

section
variable {cap : Nat} {d d' : Decoder}

/-- A `peek` of at most `cap` bytes keeps the buffer within the bound for
`cap`: it keeps the buffer, or replaces it by one of
`(size/d.initialBufSize+1)*d.initialBufSize` bytes. -/
theorem peek_bounded {size : Nat} {result : Bytes × Option IoError} (within : size ≤ cap)
    (bounded : Bounded (bufferBound cap d.initialBufSize) d) (peeked : d.peek size = .ok (result, d')) :
    Bounded (bufferBound cap d.initialBufSize) d' := by
  have first := BufReader.peek_bounded size bounded.buffered
  by_cases full : (d.b.peek size).1.2 = some .bufferFull
  · rw [peek_of_full full first] at peeked
    obtain ⟨-, rfl⟩ := Prod.mk.inj (Except.ok.inj peeked)
    have grown : (size / d.initialBufSize + 1) * d.initialBufSize ≤ (cap / d.initialBufSize + 1) * d.initialBufSize :=
      Nat.mul_le_mul_right _ (Nat.succ_le_succ (Nat.div_le_div_right within))
    refine ⟨?_, ?_⟩ <;> rw [noteErr_b]
    · exact BufReader.peek_bounded size (by simp [newReaderSize])
    · rw [BufReader.peek_size]
      exact max_le_max grown le_rfl
  · rw [peek_of_ne full] at peeked
    obtain ⟨-, rfl⟩ := Prod.mk.inj (Except.ok.inj peeked)
    exact ⟨by simpa using first, by simpa using bounded.size⟩

theorem discard_bounded {bound n : Nat} (within : n ≤ d.b.buffered.length) (bounded : Bounded bound d) :
    Bounded bound (d.discard n) := by
  have kept := bounded.buffered
  simp only [discard, BufReader.discard_of_le within]
  exact ⟨by simp only [List.length_drop]; omega, bounded.size⟩

/-- A run of `peek`s within `cap` keeps the buffer within the bound for
`cap`. -/
theorem Run.bounded {initialBufSize : Nat} (run : Run (· ≤ cap) d d') (initial : d.initialBufSize = initialBufSize)
    (bounded : Bounded (bufferBound cap initialBufSize) d) : Bounded (bufferBound cap initialBufSize) d' := by
  induction run with
  | refl => exact bounded
  | peek within peeked _ ih =>
      subst initial
      exact ih (settings_eq_iff.mp (peek_settings peeked)).1 (peek_bounded within bounded peeked)
  | discard within _ ih => exact ih initial (discard_bounded within bounded)

end

/-- The memory a decoder holds stays bounded over any number of `Decode`
calls, whatever each returns and whatever the reader delivers: when
`initialBufSize` is within the largest cap and the buffer starts within
`largestBuffer` (2 MiB and 4 KiB for `NewDecoder`), it never grows past it. -/
theorem decodeN_bounded [Assemblers] {n : Nat} {d d' : Decoder} {results : List (Except StreamError AssertionBase)}
    (initial : d.initialBufSize ≤ max d.maxHeadersSize (max d.maxBodySize d.maxSigSize))
    (bounded : Bounded d.largestBuffer d) (run : d.decodeN n = .ok (results, d')) :
    Bounded d.largestBuffer d' := by
  induction n generalizing d results with
  | zero => cases run; exact bounded
  | succ n ih =>
      obtain ⟨result, d₁, rest, decoded, run₁, -⟩ := decodeN_succ_eq_ok.mp run
      have calls := decode_run (d := d) ⟨initial, by omega, by omega, by omega⟩ decoded
      obtain ⟨initial₁, headers₁, body₁, signature₁⟩ := settings_eq_iff.mp calls.settings
      have same : d₁.largestBuffer = d.largestBuffer := by
        rw [largestBuffer, largestBuffer, initial₁, headers₁, body₁, signature₁]
      rw [← same]
      exact ih (by rw [initial₁, headers₁, body₁, signature₁]; exact initial) (same ▸ calls.bounded rfl bounded) run₁

/-- A fresh decoder over an `account` assertion, within 2 MiB and 4 KiB
after the call that returns it. -/
theorem decodeN_bounded_account :
    letI : Assemblers := acceptAll
    ∃ results d', (newDecoder (.script [⟨framed (accountAssert (ascii "sig")), some .eof⟩])).decodeN 1 =
      .ok (results, d') ∧ Bounded (2 * 1024 * 1024 + 4096) d' := by
  letI : Assemblers := acceptAll
  obtain ⟨d', run⟩ := @decodeN_accountFramed (ascii "sig") (by decide) (by decide) (by decide)
  exact ⟨_, d', run, decodeN_bounded (by decide) ⟨by decide, by decide⟩ run⟩

/-! ## No byte used twice -/

/-- A run of `peek`s and discards on a settled decoder keeps it settled
and leaves a suffix of its unread bytes. -/
theorem Run.settled_suffix {fits : Nat → Prop} {d d' : Decoder} (run : Run fits d d') (settled : d.Settled) :
    d'.Settled ∧ d'.unread <:+ d.unread :=
  run.preserves (P := fun e => e.Settled ∧ e.unread <:+ d.unread)
    (fun ⟨settled₁, suffix⟩ peeked => by
      obtain ⟨_, _, _, peeked', peeks⟩ := peek_settled settled₁ _
      rw [peeked] at peeked'
      obtain ⟨-, rfl⟩ := Prod.mk.inj (Except.ok.inj peeked')
      exact ⟨peeks.settled, peeks.unread ▸ suffix⟩)
    (fun ⟨settled₁, suffix⟩ within => by
      obtain ⟨settled₂, -, -, -, unread₂⟩ := discard_settled settled₁ within
      rw [unread₂] at suffix
      exact ⟨settled₂, (List.suffix_append _ _).trans suffix⟩)
    ⟨settled, List.suffix_refl _⟩

/-- Every `Decode` call on a settled decoder, whatever it returns, leaves a
suffix of the unread bytes. -/
theorem decode_suffix [Assemblers] {d d' : Decoder} {result : Except StreamError AssertionBase} (settled : d.Settled)
    (decoded : d.decode = .ok (result, d')) : d'.unread <:+ d.unread :=
  ((decode_trace decoded).run.settled_suffix settled).2

/-- An assertion `Decode` returns has used up its encoding. -/
theorem decode_uses [Assemblers] {d d' : Decoder} {assert : AssertionBase} (settled : d.Settled)
    (decoded : d.decode = .ok (.ok assert, d')) : List.Sublist (encode assert ++ d'.unread) d.unread := by
  rcases (decode_settled settled decoded).consumed with consumed | ⟨consumed, empty⟩
  · rw [consumed, List.append_assoc]
    exact (List.sublist_append_right nl d'.unread).append_left (encode assert)
  · rw [consumed, empty, List.append_nil]

/-- No byte of a plain reader's stream is used twice: over any run of
`Decode` calls from a settled decoder, errors included, the encodings of the
assertions returned, in the order returned, followed by what is left unread,
form a sublist of the bytes that were unread.  Every assertion uses up at
least its `"\n\n"`, so a loop over a finite stream stops. -/
theorem decodeN_consumes [Assemblers] {n : Nat} {d d' : Decoder} {results : List (Except StreamError AssertionBase)}
    (settled : d.Settled) (run : d.decodeN n = .ok (results, d')) :
    List.Sublist ((results.filterMap Except.toOption).flatMap encode ++ d'.unread) d.unread := by
  induction n generalizing d results with
  | zero => cases run; exact List.Sublist.refl _
  | succ n ih =>
      obtain ⟨result, d₁, rest, decoded, run₁, rfl⟩ := decodeN_succ_eq_ok.mp run
      have later := ih (decode_keeps settled decoded) run₁
      cases result with
      | error err => simpa [Except.toOption] using later.trans (decode_suffix settled decoded).sublist
      | ok assert =>
          simpa [Except.toOption, List.append_assoc] using (later.append_left (encode assert)).trans
            (decode_uses settled decoded)

/-- The call that returns an `account` assertion uses up its encoding. -/
theorem decodeN_consumes_account :
    letI : Assemblers := acceptAll
    ∃ results d', (newDecoder (.script [⟨framed (accountAssert (ascii "sig")), some .eof⟩])).decodeN 1 =
      .ok (results, d') ∧ List.Sublist ((results.filterMap Except.toOption).flatMap encode ++ d'.unread)
        (framed (accountAssert (ascii "sig"))) := by
  letI : Assemblers := acceptAll
  obtain ⟨d', run⟩ := @decodeN_accountFramed (ascii "sig") (by decide) (by decide) (by decide)
  have uses := decodeN_consumes (settled_newDecoder _) run
  rw [unread_newDecoder] at uses
  exact ⟨_, d', run, by simpa [scriptStream] using uses⟩

end Decoder
end SnapdAsserts
