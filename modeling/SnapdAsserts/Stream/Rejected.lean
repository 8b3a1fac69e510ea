import SnapdAsserts.Stream.Agreement
import SnapdAsserts.Stream.Chunking
import SnapdAsserts.Assertion.Errors

/-!
# What `Decode` rejects

`Decode` reads the bytes up to the first `"\n\n"` as the header block, parses
it and checks its `body-length` before it reads further.  On a plain reader,
in any chunking and from any state, an error it reports up to that point says
what is true of the stream and where it leaves the decoder
(`Decoder.decode_rejects`):

* a header block that does not fit is reported with nothing consumed, so a
  loop that goes on after errors calls `Decode` on the same bytes again;
* a read error drops the bytes read before it, which hold no `"\n\n"`;
* a header block that does not parse, has a `body-length` that is no
  integer, or declares a body over the cap, is the text before the first
  `"\n\n"`, and is consumed with it: the next call starts inside the rejected
  assertion.

Every other error is true of the stream too (`Decoder.decode_rejects_after`):
`io.EOF` only where nothing is left, `io.ErrUnexpectedEOF` where the stream
ends inside a header block or a body is short, a trailer or signature read
that failed past its window budget or at a read error, "missing
content/signature separator" only where the body is not followed by
`"\n\n"`, and an error of `Assemble` only on the headers of the block.

A header block that does not fit leaves a clean decoder as it found it
(`SameStream`), so from then on every call reports the same error
(`Decoder.decodeN_maxSizeExceeded`).
-/

namespace SnapdAsserts

namespace StreamError

/-- The errors `Decode` reports before it reads past the header block. -/
def beforeBody : StreamError → Bool
  | readingHeaders _ | parsingHeaders _ | assertion _ | bodyTooLarge _ => true
  | _ => false

/-- What an error reported before the body says of the bytes `unread` before
the call, and of the bytes `rest` it leaves unread. -/
def Rejects (maxBodySize : Nat) (unread rest : Bytes) : StreamError → Prop
  | readingHeaders (.maxSizeExceeded _) => rest = unread
  | readingHeaders (.io _) => ∃ seen, unread = seen ++ rest ∧ ¬nlnl <:+: seen
  | parsingHeaders err => ∃ head, unread = head ++ nlnl ++ rest ∧ ¬nlnl <:+: head ∧ parseHeaders head = .error err
  | assertion err => ∃ head headers, unread = head ++ nlnl ++ rest ∧ ¬nlnl <:+: head ∧
      parseHeaders head = .ok headers ∧ Reports headers (ascii "body-length") err
  | bodyTooLarge length => ∃ head headers, unread = head ++ nlnl ++ rest ∧ ¬nlnl <:+: head ∧
      parseHeaders head = .ok headers ∧ checkInteger headers (ascii "body-length") 0 = .ok length ∧
      (maxBodySize : Int) < length
  | _ => False

/-- The bytes `unread` start with a header block, up to the first `"\n\n"`,
that parses to `headers` and has a `body-length` of `length` within the cap,
and go on with `after`. -/
def HeaderBlock (maxBodySize : Nat) (unread : Bytes) (headers : Headers) (length : Int) (after : Bytes) : Prop :=
  ∃ head, unread = head ++ nlnl ++ after ∧ ¬nlnl <:+: head ∧ parseHeaders head = .ok headers ∧
    checkInteger headers (ascii "body-length") 0 = .ok length ∧ length ≤ maxBodySize

/-- How a `readUntil(nlnl, maxSize)` that reports an error ended, having
consumed `seen`: past its window budget with nothing consumed, or at a read
error other than `io.EOF`, with no `"\n\n"` in what it read. -/
def ReadFailed (err : ReadError) (seen : Bytes) : Prop :=
  (∃ delim, err = .maxSizeExceeded delim) ∧ seen = [] ∨ ∃ e, err = .io e ∧ e ≠ .eof ∧ ¬nlnl <:+: seen

/-- What an error reported by `Decode` other than those before the body says
of the bytes `unread` before the call and `rest` after it. -/
def RejectsAfter [Assemblers] (maxBodySize : Nat) (unread rest : Bytes) : StreamError → Prop
  | io err => err = .eof ∧ unread = [] ∧ rest = [] ∨
      err = .unexpectedEOF ∧ unread ≠ [] ∧ ¬nlnl <:+: unread ∧ rest = [] ∨
      err ≠ .eof ∧ ∃ headers length body, HeaderBlock maxBodySize unread headers length (body ++ rest) ∧
        body.length < length.toNat
  | readingTrailer err => ∃ headers length body seen,
      HeaderBlock maxBodySize unread headers length (body ++ seen ++ rest) ∧ body.length = length.toNat ∧
        ReadFailed err seen
  | readingSignature err => ∃ headers length body seen,
      HeaderBlock maxBodySize unread headers length (body ++ nlnl ++ seen ++ rest) ∧ body.length = length.toNat ∧
        ReadFailed err seen
  | missingSeparator => ∃ headers length body trailer,
      HeaderBlock maxBodySize unread headers length (body ++ trailer ++ rest) ∧ 0 < length ∧
        body.length = length.toNat ∧ ¬nlnl <+: trailer ++ rest
  | assemble err => ∃ headers length after, HeaderBlock maxBodySize unread headers length after ∧
      ∃ body content sig, SnapdAsserts.assemble headers body content sig = .error err
  | _ => False

end StreamError

namespace Decoder

/-- `readUntil`'s loop gives up past `maxSize` with nothing read. -/
theorem readUntilLoop_maxSizeExceeded {maxSize size : Nat} {positive : 0 < size} {last : Int} {d d' : Decoder}
    {buf delim : Bytes}
    (read : readUntilLoop nlnl maxSize last size positive d = .ok ((buf, some (.maxSizeExceeded delim)), d')) :
    buf = [] := by
  induction' hk : maxSize + 1 - size using Nat.strong_induction_on with k ih generalizing size last d
  rw [readUntilLoop] at read
  cases peeked : d.peek size with
  | error p => simp [peeked] at read
  | ok step =>
  obtain ⟨⟨buf₁, err₁⟩, d₁⟩ := step
  simp only [peeked] at read
  by_cases bad : last < 0 ∨ buf₁.length < last
  · simp [bad] at read
  rw [if_neg bad] at read
  cases found : index (buf₁.drop last.toNat) nlnl with
  | some i => simp [found] at read
  | none =>
      simp only [found] at read
      split_ifs at read with stop tooLarge
      · simp at read
      · exact (Prod.mk.inj (Prod.mk.inj (Except.ok.inj read)).1).1.symm
      · exact ih _ (by omega) read rfl

/-! ## Errors after the header block -/

section
variable {headers : Headers} {length : Int} {content : Bytes} {headLen : Nat} {e : StreamError} {d d' : Decoder}

theorem finishDecode_beforeBody [Assemblers] {sig : Bytes} (finished : finishDecode headers length content headLen sig = .ok (.error e)) :
    e.beforeBody = false := by
  unfold finishDecode at finished
  split_ifs at finished <;>
    (obtain ⟨_, -, rfl⟩ := except_mapError_eq_error.mp (Except.ok.inj finished); rfl)

theorem decodeSignature_beforeBody [Assemblers] {endOfBody : Bytes}
    (decoded : d.decodeSignature headers length content headLen endOfBody = .ok (.error e, d')) :
    e.beforeBody = false := by
  unfold decodeSignature at decoded
  split_ifs at decoded
  · split at decoded
    · cases decoded
    · split at decoded
      · cases decoded; rfl
      · exact finishDecode_beforeBody (map_pair_eq_ok_iff.mp decoded).1
  · cases decoded; rfl
  · exact finishDecode_beforeBody (map_pair_eq_ok_iff.mp decoded).1

theorem decodeTrailer_beforeBody [Assemblers] (decoded : d.decodeTrailer headers length content headLen = .ok (.error e, d')) :
    e.beforeBody = false := by
  unfold decodeTrailer at decoded
  split at decoded
  · cases decoded
  · split at decoded
    · cases decoded; rfl
    · exact decodeSignature_beforeBody decoded

theorem decodeBody_beforeBody [Assemblers] (decoded : d.decodeBody headers length content headLen = .ok (.error e, d')) :
    e.beforeBody = false := by
  unfold decodeBody at decoded
  split_ifs at decoded
  · split at decoded
    · cases decoded
    · cases decoded; rfl
    · exact decodeTrailer_beforeBody decoded
  · exact decodeTrailer_beforeBody decoded

end

/-- On a plain reader, every error `Decode` reports before the body is true
of the stream, and leaves unread what `StreamError.Rejects` says: all of it
for a header block that does not fit, what follows the bytes read for a read
error, and what follows the header block's `"\n\n"` for a header block it
rejects. -/
theorem decode_rejects [Assemblers] {d d' : Decoder} {e : StreamError} (settled : d.Settled)
    (decoded : d.decode = .ok (.error e, d')) (before : e.beforeBody) :
    e.Rejects d.maxBodySize d.unread d'.unread := by
  obtain ⟨headAndSep, err, d₁, read, reads⟩ := readUntil_settled settled d.maxHeadersSize
  rw [decode, read] at decoded
  cases err with
  | some err =>
      simp only [Except.ok.injEq, Prod.mk.injEq] at decoded
      obtain ⟨reported, rfl⟩ := decoded
      cases err with
      | io failure =>
          by_cases eof : failure = .eof
          · subst eof
            simp only [if_true, Except.error.injEq] at reported
            subst reported
            simp [StreamError.beforeBody] at before
          · simp only [ReadError.io.injEq, eof, if_false, Except.error.injEq] at reported
            subst reported
            exact ⟨headAndSep, reads.unread, (reads.failed failure rfl).1⟩
      | maxSizeExceeded delim =>
          simp only [reduceCtorEq, if_false, Except.error.injEq] at reported
          subst reported
          show d₁.unread = d.unread
          rw [reads.unread, readUntilLoop_maxSizeExceeded read, List.nil_append]
  | none =>
      obtain ⟨head, rfl, first⟩ := reads.found rfl
      obtain ⟨noSep, -⟩ := not_sep_of_first first
      have unread : d.unread = head ++ nlnl ++ d₁.unread := reads.unread
      have sizes : d₁.maxBodySize = d.maxBodySize := congrArg (fun s => s.2.2.1) reads.settings
      dsimp only at decoded
      rw [if_neg (by simp), show (head ++ nlnl).length - nlnl.length = head.length by simp,
        List.take_left' rfl] at decoded
      cases parsed : parseHeaders head with
      | error failure =>
          rw [parsed] at decoded
          obtain ⟨rfl, rfl⟩ := Prod.mk.inj (Except.ok.inj decoded) |>.imp Except.error.inj id
          exact ⟨head, unread, noSep, parsed⟩
      | ok headers =>
          rw [parsed] at decoded
          dsimp only at decoded
          cases lengthOk : checkInteger headers (ascii "body-length") 0 with
          | error failure =>
              rw [lengthOk] at decoded
              obtain ⟨rfl, rfl⟩ := Prod.mk.inj (Except.ok.inj decoded) |>.imp Except.error.inj id
              exact ⟨head, headers, unread, noSep, parsed, checkInteger_error lengthOk⟩
          | ok length =>
              rw [lengthOk] at decoded
              dsimp only at decoded
              split_ifs at decoded with tooBig negative
              · obtain ⟨rfl, rfl⟩ := Prod.mk.inj (Except.ok.inj decoded) |>.imp Except.error.inj id
                exact ⟨head, headers, unread, noSep, parsed, lengthOk, sizes ▸ tooBig⟩
              · rw [decodeBody_beforeBody decoded] at before
                cases before

/-- A header block with a capitalised name is rejected, and consumed. -/
theorem decode_rejects_capital :
    letI : Assemblers := acceptAll
    ∃ d', (newDecoder (.script [⟨ascii "Type: x" ++ nlnl, some .eof⟩])).decode =
        .ok (.error (.parsingHeaders (.invalidName (ascii "Type"))), d') ∧
      (StreamError.parsingHeaders (.invalidName (ascii "Type"))).Rejects SnapdAsserts.maxBodySize (ascii "Type: x" ++ nlnl)
        d'.unread := by
  letI : Assemblers := acceptAll
  obtain ⟨d₁, read⟩ : ∃ d₁, (newDecoder (.script [⟨ascii "Type: x" ++ nlnl, some .eof⟩])).readUntil nlnl
      (newDecoder (.script [⟨ascii "Type: x" ++ nlnl, some .eof⟩])).maxHeadersSize =
        .ok ((ascii "Type: x" ++ nlnl, none), d₁) := ⟨_, by rw [readUntil, readUntilLoop]; rfl⟩
  have decoded : (newDecoder (.script [⟨ascii "Type: x" ++ nlnl, some .eof⟩])).decode =
      .ok (.error (.parsingHeaders (.invalidName (ascii "Type"))), d₁) := by
    rw [decode, read]
    dsimp only
    rw [if_neg (by decide),
      show (ascii "Type: x" ++ nlnl).take ((ascii "Type: x" ++ nlnl).length - nlnl.length) = ascii "Type: x" by
        decide,
      parseHeaders, if_pos (by decide), show (ascii "Type: x").splitOn 10 = [ascii "Type: x"] by decide,
      @parseEntries_invalidName (ascii "Type: x") _ _ 4 (by decide) (by decide)]
    rfl
  have rejects := decode_rejects (settled_newDecoder _) decoded rfl
  rw [unread_newDecoder] at rejects
  exact ⟨d₁, decoded, by simpa [scriptStream] using rejects⟩

/-! ## Errors after the header block -/

/-- A read that ends at `io.EOF` took all that was left, with no `"\n\n"`
in it. -/
theorem ReadsUntil.eof {d d' : Decoder} {buf : Bytes} (reads : ReadsUntil d buf (some (.io .eof)) d') :
    ¬nlnl <:+: buf ∧ d.unread = buf ∧ d'.unread = [] := by
  obtain ⟨noSep, eof, empty⟩ := reads.failed .eof rfl
  have nothing : d'.unread = [] := by
    show d'.b.buffered ++ d'.b.source = []
    rw [empty, reads.settled.drained eof]
    rfl
  exact ⟨noSep, by rw [reads.unread, nothing, List.append_nil], nothing⟩

theorem filter_ne_eof_eq_some {err : Option ReadError} {failure : ReadError}
    (kept : err.filter (· != .io .eof) = some failure) : err = some failure ∧ failure ≠ .io .eof := by
  cases err with
  | none => cases kept
  | some e => by_cases eof : e = .io .eof <;> simp_all [Option.filter]

/-- A `readUntil(nlnl, maxSize)` that reports an error other than `io.EOF`
failed as `ReadFailed` says. -/
theorem readUntil_failed {d d' : Decoder} {maxSize : Nat} {buf : Bytes} {err : ReadError}
    (read : d.readUntil nlnl maxSize = .ok ((buf, some err), d')) (reads : ReadsUntil d buf (some err) d')
    (notEof : err ≠ .io .eof) : StreamError.ReadFailed err buf := by
  cases err with
  | io e => exact .inr ⟨e, rfl, fun eof => notEof (eof ▸ rfl), (reads.failed e rfl).1⟩
  | maxSizeExceeded delim => exact .inl ⟨⟨delim, rfl⟩, readUntilLoop_maxSizeExceeded read⟩

/-- A `readExact(size)` that reports an error consumed fewer than `size`
bytes, and the error is not `io.EOF`. -/
theorem readExact_short {d d' : Decoder} (settled : d.Settled) {size : Nat} {buf : Bytes} {e : IoError}
    (read : d.readExact size = .ok ((buf, some e), d')) :
    d.unread = buf ++ d'.unread ∧ buf.length < size ∧ e ≠ .eof := by
  obtain ⟨buf₀, e₀, d₁, peeked, peeks⟩ := peek_settled settled size
  obtain ⟨-, -, -, -, unread₂⟩ := discard_settled peeks.settled peeks.prefix_buffered.length_le
  have consumed : d.unread = buf₀ ++ (d₁.discard buf₀.length).unread := by
    rw [← peeks.unread, unread₂, take_of_prefix peeks.prefix_buffered le_rfl, List.take_length]
  simp only [readExact, peeked, Except.map] at read
  split_ifs at read with exact eof <;>
    obtain ⟨⟨rfl, reported⟩, rfl⟩ := (Prod.mk.inj (Except.ok.inj read)).imp Prod.mk.inj id
  · cases reported
  · exact ⟨consumed, lt_of_le_of_ne peeks.at_most exact, by cases reported; decide⟩
  · exact ⟨consumed, lt_of_le_of_ne peeks.at_most exact, fun same => eof (reported.trans (congrArg some same))⟩

/-- A trailer other than `"\n\n"` read without error shows that the bytes
after the body do not start with `"\n\n"`. -/
theorem ReadsUntil.not_sep_prefix {d d' : Decoder} {endOfBody : Bytes} {err : Option ReadError}
    (reads : ReadsUntil d endOfBody err d') (ok : err.filter (· != .io .eof) = none) (other : endOfBody ≠ nlnl) :
    ¬nlnl <+: endOfBody ++ d'.unread := by
  intro starts
  rcases filter_ne_eof_eq_none.mp ok with rfl | rfl
  · obtain ⟨head, rfl, first⟩ := reads.found rfl
    have atStart : index (head ++ nlnl) nlnl = some 0 :=
      index_eq_some_iff.mpr ⟨List.prefix_of_prefix_length_le starts (List.prefix_append _ _) (by simp),
        fun _ none => absurd none (Nat.not_lt_zero _)⟩
    rw [first, Option.some.injEq, List.length_eq_zero] at atStart
    exact other (by rw [atStart, List.nil_append])
  · obtain ⟨noSep, -, nothing⟩ := reads.eof
    rw [nothing, List.append_nil] at starts
    exact noSep starts.isInfix

section
variable {headers : Headers} {length : Int} {content : Bytes} {headLen : Nat} {e : StreamError} {d d' : Decoder}

theorem finishDecode_error [Assemblers] {sig : Bytes} (finished : finishDecode headers length content headLen sig = .ok (.error e)) :
    ∃ err body, e = .assemble err ∧ assemble headers body content (normalizeSig sig) = .error err := by
  unfold finishDecode at finished
  split_ifs at finished <;>
    (obtain ⟨err, assembled, rfl⟩ := except_mapError_eq_error.mp (Except.ok.inj finished); exact ⟨err, _, rfl, assembled⟩)

/-- Where the signature step fails: reading the signature, in `Assemble`, or
for a missing separator, on a trailer other than `"\n\n"` after a body. -/
theorem decodeSignature_error [Assemblers] {endOfBody : Bytes} (settled : d.Settled)
    (decoded : d.decodeSignature headers length content headLen endOfBody = .ok (.error e, d')) :
    endOfBody = nlnl ∧ (∃ err seen, e = .readingSignature err ∧ d.unread = seen ++ d'.unread ∧
        StreamError.ReadFailed err seen) ∨
      (∃ content' sig, finishDecode headers length content' headLen sig = .ok (.error e)) ∨
      endOfBody ≠ nlnl ∧ 0 < length ∧ e = .missingSeparator ∧ d' = d := by
  unfold decodeSignature at decoded
  by_cases sep : endOfBody = nlnl
  · rw [if_pos sep] at decoded
    obtain ⟨sig, err, d₁, read, reads⟩ := readUntil_settled settled d.maxSigSize
    rw [read] at decoded
    dsimp only at decoded
    cases kept : err.filter (· != .io .eof) with
    | none =>
        rw [kept] at decoded
        exact .inr (.inl ⟨content, sig, (map_pair_eq_ok_iff.mp decoded).1⟩)
    | some failure =>
        rw [kept] at decoded
        obtain ⟨rfl, rfl⟩ := (Prod.mk.inj (Except.ok.inj decoded)).imp Except.error.inj id
        obtain ⟨rfl, notEof⟩ := filter_ne_eof_eq_some kept
        exact .inl ⟨sep, failure, sig, rfl, reads.unread, readUntil_failed read reads notEof⟩
  · rw [if_neg sep] at decoded
    split_ifs at decoded with positive
    · obtain ⟨rfl, rfl⟩ := (Prod.mk.inj (Except.ok.inj decoded)).imp Except.error.inj id
      exact .inr (.inr ⟨sep, positive, rfl, rfl⟩)
    · exact .inr (.inl ⟨_, endOfBody, (map_pair_eq_ok_iff.mp decoded).1⟩)

theorem decodeTrailer_error [Assemblers] (settled : d.Settled)
    (decoded : d.decodeTrailer headers length content headLen = .ok (.error e, d')) :
    (∃ err seen, e = .readingTrailer err ∧ d.unread = seen ++ d'.unread ∧ StreamError.ReadFailed err seen) ∨
      ∃ endOfBody err d₁, ReadsUntil d endOfBody err d₁ ∧ err.filter (· != .io .eof) = none ∧
        d₁.decodeSignature headers length content headLen endOfBody = .ok (.error e, d') := by
  obtain ⟨endOfBody, err, d₁, read, reads⟩ := readUntil_settled settled d.maxSigSize
  rw [decodeTrailer, read] at decoded
  dsimp only at decoded
  cases kept : err.filter (· != .io .eof) with
  | none =>
      rw [kept] at decoded
      exact .inr ⟨endOfBody, err, d₁, reads, kept, decoded⟩
  | some failure =>
      rw [kept] at decoded
      obtain ⟨rfl, rfl⟩ := (Prod.mk.inj (Except.ok.inj decoded)).imp Except.error.inj id
      obtain ⟨rfl, notEof⟩ := filter_ne_eof_eq_some kept
      exact .inl ⟨failure, endOfBody, rfl, reads.unread, readUntil_failed read reads notEof⟩

theorem decodeBody_error [Assemblers] {headAndSep : Bytes} (settled : d.Settled)
    (decoded : d.decodeBody headers length headAndSep headLen = .ok (.error e, d')) :
    (∃ err body, e = .io err ∧ err ≠ .eof ∧ d.unread = body ++ d'.unread ∧ body.length < length.toNat) ∨
      ∃ (body : Bytes) (d₁ : Decoder), d₁.Settled ∧ d.unread = body ++ d₁.unread ∧ body.length = length.toNat ∧
        d₁.decodeTrailer headers length (headAndSep ++ body) headLen = .ok (.error e, d') := by
  unfold decodeBody at decoded
  split_ifs at decoded with positive
  · obtain ⟨body, err, d₁, read, settled₁, -, unread₁, full, -⟩ := readExact_settled settled length.toNat
    rw [read] at decoded
    cases err with
    | some err =>
        obtain ⟨rfl, rfl⟩ := (Prod.mk.inj (Except.ok.inj decoded)).imp Except.error.inj id
        obtain ⟨unread, short, notEof⟩ := readExact_short settled read
        exact .inl ⟨err, body, rfl, notEof, unread, short⟩
    | none => exact .inr ⟨body, d₁, settled₁, unread₁, full rfl, decoded⟩
  · exact .inr ⟨[], d, settled, rfl, by simp; omega, by simpa using decoded⟩

end

/-- On a plain reader, every error `Decode` reports other than those before
the body is true of the stream, as `StreamError.RejectsAfter` says: `io.EOF`
only where nothing is left, `io.ErrUnexpectedEOF` from the reader's end
inside a header block, or a short body; a failed trailer or signature read
past its window budget or at a read error; a missing separator where the
body is not followed by `"\n\n"`; and an error of `Assemble` on the headers
of the block. -/
theorem decode_rejects_after [Assemblers] {d d' : Decoder} {e : StreamError} (settled : d.Settled)
    (decoded : d.decode = .ok (.error e, d')) (after : e.beforeBody = false) :
    e.RejectsAfter d.maxBodySize d.unread d'.unread := by
  obtain ⟨headAndSep, err, d₁, read, reads⟩ := readUntil_settled settled d.maxHeadersSize
  rw [decode, read] at decoded
  cases err with
  | some err =>
      simp only [Except.ok.injEq, Prod.mk.injEq] at decoded
      obtain ⟨reported, rfl⟩ := decoded
      by_cases eof : err = .io .eof
      · subst eof
        obtain ⟨noSep, unread, nothing⟩ := reads.eof
        simp only [if_true, Except.error.injEq] at reported
        subst reported
        by_cases empty : headAndSep.length = 0
        · exact .inl ⟨by simp [empty], by rw [unread, List.length_eq_zero.mp empty], nothing⟩
        · exact .inr (.inl ⟨by simp [empty], by rw [unread]; exact fun nil => empty (by simp [nil]),
            unread ▸ noSep, nothing⟩)
      · rw [if_neg eof] at reported
        rw [← Except.error.inj reported] at after
        cases after
  | none =>
      obtain ⟨head, rfl, first⟩ := reads.found rfl
      obtain ⟨noSep, -⟩ := not_sep_of_first first
      have unread : d.unread = head ++ nlnl ++ d₁.unread := reads.unread
      have sizes : d₁.maxBodySize = d.maxBodySize := congrArg (fun s => s.2.2.1) reads.settings
      dsimp only at decoded
      rw [if_neg (by simp), show (head ++ nlnl).length - nlnl.length = head.length by simp,
        List.take_left' rfl] at decoded
      cases parsed : parseHeaders head with
      | error failure =>
          rw [parsed] at decoded
          rw [(Except.error.inj (Prod.mk.inj (Except.ok.inj decoded)).1).symm] at after
          cases after
      | ok headers =>
      rw [parsed] at decoded
      dsimp only at decoded
      cases lengthOk : checkInteger headers (ascii "body-length") 0 with
      | error failure =>
          rw [lengthOk] at decoded
          rw [(Except.error.inj (Prod.mk.inj (Except.ok.inj decoded)).1).symm] at after
          cases after
      | ok length =>
      rw [lengthOk] at decoded
      dsimp only at decoded
      split_ifs at decoded with tooBig negative
      · rw [(Except.error.inj (Prod.mk.inj (Except.ok.inj decoded)).1).symm] at after
        cases after
      have block : ∀ after, d₁.unread = after →
          StreamError.HeaderBlock d.maxBodySize d.unread headers length after := fun after rest =>
        ⟨head, by rw [unread, rest], noSep, parsed, lengthOk, sizes ▸ Int.not_lt.mp tooBig⟩
      rcases decodeBody_error reads.settled decoded with ⟨err, body, rfl, notEof, unread₁, short⟩ |
        ⟨body, d₂, settled₂, unread₁, bodyLength, trailer⟩
      · exact .inr (.inr ⟨notEof, headers, length, body, block _ unread₁, short⟩)
      rcases decodeTrailer_error settled₂ trailer with ⟨err, seen, rfl, unread₂, failed⟩ |
        ⟨endOfBody, err, d₃, reads₃, ok₃, signature⟩
      · exact ⟨headers, length, body, seen, block _ (by rw [unread₁, unread₂, List.append_assoc]), bodyLength, failed⟩
      rcases decodeSignature_error reads₃.settled signature with ⟨rfl, err, seen, rfl, unread₄, failed⟩ |
        ⟨content, sig, finished⟩ | ⟨other, positive, rfl, rfl⟩
      · exact ⟨headers, length, body, seen,
          block _ (by rw [unread₁, reads₃.unread, unread₄]; simp only [List.append_assoc]), bodyLength, failed⟩
      · obtain ⟨err, body', rfl, assembled⟩ := finishDecode_error finished
        exact ⟨headers, length, _, block _ rfl, body', content, _, assembled⟩
      · exact ⟨headers, length, body, endOfBody, block _ (by rw [unread₁, reads₃.unread, List.append_assoc]),
          positive, bodyLength, reads₃.not_sep_prefix ok₃ other⟩

/-- A stream cut inside its header block. -/
theorem decode_rejects_after_cut :
    letI : Assemblers := acceptAll
    ∃ d', (newDecoder (.script [⟨ascii "type: x", some .eof⟩])).decode = .ok (.error (.io .unexpectedEOF), d') ∧
      (StreamError.io .unexpectedEOF).RejectsAfter SnapdAsserts.maxBodySize (ascii "type: x") d'.unread := by
  letI : Assemblers := acceptAll
  obtain ⟨d', decoded⟩ : ∃ d', (newDecoder (.script [⟨ascii "type: x", some .eof⟩])).decode =
      .ok (.error (.io .unexpectedEOF), d') := ⟨_, by rw [decode, readUntil, readUntilLoop]; rfl⟩
  have rejects := decode_rejects_after (settled_newDecoder _) decoded rfl
  rw [unread_newDecoder] at rejects
  exact ⟨d', decoded, by simpa [scriptStream] using rejects⟩

/-! ## A header block too large for the window -/

/-- `readUntil`'s loop gives up past `maxSize` on a clean decoder only while
no `peek` reported an error, and then leaves a decoder alike to the one it
started from: nothing consumed, no error noted. -/
theorem readUntilLoop_maxSizeExceeded_same {maxSize size : Nat} {positive : 0 < size} {last : Int} {d d' : Decoder}
    {buf delim : Bytes} (clean : d.Clean)
    (read : readUntilLoop nlnl maxSize last size positive d = .ok ((buf, some (.maxSizeExceeded delim)), d')) :
    SameStream d d' := by
  induction' hk : maxSize + 1 - size using Nat.strong_induction_on with k ih generalizing size last d
  obtain ⟨d₁, peeked, peeks, clean₁⟩ := peek_clean clean size
  rw [readUntilLoop, peeked] at read
  dsimp only at read
  by_cases bounds : last < 0 ∨ (d.unread.take size).length < last
  · rw [if_pos bounds] at read
    cases read
  rw [if_neg bounds] at read
  cases found : index ((d.unread.take size).drop last.toNat) nlnl with
  | some i => simp [found] at read
  | none =>
      simp only [found] at read
      by_cases stop : (if size ≤ d.unread.length then d.err else some .eof).isSome ∧
          (d.unread.take size).length = d₁.b.buffered.length
      · rw [if_pos stop] at read
        simp at read
      rw [if_neg stop] at read
      have alike : SameStream d d₁ := by
        refine ⟨clean, clean₁, peeks.unread.symm, ?_, peeks.settings.symm⟩
        by_cases within : size ≤ d.unread.length
        · rw [peeks.err_eq, if_pos within]
        rw [if_neg within] at stop peeks
        refine absurd ⟨rfl, ?_⟩ stop
        rw [clean₁.buffered_eq peeks.err_eq, peeks.unread, List.take_of_length_le (by omega)]
      split_ifs at read with tooLarge
      · exact (Prod.mk.inj (Except.ok.inj read)).2 ▸ alike
      · exact alike.trans (ih _ (by omega) clean₁ read rfl)

/-- Once `Decode` reports that a header block does not fit, a clean decoder
is stuck: it has consumed nothing, and every later call reports the same
error, so a loop that goes on after errors never ends. -/
theorem decodeN_maxSizeExceeded [Assemblers] {d d' : Decoder} {delim : Bytes} (clean : d.Clean)
    (decoded : d.decode = .ok (.error (.readingHeaders (.maxSizeExceeded delim)), d')) (n : Nat) :
    (d.decodeN n).map Prod.fst = .ok (List.replicate n (.error (.readingHeaders (.maxSizeExceeded delim)))) := by
  have stuck : SameStream d d' := by
    obtain ⟨buf, err, d₁, read, -⟩ := readUntil_settled clean.settled d.maxHeadersSize
    rw [decode, read] at decoded
    cases err with
    | none =>
        dsimp only at decoded
        split_ifs at decoded
        split at decoded
        · cases decoded
        split at decoded
        · cases decoded
        split_ifs at decoded
        · cases decoded
        · have wrong := decodeBody_beforeBody decoded
          cases wrong
    | some err =>
        obtain ⟨reported, rfl⟩ := Prod.mk.inj (Except.ok.inj decoded)
        split_ifs at reported <;>
          simp only [Except.error.injEq, StreamError.readingHeaders.injEq, reduceCtorEq] at reported
        subst reported
        exact readUntilLoop_maxSizeExceeded_same clean read
  suffices run : ∀ n e, SameStream d e →
      (e.decodeN n).map Prod.fst = .ok (List.replicate n (.error (.readingHeaders (.maxSizeExceeded delim)))) from
    run n d (.refl clean)
  intro n
  induction n with
  | zero => exact fun _ _ => rfl
  | succ n ih =>
      intro e alike
      rcases alike.decode.cases with ⟨p, failed, -⟩ | ⟨result, d₂, e₂, decoded₂, decodedE, alike₂⟩
      · rw [decoded] at failed
        cases failed
      rw [decoded] at decoded₂
      obtain ⟨rfl, rfl⟩ := Prod.mk.inj (Except.ok.inj decoded₂)
      rw [decodeN, decodedE]
      dsimp only
      have rest := ih e₂ (stuck.trans alike₂)
      cases later : e₂.decodeN n with
      | error p =>
          rw [later] at rest
          cases rest
      | ok step =>
          rw [later] at rest
          simp only [Except.map, Except.ok.injEq] at rest ⊢
          rw [rest, List.replicate_succ]

/-- A decoder whose header cap is its first window, over more bytes than
that and no `"\n\n"`. -/
theorem decodeN_maxSizeExceeded_small :
    letI : Assemblers := acceptAll
    ∃ d : Decoder, d.Clean ∧ (∃ d', d.decode = .ok (.error (.readingHeaders (.maxSizeExceeded nlnl)), d')) ∧
      (d.decodeN 3).map Prod.fst = .ok (List.replicate 3 (.error (.readingHeaders (.maxSizeExceeded nlnl)))) := by
  letI : Assemblers := acceptAll
  have fresh := @clean_newDecoder [⟨ascii "abcdefgh", some .eof⟩]
    fun _ mem => .inr (by rw [List.mem_singleton.mp mem])
  let d : Decoder := { newDecoder (.script [⟨ascii "abcdefgh", some .eof⟩]) with
    initialBufSize := 4, maxHeadersSize := 4, initialBufSize_pos := by decide }
  have clean : d.Clean := ⟨⟨fresh.settled.not_aliased, fresh.settled.pending_nil, fresh.settled.bounded,
    fresh.settled.plain, fresh.settled.drained⟩, fresh.buffer, fresh.err⟩
  obtain ⟨d', decoded⟩ : ∃ d', d.decode = .ok (.error (.readingHeaders (.maxSizeExceeded nlnl)), d') :=
    ⟨_, by rw [decode, readUntil, readUntilLoop]; rfl⟩
  exact ⟨d, clean, ⟨d', decoded⟩, decodeN_maxSizeExceeded clean decoded 3⟩

end Decoder

end SnapdAsserts
