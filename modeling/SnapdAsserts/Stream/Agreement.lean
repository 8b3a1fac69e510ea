import SnapdAsserts.Stream.Unread

/-!
# What the streaming decoder returns

On a plain reader, in any chunking, every assertion the streaming decoder
returns exposes exactly what is signed, as those of the single-shot decoder
do (`decoded_exposes_signed_content`); and a stream it reads to a clean
`io.EOF` is the encodings of what it returned, joined by single newlines
(`stream_is_encodings`).

`Decode` reports `io.EOF` only where the stream has nothing left
(`decode_eof_unread`): every other error of the body, trailer and signature
reads is wrapped or turned into `io.ErrUnexpectedEOF`.
-/

namespace SnapdAsserts
namespace Decoder

theorem map_pair_eq_ok_iff {α : Type} {x : Except Panic α} {a : α} {d d' : Decoder} :
    x.map (·, d) = .ok (a, d') ↔ x = .ok a ∧ d = d' := by
  cases x <;> simp [Except.map]

theorem mapError_assemble_ne_eof (x : Except AssembleError AssertionBase) :
    x.mapError StreamError.assemble ≠ .error (.io .eof) := by
  cases x <;> simp [Except.mapError]

theorem finishDecode_ne_eof [Assemblers] {headers : Headers} {length : Int} {content : Bytes} {headLen : Nat}
    {sig : Bytes} : finishDecode headers length content headLen sig ≠ .ok (.error (.io .eof)) := by
  intro finished
  unfold finishDecode at finished
  split_ifs at finished
  all_goals exact mapError_assemble_ne_eof _ (Except.ok.inj finished)

theorem decodeSignature_ne_eof [Assemblers] {d d' : Decoder} {headers : Headers} {length : Int} {content : Bytes}
    {headLen : Nat} {endOfBody : Bytes} (settled : d.Settled) :
    d.decodeSignature headers length content headLen endOfBody ≠ .ok (.error (.io .eof), d') := by
  intro decoded
  unfold decodeSignature at decoded
  split_ifs at decoded
  · obtain ⟨sig, err, d₁, read, -⟩ := readUntil_settled settled d.maxSigSize
    rw [read] at decoded
    dsimp only at decoded
    split at decoded
    · simp at decoded
    · exact finishDecode_ne_eof (map_pair_eq_ok_iff.mp decoded).1
  · simp at decoded
  · exact finishDecode_ne_eof (map_pair_eq_ok_iff.mp decoded).1

theorem decodeTrailer_ne_eof [Assemblers] {d d' : Decoder} {headers : Headers} {length : Int} {content : Bytes}
    {headLen : Nat} (settled : d.Settled) :
    d.decodeTrailer headers length content headLen ≠ .ok (.error (.io .eof), d') := by
  intro decoded
  obtain ⟨endOfBody, err, d₁, read, reads⟩ := readUntil_settled settled d.maxSigSize
  rw [decodeTrailer, read] at decoded
  dsimp only at decoded
  split at decoded
  · simp at decoded
  · exact decodeSignature_ne_eof reads.settled decoded

theorem decodeBody_ne_eof [Assemblers] {d d' : Decoder} {headers : Headers} {length : Int} {headAndSep : Bytes}
    {headLen : Nat} (settled : d.Settled) :
    d.decodeBody headers length headAndSep headLen ≠ .ok (.error (.io .eof), d') := by
  intro decoded
  unfold decodeBody at decoded
  split_ifs at decoded
  · obtain ⟨body, err, d₁, read, settled₁, -, -, -, notEof⟩ := readExact_settled settled length.toNat
    rw [read] at decoded
    cases err with
    | some e =>
        simp only [Except.ok.injEq, Prod.mk.injEq, Except.error.injEq, StreamError.io.injEq] at decoded
        exact notEof (by rw [decoded.1])
    | none => exact decodeTrailer_ne_eof settled₁ decoded
  · exact decodeTrailer_ne_eof settled decoded

/-- `Decode` reports `io.EOF` only when the stream has nothing left. -/
theorem decode_eof_unread [Assemblers] {d d' : Decoder} (settled : d.Settled)
    (decoded : d.decode = .ok (.error (.io .eof), d')) : d.unread = [] := by
  obtain ⟨headAndSep, err, d₁, read, reads⟩ := readUntil_settled settled d.maxHeadersSize
  rw [decode, read] at decoded
  cases err with
  | some e =>
      dsimp only at decoded
      by_cases eof : e = .io .eof
      · subst eof
        by_cases empty : headAndSep.length = 0
        · obtain ⟨-, errEof, buffered⟩ := reads.failed .eof rfl
          rw [reads.unread, List.eq_nil_of_length_eq_zero empty, List.nil_append]
          show d₁.b.buffered ++ d₁.b.source = []
          rw [buffered, reads.settled.drained errEof]
          rfl
        · simp [empty] at decoded
      · simp [eof] at decoded
  | none =>
      dsimp only at decoded
      by_cases short : headAndSep.length < nlnl.length
      · rw [if_pos short] at decoded
        cases decoded
      rw [if_neg short] at decoded
      split at decoded
      · simp at decoded
      split at decoded
      · simp at decoded
      rename_i length _
      by_cases tooBig : (d₁.maxBodySize : Int) < length
      · rw [if_pos tooBig] at decoded
        simp at decoded
      rw [if_neg tooBig] at decoded
      by_cases negative : (headAndSep.length : Int) + length < 0
      · rw [if_pos negative] at decoded
        cases decoded
      rw [if_neg negative] at decoded
      exact absurd decoded (decodeBody_ne_eof reads.settled)

theorem decodeN_succ_eq_ok [Assemblers] {n : Nat} {d d' : Decoder} {results : List (Except StreamError AssertionBase)} :
    d.decodeN (n + 1) = .ok (results, d') ↔
      ∃ result d₁ rest, d.decode = .ok (result, d₁) ∧ d₁.decodeN n = .ok (rest, d') ∧
        results = result :: rest := by
  rw [decodeN]
  constructor
  · intro run
    split at run
    · cases run
    · rename_i result d₁ decoded
      cases later : d₁.decodeN n with
      | error p => simp [later, Except.map] at run
      | ok value =>
          obtain ⟨rest, d₂⟩ := value
          simp only [later, Except.map, Except.ok.injEq, Prod.mk.injEq] at run
          obtain ⟨rfl, rfl⟩ := run
          exact ⟨result, d₁, rest, decoded, later, rfl⟩
  · rintro ⟨result, d₁, rest, decoded, later, rfl⟩
    simp [decoded, later, Except.map]

theorem encode_ne_nil (assert : AssertionBase) : encode assert ≠ [] := by
  simp [encode, nlnl]

/-- A run of `Decode` calls on a settled decoder that returns assertions and
then `io.EOF` has consumed exactly their encodings, joined by single
newlines, with at most one newline after the last. -/
theorem unread_of_decodeN [Assemblers] {asserts : List AssertionBase} {d d' : Decoder} (settled : d.Settled)
    (run : d.decodeN (asserts.length + 1) = .ok (asserts.map .ok ++ [.error (.io .eof)], d')) :
    ∃ tail, (tail = [] ∨ tail = nl) ∧ d.unread = nl.intercalate (asserts.map encode) ++ tail ∧
      (asserts = [] → tail = []) := by
  induction asserts generalizing d with
  | nil =>
      obtain ⟨result, d₁, rest, decoded, -, same⟩ := decodeN_succ_eq_ok.mp run
      cases same
      exact ⟨[], .inl rfl, by simp [decode_eof_unread settled decoded, List.intercalate], fun _ => rfl⟩
  | cons assert asserts ih =>
      obtain ⟨result, d₁, rest, decoded, later, same⟩ := decodeN_succ_eq_ok.mp run
      simp only [List.map_cons, List.cons_append, List.cons.injEq] at same
      obtain ⟨rfl, rfl⟩ := same
      have decodes := decode_settled settled decoded
      obtain ⟨tail, short, unread₁, last⟩ := ih decodes.settled later
      rcases decodes.consumed with consumed | ⟨consumed, empty⟩
      · rw [consumed, unread₁]
        cases asserts with
        | nil => exact ⟨nl, .inr rfl, by simp [last rfl, nl, List.intercalate], nofun⟩
        | cons next others =>
            refine ⟨tail, short, ?_, nofun⟩
            simp [intercalate_cons_cons, nl]
      · cases asserts with
        | nil => exact ⟨[], .inl rfl, by simp [consumed, nl], nofun⟩
        | cons next others =>
            rw [unread₁] at empty
            cases others <;> simp [intercalate_cons_cons, encode_ne_nil, nl] at empty

end Decoder

/-- A decoded assertion exposes exactly what is signed: for the single-shot
`Decode`, and for every assertion that successive `Decoder.Decode` calls on a
plain reader return in any chunking, the headers are what `parseHeaders`
reads from the content before its first `"\n\n"` (all of it when it has
none), and the body is the content after that `"\n\n"` (empty when there is
none). -/
theorem decoded_exposes_signed_content [Assemblers] :
    (∀ serialized assert, decode serialized = .ok assert →
      parseHeaders (splitContent assert.content).1 = .ok assert.headers ∧
        assert.body = (splitContent assert.content).2) ∧
    (∀ results n outcomes d', (newDecoder (.script results)).decodeN n = .ok (outcomes, d') →
      ∀ assert, .ok assert ∈ outcomes →
        parseHeaders (splitContent assert.content).1 = .ok assert.headers ∧
          assert.body = (splitContent assert.content).2) := by
  refine ⟨fun serialized assert decoded => ?_, fun results n outcomes d' run assert returned => ?_⟩
  · obtain ⟨split, -, decoded⟩ := decode_eq_ok decoded
    obtain ⟨parsed, body, content, -⟩ := decodeContent_eq_ok decoded
    rw [content]
    exact ⟨parsed, body⟩
  · obtain ⟨-, each⟩ := Decoder.decodeN_settled (Decoder.settled_newDecoder results) run
    obtain ⟨_, _, -, decodes⟩ := each assert returned
    exact ⟨decodes.headers, decodes.body⟩

/-- No byte is lost, duplicated or left outside the signed envelopes: when
successive `Decoder.Decode` calls on a plain reader return assertions and
then `io.EOF`, the bytes the reader delivered are their encodings joined by
single newlines, with at most one newline after the last; and `Encode` gives
back every byte string the single-shot `Decode` accepts. -/
theorem stream_is_encodings [Assemblers] :
    (∀ results (asserts : List AssertionBase) d',
      (newDecoder (.script results)).decodeN (asserts.length + 1) =
        .ok (asserts.map .ok ++ [.error (.io .eof)], d') →
      ∃ tail, (tail = [] ∨ tail = nl) ∧ scriptStream results = nl.intercalate (asserts.map encode) ++ tail) ∧
    (∀ serialized assert, decode serialized = .ok assert → encode assert = serialized) := by
  refine ⟨fun results asserts d' run => ?_, fun _ _ => encode_of_decode⟩
  obtain ⟨tail, short, unread, -⟩ := Decoder.unread_of_decodeN (Decoder.settled_newDecoder results) run
  exact ⟨tail, short, by rwa [Decoder.unread_newDecoder] at unread⟩

end SnapdAsserts
