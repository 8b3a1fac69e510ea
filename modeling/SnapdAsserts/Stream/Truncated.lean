import SnapdAsserts.Stream.RoundTrip

/-!
# A stream cut inside an assertion

A transfer that stops early leaves the decoder the first bytes of an
assertion's framing.  `Decode` never takes such a stream for a clean end: it
reports `io.EOF` only when nothing at all arrived.  When it does return an
assertion from it, that assertion has the headers and the body of the
assertion that was cut: a header block ends at its first `"\n\n"`, so the
decoder reads the same one, and then a body of the same declared length.
Its content is a prefix of the content that was cut and its encoding a
prefix of the framing, so a cut only shortens the signature, or, for an
assertion without body that kept the separator of its empty body, drops
that separator from the content (`Decoder.decode_cut`).
-/

namespace SnapdAsserts
namespace Decoder

/-- A header block and its `"\n\n"` end at the first `"\n\n"`. -/
theorem endsAtFirstSep_block {head : Bytes} (block : LineBlock head) : EndsAtFirstSep (head ++ nlnl) :=
  ⟨head, rfl, by simpa using index_block_append block.no_nlnl block.last_ne []⟩

/-- An encoding starts with the header block of its content and a
`"\n\n"`. -/
theorem block_sep_starts (content rest : Bytes) :
    (splitContent content).1 ++ nlnl <+: content ++ nlnl ++ rest := by
  rcases splitContent_cases content with split | split
  · rw [split]
    exact ⟨rest, rfl⟩
  · conv_rhs => rw [split]
    exact ⟨(splitContent content).2 ++ nlnl ++ rest, by simp only [List.append_assoc]⟩

theorem block_starts (content : Bytes) : (splitContent content).1 <+: content := by
  rcases splitContent_cases content with split | split
  · rw [split]
  · conv_rhs => rw [split]
    exact ⟨nlnl ++ (splitContent content).2, by simp only [List.append_assoc]⟩

/-- A content with a body is its header block, `"\n\n"` and the body. -/
theorem content_eq_of_body {assert : AssertionBase} (body : assert.body = (splitContent assert.content).2)
    (nonEmpty : assert.body ≠ []) : assert.content = (splitContent assert.content).1 ++ nlnl ++ assert.body := by
  rcases splitContent_cases assert.content with split | split
  · exact absurd (by rw [body, split]) nonEmpty
  · rwa [← body] at split

/-- An assertion whose encoding starts a framing with the same header block
and a body of the same length has the same body and a prefix of the
content: a content without `"\n\n"` is its header block, and one with it
goes on with the body. -/
theorem body_content_of_within {a b : AssertionBase} {sig : Bytes} (bodyA : a.body = (splitContent a.content).2)
    (bodyB : b.body = (splitContent b.content).2) (same : (splitContent b.content).1 = (splitContent a.content).1)
    (lengths : b.body.length = a.body.length) (noSep : ¬nlnl <:+: sig)
    (within : b.content ++ nlnl ++ b.signature <+: a.content ++ nlnl ++ sig) :
    b.body = a.body ∧ b.content <+: a.content := by
  by_cases empty : a.body = []
  · have emptyB : b.body = [] := List.eq_nil_of_length_eq_zero (by rw [lengths, empty]; rfl)
    refine ⟨by rw [emptyB, empty], ?_⟩
    rcases splitContent_cases b.content with splitB | splitB
    · rw [show b.content = (splitContent a.content).1 by rw [← same, splitB]]
      exact block_starts a.content
    rcases splitContent_cases a.content with splitA | splitA
    · -- `b` kept a separator that `a` has not: the signature would start with `"\n\n"`
      rw [splitB, same, ← bodyB, emptyB, splitA] at within
      simp only [List.append_nil, List.append_assoc, List.prefix_append_right_inj] at within
      exact absurd ((List.prefix_append nlnl b.signature).trans within).isInfix noSep
    · rw [splitB, splitA, same, ← bodyB, ← bodyA, emptyB, empty]
  · have emptyB : b.body ≠ [] := fun nil => empty (List.eq_nil_of_length_eq_zero (by rw [← lengths, nil]; rfl))
    have splitA := content_eq_of_body bodyA empty
    have splitB := content_eq_of_body bodyB emptyB
    rw [same] at splitB
    have bodies : b.body = a.body := by
      rw [splitA, splitB] at within
      simp only [List.append_assoc, List.prefix_append_right_inj] at within
      exact (List.prefix_of_prefix_length_le ((List.prefix_append _ _).trans within) (List.prefix_append _ _)
        lengths.le).eq_of_length lengths
    exact ⟨bodies, by rw [splitA, splitB, bodies]⟩

/-- Decoding a stream cut anywhere inside the framing of an assertion `a`
that a decoder returns, over any plain reader and in any chunking: `Decode`
reports `io.EOF` only if nothing arrived, and an assertion it returns has
`a`'s headers and body, a prefix of `a`'s content, and an encoding that is a
prefix of the framing. -/
theorem decode_cut [Assemblers] {d : Decoder} {a : AssertionBase} (settled : d.Settled) (decoded : Decoded a)
    (cut : d.unread <+: framed a) :
    (d.unread ≠ [] → ∀ d', d.decode ≠ .ok (.error (.io .eof), d')) ∧
      ∀ b d', d.decode = .ok (.ok b, d') →
        b.headers = a.headers ∧ b.body = a.body ∧ b.content <+: a.content ∧ encode b <+: framed a := by
  refine ⟨fun arrived d' eof => arrived (decode_eof_unread settled eof), fun b d' returned => ?_⟩
  have decodes := decode_settled settled returned
  have encoded : encode b <+: framed a := by
    refine List.IsPrefix.trans ?_ cut
    rcases decodes.consumed with consumed | ⟨consumed, -⟩
    · rw [consumed, List.append_assoc]
      exact List.prefix_append _ _
    · rw [consumed]
  have within : b.content ++ nlnl ++ b.signature <+: a.content ++ nlnl ++ framedSignature a :=
    framed_eq decoded.signed ▸ encoded
  -- the decoder reads the same header block
  have same : (splitContent b.content).1 = (splitContent a.content).1 :=
    List.append_cancel_right (endsAtFirstSep_unique
      (endsAtFirstSep_block (lineBlock_of_parseHeaders decodes.headers))
      (endsAtFirstSep_block (lineBlock_of_parseHeaders decoded.headers))
      ((block_sep_starts b.content b.signature).trans within) (block_sep_starts a.content (framedSignature a)))
  have headers : b.headers = a.headers := by
    have parsed := decodes.headers
    rw [same, decoded.headers] at parsed
    exact (Except.ok.inj parsed).symm
  -- and a body of the same declared length
  have lengths : b.body.length = a.body.length := by
    have declared := (valid_of_assemble decodes.assembled).bodyLength
    rw [headers, (valid_of_assemble decoded.assembled).bodyLength] at declared
    have := Except.ok.inj declared
    omega
  obtain ⟨bodies, contents⟩ :=
    body_content_of_within decoded.body decodes.body same lengths decoded.framedSignature_no_sep.1 within
  exact ⟨headers, bodies, contents, encoded⟩

/-- The framing of an `account` assertion cut inside its signature. -/
theorem decode_cut_account :
    letI : Assemblers := acceptAll
    let d := newDecoder (.script [⟨(framed (accountAssert (ascii "sig"))).take 59, some .eof⟩])
    (d.unread ≠ [] → ∀ d', d.decode ≠ .ok (.error (.io .eof), d')) ∧
      ∀ b d', d.decode = .ok (.ok b, d') →
        b.headers = accountHeaders ∧ b.body = [] ∧ b.content <+: accountHead ∧
          encode b <+: framed (accountAssert (ascii "sig")) :=
  letI : Assemblers := acceptAll
  decode_cut (settled_newDecoder _) (decoded_accountAssert (by decide) (by decide))
    (by simpa [scriptStream] using List.take_prefix 59 (framed (accountAssert (ascii "sig"))))

end Decoder
end SnapdAsserts
