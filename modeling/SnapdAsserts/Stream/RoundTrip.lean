import SnapdAsserts.Stream.Agreement
import SnapdAsserts.Stream.Complete
import SnapdAsserts.Stream.Returned

/-!
# Reading encoded assertions back

Both decoders return `Decoded` assertions, whatever the reader
(`Decoder.decode_decoded`).  The stream encoder frames each
one as its encoding, with a newline added when the signature does not end in
one (`framed_eq`), and joins the framings with single newlines.  Over a clean
reader, in any chunking, a fresh `NewDecoder` returns each framed assertion
with its framed signature (`Decoder.decode_framed`) and then `io.EOF`
(`decodeN_encodeAll`), unless an assertion without body whose signature is
the lone newline is followed by another: the decoder then reads the newline
between them as the `"\n\n"` before a signature
(`decodeN_encodeAll_bareNewline`).  The single-shot decoder gives back what
the streaming one returns when the signature does not start with a newline
(`decode_encode_streamed`).
-/

namespace SnapdAsserts

open Decoder

/-- `Assemble` reads the signature only to check that it is not empty. -/
theorem assemble_resign [Assemblers] {headers : Headers} {body content signature signature' : Bytes} {assert : AssertionBase}
    (assembled : assemble headers body content signature = .ok assert) (signed : signature' ≠ []) :
    assemble headers body content signature' = .ok { assert with signature := signature' } := by
  obtain ⟨revision, checked, rfl, accepted⟩ := assemble_eq_ok_iff.mp assembled
  exact assemble_eq_ok_iff.mpr ⟨revision, { checked with signature := signed }, rfl,
    accepted.congr (fun _ => rfl) rfl rfl rfl⟩

/-! ## An assertion as the encoder frames it -/

/-- The signature as `Encoder.append` leaves it in the stream: followed by a
newline unless it ends in one. -/
def framedSignature (assert : AssertionBase) : Bytes :=
  assert.signature ++ (if assert.signature.getLast? = some 10 then [] else nl)

/-- The assertion the streaming decoder reads back from its framing. -/
def withFramedSignature (assert : AssertionBase) : AssertionBase :=
  { assert with signature := framedSignature assert }

theorem framed_eq {assert : AssertionBase} (signed : assert.signature ≠ []) :
    framed assert = assert.content ++ nlnl ++ framedSignature assert := by
  simp [framed, framedSignature, encode, List.getLast?_append_of_ne_nil _ signed, signed]

theorem Decoded.signed [Assemblers] {assert : AssertionBase} (decoded : Decoded assert) : assert.signature ≠ [] :=
  (valid_of_assemble decoded.assembled).signature

/-- A framed signature and one more newline end at their first `"\n\n"`. -/
theorem Decoded.framedSignature_ends [Assemblers] {assert : AssertionBase} (decoded : Decoded assert) :
    EndsAtFirstSep (framedSignature assert ++ nl) := by
  obtain ⟨front, x, split⟩ := List.eq_nil_or_concat assert.signature |>.resolve_left decoded.signed
  have noSep := decoded.no_sep
  rw [split] at noSep
  by_cases newline : x = 10
  · subst newline
    have lastNe : front.getLast? ≠ some 10 := fun last => noSep (by
      obtain ⟨init, rfl⟩ := List.getLast?_eq_some_iff.mp last
      exact ⟨init, [], by simp [nlnl]⟩)
    refine ⟨front, by simp [framedSignature, split, nl, nlnl], ?_⟩
    simpa [framedSignature, split, nl, nlnl] using
      index_block_append (fun inside => noSep (inside.trans (by simpa using List.infix_append [] front [10])))
        lastNe []
  · refine ⟨front ++ [x], by simp [framedSignature, split, newline, nl, nlnl], ?_⟩
    simpa [framedSignature, split, newline, nl, nlnl] using
      index_block_append noSep (by simp [newline]) []

theorem Decoded.framedSignature_no_sep [Assemblers] {assert : AssertionBase} (decoded : Decoded assert) :
    ¬nlnl <:+: framedSignature assert ∧ normalizeSig (framedSignature assert ++ nl) = framedSignature assert := by
  obtain ⟨kept, noSep⟩ := normalizeSig_of_first decoded.framedSignature_ends
  have same := (List.append_cancel_right kept).symm
  exact ⟨same ▸ noSep, same⟩

theorem framedSignature_ne_nil [Assemblers] {assert : AssertionBase} (decoded : Decoded assert) :
    framedSignature assert ≠ [] :=
  List.append_ne_nil_of_left_ne_nil decoded.signed _

theorem framedSignature_length_le (assert : AssertionBase) :
    (framedSignature assert).length ≤ assert.signature.length + 1 := by
  unfold framedSignature
  split_ifs <;> simp [nl]

/-- The defaults `NewDecoder` sets. -/
def defaultSettings : Nat × Nat × Nat × Nat :=
  (defaultDecoderButSize, maxHeadersSize, maxBodySize, maxSignatureSize)

/-- An assertion within the caps of `NewDecoder`: its header block and the
separator, its body and its signature and two bytes. -/
structure WithinDefaults (assert : AssertionBase) : Prop where
  header : (splitContent assert.content).1.length + 2 ≤ maxHeadersSize
  body : assert.body.length ≤ maxBodySize
  signature : assert.signature.length + 2 ≤ maxSignatureSize

/-- The caps of a decoder with the defaults, which five doublings of the
first window reach for the header block and the signature. -/
structure HasDefaults (d : Decoder) : Prop where
  initial : d.initialBufSize = defaultDecoderButSize
  headers : d.maxHeadersSize = maxHeadersSize
  body : d.maxBodySize = maxBodySize
  signature : d.maxSigSize = maxSignatureSize
  headerWindow : d.initialBufSize * 2 ^ 5 = d.maxHeadersSize
  sigWindow : d.initialBufSize * 2 ^ 5 = d.maxSigSize

theorem hasDefaults {d : Decoder} (defaults : d.settings = defaultSettings) : HasDefaults d := by
  simp only [Decoder.settings, defaultSettings, Prod.mk.injEq] at defaults
  obtain ⟨init, headers, body, sig⟩ := defaults
  exact ⟨init, headers, body, sig, by simp [init, headers, defaultDecoderButSize, maxHeadersSize],
    by simp [init, sig, defaultDecoderButSize, maxSignatureSize]⟩

/-! ## The streaming decoder on a framed assertion -/

namespace Decoder

variable {d : Decoder} {assert : AssertionBase}

/-- The signature read: up to the newline that follows the framed signature,
or to the end of the stream. -/
theorem readUntil_framedSignature [Assemblers] (k : Nat) {maxSize : Nat} (clean : d.Clean) (decoded : Decoded assert)
    {tail : Bytes} (unread : d.unread = framedSignature assert ++ tail) (ending : tail = [] ∨ nl <+: tail)
    (budget : (framedSignature assert).length + 1 ≤ d.initialBufSize * 2 ^ k)
    (room : d.initialBufSize * 2 ^ k ≤ maxSize) :
    ∃ d', d.readUntil nlnl maxSize =
        .ok ((framedSignature assert ++ tail.take 1, if tail = [] then some (.io .eof) else none), d') ∧
      d'.unread = tail.drop 1 ∧ d'.Clean ∧ d'.settings = d.settings := by
  rcases ending with rfl | ⟨rest, rfl⟩
  · rw [List.append_nil] at unread
    obtain ⟨d', read, rest', clean', settings'⟩ :=
      readUntil_exhausted k clean (unread ▸ decoded.framedSignature_no_sep.1) (by rw [unread]; omega) room
    exact ⟨d', by simpa [unread] using read, rest', clean', settings'⟩
  · obtain ⟨d', read, rest', clean', settings'⟩ := readUntil_found k clean
      (show d.unread = (framedSignature assert ++ nl) ++ rest by rw [unread, List.append_assoc])
      decoded.framedSignature_ends (by simp [nl]; omega) room
    exact ⟨d', by simpa [nl] using read, by simpa [nl] using rest', clean', settings'⟩

/-- What the signature read returns normalises to the framed signature. -/
theorem normalizeSig_framed [Assemblers] (decoded : Decoded assert) {tail : Bytes} (ending : tail = [] ∨ nl <+: tail) :
    normalizeSig (framedSignature assert ++ tail.take 1) = framedSignature assert := by
  rcases ending with rfl | ⟨rest, rfl⟩
  · simpa using normalizeSig_of_not_sep decoded.framedSignature_no_sep.1
  · simpa [nl] using decoded.framedSignature_no_sep.2

theorem filter_framed (tail : Bytes) :
    (if tail = [] then some (ReadError.io .eof) else none).filter (· != .io .eof) = none := by
  split_ifs <;> rfl

/-- `Decode`'s last step on a framed assertion: `Assemble` on its content and
its framed signature. -/
theorem finishDecode_framed [Assemblers] (decoded : Decoded assert) {length : Int} {headLen : Nat} {sig : Bytes}
    (normalized : normalizeSig sig = framedSignature assert)
    (finalBody : (if 0 < length then assert.content.drop (headLen + 2) else []) = assert.body)
    (long : 0 < length → headLen + 2 ≤ assert.content.length) :
    finishDecode assert.headers length assert.content headLen sig = .ok (.ok (withFramedSignature assert)) := by
  unfold finishDecode
  have fits : ¬(0 < length ∧ assert.content.length < headLen + 2) := fun ⟨positive, short⟩ => by
    have := long positive
    omega
  simp only [normalized, show nlnl.length = 2 from rfl, if_neg fits, finalBody,
    assemble_resign decoded.assembled (framedSignature_ne_nil decoded)]
  rfl


/-- The signature after a `"\n\n"` trailer. -/
theorem decodeSignature_framed [Assemblers] (defaults : d.settings = defaultSettings) (decoded : Decoded assert)
    (caps : WithinDefaults assert) (clean : d.Clean) {tail : Bytes} (unread : d.unread = framedSignature assert ++ tail)
    (ending : tail = [] ∨ nl <+: tail) {length : Int} {headLen : Nat}
    (finalBody : (if 0 < length then assert.content.drop (headLen + 2) else []) = assert.body)
    (long : 0 < length → headLen + 2 ≤ assert.content.length) :
    ∃ d', d.decodeSignature assert.headers length assert.content headLen nlnl =
        .ok (.ok (withFramedSignature assert), d') ∧ d'.unread = tail.drop 1 ∧ d'.Clean ∧
      d'.settings = d.settings := by
  have known := hasDefaults defaults
  obtain ⟨d', read, rest, clean', settings'⟩ := readUntil_framedSignature 5 clean decoded unread ending
    (by rw [known.sigWindow, known.signature]; have := framedSignature_length_le assert
        have := caps.signature; omega)
    known.sigWindow.le
  refine ⟨d', ?_, rest, clean', settings'⟩
  rw [decodeSignature, if_pos rfl, read]
  dsimp only
  rw [filter_framed, finishDecode_framed decoded (normalizeSig_framed decoded ending) finalBody long]
  rfl

/-- The trailer and the signature after a body, or after a content that ends
in its `"\n\n"`. -/
theorem decodeTrailer_framed_sep [Assemblers] (defaults : d.settings = defaultSettings) (decoded : Decoded assert)
    (caps : WithinDefaults assert) (clean : d.Clean) {tail : Bytes}
    (unread : d.unread = nlnl ++ (framedSignature assert ++ tail)) (ending : tail = [] ∨ nl <+: tail)
    {length : Int} {headLen : Nat}
    (finalBody : (if 0 < length then assert.content.drop (headLen + 2) else []) = assert.body)
    (long : 0 < length → headLen + 2 ≤ assert.content.length) :
    ∃ d', d.decodeTrailer assert.headers length assert.content headLen =
        .ok (.ok (withFramedSignature assert), d') ∧ d'.unread = tail.drop 1 ∧ d'.Clean ∧
      d'.settings = d.settings := by
  have known := hasDefaults defaults
  obtain ⟨d₁, read, rest₁, clean₁, settings₁⟩ := readUntil_found 5 clean unread ⟨[], rfl, by decide⟩
    (by rw [known.sigWindow, known.signature]; decide) known.sigWindow.le
  obtain ⟨d', decodedSig, rest', clean', settings'⟩ :=
    decodeSignature_framed (settings₁.trans defaults) decoded caps clean₁ rest₁ ending finalBody long
  refine ⟨d', ?_, rest', clean', settings'.trans settings₁⟩
  rw [decodeTrailer, read]
  exact decodedSig

/-- The signature right after the header block of a content without body:
`Decode` reads it as the trailer. -/
theorem decodeTrailer_framed_bare [Assemblers] (defaults : d.settings = defaultSettings) (decoded : Decoded assert)
    (caps : WithinDefaults assert) (clean : d.Clean) {tail : Bytes}
    (unread : d.unread = framedSignature assert ++ tail) (ending : tail = [] ∨ nl <+: tail)
    (notBare : tail = [] ∨ assert.signature ≠ nl) (bare : ¬nlnl <:+: assert.content) :
    ∃ d', d.decodeTrailer assert.headers 0 (assert.content ++ nlnl) assert.content.length =
        .ok (.ok (withFramedSignature assert), d') ∧ d'.unread = tail.drop 1 ∧ d'.Clean ∧
      d'.settings = d.settings := by
  have known := hasDefaults defaults
  obtain ⟨d', read, rest, clean', settings'⟩ := readUntil_framedSignature 5 clean decoded unread ending
    (by rw [known.sigWindow, known.signature]; have := framedSignature_length_le assert
        have := caps.signature; omega)
    known.sigWindow.le
  have notSep : framedSignature assert ++ tail.take 1 ≠ nlnl := by
    intro sep
    rcases ending with rfl | ⟨rest, rfl⟩
    · exact decoded.framedSignature_no_sep.1 (by simp at sep; rw [sep])
    · have single : framedSignature assert = nl :=
        List.append_cancel_right (show framedSignature assert ++ nl = nl ++ nl by simpa [nl, nlnl] using sep)
      have : assert.signature = nl := by
        unfold framedSignature at single
        split_ifs at single
        · simpa using single
        · exact absurd (by simpa [nl] using single) decoded.signed
      simp_all
  have bodyNil : assert.body = [] := by rw [decoded.body, splitContent_block bare]
  refine ⟨d', ?_, rest, clean', settings'⟩
  rw [decodeTrailer, read]
  dsimp only
  rw [filter_framed, decodeSignature, if_neg notSep, if_neg (lt_irrefl 0), if_neg (by simp),
    List.take_left' rfl, finishDecode_framed decoded (normalizeSig_framed decoded ending) (by simp [bodyNil])
      (fun h => absurd h (lt_irrefl 0))]
  rfl

/-- Once the header block is read, `Decode` goes on to the body. -/
theorem decode_of_header [Assemblers] {d₁ : Decoder} {head : Bytes} {headers : Headers} {length : Nat}
    (read : d.readUntil nlnl d.maxHeadersSize = .ok ((head ++ nlnl, none), d₁))
    (parsed : parseHeaders head = .ok headers) (lengthOk : checkInteger headers (ascii "body-length") 0 = .ok length)
    (bodySize : length ≤ d₁.maxBodySize) :
    d.decode = d₁.decodeBody headers length (head ++ nlnl) head.length := by
  rw [decode, read]
  dsimp only
  rw [if_neg (by simp [nlnl]), show (head ++ nlnl).length - nlnl.length = head.length by simp,
    List.take_left' rfl, parsed]
  dsimp only
  rw [lengthOk]
  dsimp only
  rw [if_neg (by omega), if_neg (by omega)]

/-- The streaming decoder reads a framed assertion back with its framed
signature, and then the newline after it, unless the assertion is one
without body whose signature is the lone newline and more follows. -/
theorem decode_framed [Assemblers] (defaults : d.settings = defaultSettings) (decoded : Decoded assert)
    (caps : WithinDefaults assert) (clean : d.Clean) {tail : Bytes} (unread : d.unread = framed assert ++ tail)
    (ending : tail = [] ∨ nl <+: tail) (notBare : tail = [] ∨ ¬(assert.signature = nl ∧ ¬nlnl <:+: assert.content)) :
    ∃ d', d.decode = .ok (.ok (withFramedSignature assert), d') ∧ d'.unread = tail.drop 1 ∧ d'.Clean ∧
      d'.settings = d.settings := by
  have known := hasDefaults defaults
  have block := lineBlock_of_parseHeaders decoded.headers
  have ends : EndsAtFirstSep ((splitContent assert.content).1 ++ nlnl) :=
    ⟨_, rfl, by simpa using index_block_append block.no_nlnl block.last_ne []⟩
  have headSize := caps.header
  rw [framed_eq decoded.signed] at unread
  cases found : index assert.content nlnl with
  | none =>
      have bare := index_eq_none_iff_not_infix.mp found
      have split : splitContent assert.content = (assert.content, []) := splitContent_block bare
      have bodyNil : assert.body = [] := by rw [decoded.body, split]
      rw [split] at ends headSize
      obtain ⟨d₁, read, unread₁, clean₁, settings₁⟩ := readUntil_found 5 clean
        (show d.unread = (assert.content ++ nlnl) ++ (framedSignature assert ++ tail) by simp [unread])
        ends (by rw [known.headerWindow, known.headers]; simpa [nlnl] using headSize) known.headerWindow.le
      obtain ⟨d', trailer, rest, clean', settings'⟩ := decodeTrailer_framed_bare (settings₁.trans defaults)
        decoded caps clean₁ unread₁ ending (notBare.imp_right fun notBoth same => notBoth ⟨same, bare⟩) bare
      refine ⟨d', ?_, rest, clean', settings'.trans settings₁⟩
      rw [decode_of_header read (by simpa [split] using decoded.headers) (valid_of_assemble decoded.assembled).bodyLength
        (by rw [(hasDefaults (settings₁.trans defaults)).body]; exact caps.body), bodyNil]
      simpa [decodeBody] using trailer
  | some p =>
      have layout : assert.content = (splitContent assert.content).1 ++ nlnl ++ assert.body := by
        obtain ⟨after, sep⟩ := (index_eq_some_iff.mp found).1
        have rest : assert.content.drop (p + 2) = after := by
          rw [← List.drop_drop, ← sep]
          rfl
        rw [decoded.body, splitContent, found]
        dsimp only
        rw [rest, List.append_assoc, sep, List.take_append_drop]
      have parsed := decoded.headers
      generalize (splitContent assert.content).1 = head at parsed ends headSize layout
      obtain ⟨d₁, read, unread₁, clean₁, settings₁⟩ := readUntil_found 5 clean
        (show d.unread = (head ++ nlnl) ++ (assert.body ++ (nlnl ++ (framedSignature assert ++ tail))) by
          rw [unread, layout]; simp)
        ends (by rw [known.headerWindow, known.headers]; simpa [nlnl] using headSize) known.headerWindow.le
      have defaults₁ := settings₁.trans defaults
      rw [decode_of_header read parsed (valid_of_assemble decoded.assembled).bodyLength (by rw [(hasDefaults defaults₁).body]; exact caps.body)]
      by_cases bodyNil : assert.body = []
      · have content : head ++ nlnl = assert.content := by
          rw [layout, bodyNil, List.append_nil]
        rw [bodyNil] at unread₁
        obtain ⟨d', trailer, rest, clean', settings'⟩ := decodeTrailer_framed_sep defaults₁ decoded caps clean₁
          (by simpa using unread₁) ending (by simp [bodyNil]) (fun h => absurd h (lt_irrefl 0))
        refine ⟨d', ?_, rest, clean', settings'.trans settings₁⟩
        rw [content, bodyNil]
        simpa [decodeBody] using trailer
      · have positive : (0 : Int) < assert.body.length := by
          have := List.length_pos.mpr bodyNil
          omega
        obtain ⟨d₂, readBody, unread₂, clean₂, settings₂⟩ :=
          readExact_clean clean₁ (show assert.body.length ≤ d₁.unread.length by simp [unread₁])
        rw [unread₁, List.take_left' rfl] at readBody
        rw [unread₁, List.drop_left' rfl] at unread₂
        obtain ⟨d', trailer, rest, clean', settings'⟩ := decodeTrailer_framed_sep (settings₂.trans defaults₁)
          decoded caps clean₂ unread₂ ending
          (show (if (0 : Int) < assert.body.length then assert.content.drop (head.length + 2) else []) =
            assert.body by rw [if_pos positive, layout]; simp [nlnl])
          (fun _ => by rw [layout]; simp [nlnl])
        refine ⟨d', ?_, rest, clean', (settings'.trans settings₂).trans settings₁⟩
        rw [decodeBody, if_pos positive, Int.toNat_natCast, readBody]
        dsimp only
        rw [show head ++ nlnl ++ assert.body = assert.content from layout.symm]
        exact trailer

/-- A clean decoder with nothing left reports `io.EOF`. -/
theorem decode_exhausted [Assemblers] (defaults : d.settings = defaultSettings) (clean : d.Clean) (empty : d.unread = []) :
    ∃ d', d.decode = .ok (.error (.io .eof), d') ∧ d'.unread = [] ∧ d'.Clean ∧ d'.settings = d.settings := by
  have known := hasDefaults defaults
  obtain ⟨d', read, rest, clean', settings'⟩ := readUntil_exhausted 0 clean (by simp [empty, nlnl])
    (by simp [empty]; exact d.initialBufSize_pos)
    (show d.initialBufSize * 2 ^ 0 ≤ d.maxHeadersSize by rw [← known.headerWindow]; omega)
  refine ⟨d', ?_, rest, clean', settings'⟩
  rw [decode, read, empty]
  rfl

/-- Successive `Decode` calls on the framed assertions, joined by single
newlines, return each with its framed signature, and then `io.EOF`, when no
assertion but the last is one without body whose signature is the lone
newline. -/
theorem decodeN_framed [Assemblers] (defaults : d.settings = defaultSettings) (clean : d.Clean) {asserts : List AssertionBase}
    (decoded : ∀ assert ∈ asserts, Decoded assert ∧ WithinDefaults assert)
    (notBare : ∀ assert ∈ asserts.dropLast, ¬(assert.signature = nl ∧ ¬nlnl <:+: assert.content))
    (unread : d.unread = nl.intercalate (asserts.map framed)) :
    ∃ d', d.decodeN (asserts.length + 1) =
      .ok (asserts.map (fun assert => .ok (withFramedSignature assert)) ++ [.error (.io .eof)], d') := by
  induction asserts generalizing d with
  | nil =>
      obtain ⟨d', decodedEOF, -⟩ := decode_exhausted defaults clean (by simpa using unread)
      exact ⟨d', decodeN_succ_eq_ok.mpr ⟨_, _, _, decodedEOF, rfl, rfl⟩⟩
  | cons assert rest ih =>
      obtain ⟨decodedHere, caps⟩ := decoded assert (List.mem_cons_self _ _)
      obtain ⟨tail, layout, ending, notBareHere, after⟩ : ∃ tail, d.unread = framed assert ++ tail ∧
          (tail = [] ∨ nl <+: tail) ∧ (tail = [] ∨ ¬(assert.signature = nl ∧ ¬nlnl <:+: assert.content)) ∧
          tail.drop 1 = nl.intercalate (rest.map framed) := by
        cases rest with
        | nil => exact ⟨[], by simpa [nl, intercalate_singleton] using unread, .inl rfl, .inl rfl, rfl⟩
        | cons next others =>
            exact ⟨nl ++ nl.intercalate ((next :: others).map framed), by rw [unread]; simp [nl, intercalate_cons_cons],
              .inr (List.prefix_append _ _), .inr (notBare assert (List.mem_cons_self _ _)), by simp [nl]⟩
      obtain ⟨d₁, decodedOne, unread₁, clean₁, settings₁⟩ :=
        decode_framed defaults decodedHere caps clean layout ending notBareHere
      have notBareRest : ∀ other ∈ rest.dropLast, ¬(other.signature = nl ∧ ¬nlnl <:+: other.content) := by
        intro other mem
        cases rest with
        | nil => simp at mem
        | cons next others => exact notBare other (List.mem_cons_of_mem _ mem)
      obtain ⟨d', run⟩ := ih (settings₁.trans defaults) clean₁
        (fun other mem => decoded other (List.mem_cons_of_mem _ mem)) notBareRest (unread₁.trans after)
      exact ⟨d', decodeN_succ_eq_ok.mpr ⟨_, _, _, decodedOne, run, rfl⟩⟩

end Decoder

/-! ## An account assertion -/

/-- The header block of an `account` assertion. -/
def accountHead : Bytes := ascii "type: account\nauthority-id: canonical\naccount-id: alice"

/-- The mapping of `accountHead`. -/
def accountHeaders : Headers :=
  (((∅ : Headers).insert (ascii "type") (ascii "account")).insert (ascii "authority-id") (ascii "canonical")).insert
    (ascii "account-id") (ascii "alice")

/-- The `account` assertion of `accountHead` without body, with a given
signature. -/
def accountAssert (signature : Bytes) : AssertionBase :=
  { headers := accountHeaders, body := [], revision := 0, content := accountHead, signature }

theorem parseHeaders_accountHead : parseHeaders accountHead = .ok accountHeaders := by
  rw [parseHeaders, if_pos (by decide),
    show accountHead.splitOn 10 =
      [ascii "type: account", ascii "authority-id: canonical", ascii "account-id: alice"] by decide,
    @parseEntries_single (ascii "type: account") (ascii "account") _ _ 4 (by decide) (by decide) (by decide),
    @parseEntries_single (ascii "authority-id: canonical") (ascii "canonical") _ _ 12 (by decide) (by decide)
      (by decide),
    @parseEntries_single (ascii "account-id: alice") (ascii "alice") _ _ 10 (by decide) (by decide) (by decide),
    parseEntries]
  rfl

theorem decoded_accountAssert {signature : Bytes} (signed : signature ≠ []) (noSep : ¬nlnl <:+: signature) :
    letI : Assemblers := acceptAll
    Decoded (accountAssert signature) := by
  letI : Assemblers := acceptAll
  have split : splitContent accountHead = (accountHead, []) := splitContent_block (by decide)
  refine ⟨by simpa [accountAssert, split] using parseHeaders_accountHead, by simp [accountAssert, split], ?_, noSep⟩
  exact assemble_resign (show assemble accountHeaders [] accountHead (ascii "sig") =
    .ok (accountAssert (ascii "sig")) from rfl) signed

theorem withinDefaults_accountAssert {signature : Bytes} (fits : signature.length + 2 ≤ maxSignatureSize) :
    WithinDefaults (accountAssert signature) :=
  ⟨by rw [show (accountAssert signature).content = accountHead from rfl, splitContent_block (by decide)]; decide,
    by show ([] : Bytes).length ≤ maxBodySize; decide, fits⟩

/-- A fresh decoder over the framing of an account assertion returns it with
its framed signature. -/
theorem decodeN_accountFramed {signature : Bytes} (signed : signature ≠ []) (noSep : ¬nlnl <:+: signature)
    (fits : signature.length + 2 ≤ maxSignatureSize) :
    letI : Assemblers := acceptAll
    ∃ d', (newDecoder (.script [⟨framed (accountAssert signature), some .eof⟩])).decodeN 1 =
      .ok ([.ok (withFramedSignature (accountAssert signature))], d') := by
  letI : Assemblers := acceptAll
  have clean : (newDecoder (.script [⟨framed (accountAssert signature), some .eof⟩])).Clean :=
    Decoder.clean_newDecoder fun _ mem => .inr (by rw [List.mem_singleton.mp mem])
  obtain ⟨d', decoded, -⟩ := Decoder.decode_framed (by rfl) (decoded_accountAssert signed noSep)
    (withinDefaults_accountAssert fits) clean (by simp [scriptStream]) (.inl rfl) (.inl rfl)
  exact ⟨d', Decoder.decodeN_succ_eq_ok.mpr ⟨_, d', [], decoded, rfl, rfl⟩⟩

/-! ## The stream round trip -/

/-- Assertions that either decoder returned, within the caps of `NewDecoder`,
come back through one `Encoder` and a fresh `NewDecoder` over its output,
however a reader cuts that output into reads: each with its framed
signature, and then `io.EOF`, as long as no assertion but the last is one
without body whose signature is the lone newline. -/
theorem decodeN_encodeAll [Assemblers] (asserts : List AssertionBase)
    (returned : ∀ assert ∈ asserts, (∃ serialized, decode serialized = .ok assert) ∨
      ∃ d d' : Decoder, d.decode = .ok (.ok assert, d'))
    (caps : ∀ assert ∈ asserts, WithinDefaults assert)
    (notBare : ∀ assert ∈ asserts.dropLast, ¬(assert.signature = nl ∧ ¬nlnl <:+: assert.content))
    {enc : Encoder} (encoded : newEncoder.encodeAll asserts = .ok enc)
    (results : List ReadResult) (chunks : CleanScript results) (delivered : scriptStream results = enc.written) :
    ∃ d', (newDecoder (.script results)).decodeN (asserts.length + 1) =
      .ok (asserts.map (fun assert => .ok (withFramedSignature assert)) ++ [.error (.io .eof)], d') := by
  obtain ⟨enc', encoded', written⟩ := newEncoder_encodeAll asserts
  rw [encoded, Except.ok.injEq] at encoded'
  subst encoded'
  refine Decoder.decodeN_framed (show (newDecoder (.script results)).settings = defaultSettings from rfl)
    (Decoder.clean_newDecoder chunks) (fun assert mem => ⟨?_, caps assert mem⟩)
    notBare (by rw [Decoder.unread_newDecoder, delivered, written])
  rcases returned assert mem with ⟨_, decoded⟩ | ⟨_, _, decoded⟩
  exacts [decoded_of_decode decoded, Decoder.decode_decoded decoded]

theorem decode_accountSerialized :
    letI : Assemblers := acceptAll
    decode (accountHead ++ nlnl ++ ascii "sig") = .ok (accountAssert (ascii "sig")) := by
  letI : Assemblers := acceptAll
  rw [decode_envelope (by decide) (by decide), decodeContent, splitContent_block (by decide)]
  simp only [parseHeaders_accountHead]
  rfl

/-- An account assertion decoded from a single envelope comes back through the
stream encoder and decoder. -/
theorem decodeN_encodeAll_account :
    letI : Assemblers := acceptAll
    ∃ d', (newDecoder (.script [⟨framed (accountAssert (ascii "sig")), some .eof⟩])).decodeN 2 =
      .ok ([.ok (withFramedSignature (accountAssert (ascii "sig"))), .error (.io .eof)], d') :=
  letI : Assemblers := acceptAll
  decodeN_encodeAll [accountAssert (ascii "sig")]
    (fun _ mem => .inl ⟨_, List.mem_singleton.mp mem ▸ decode_accountSerialized⟩)
    (fun _ mem => List.mem_singleton.mp mem ▸ withinDefaults_accountAssert (by decide)) (by simp) rfl
    [⟨framed (accountAssert (ascii "sig")), some .eof⟩] (fun _ mem => .inr (by rw [List.mem_singleton.mp mem])) rfl

/-- An account assertion without body and with the lone newline as its
signature, which the streaming decoder returns, is not read back when a
second assertion follows it: the decoder takes the newline that separates
them as the `"\n\n"` before a signature, returns another content, and then
fails. -/
theorem decodeN_encodeAll_bareNewline :
    letI : Assemblers := acceptAll
    (∃ d, (newDecoder (.script [⟨framed (accountAssert nl), some .eof⟩])).decodeN 1 =
      .ok ([.ok (accountAssert nl)], d)) ∧
    ∃ enc, newEncoder.encodeAll [accountAssert nl, accountAssert nl] = .ok enc ∧
      ∃ first d, (newDecoder (.script [⟨enc.written, some .eof⟩])).decodeN 2 =
        .ok ([.ok first, .error (.io .unexpectedEOF)], d) ∧ first.content ≠ (accountAssert nl).content := by
  letI : Assemblers := acceptAll
  refine ⟨decodeN_accountFramed (by decide) (by decide) (by decide), _, rfl, ?_⟩
  have endsHead : Decoder.EndsAtFirstSep (accountHead ++ nlnl) := ⟨accountHead, rfl, by decide⟩
  generalize hd₀ : newDecoder (.script [⟨_, some .eof⟩]) = d₀
  have clean₀ : d₀.Clean := hd₀ ▸ Decoder.clean_newDecoder fun _ mem => .inr (by rw [List.mem_singleton.mp mem])
  have known₀ : HasDefaults d₀ := hasDefaults (hd₀ ▸ rfl)
  have unread₀ : d₀.unread = (accountHead ++ nlnl) ++ (nlnl ++ ((accountHead ++ nlnl) ++ nl)) := by
    rw [← hd₀, Decoder.unread_newDecoder]
    decide
  -- the header block, then the newline that separates the assertions read as the trailer
  obtain ⟨d₁, read₁, unread₁, clean₁, settings₁⟩ := Decoder.readUntil_found 5 clean₀ unread₀ endsHead
    (by rw [known₀.headerWindow, known₀.headers]; decide) known₀.headerWindow.le
  have known₁ : HasDefaults d₁ := hasDefaults (settings₁.trans (hd₀ ▸ rfl))
  obtain ⟨d₂, read₂, unread₂, clean₂, settings₂⟩ := Decoder.readUntil_found 5 clean₁ unread₁ ⟨[], rfl, by decide⟩
    (by rw [known₁.sigWindow, known₁.signature]; decide) known₁.sigWindow.le
  have known₂ : HasDefaults d₂ := hasDefaults (settings₂.trans (settings₁.trans (hd₀ ▸ rfl)))
  -- the header block of the second assertion read as the signature
  obtain ⟨d₃, read₃, unread₃, clean₃, settings₃⟩ := Decoder.readUntil_found 5 clean₂ unread₂ endsHead
    (by rw [known₂.sigWindow, known₂.signature]; decide) known₂.sigWindow.le
  have known₃ : HasDefaults d₃ := hasDefaults (settings₃.trans (settings₂.trans (settings₁.trans (hd₀ ▸ rfl))))
  obtain ⟨d₄, read₄, -⟩ := Decoder.readUntil_exhausted 0 clean₃ (by rw [unread₃]; decide)
    (by rw [unread₃, known₃.initial]; decide)
    (show d₃.initialBufSize * 2 ^ 0 ≤ d₃.maxHeadersSize by rw [← known₃.headerWindow]; omega)
  have first : d₀.decode =
      .ok (.ok { accountAssert (accountHead ++ nl) with content := accountHead ++ nlnl }, d₃) := by
    rw [Decoder.decode_of_header read₁ parseHeaders_accountHead rfl (by rw [known₁.body]; decide),
      Decoder.decodeBody, if_neg (by decide), Decoder.decodeTrailer, read₂]
    dsimp only
    rw [Decoder.decodeSignature, if_pos rfl, read₃]
    rfl
  have second : d₃.decode = .ok (.error (.io .unexpectedEOF), d₄) := by
    rw [Decoder.decode, read₄, unread₃]
    rfl
  exact ⟨_, d₄, Decoder.decodeN_succ_eq_ok.mpr ⟨_, d₃, _, first,
    Decoder.decodeN_succ_eq_ok.mpr ⟨_, d₄, [], second, rfl, rfl⟩, rfl⟩, by decide⟩

/-! ## The two decoders -/

/-- The two decoders agree on what the streaming one returns on a plain
reader in any chunking, whenever the signature does not start with a
newline: the single-shot `Decode` of the assertion's encoding returns that
same assertion. -/
theorem decode_encode_streamed [Assemblers] :
    ∀ results n outcomes d', (newDecoder (.script results)).decodeN n = .ok (outcomes, d') →
      ∀ assert, .ok assert ∈ outcomes → assert.signature.head? ≠ some 10 →
        decode (encode assert) = .ok assert := by
  intro results n outcomes d' run assert returned noLead
  have decoded := Decoder.decodeN_decoded run returned
  rw [encode, decode_envelope decoded.no_sep noLead, decodeContent, decoded.headers]
  simp only
  rw [← decoded.body, decoded.assembled]
  rfl

theorem decode_encode_streamed_account :
    letI : Assemblers := acceptAll
    decode (encode (withFramedSignature (accountAssert (ascii "sig")))) =
      .ok (withFramedSignature (accountAssert (ascii "sig"))) := by
  letI : Assemblers := acceptAll
  obtain ⟨d', run⟩ := decodeN_accountFramed (by decide : ascii "sig" ≠ []) (by decide) (by decide)
  exact decode_encode_streamed _ _ _ _ run _ (List.mem_singleton_self _) (by decide)

/-- The account assertion with the lone newline as its signature, which the
streaming decoder returns, does not survive the single-shot decoder: its
encoding ends in three newlines, and `Decode` cuts at the last two, leaving
an empty signature. -/
theorem decode_encode_streamed_bareNewline :
    letI : Assemblers := acceptAll
    (∃ d, (newDecoder (.script [⟨framed (accountAssert nl), some .eof⟩])).decodeN 1 =
      .ok ([.ok (accountAssert nl)], d)) ∧
    ∀ assert, decode (encode (accountAssert nl)) ≠ .ok assert := by
  letI : Assemblers := acceptAll
  refine ⟨decodeN_accountFramed (by decide) (by decide) (by decide), fun assert decoded => ?_⟩
  obtain ⟨split, found, decodedContent⟩ := decode_eq_ok decoded
  obtain ⟨-, -, -, signature, valid⟩ := decodeContent_eq_ok decodedContent
  have lastSep : lastIndex (encode (accountAssert nl)) nlnl = some (accountHead.length + 1) := by decide
  rw [lastSep, Option.some.injEq] at found
  subst found
  exact valid.signature (by rw [signature]; decide)

end SnapdAsserts