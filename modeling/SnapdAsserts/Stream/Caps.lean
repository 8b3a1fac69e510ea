import SnapdAsserts.Stream.Reachable
import SnapdAsserts.Stream.RoundTrip

/-!
# The decoder's size caps

`NewDecoder` bounds what a `Decode` call reads by `MaxHeadersSize`,
`MaxBodySize` and `MaxSignatureSize`.  For every decoder with
`initialBufSize` at most the smallest cap, whatever its reader and its
state, every `peek` a `Decode` call makes, those `decodePeeks` lists,
whether the call returns or panics, asks for no more than the largest cap,
and every assertion it returns has its header block and separator, its
body and its signature within their caps (`Decoder.decode_caps`).  The
bounds come from `readUntil`, whose window doubles only up to its cap and
which returns no more than the window, and from the body-length check
before `readExact`.
-/

namespace SnapdAsserts

theorem normalizeSig_length_le (sig : Bytes) : (normalizeSig sig).length ≤ sig.length := by
  unfold normalizeSig
  split_ifs
  · simp
  · exact le_rfl

/-- An assertion whose header block and its separator, body and signature
are within the given caps. -/
structure Capped (maxHeaders maxBody maxSig : Nat) (assert : AssertionBase) : Prop where
  headers : (splitContent assert.content).1.length + nlnl.length ≤ maxHeaders
  body : assert.body.length ≤ maxBody
  signature : assert.signature.length ≤ maxSig

namespace Decoder

theorem settings_eq_iff {d d' : Decoder} :
    d'.settings = d.settings ↔ d'.initialBufSize = d.initialBufSize ∧ d'.maxHeadersSize = d.maxHeadersSize ∧
      d'.maxBodySize = d.maxBodySize ∧ d'.maxSigSize = d.maxSigSize := by
  simp [settings]

section
variable {d d' : Decoder}

theorem readUntil_settings {maxSize : Nat} {result : Bytes × Option ReadError}
    (read : d.readUntil nlnl maxSize = .ok (result, d')) : d'.settings = d.settings :=
  ((readUntil_traced d maxSize).trace read).run.settings

/-- `readUntil` from a window within `maxSize` returns at most `maxSize`
bytes. -/
theorem readUntil_length_le {maxSize : Nat} {buf : Bytes} {err : Option ReadError}
    (initial : d.initialBufSize ≤ maxSize) (read : d.readUntil nlnl maxSize = .ok ((buf, err), d')) :
    buf.length ≤ maxSize :=
  readUntilLoop_length_le initial (fun _ inside => inside) read

theorem readExact_settings {size : Nat} {result : Bytes × Option IoError}
    (read : d.readExact size = .ok (result, d')) : d'.settings = d.settings :=
  ((readExact_traced d size).trace read).run.settings

theorem readExact_length_le {size : Nat} {buf : Bytes} {err : Option IoError}
    (read : d.readExact size = .ok ((buf, err), d')) : buf.length ≤ size := by
  unfold readExact at read
  cases peeked : d.peek size with
  | error p => simp [peeked, Except.map] at read
  | ok step =>
  obtain ⟨⟨buf₁, err₁⟩, d₁⟩ := step
  simp only [peeked, Except.map, Except.ok.injEq] at read
  have same : buf₁ = buf := by split_ifs at read <;> exact (Prod.mk.inj (Prod.mk.inj read).1).1
  exact same ▸ (peek_extends peeked).at_most

end

/-! ## The sizes a call asks `peek` for -/

/-- `readUntil`'s loop asks for its first window, then doubles it only up
to `maxSize`. -/
theorem readUntilLoopPeeks_le (delim : Bytes) (maxSize : Nat) (last : Int) (size : Nat) (positive : 0 < size)
    (d : Decoder) : ∀ request ∈ readUntilLoopPeeks delim maxSize last size positive d, request ≤ max size maxSize := by
  induction' hk : maxSize + 1 - size using Nat.strong_induction_on with k ih generalizing size last d
  rw [readUntilLoopPeeks]
  intro request mem
  rcases List.mem_cons.mp mem with rfl | later
  · exact le_max_left _ _
  split at later
  · nomatch later
  split_ifs at later with grows
  · have doubled := ih _ (by omega) _ _ _ _ rfl request later
    have := grows.2.2.2
    omega
  · nomatch later

section
variable {cap : Nat} {d : Decoder}

theorem readUntilPeeks_le {maxSize : Nat} (initial : d.initialBufSize ≤ cap) (capped : maxSize ≤ cap) :
    ∀ size ∈ d.readUntilPeeks nlnl maxSize, size ≤ cap := fun size mem =>
  (readUntilLoopPeeks_le _ _ _ _ _ _ size mem).trans (max_le initial capped)

theorem decodeSignaturePeeks_le (within : WithinCap cap d) (endOfBody : Bytes) :
    ∀ size ∈ d.decodeSignaturePeeks endOfBody, size ≤ cap := by
  unfold decodeSignaturePeeks
  split_ifs
  · exact readUntilPeeks_le within.initial within.signature
  · exact fun _ none => nomatch none

theorem decodeTrailerPeeks_le (within : WithinCap cap d) : ∀ size ∈ d.decodeTrailerPeeks, size ≤ cap := by
  unfold decodeTrailerPeeks
  intro size mem
  rcases List.mem_append.mp mem with first | later
  · exact readUntilPeeks_le within.initial within.signature size first
  cases read : d.readUntil nlnl d.maxSigSize with
  | error p => simp only [read] at later; nomatch later
  | ok step =>
  obtain ⟨⟨endOfBody, err⟩, d₁⟩ := step
  simp only [read] at later
  split at later
  · nomatch later
  · exact decodeSignaturePeeks_le (within.of_settings (readUntil_settings read)) endOfBody size later

/-- A body is read whole by one `peek` of its length, which the body-length
check keeps within `maxBodySize`. -/
theorem decodeBodyPeeks_le (within : WithinCap cap d) {length : Int} (bodySize : length ≤ d.maxBodySize) :
    ∀ size ∈ d.decodeBodyPeeks length, size ≤ cap := by
  unfold decodeBodyPeeks
  split_ifs with positive
  · intro size mem
    rcases List.mem_cons.mp mem with rfl | later
    · have := within.body
      omega
    cases read : d.readExact length.toNat with
    | error p => simp only [read] at later; nomatch later
    | ok step =>
    obtain ⟨⟨body, err⟩, d₁⟩ := step
    cases err with
    | some e => simp only [read] at later; nomatch later
    | none =>
    simp only [read] at later
    exact decodeTrailerPeeks_le (within.of_settings (readExact_settings read)) size later
  · exact decodeTrailerPeeks_le within

/-- Every `peek` a `Decode` call makes, returning or panicking, is within
a cap over the decoder's initial window and caps. -/
theorem decodePeeks_le (within : WithinCap cap d) : ∀ size ∈ d.decodePeeks, size ≤ cap := by
  unfold decodePeeks
  intro size mem
  rcases List.mem_append.mp mem with first | later
  · exact readUntilPeeks_le within.initial within.headers size first
  cases read : d.readUntil nlnl d.maxHeadersSize with
  | error p => simp only [read] at later; nomatch later
  | ok step =>
  obtain ⟨⟨headAndSep, err⟩, d₁⟩ := step
  cases err with
  | some e => simp only [read] at later; nomatch later
  | none =>
  simp only [read] at later
  have same := readUntil_settings read
  split_ifs at later
  · nomatch later
  split at later
  · nomatch later
  split at later
  · nomatch later
  split_ifs at later with tooLarge
  · nomatch later
  · nomatch later
  · have bodySize : _ ≤ (d₁.maxBodySize : Int) := not_lt.mp tooLarge
    exact decodeBodyPeeks_le (within.of_settings same) bodySize size later

end

/-- A `Decode` call that returns reaches its state by `peek`s within a cap
over the decoder's initial window and caps. -/
theorem decode_run [Assemblers] {cap : Nat} {d d' : Decoder} {result : Except StreamError AssertionBase}
    (within : WithinCap cap d) (decoded : d.decode = .ok (result, d')) : Run (· ≤ cap) d d' :=
  (decode_trace decoded).run.mono (decodePeeks_le within)

/-! ## What an assertion `Decode` returns is within the caps -/

section
variable {d d' : Decoder} {headers : Headers} {length : Int} {head body : Bytes} {assert : AssertionBase}
  {maxHeaders maxBody : Nat}

/-- The assertion `finishDecode` builds from a header block and a body
within their caps, and a signature within `maxSig`, is within the caps. -/
theorem capped_of_finishDecode [Assemblers] {content sig : Bytes} {maxSig : Nat}
    (headFits : head.length + nlnl.length ≤ maxHeaders) (bodyFits : body.length ≤ maxBody)
    (split : splitContent content = (head, if 0 < length then body else []))
    (drop : 0 < length → content.drop (head.length + 2) = body) (sigFits : sig.length ≤ maxSig)
    (finished : finishDecode headers length content head.length sig = .ok (.ok assert)) :
    Capped maxHeaders maxBody maxSig assert := by
  obtain ⟨revision, -, rfl, -⟩ := assemble_eq_ok_iff.mp (finishDecode_eq_ok finished)
  refine ⟨by rw [split]; exact headFits, ?_, (normalizeSig_length_le sig).trans sigFits⟩
  dsimp only
  split_ifs with positive
  · rw [drop positive]; exact bodyFits
  · exact Nat.zero_le _

theorem decodeSignature_capped [Assemblers] (noSep : ¬nlnl <:+: head) (lastNe : head.getLast? ≠ some 10)
    (headFits : head.length + nlnl.length ≤ maxHeaders) (bodyFits : body.length ≤ maxBody)
    (bodyNil : ¬0 < length → body = []) (initial : d.initialBufSize ≤ d.maxSigSize) {endOfBody : Bytes}
    (endFits : endOfBody.length ≤ d.maxSigSize)
    (decoded : d.decodeSignature headers length (head ++ nlnl ++ body) head.length endOfBody =
      .ok (.ok assert, d')) : Capped maxHeaders maxBody d.maxSigSize assert := by
  unfold decodeSignature at decoded
  split_ifs at decoded with sep positive short
  · cases read : d.readUntil nlnl d.maxSigSize with
    | error p => simp [read] at decoded
    | ok step =>
    obtain ⟨⟨sig, err⟩, d₁⟩ := step
    simp only [read] at decoded
    cases ok : err.filter (· != .io .eof) with
    | some e => simp [ok] at decoded
    | none =>
    cases finished : finishDecode headers length (head ++ nlnl ++ body) head.length sig with
    | error p => simp [ok, finished, Except.map, -List.append_assoc] at decoded
    | ok outcome =>
    simp only [ok, finished, Except.map, Except.ok.injEq, Prod.mk.injEq] at decoded
    obtain ⟨rfl, -⟩ := decoded
    refine capped_of_finishDecode headFits bodyFits ?_ (fun _ => by simp [nlnl])
      (readUntil_length_le initial read) finished
    rw [splitContent_block_append noSep lastNe]
    split_ifs with positive
    · rfl
    · rw [bodyNil positive]
  · cases decoded
  · rw [bodyNil positive, List.append_nil, List.take_left' rfl] at decoded
    cases finished : finishDecode headers length head head.length endOfBody with
    | error p => simp [finished, Except.map] at decoded
    | ok outcome =>
    simp only [finished, Except.map, Except.ok.injEq, Prod.mk.injEq] at decoded
    obtain ⟨rfl, -⟩ := decoded
    exact capped_of_finishDecode headFits bodyFits (by rw [splitContent_block noSep, if_neg positive])
      (fun inside => absurd inside positive) endFits finished

theorem decodeTrailer_capped [Assemblers] (noSep : ¬nlnl <:+: head) (lastNe : head.getLast? ≠ some 10)
    (headFits : head.length + nlnl.length ≤ maxHeaders) (bodyFits : body.length ≤ maxBody)
    (bodyNil : ¬0 < length → body = []) (initial : d.initialBufSize ≤ d.maxSigSize)
    (decoded : d.decodeTrailer headers length (head ++ nlnl ++ body) head.length = .ok (.ok assert, d')) :
    Capped maxHeaders maxBody d.maxSigSize assert := by
  unfold decodeTrailer at decoded
  cases read : d.readUntil nlnl d.maxSigSize with
  | error p => simp [read] at decoded
  | ok step =>
  obtain ⟨⟨endOfBody, err⟩, d₁⟩ := step
  simp only [read] at decoded
  cases ok : err.filter (· != .io .eof) with
  | some e => simp [ok] at decoded
  | none =>
  rw [ok] at decoded
  obtain ⟨initial₁, -, -, signature₁⟩ := settings_eq_iff.mp (readUntil_settings read)
  have endFits := readUntil_length_le initial read
  rw [← initial₁, ← signature₁] at initial
  rw [← signature₁] at endFits ⊢
  exact decodeSignature_capped noSep lastNe headFits bodyFits bodyNil initial endFits decoded

theorem decodeBody_capped [Assemblers] (noSep : ¬nlnl <:+: head) (lastNe : head.getLast? ≠ some 10)
    (headFits : head.length + nlnl.length ≤ maxHeaders) (bodySize : length ≤ maxBody)
    (initial : d.initialBufSize ≤ d.maxSigSize)
    (decoded : d.decodeBody headers length (head ++ nlnl) head.length = .ok (.ok assert, d')) :
    Capped maxHeaders maxBody d.maxSigSize assert := by
  unfold decodeBody at decoded
  split_ifs at decoded with positive
  · cases read : d.readExact length.toNat with
    | error p => simp [read] at decoded
    | ok step =>
    obtain ⟨⟨body, err⟩, d₁⟩ := step
    cases err with
    | some e => simp [read] at decoded
    | none =>
    simp only [read] at decoded
    obtain ⟨initial₁, -, -, signature₁⟩ := settings_eq_iff.mp (readExact_settings read)
    have bodyFits : body.length ≤ maxBody := by have := readExact_length_le read; omega
    rw [← initial₁, ← signature₁] at initial
    rw [← signature₁]
    exact decodeTrailer_capped noSep lastNe headFits bodyFits (fun h => absurd positive h) initial decoded
  · have noBody : d.decodeTrailer headers length (head ++ nlnl ++ []) head.length = .ok (.ok assert, d') := by
      simpa using decoded
    exact decodeTrailer_capped noSep lastNe headFits (Nat.zero_le _) (fun _ => rfl) initial noBody

end

/-- The size caps hold however the input is shaped: for every decoder with
`initialBufSize` at most each of its caps, over any reader and in any
state, every `peek` a `Decode` call makes, whether it returns or panics,
asks for at most the largest cap, and every assertion it returns has its
header block and the `"\n\n"` after it within `maxHeadersSize`, its body
within `maxBodySize` and its signature within `maxSigSize`. -/
theorem decode_caps [Assemblers] {d : Decoder}
    (initial : d.initialBufSize ≤ min d.maxHeadersSize (min d.maxBodySize d.maxSigSize)) :
    (∀ size ∈ d.decodePeeks, size ≤ max d.maxHeadersSize (max d.maxBodySize d.maxSigSize)) ∧
      Traced d.decodePeeks d d.decode ∧
      ∀ assert d', d.decode = .ok (.ok assert, d') →
        Capped d.maxHeadersSize d.maxBodySize d.maxSigSize assert := by
  refine ⟨decodePeeks_le ⟨by omega, by omega, by omega, by omega⟩, decode_traced d, fun assert d' decoded => ?_⟩
  obtain ⟨headAndSep, d₁, headers, length, read, -, -, -, bodySize, decoded⟩ := decode_eq_ok_ok decoded
  have headFits := readUntil_length_le (by omega) read
  obtain ⟨initial₁, -, body₁, signature₁⟩ := settings_eq_iff.mp (readUntil_settings read)
  obtain ⟨head, rfl, first⟩ := (readUntil_delimited read).found rfl
  obtain ⟨noSep, lastNe⟩ := not_sep_of_first first
  rw [show (head ++ nlnl).length - nlnl.length = head.length by simp] at decoded
  rw [body₁] at bodySize
  rw [← signature₁]
  exact decodeBody_capped noSep lastNe (by simpa using headFits) bodySize (by omega) decoded

/-- A fresh decoder over one `account` assertion asks for no more than
2 MiB and returns the assertion within the caps. -/
theorem decode_caps_account :
    letI : Assemblers := acceptAll
    (∀ size ∈ (newDecoder (.script [⟨framed (accountAssert (ascii "sig")), some .eof⟩])).decodePeeks,
        size ≤ 2 * 1024 * 1024) ∧
      ∃ assert d', (newDecoder (.script [⟨framed (accountAssert (ascii "sig")), some .eof⟩])).decode =
        .ok (.ok assert, d') ∧ Capped (128 * 1024) (2 * 1024 * 1024) (128 * 1024) assert := by
  letI : Assemblers := acceptAll
  obtain ⟨bounds, -, capped⟩ :=
    decode_caps (d := newDecoder (.script [⟨framed (accountAssert (ascii "sig")), some .eof⟩])) (by decide)
  have clean : (newDecoder (.script [⟨framed (accountAssert (ascii "sig")), some .eof⟩])).Clean :=
    clean_newDecoder fun _ mem => .inr (by rw [List.mem_singleton.mp mem])
  obtain ⟨d', decoded, -⟩ := decode_framed (by rfl) (@decoded_accountAssert (ascii "sig") (by decide) (by decide))
    (withinDefaults_accountAssert (by decide)) clean (by simp [scriptStream]) (.inl rfl) (.inl rfl)
  exact ⟨bounds, _, d', decoded, capped _ _ decoded⟩

end Decoder

end SnapdAsserts
