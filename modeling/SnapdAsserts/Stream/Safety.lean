import SnapdAsserts.Stream.RoundTrip

/-!
# Which panic `Decode` can reach

On a plain reader `peek`, `readExact` and `readUntil` never panic
(`Unread`), and neither do the steps of `Decode` after the header block: the
content they slice always holds the header block and its separator.  The one
panic left is that of `make`, on a `body-length` below minus the length of
the header block and its separator (`Decoder.decode_panic`), and a stream
with `body-length: -1000` reaches it (`decode_negativeBodyLength`).
-/

namespace SnapdAsserts
namespace Decoder

theorem finishDecode_ne_error [Assemblers] {headers : Headers} {length : Int} {content : Bytes} {headLen : Nat} {sig : Bytes}
    (long : 0 < length → headLen + 2 ≤ content.length) (p : Panic) :
    finishDecode headers length content headLen sig ≠ .error p := by
  unfold finishDecode
  rw [if_neg fun ⟨positive, short⟩ => by have := long positive; simp [nlnl] at short; omega]
  simp

theorem map_ne_error {α : Type} {x : Except Panic α} {d : Decoder} (p : Panic)
    (never : ∀ p', x ≠ .error p') : x.map (·, d) ≠ .error p := by
  cases x with
  | error p' => exact absurd rfl (never p')
  | ok _ => simp [Except.map]

variable {d : Decoder} {headers : Headers} {length : Int} {content : Bytes} {headLen : Nat}

/-- After the trailer, `Decode` does not panic on a content that holds the
header block and its separator. -/
theorem decodeSignature_ne_error [Assemblers] (settled : d.Settled) (long : headLen + 2 ≤ content.length) {endOfBody : Bytes}
    (p : Panic) : d.decodeSignature headers length content headLen endOfBody ≠ .error p := by
  unfold decodeSignature
  by_cases sep : endOfBody = nlnl
  · obtain ⟨sig, err, d₁, read, -⟩ := readUntil_settled settled d.maxSigSize
    rw [if_pos sep, read]
    dsimp only
    split
    · simp
    · exact map_ne_error p (finishDecode_ne_error fun _ => long)
  rw [if_neg sep]
  by_cases positive : 0 < length
  · simp [positive]
  rw [if_neg positive, if_neg (by omega)]
  exact map_ne_error p (finishDecode_ne_error fun h => absurd h positive)

theorem decodeTrailer_ne_error [Assemblers] (settled : d.Settled) (long : headLen + 2 ≤ content.length) (p : Panic) :
    d.decodeTrailer headers length content headLen ≠ .error p := by
  obtain ⟨endOfBody, err, d₁, read, reads⟩ := readUntil_settled settled d.maxSigSize
  rw [decodeTrailer, read]
  dsimp only
  split
  · simp
  · exact decodeSignature_ne_error reads.settled long p

theorem decodeBody_ne_error [Assemblers] (settled : d.Settled) {headAndSep : Bytes} (long : headLen + 2 ≤ headAndSep.length)
    (p : Panic) : d.decodeBody headers length headAndSep headLen ≠ .error p := by
  unfold decodeBody
  split_ifs
  · obtain ⟨body, err, d₁, read, settled₁, -⟩ := readExact_settled settled length.toNat
    rw [read]
    cases err with
    | some e => simp
    | none => exact decodeTrailer_ne_error settled₁ (by simp; omega) p
  · exact decodeTrailer_ne_error settled long p

/-- On a plain reader, the one panic `Decode` can reach is that of `make`,
after a header block whose `body-length` is below minus the length of the
block and its separator. -/
theorem decode_panic [Assemblers] (settled : d.Settled) {p : Panic} (panicked : d.decode = .error p) :
    p = .makeslice ∧ ∃ head headers length, parseHeaders head = .ok headers ∧
      checkInteger headers (ascii "body-length") 0 = .ok length ∧ (head.length : Int) + 2 + length < 0 := by
  obtain ⟨headAndSep, err, d₁, read, reads⟩ := readUntil_settled settled d.maxHeadersSize
  rw [decode, read] at panicked
  cases err with
  | some e => simp at panicked
  | none =>
  obtain ⟨head, rfl, -⟩ := reads.found rfl
  dsimp only at panicked
  rw [if_neg (by simp [nlnl]), show (head ++ nlnl).length - nlnl.length = head.length by simp,
    List.take_left' rfl] at panicked
  cases parsed : parseHeaders head with
  | error e => simp [parsed] at panicked
  | ok headers =>
  simp only [parsed] at panicked
  cases lengthOk : checkInteger headers (ascii "body-length") 0 with
  | error e => simp [lengthOk] at panicked
  | ok length =>
  simp only [lengthOk] at panicked
  by_cases tooBig : (d₁.maxBodySize : Int) < length
  · simp [tooBig] at panicked
  rw [if_neg tooBig] at panicked
  by_cases negative : ((head ++ nlnl).length : Int) + length < 0
  · rw [if_pos negative] at panicked
    refine ⟨(Except.error.inj panicked).symm, head, headers, length, parsed, lengthOk, ?_⟩
    simpa [nlnl] using negative
  rw [if_neg negative] at panicked
  exact absurd panicked (decodeBody_ne_error reads.settled (by simp [nlnl]) p)

end Decoder

/-- The account header block with a negative `body-length`. -/
def negativeLengthHead : Bytes :=
  ascii "type: account\nauthority-id: canonical\naccount-id: alice\nbody-length: -1000"

/-- On a stream whose header block holds `body-length: -1000`, `Decode`
passes `make` a negative capacity. -/
theorem decode_negativeBodyLength [Assemblers] :
    (newDecoder (.script [⟨negativeLengthHead ++ nlnl ++ ascii "sig", some .eof⟩])).decode = .error .makeslice := by
  have parsed : parseHeaders negativeLengthHead =
      .ok (accountHeaders.insert (ascii "body-length") (ascii "-1000")) := by
    rw [parseHeaders, if_pos (by decide),
      show negativeLengthHead.splitOn 10 = [ascii "type: account", ascii "authority-id: canonical",
        ascii "account-id: alice", ascii "body-length: -1000"] by decide,
      @parseEntries_single (ascii "type: account") (ascii "account") _ _ 4 (by decide) (by decide) (by decide),
      @parseEntries_single (ascii "authority-id: canonical") (ascii "canonical") _ _ 12 (by decide) (by decide)
        (by decide),
      @parseEntries_single (ascii "account-id: alice") (ascii "alice") _ _ 10 (by decide) (by decide) (by decide),
      @parseEntries_single (ascii "body-length: -1000") (ascii "-1000") _ _ 11 (by decide) (by decide)
        (by decide),
      parseEntries]
    rfl
  generalize hd₀ : newDecoder (.script [⟨negativeLengthHead ++ nlnl ++ ascii "sig", some .eof⟩]) = d₀
  have clean₀ : d₀.Clean := hd₀ ▸ Decoder.clean_newDecoder fun _ mem => .inr (by rw [List.mem_singleton.mp mem])
  have known₀ : HasDefaults d₀ := hasDefaults (hd₀ ▸ rfl)
  obtain ⟨d₁, read, -, -, settings₁⟩ := Decoder.readUntil_found 5 clean₀
    (show d₀.unread = (negativeLengthHead ++ nlnl) ++ ascii "sig" by rw [← hd₀, Decoder.unread_newDecoder]; rfl)
    ⟨negativeLengthHead, rfl, by decide⟩ (by rw [known₀.headerWindow, known₀.headers]; decide)
    known₀.headerWindow.le
  have known₁ : HasDefaults d₁ := hasDefaults (settings₁.trans (hd₀ ▸ rfl))
  rw [Decoder.decode, read]
  dsimp only
  rw [if_neg (by decide), show (negativeLengthHead ++ nlnl).length - nlnl.length = negativeLengthHead.length by simp,
    List.take_left' rfl, parsed]
  dsimp only
  rw [show checkInteger (accountHeaders.insert (ascii "body-length") (ascii "-1000")) (ascii "body-length") 0 =
    .ok (-1000) from rfl]
  dsimp only
  rw [if_neg (by rw [known₁.body]; decide), if_pos (by decide)]

end SnapdAsserts
