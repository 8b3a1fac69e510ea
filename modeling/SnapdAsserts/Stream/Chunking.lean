import SnapdAsserts.Stream.Complete

/-!
# `Decode` does not depend on how the reader chunks the stream

A reader may deliver a stream in chunks of any sizes.  Over a clean reader,
which answers each read with some bytes or with `io.EOF`, nothing `Decode`
returns depends on them: two clean decoders with the same bytes still to
read, the same sticky error and the same settings (`SameStream`) return the
same from every call, or panic alike, and are again alike after it
(`Decoder.SameStream.decode`).  So `n` calls of `Decode` on `NewDecoder`
over two clean readers of one stream return the same
(`Decoder.decodeN_chunking`).

The relation is a simulation of one decoder by the other.  `peek` returns
the first unread bytes with the sticky error on both, and every other step of
`Decode` is a `peek`, a `Discard` of bytes it returned, or a computation on
what it returned.  The one place the code reads the buffer itself,
`len(buf) == d.b.Buffered()` in `readUntil`, is reached only after an error,
when a clean decoder has buffered all there is.
-/

namespace SnapdAsserts
namespace Decoder

/-- Two clean decoders that no call can tell apart. -/
structure SameStream (d₁ d₂ : Decoder) : Prop where
  clean₁ : d₁.Clean
  clean₂ : d₂.Clean
  unread : d₁.unread = d₂.unread
  err : d₁.err = d₂.err
  settings : d₁.settings = d₂.settings

/-- What a call does on two alike decoders: return the same, leaving them
alike, or panic alike. -/
def SameResult {α : Type} : Except Panic (α × Decoder) → Except Panic (α × Decoder) → Prop
  | .ok (a₁, d₁), .ok (a₂, d₂) => a₁ = a₂ ∧ SameStream d₁ d₂
  | .error p₁, .error p₂ => p₁ = p₂
  | _, _ => False

namespace SameResult

variable {α β : Type}

/-- Two alike outcomes, taken apart. -/
theorem cases {x₁ x₂ : Except Panic (α × Decoder)} (same : SameResult x₁ x₂) :
    (∃ p, x₁ = .error p ∧ x₂ = .error p) ∨
      ∃ a d₁ d₂, x₁ = .ok (a, d₁) ∧ x₂ = .ok (a, d₂) ∧ SameStream d₁ d₂ := by
  rcases x₁ with p | ⟨a, d₁⟩ <;> rcases x₂ with q | ⟨b, d₂⟩ <;> simp only [SameResult] at same
  · exact .inl ⟨p, rfl, same ▸ rfl⟩
  · obtain ⟨rfl, alike⟩ := same
    exact .inr ⟨a, d₁, d₂, rfl, rfl, alike⟩

theorem map_pair {x : Except Panic α} {d₁ d₂ : Decoder} (same : SameStream d₁ d₂) :
    SameResult (x.map (·, d₁)) (x.map (·, d₂)) := by
  cases x
  exacts [rfl, ⟨rfl, same⟩]

theorem map {f : α → β} {x₁ x₂ : Except Panic (α × Decoder)} (same : SameResult x₁ x₂) :
    SameResult (x₁.map fun (a, d) => (f a, d)) (x₂.map fun (a, d) => (f a, d)) := by
  rcases same.cases with ⟨p, rfl, rfl⟩ | ⟨a, d₁, d₂, rfl, rfl, alike⟩
  exacts [rfl, ⟨rfl, alike⟩]

end SameResult

/-- Dropping `n` buffered bytes consumes the first `n` unread ones. -/
theorem unread_discard {d : Decoder} (settled : d.Settled) {n : Nat} (within : n ≤ d.b.buffered.length) :
    (d.discard n).unread = d.unread.drop n := by
  rw [(discard_settled settled within).2.2.2.2, List.drop_left' (by simp; omega)]

namespace SameStream

variable {d₁ d₂ : Decoder}

theorem initialBufSize (same : SameStream d₁ d₂) : d₁.initialBufSize = d₂.initialBufSize :=
  congrArg (·.1) same.settings

theorem maxHeadersSize (same : SameStream d₁ d₂) : d₁.maxHeadersSize = d₂.maxHeadersSize :=
  congrArg (·.2.1) same.settings

theorem maxBodySize (same : SameStream d₁ d₂) : d₁.maxBodySize = d₂.maxBodySize :=
  congrArg (·.2.2.1) same.settings

theorem maxSigSize (same : SameStream d₁ d₂) : d₁.maxSigSize = d₂.maxSigSize :=
  congrArg (·.2.2.2) same.settings

theorem refl {d : Decoder} (clean : d.Clean) : SameStream d d := ⟨clean, clean, rfl, rfl, rfl⟩

theorem trans {d₃ : Decoder} (first : SameStream d₁ d₂) (second : SameStream d₂ d₃) : SameStream d₁ d₃ :=
  ⟨first.clean₁, second.clean₂, first.unread.trans second.unread, first.err.trans second.err,
    first.settings.trans second.settings⟩

/-- After an error a clean decoder has buffered all there is: the same on
both. -/
theorem buffered_eq (same : SameStream d₁ d₂) (failed : d₁.err.isSome) : d₁.b.buffered = d₂.b.buffered := by
  have eof : d₁.err = some .eof := by
    rcases same.clean₁.err with none | eof
    · simp [none] at failed
    · exact eof
  rw [same.clean₁.buffered_eq eof, same.clean₂.buffered_eq (same.err ▸ eof), same.unread]

/-- `peek` returns the same on both, and leaves what it returned buffered on
both. -/
theorem peek (same : SameStream d₁ d₂) (size : Nat) :
    ∃ buf err d₁' d₂', d₁.peek size = .ok ((buf, err), d₁') ∧ d₂.peek size = .ok ((buf, err), d₂') ∧
      SameStream d₁' d₂' ∧ buf <+: d₁'.b.buffered ∧ buf <+: d₂'.b.buffered ∧ d₁'.err = err := by
  obtain ⟨d₁', peeked₁, peeks₁, clean₁⟩ := peek_clean same.clean₁ size
  obtain ⟨d₂', peeked₂, peeks₂, clean₂⟩ := peek_clean same.clean₂ size
  rw [← same.unread, ← same.err] at peeked₂ peeks₂
  exact ⟨_, _, d₁', d₂', peeked₁, peeked₂,
    ⟨clean₁, clean₂, peeks₁.unread.trans (same.unread.trans peeks₂.unread.symm),
      peeks₁.err_eq.trans peeks₂.err_eq.symm, peeks₁.settings.trans (same.settings.trans peeks₂.settings.symm)⟩,
    peeks₁.prefix_buffered, peeks₂.prefix_buffered, peeks₁.err_eq⟩

theorem discard (same : SameStream d₁ d₂) {n : Nat} (within₁ : n ≤ d₁.b.buffered.length)
    (within₂ : n ≤ d₂.b.buffered.length) : SameStream (d₁.discard n) (d₂.discard n) := by
  obtain ⟨-, settings₁, err₁, -, -⟩ := discard_settled same.clean₁.settled within₁
  obtain ⟨-, settings₂, err₂, -, -⟩ := discard_settled same.clean₂.settled within₂
  refine ⟨discard_clean same.clean₁ within₁, discard_clean same.clean₂ within₂, ?_, by rw [err₁, err₂, same.err],
    by rw [settings₁, settings₂, same.settings]⟩
  rw [unread_discard same.clean₁.settled within₁, unread_discard same.clean₂.settled within₂, same.unread]

theorem readExact (same : SameStream d₁ d₂) (size : Nat) : SameResult (d₁.readExact size) (d₂.readExact size) := by
  obtain ⟨buf, err, d₁', d₂', peeked₁, peeked₂, same', window₁, window₂, -⟩ := same.peek size
  simp only [Decoder.readExact, peeked₁, peeked₂, Except.map]
  split_ifs <;> exact ⟨rfl, same'.discard window₁.length_le window₂.length_le⟩

theorem readUntilLoop (same : SameStream d₁ d₂) (maxSize : Nat) (last : Int) (size : Nat) (positive : 0 < size) :
    SameResult (Decoder.readUntilLoop nlnl maxSize last size positive d₁)
      (Decoder.readUntilLoop nlnl maxSize last size positive d₂) := by
  induction' hk : maxSize + 1 - size using Nat.strong_induction_on with k ih generalizing size last d₁ d₂
  obtain ⟨buf, err, d₁', d₂', peeked₁, peeked₂, same', window₁, window₂, reported⟩ := same.peek size
  rw [Decoder.readUntilLoop, Decoder.readUntilLoop, peeked₁, peeked₂]
  dsimp only
  by_cases bounds : last < 0 ∨ buf.length < last
  · rw [if_pos bounds, if_pos bounds]
    rfl
  rw [if_neg bounds, if_neg bounds]
  cases found : index (buf.drop last.toNat) nlnl with
  | some i =>
      have fits : last.toNat + i + nlnl.length ≤ buf.length := by
        have := (index_eq_some_iff.mp found).1.length_le
        simp only [List.length_drop, length_nlnl] at this ⊢
        omega
      exact ⟨rfl, same'.discard (fits.trans window₁.length_le) (fits.trans window₂.length_le)⟩
  | none =>
      have buffered : err.isSome → d₁'.b.buffered.length = d₂'.b.buffered.length := fun failed =>
        congrArg List.length (same'.buffered_eq (reported ▸ failed))
      by_cases stop : err.isSome ∧ buf.length = d₁'.b.buffered.length
      · rw [if_pos stop, if_pos ⟨stop.1, stop.2.trans (buffered stop.1)⟩]
        exact ⟨rfl, same'.discard window₁.length_le window₂.length_le⟩
      rw [if_neg stop, if_neg fun go => stop ⟨go.1, go.2.trans (buffered go.1).symm⟩]
      split_ifs
      · exact ⟨rfl, same'⟩
      · exact ih _ (by omega) same' _ _ _ rfl

theorem readUntil (same : SameStream d₁ d₂) (maxSize : Nat) :
    SameResult (d₁.readUntil nlnl maxSize) (d₂.readUntil nlnl maxSize) := by
  have start : ∀ (size : Nat) (positive : 0 < size), size = d₂.initialBufSize →
      Decoder.readUntilLoop nlnl maxSize 0 size positive d₂ = d₂.readUntil nlnl maxSize := by
    rintro _ _ rfl
    rfl
  rw [← start _ d₁.initialBufSize_pos same.initialBufSize]
  exact same.readUntilLoop maxSize 0 _ _

/-! ## `Decode` -/

section
variable {headers : Headers} {length : Int} {content : Bytes} {headLen : Nat}

theorem decodeSignature [Assemblers] (same : SameStream d₁ d₂) (endOfBody : Bytes) :
    SameResult (d₁.decodeSignature headers length content headLen endOfBody)
      (d₂.decodeSignature headers length content headLen endOfBody) := by
  unfold Decoder.decodeSignature
  split_ifs
  · rw [← same.maxSigSize]
    rcases (same.readUntil d₁.maxSigSize).cases with ⟨p, read₁, read₂⟩ | ⟨⟨sig, err⟩, d₁', d₂', read₁, read₂, same'⟩
    · rw [read₁, read₂]
      rfl
    rw [read₁, read₂]
    dsimp only
    cases err.filter (· != .io .eof)
    exacts [SameResult.map_pair same', ⟨rfl, same'⟩]
  · exact ⟨rfl, same⟩
  · rfl
  · exact SameResult.map_pair same

theorem decodeTrailer [Assemblers] (same : SameStream d₁ d₂) :
    SameResult (d₁.decodeTrailer headers length content headLen) (d₂.decodeTrailer headers length content headLen) := by
  unfold Decoder.decodeTrailer
  rw [← same.maxSigSize]
  rcases (same.readUntil d₁.maxSigSize).cases with ⟨p, read₁, read₂⟩ | ⟨⟨endOfBody, err⟩, d₁', d₂', read₁, read₂, same'⟩
  · rw [read₁, read₂]
    rfl
  rw [read₁, read₂]
  dsimp only
  cases err.filter (· != .io .eof)
  exacts [same'.decodeSignature endOfBody, ⟨rfl, same'⟩]

theorem decodeBody [Assemblers] (same : SameStream d₁ d₂) :
    SameResult (d₁.decodeBody headers length content headLen) (d₂.decodeBody headers length content headLen) := by
  unfold Decoder.decodeBody
  split_ifs
  · rcases (same.readExact length.toNat).cases with ⟨p, read₁, read₂⟩ | ⟨⟨body, err⟩, d₁', d₂', read₁, read₂, same'⟩
    · rw [read₁, read₂]
      rfl
    rw [read₁, read₂]
    cases err
    exacts [same'.decodeTrailer, ⟨rfl, same'⟩]
  · exact same.decodeTrailer

end

/-- A `Decode` call returns the same on alike decoders, and leaves them
alike. -/
theorem decode [Assemblers] (same : SameStream d₁ d₂) : SameResult d₁.decode d₂.decode := by
  unfold Decoder.decode
  rw [← same.maxHeadersSize]
  rcases (same.readUntil d₁.maxHeadersSize).cases with
    ⟨p, read₁, read₂⟩ | ⟨⟨headAndSep, err⟩, d₁', d₂', read₁, read₂, same'⟩
  · rw [read₁, read₂]
    rfl
  rw [read₁, read₂]
  cases err with
  | some err => exact ⟨rfl, same'⟩
  | none =>
      dsimp only
      split_ifs
      · rfl
      cases parseHeaders (headAndSep.take (headAndSep.length - nlnl.length)) with
      | error err => exact ⟨rfl, same'⟩
      | ok headers =>
          dsimp only
          cases checkInteger headers (ascii "body-length") 0 with
          | error err => exact ⟨rfl, same'⟩
          | ok length =>
              dsimp only
              rw [← same'.maxBodySize]
              split_ifs
              · exact ⟨rfl, same'⟩
              · rfl
              · exact same'.decodeBody

/-- Every run of `Decode` calls on alike decoders returns the same. -/
theorem decodeN [Assemblers] (same : SameStream d₁ d₂) (n : Nat) : SameResult (d₁.decodeN n) (d₂.decodeN n) := by
  induction n generalizing d₁ d₂ with
  | zero => exact ⟨rfl, same⟩
  | succ n ih =>
      rw [Decoder.decodeN, Decoder.decodeN]
      rcases same.decode.cases with ⟨p, decoded₁, decoded₂⟩ | ⟨result, d₁', d₂', decoded₁, decoded₂, same'⟩
      · rw [decoded₁, decoded₂]
        rfl
      rw [decoded₁, decoded₂]
      exact (ih same').map

end SameStream

/-- `Decode` does not depend on how a clean reader chunks the stream: `n`
calls on `NewDecoder` over two clean readers that deliver the same bytes
return the same results, or panic alike. -/
theorem decodeN_chunking [Assemblers] {results₁ results₂ : List ReadResult} (clean₁ : CleanScript results₁)
    (clean₂ : CleanScript results₂) (same : scriptStream results₁ = scriptStream results₂) (n : Nat) :
    ((newDecoder (.script results₁)).decodeN n).map Prod.fst = ((newDecoder (.script results₂)).decodeN n).map Prod.fst := by
  have alike : SameStream (newDecoder (.script results₁)) (newDecoder (.script results₂)) :=
    ⟨clean_newDecoder clean₁, clean_newDecoder clean₂, by simp only [unread_newDecoder, same], rfl, rfl⟩
  rcases (alike.decodeN n).cases with ⟨p, run₁, run₂⟩ | ⟨results, d₁, d₂, run₁, run₂, -⟩ <;>
    simp only [run₁, run₂, Except.map]

/-- A header block and its separator in one read, or cut in the middle of
the separator. -/
theorem decodeN_chunking_split :
    letI : Assemblers := acceptAll
    CleanScript [⟨ascii "type: x\n\nsig", some .eof⟩] ∧
      CleanScript [⟨ascii "type: x\n", none⟩, ⟨ascii "\nsig", some .eof⟩] ∧
      scriptStream [⟨ascii "type: x\n\nsig", some .eof⟩] = scriptStream [⟨ascii "type: x\n", none⟩, ⟨ascii "\nsig", some .eof⟩] ∧
      ((newDecoder (.script [⟨ascii "type: x\n\nsig", some .eof⟩])).decodeN 2).map Prod.fst =
        ((newDecoder (.script [⟨ascii "type: x\n", none⟩, ⟨ascii "\nsig", some .eof⟩])).decodeN 2).map Prod.fst :=
  letI : Assemblers := acceptAll
  have clean₁ : CleanScript [⟨ascii "type: x\n\nsig", some .eof⟩] := by simp [CleanScript]
  have clean₂ : CleanScript [⟨ascii "type: x\n", none⟩, ⟨ascii "\nsig", some .eof⟩] := by simp [CleanScript]; decide
  have same : scriptStream [⟨ascii "type: x\n\nsig", some .eof⟩] =
      scriptStream [⟨ascii "type: x\n", none⟩, ⟨ascii "\nsig", some .eof⟩] := by decide
  ⟨clean₁, clean₂, same, decodeN_chunking clean₁ clean₂ same 2⟩

end Decoder
end SnapdAsserts
