import SnapdAsserts.Stream.Complete
import SnapdAsserts.Stream.Returned

/-!
# The states a decoder passes through

`Decode`, `readUntil` and `readExact` change a decoder only by `peek` calls
and by discarding bytes that a `peek` buffered.  A `Run` is a sequence of
such steps, each `peek` of a size its predicate allows.  `decodePeeks`
lists the sizes of the `peek`s a `Decode` call makes, whatever its outcome,
a panic included: the call makes exactly those `peek`s, and one that
returns reaches its state by a `Trace` of them (`Decoder.decode_traced`).
The states of a decoder over a plain reader are those of the runs from
`NewDecoder` (`Reachable`); all of them are `Settled`, and `Clean` over a
clean reader.  On each of them `peek(n)` returns the first `n` unread bytes
unless the reader has ended or failed, and keeps them, across any number of
rebufferings (`Decoder.peek_reachable`), and `readUntil` finds the first
`"\n\n"` within its window budget (`Decoder.readUntil_reachable`).
-/

namespace SnapdAsserts
namespace Decoder

/-- A sequence of the steps the decoder's reads are made of: `peek` calls
of sizes that `fits`, and discards of bytes that are buffered. -/
inductive Run (fits : Nat → Prop) : Decoder → Decoder → Prop where
  | refl (d : Decoder) : Run fits d d
  | peek {d d₁ d' : Decoder} {size : Nat} {result : Bytes × Option IoError} (within : fits size)
      (peeked : d.peek size = .ok (result, d₁)) (rest : Run fits d₁ d') : Run fits d d'
  | discard {d d' : Decoder} {n : Nat} (within : n ≤ d.b.buffered.length) (rest : Run fits (d.discard n) d') :
      Run fits d d'

namespace Run

variable {fits : Nat → Prop} {d d₁ d' : Decoder}

theorem trans (first : Run fits d d₁) (second : Run fits d₁ d') : Run fits d d' := by
  induction first with
  | refl => exact second
  | peek within peeked _ ih => exact .peek within peeked (ih second)
  | discard within _ ih => exact .discard within (ih second)

theorem mono {wider : Nat → Prop} (widen : ∀ size, fits size → wider size) (run : Run fits d d') :
    Run wider d d' := by
  induction run with
  | refl d => exact .refl d
  | peek within peeked _ ih => exact .peek (widen _ within) peeked ih
  | discard within _ ih => exact .discard within ih

/-- What every `peek` and every discard of buffered bytes keeps holds all
along a run. -/
theorem preserves {P : Decoder → Prop}
    (peeks : ∀ {d d' : Decoder} {size : Nat} {result : Bytes × Option IoError},
      P d → d.peek size = .ok (result, d') → P d')
    (discards : ∀ {d : Decoder} {n : Nat}, P d → n ≤ d.b.buffered.length → P (d.discard n))
    (run : Run fits d d') (start : P d) : P d' := by
  induction run with
  | refl => exact start
  | peek _ peeked _ ih => exact ih (peeks start peeked)
  | discard within _ ih => exact ih (discards start within)

end Run

theorem peek_settings {d d' : Decoder} {size : Nat} {result : Bytes × Option IoError}
    (peeked : d.peek size = .ok (result, d')) : d'.settings = d.settings := by
  by_cases full : (d.b.peek size).1.2 = some .bufferFull
  · by_cases bounded : (d.b.peek size).2.buffered.length ≤ (d.b.peek size).2.size
    · rw [peek_of_full full bounded] at peeked
      simp only [Except.ok.injEq, Prod.mk.injEq] at peeked
      rw [← peeked.2, noteErr_settings]
      rfl
    · simp [peek, full, @rebuffer_of_unbounded { d with b := (d.b.peek size).2 } size (Nat.lt_of_not_le bounded)]
        at peeked
  · rw [peek_of_ne full] at peeked
    simp only [Except.ok.injEq, Prod.mk.injEq] at peeked
    rw [← peeked.2, noteErr_settings]
    rfl

theorem Run.settings {fits : Nat → Prop} {d d' : Decoder} (run : Run fits d d') : d'.settings = d.settings :=
  run.preserves (P := fun e => e.settings = d.settings) (fun same peeked => (peek_settings peeked).trans same)
    (fun same _ => same) rfl

/-! ## The `peek`s a call makes

`readUntil`, `readExact` and `Decode` read through `peek` calls only.
`readUntilPeeks` and `decodePeeks` list the sizes of the `peek`s a call
makes, in order, whatever its outcome, a panic included: they follow the
call's own branches on the states it passes through.  A `Trace` is a run of
`peek` calls of the sizes it lists, with discards of buffered bytes between
them, and `Traced` says that a call makes exactly the `peek`s listed: a
call that returns reaches its state by a trace of all of them, and one that
panics panics at the last of them or after all of them
(`Decoder.decode_traced`). -/

/-- A run of `peek` calls of the listed sizes, in order, with discards of
buffered bytes between them. -/
inductive Trace : List Nat → Decoder → Decoder → Prop where
  | refl (d : Decoder) : Trace [] d d
  | peek {d d₁ d' : Decoder} {size : Nat} {result : Bytes × Option IoError} {sizes : List Nat}
      (peeked : d.peek size = .ok (result, d₁)) (rest : Trace sizes d₁ d') : Trace (size :: sizes) d d'
  | discard {d d' : Decoder} {n : Nat} {sizes : List Nat} (within : n ≤ d.b.buffered.length)
      (rest : Trace sizes (d.discard n) d') : Trace sizes d d'

namespace Trace

variable {sizes sizes' : List Nat} {d d₁ d' : Decoder}

theorem trans (first : Trace sizes d d₁) (second : Trace sizes' d₁ d') : Trace (sizes ++ sizes') d d' := by
  induction first with
  | refl => exact second
  | peek peeked _ ih => exact .peek peeked (ih second)
  | discard within _ ih => exact .discard within (ih second)

/-- A trace is a run of `peek`s of the sizes it lists. -/
theorem run (trace : Trace sizes d d') : Run (· ∈ sizes) d d' := by
  induction trace with
  | refl d => exact .refl d
  | peek peeked _ ih => exact .peek (List.mem_cons_self _ _) peeked (ih.mono fun _ => List.mem_cons_of_mem _)
  | discard within _ ih => exact .discard within ih

/-- A `peek` and a discard of some of what it returned. -/
theorem peek_discard {size n : Nat} {buf : Bytes} {err : Option IoError} (peeked : d.peek size = .ok ((buf, err), d₁))
    (within : n ≤ buf.length) : Trace [size] d (d₁.discard n) :=
  .peek peeked (.discard (within.trans (peek_extends peeked).prefix_buffered.length_le) (.refl _))

end Trace

/-- A call from `d` with outcome `outcome` makes the `peek`s `sizes`: one
that returns reaches its state by a trace of all of them, and one that
panics does so at a `peek` of the last of them, or after all of them. -/
def Traced {α : Type} (sizes : List Nat) (d : Decoder) (outcome : Except Panic (α × Decoder)) : Prop :=
  match outcome with
  | .ok (_, d') => Trace sizes d d'
  | .error p => ∃ done d₁, Trace done d d₁ ∧ (done = sizes ∨ ∃ size, sizes = done ++ [size] ∧ d₁.peek size = .error p)

namespace Traced

variable {α : Type} {sizes sizes' : List Nat} {d d₁ : Decoder} {p : Panic}

theorem of_trace (trace : Trace sizes d d₁) : Traced sizes d (.error p : Except Panic (α × Decoder)) :=
  ⟨sizes, d₁, trace, .inl rfl⟩

theorem peek_error {size : Nat} (peeked : d.peek size = .error p) :
    Traced [size] d (.error p : Except Panic (α × Decoder)) :=
  ⟨[], d, .refl d, .inr ⟨size, rfl, peeked⟩⟩

/-- What a call does after a trace to `d₁` adds to the trace. -/
theorem prepend {outcome : Except Panic (α × Decoder)} (first : Trace sizes d d₁) (rest : Traced sizes' d₁ outcome) :
    Traced (sizes ++ sizes') d outcome := by
  match outcome, rest with
  | .ok _, rest => exact first.trans rest
  | .error _, ⟨done, d₂, trace, rest⟩ =>
      refine ⟨sizes ++ done, d₂, first.trans trace, ?_⟩
      rcases rest with rfl | ⟨size, rfl, peeked⟩
      · exact .inl rfl
      · exact .inr ⟨size, (List.append_assoc _ _ _).symm, peeked⟩

theorem append_nil {outcome : Except Panic (α × Decoder)} (traced : Traced sizes d outcome) :
    Traced (sizes ++ []) d outcome :=
  (List.append_nil sizes).symm ▸ traced

/-- A call that ends where a trace ends, returning or panicking without a
`peek` of its own. -/
theorem map_pair {β : Type} (trace : Trace sizes d d₁) (x : Except Panic β) : Traced sizes d (x.map (·, d₁)) := by
  cases x with
  | error p => exact of_trace trace
  | ok a => exact trace

/-- A call that returns reaches its state by a trace of its `peek`s. -/
theorem trace {outcome : Except Panic (α × Decoder)} {a : α} {d' : Decoder} (traced : Traced sizes d outcome)
    (returned : outcome = .ok (a, d')) : Trace sizes d d' := by
  subst returned
  exact traced

end Traced

/-- The sizes of the `peek`s `readUntil`'s loop makes: one for each window,
the next one doubled while no delimiter, error or panic stops the loop and
the doubled window is within `maxSize`. -/
def readUntilLoopPeeks (delim : Bytes) (maxSize : Nat) (last : Int) (size : Nat) (positive : 0 < size)
    (d : Decoder) : List Nat :=
  size :: match d.peek size with
    | .error _ => []
    | .ok ((buf, err), d) =>
        if grows : ¬(last < 0 ∨ buf.length < last) ∧ index (buf.drop last.toNat) delim = none ∧
            ¬(err.isSome ∧ buf.length = d.b.buffered.length) ∧ 2 * size ≤ maxSize then
          readUntilLoopPeeks delim maxSize (size - delim.length + 1) (2 * size) (by omega) d
        else []
termination_by maxSize + 1 - size
decreasing_by have := grows.2.2.2; omega

/-- The sizes of the `peek`s of `d.readUntil(delim, maxSize)`. -/
def readUntilPeeks (d : Decoder) (delim : Bytes) (maxSize : Nat) : List Nat :=
  readUntilLoopPeeks delim maxSize 0 d.initialBufSize d.initialBufSize_pos d

/-- The sizes of the `peek`s of `decodeSignature`: those of the `readUntil`
of a signature after a `"\n\n"` trailer. -/
def decodeSignaturePeeks (d : Decoder) (endOfBody : Bytes) : List Nat :=
  if endOfBody = nlnl then d.readUntilPeeks nlnl d.maxSigSize else []

/-- ... of `decodeTrailer`: those of its `readUntil`, then of the signature. -/
def decodeTrailerPeeks (d : Decoder) : List Nat :=
  d.readUntilPeeks nlnl d.maxSigSize ++
    match d.readUntil nlnl d.maxSigSize with
    | .error _ => []
    | .ok ((endOfBody, err), d) =>
        match err.filter (· != .io .eof) with
        | some _ => []
        | none => d.decodeSignaturePeeks endOfBody

/-- ... of `decodeBody`: the `readExact` of a body of positive length, then
those of the trailer. -/
def decodeBodyPeeks (d : Decoder) (length : Int) : List Nat :=
  if 0 < length then
    length.toNat :: match d.readExact length.toNat with
      | .ok ((_, none), d) => d.decodeTrailerPeeks
      | _ => []
  else d.decodeTrailerPeeks

/-- The sizes of the `peek`s of `d.Decode()`, in order. -/
def decodePeeks (d : Decoder) : List Nat :=
  d.readUntilPeeks nlnl d.maxHeadersSize ++
    match d.readUntil nlnl d.maxHeadersSize with
    | .ok ((headAndSep, none), d) =>
        if headAndSep.length < nlnl.length then []
        else
          match parseHeaders (headAndSep.take (headAndSep.length - nlnl.length)) with
          | .error _ => []
          | .ok headers =>
              match checkInteger headers (ascii "body-length") 0 with
              | .error _ => []
              | .ok length =>
                  if (d.maxBodySize : Int) < length then []
                  else if (headAndSep.length : Int) + length < 0 then []
                  else d.decodeBodyPeeks length
    | _ => []

/-- `readExact(size)` is a `peek` of `size` bytes and a discard of what it
returned. -/
theorem readExact_traced (d : Decoder) (size : Nat) : Traced [size] d (d.readExact size) := by
  unfold readExact
  cases peeked : d.peek size with
  | error p => exact .peek_error peeked
  | ok step =>
  obtain ⟨⟨buf, err⟩, d₁⟩ := step
  have trace := Trace.peek_discard peeked (le_refl buf.length)
  simp only [Except.map]
  split_ifs <;> exact trace

/-- What one round of `readUntil`'s loop can do: after its `peek`, return
up to a `"\n\n"` it found, return what it has with the error, give up past
`maxSize`, or go on with the window doubled. -/
theorem readUntilLoop_cases {maxSize size : Nat} {positive : 0 < size} {last : Int} {d d' : Decoder}
    {buf : Bytes} {err : Option ReadError}
    (read : readUntilLoop nlnl maxSize last size positive d = .ok ((buf, err), d')) :
    ∃ buf₁ err₁ d₁, d.peek size = .ok ((buf₁, err₁), d₁) ∧
      ((∃ n ≤ buf₁.length, buf = buf₁.take n ∧ err = none ∧ d' = d₁.discard n) ∨
        (buf = buf₁ ∧ d' = d₁.discard buf₁.length) ∨
        (buf = [] ∧ d' = d₁) ∨
        (2 * size ≤ maxSize ∧
          readUntilLoop nlnl maxSize (size - 1 : Nat) (2 * size) (by omega) d₁ = .ok ((buf, err), d'))) := by
  rw [readUntilLoop] at read
  cases peeked : d.peek size with
  | error p => simp [peeked] at read
  | ok step =>
  obtain ⟨⟨buf₁, err₁⟩, d₁⟩ := step
  refine ⟨buf₁, err₁, d₁, rfl, ?_⟩
  simp only [peeked] at read
  by_cases bad : last < 0 ∨ buf₁.length < last
  · simp [bad] at read
  rw [if_neg bad] at read
  cases found : index (buf₁.drop last.toNat) nlnl with
  | some i =>
      simp only [found, Except.ok.injEq, Prod.mk.injEq] at read
      obtain ⟨⟨rfl, rfl⟩, rfl⟩ := read
      have fits := (index_eq_some_iff.mp found).1.length_le
      simp only [List.length_drop, length_nlnl] at fits
      exact .inl ⟨_, by rw [length_nlnl]; omega, rfl, rfl, rfl⟩
  | none =>
      simp only [found] at read
      split_ifs at read with stop tooLarge
      · simp only [Except.ok.injEq, Prod.mk.injEq] at read
        exact .inr (.inl ⟨read.1.1.symm, read.2.symm⟩)
      · simp only [Except.ok.injEq, Prod.mk.injEq] at read
        exact .inr (.inr (.inl ⟨read.1.1.symm, read.2.symm⟩))
      · rw [nextLast_eq positive] at read
        exact .inr (.inr (.inr ⟨by omega, read⟩))

/-- `readUntil`'s loop makes the `peek`s `readUntilLoopPeeks` lists. -/
theorem readUntilLoop_traced (maxSize size : Nat) (positive : 0 < size) (last : Int) (d : Decoder) :
    Traced (readUntilLoopPeeks nlnl maxSize last size positive d) d (readUntilLoop nlnl maxSize last size positive d) := by
  induction' hk : maxSize + 1 - size using Nat.strong_induction_on with k ih generalizing size last d
  rw [readUntilLoop, readUntilLoopPeeks]
  cases peeked : d.peek size with
  | error p => exact .peek_error peeked
  | ok step =>
  obtain ⟨⟨buf, err⟩, d₁⟩ := step
  have first : Trace [size] d d₁ := .peek peeked (.refl _)
  dsimp only
  by_cases bad : last < 0 ∨ buf.length < last
  · rw [if_pos bad, dif_neg fun grows => grows.1 bad]
    exact .of_trace first
  rw [if_neg bad]
  cases found : index (buf.drop last.toNat) nlnl with
  | some i =>
      have fits := (index_eq_some_iff.mp found).1.length_le
      simp only [List.length_drop, length_nlnl] at fits
      rw [dif_neg fun grows => nomatch grows.2.1]
      exact Trace.peek_discard peeked (by rw [length_nlnl]; omega)
  | none =>
      dsimp only
      by_cases stop : err.isSome ∧ buf.length = d₁.b.buffered.length
      · rw [if_pos stop, dif_neg fun grows => grows.2.2.1 stop]
        exact Trace.peek_discard peeked le_rfl
      rw [if_neg stop]
      by_cases tooLarge : maxSize < 2 * size
      · rw [dif_pos tooLarge, dif_neg fun grows => by omega]
        exact first
      · rw [dif_neg tooLarge, dif_pos ⟨bad, rfl, stop, by omega⟩]
        exact Traced.prepend first (ih _ (by omega) _ _ _ _ rfl)

/-- Whatever `readUntil`'s loop returns fits in the largest window it may
reach. -/
theorem readUntilLoop_length_le {bound maxSize size : Nat} {positive : 0 < size} {last : Int} {d d' : Decoder}
    {buf : Bytes} {err : Option ReadError} (first : size ≤ bound)
    (windows : ∀ j, size * 2 ^ j ≤ maxSize → size * 2 ^ j ≤ bound)
    (read : readUntilLoop nlnl maxSize last size positive d = .ok ((buf, err), d')) : buf.length ≤ bound := by
  induction' hk : maxSize + 1 - size using Nat.strong_induction_on with k ih generalizing size last d
  obtain ⟨buf₁, err₁, d₁, peeked, found | stop | tooLarge | more⟩ := readUntilLoop_cases read
  · obtain ⟨n, -, rfl, -⟩ := found
    have := (peek_extends peeked).at_most
    simp only [List.length_take]
    omega
  · obtain ⟨rfl, -⟩ := stop
    exact (peek_extends peeked).at_most.trans first
  · obtain ⟨rfl, -⟩ := tooLarge
    exact Nat.zero_le _
  · obtain ⟨doubled, rest⟩ := more
    refine ih _ (by omega) (by simpa [pow_one, mul_comm] using windows 1 (by omega)) (fun j inside => ?_) rest rfl
    rw [mul_comm 2, mul_assoc, ← pow_succ'] at inside ⊢
    exact windows (j + 1) inside

theorem readUntil_traced (d : Decoder) (maxSize : Nat) :
    Traced (d.readUntilPeeks nlnl maxSize) d (d.readUntil nlnl maxSize) :=
  readUntilLoop_traced maxSize d.initialBufSize d.initialBufSize_pos 0 d

/-! ## What `Decode` reads -/

/-- The decoder's initial window and its caps are all within `cap`. -/
structure WithinCap (cap : Nat) (d : Decoder) : Prop where
  initial : d.initialBufSize ≤ cap
  headers : d.maxHeadersSize ≤ cap
  body : d.maxBodySize ≤ cap
  signature : d.maxSigSize ≤ cap

theorem WithinCap.of_settings {cap : Nat} {d d' : Decoder} (within : WithinCap cap d)
    (same : d'.settings = d.settings) : WithinCap cap d' := by
  simp only [settings, Prod.mk.injEq] at same
  obtain ⟨initial, headers, body, signature⟩ := same
  exact ⟨initial ▸ within.initial, headers ▸ within.headers, body ▸ within.body, signature ▸ within.signature⟩

section
variable [Assemblers] {d d' : Decoder} {headers : Headers} {length : Int} {content : Bytes} {headLen : Nat}
  {result : Except StreamError AssertionBase}

theorem decodeSignature_traced (endOfBody : Bytes) :
    Traced (d.decodeSignaturePeeks endOfBody) d (d.decodeSignature headers length content headLen endOfBody) := by
  unfold decodeSignature decodeSignaturePeeks
  by_cases sep : endOfBody = nlnl
  · rw [if_pos sep, if_pos sep]
    have traced := readUntil_traced d d.maxSigSize
    cases read : d.readUntil nlnl d.maxSigSize with
    | error p => rw [read] at traced; exact traced
    | ok step =>
    obtain ⟨⟨sig, err⟩, d₁⟩ := step
    rw [read] at traced
    dsimp only
    split
    · exact traced
    · exact .map_pair traced _
  · rw [if_neg sep, if_neg sep]
    split_ifs
    · exact .refl d
    · exact .of_trace (.refl d)
    · exact .map_pair (.refl d) _

theorem decodeTrailer_traced : Traced d.decodeTrailerPeeks d (d.decodeTrailer headers length content headLen) := by
  unfold decodeTrailer decodeTrailerPeeks
  have traced := readUntil_traced d d.maxSigSize
  cases read : d.readUntil nlnl d.maxSigSize with
  | error p => rw [read] at traced; exact traced.append_nil
  | ok step =>
  obtain ⟨⟨endOfBody, err⟩, d₁⟩ := step
  rw [read] at traced
  dsimp only
  cases err.filter (· != .io .eof) with
  | some e => exact traced.append_nil
  | none => exact Traced.prepend traced (decodeSignature_traced endOfBody)

theorem decodeBody_traced : Traced (d.decodeBodyPeeks length) d (d.decodeBody headers length content headLen) := by
  unfold decodeBody decodeBodyPeeks
  split_ifs with positive
  · have traced := readExact_traced d length.toNat
    cases read : d.readExact length.toNat with
    | error p => rw [read] at traced; exact traced
    | ok step =>
    obtain ⟨⟨body, err⟩, d₁⟩ := step
    rw [read] at traced
    cases err with
    | some e => exact traced
    | none => exact Traced.prepend traced decodeTrailer_traced
  · exact decodeTrailer_traced

/-- A `Decode` call makes the `peek`s `decodePeeks` lists, whether it
returns or panics. -/
theorem decode_traced (d : Decoder) : Traced d.decodePeeks d d.decode := by
  unfold decode decodePeeks
  have traced := readUntil_traced d d.maxHeadersSize
  cases read : d.readUntil nlnl d.maxHeadersSize with
  | error p => rw [read] at traced; exact traced.append_nil
  | ok step =>
  obtain ⟨⟨headAndSep, err⟩, d₁⟩ := step
  rw [read] at traced
  cases err with
  | some e => exact traced.append_nil
  | none =>
  dsimp only
  split_ifs with short
  · exact (Traced.of_trace traced).append_nil
  cases parsed : parseHeaders (headAndSep.take (headAndSep.length - nlnl.length)) with
  | error e => exact traced.append_nil
  | ok headers =>
  dsimp only
  cases checked : checkInteger headers (ascii "body-length") 0 with
  | error e => exact traced.append_nil
  | ok length =>
  dsimp only
  split_ifs
  · exact traced.append_nil
  · exact (Traced.of_trace traced).append_nil
  · exact Traced.prepend traced decodeBody_traced

/-- A `Decode` call that returns reaches its state by a trace of exactly
its `peek`s. -/
theorem decode_trace (decoded : d.decode = .ok (result, d')) : Trace d.decodePeeks d d' :=
  (decode_traced d).trace decoded

end

/-! ## The states of a decoder over a plain reader -/

/-- The states a decoder over the plain reader `results` reaches: those of
the runs from `NewDecoder(r)`. -/
def Reachable (results : List ReadResult) (d : Decoder) : Prop :=
  Run (fun _ => True) (newDecoder (.script results)) d

namespace Reachable

variable {results : List ReadResult} {d d' : Decoder}

theorem peek {size : Nat} {result : Bytes × Option IoError} (reachable : Reachable results d)
    (peeked : d.peek size = .ok (result, d')) : Reachable results d' :=
  Run.trans reachable (.peek trivial peeked (.refl _))

theorem decode [Assemblers] {result : Except StreamError AssertionBase} (reachable : Reachable results d)
    (decoded : d.decode = .ok (result, d')) : Reachable results d' :=
  reachable.trans ((decode_trace decoded).run.mono fun _ _ => trivial)

theorem settled (reachable : Reachable results d) : d.Settled :=
  Run.preserves (fun settled peeked => by
      obtain ⟨_, _, _, peeked', peeks⟩ := peek_settled settled _
      rw [peeked] at peeked'
      cases peeked'
      exact peeks.settled)
    (fun settled within => (discard_settled settled within).1) reachable (settled_newDecoder results)

theorem clean (chunks : CleanScript results) (reachable : Reachable results d) : d.Clean :=
  Run.preserves (fun clean peeked => by
      obtain ⟨_, peeked', -, clean'⟩ := peek_clean clean _
      rw [peeked] at peeked'
      cases peeked'
      exact clean')
    (fun clean within => discard_clean clean within) reachable (clean_newDecoder chunks)

end Reachable

/-! ## `peek` and `readUntil` on a reachable state -/

/-- A prefix of `unread` that ends in `"\n\n"` is no shorter than the one
ending at the first `"\n\n"`. -/
theorem EndsAtFirstSep.shortest {front unread p : Bytes} (ends : EndsAtFirstSep front) (window : front <+: unread)
    (pre : p <+: unread) (sep : nlnl <:+ p) : front.length ≤ p.length :=
  length_le_of_sep_take ends window (by rw [← List.prefix_iff_eq_take.mp pre]; exact sep.isInfix)

theorem EndsAtFirstSep.suffix {buf : Bytes} (ends : EndsAtFirstSep buf) : nlnl <:+ buf := by
  obtain ⟨head, rfl, -⟩ := ends
  exact List.suffix_append _ _

/-- Bytes with a `"\n\n"` in them start with the prefix ending at the first
one. -/
theorem exists_endsAtFirstSep {unread : Bytes} (sep : nlnl <:+: unread) :
    ∃ front rest, unread = front ++ rest ∧ EndsAtFirstSep front := by
  obtain ⟨i, found⟩ := Option.ne_none_iff_exists'.mp (mt index_eq_none_iff_not_infix.mp (not_not.mpr sep))
  have ends := (@endsAtFirstSep_take unread unread 0 i (List.prefix_refl unread)
    (fun _ none => absurd none (Nat.not_lt_zero _)) found).2
  exact ⟨_, _, (List.take_append_drop _ unread).symm, ends⟩

/-- Over a clean plain reader, on every state the decoder reaches, with `W`
the largest window `initialBufSize * 2 ^ k` within `maxSize`:
`readUntil("\n\n", maxSize)` returns the shortest prefix of the unread bytes
that ends in `"\n\n"` and consumes it when one fits in `W` bytes, returns all
of them with `io.EOF` when they hold no `"\n\n"` and are fewer than `W`, and
reports an error otherwise; it never panics. -/
theorem readUntil_reachable {results : List ReadResult} (chunks : CleanScript results) {d : Decoder}
    (reachable : Reachable results d) {maxSize k : Nat} (window : d.initialBufSize * 2 ^ k ≤ maxSize)
    (largest : maxSize < d.initialBufSize * 2 ^ (k + 1)) :
    ∃ buf err d', d.readUntil nlnl maxSize = .ok ((buf, err), d') ∧
      ((∃ p, p <+: d.unread ∧ nlnl <:+ p ∧ p.length ≤ d.initialBufSize * 2 ^ k) →
        err = none ∧ nlnl <:+ buf ∧ (∀ p, p <+: d.unread → nlnl <:+ p → buf.length ≤ p.length) ∧
          d.unread = buf ++ d'.unread) ∧
      (¬nlnl <:+: d.unread → d.unread.length < d.initialBufSize * 2 ^ k →
        buf = d.unread ∧ err = some (.io .eof) ∧ d'.unread = []) ∧
      (¬(∃ p, p <+: d.unread ∧ nlnl <:+ p ∧ p.length ≤ d.initialBufSize * 2 ^ k) →
        ¬(¬nlnl <:+: d.unread ∧ d.unread.length < d.initialBufSize * 2 ^ k) → err.isSome) := by
  have clean := reachable.clean chunks
  obtain ⟨buf, err, d', read, reads⟩ := readUntil_settled clean.settled maxSize
  refine ⟨buf, err, d', read, fun ⟨p, pre, sep, short⟩ => ?_, fun noSep fewer => ?_, fun noFront notEnded => ?_⟩
  · obtain ⟨front, rest, unread, ends⟩ := exists_endsAtFirstSep ((List.IsSuffix.isInfix sep).trans pre.isInfix)
    have first := ends.shortest (unread ▸ List.prefix_append _ _) pre sep
    obtain ⟨d₁, found, rest₁, -⟩ := readUntil_found k clean unread ends (first.trans short) window
    rw [found] at read
    obtain ⟨⟨rfl, rfl⟩, rfl⟩ := (Prod.mk.injEq _ _ _ _).mp (Except.ok.inj read) |>.imp Prod.mk.inj id
    exact ⟨rfl, ends.suffix, fun p' pre' sep' => ends.shortest (unread ▸ List.prefix_append _ _) pre' sep',
      by rw [unread, rest₁]⟩
  · obtain ⟨d₁, exhausted, empty, -⟩ := readUntil_exhausted k clean noSep fewer window
    rw [exhausted] at read
    obtain ⟨⟨rfl, rfl⟩, rfl⟩ := (Prod.mk.injEq _ _ _ _).mp (Except.ok.inj read) |>.imp Prod.mk.inj id
    exact ⟨rfl, rfl, empty⟩
  · rw [Option.isSome_iff_ne_none]
    intro unreported
    have bound : buf.length ≤ d.initialBufSize * 2 ^ k := by
      refine readUntilLoop_length_le (Nat.le_mul_of_pos_right _ (Nat.two_pow_pos k)) (fun j inside => ?_) read
      have : 2 ^ j < 2 ^ (k + 1) := Nat.lt_of_mul_lt_mul_left (inside.trans_lt largest)
      exact Nat.mul_le_mul_left _ (Nat.pow_le_pow_right (by decide)
        (Nat.lt_succ_iff.mp ((Nat.pow_lt_pow_iff_right (by decide)).mp this)))
    exact noFront ⟨buf, reads.unread ▸ List.prefix_append _ _, (reads.found unreported).suffix, bound⟩

/-- A full first window with no `"\n\n"` in it, on a decoder with no error
noted, makes `readUntil` give up when the window cannot double within
`maxSize`, even when the reader has nothing more to deliver. -/
theorem readUntil_fullWindow {d : Decoder} (clean : d.Clean) (unreported : d.err = none)
    (fills : d.initialBufSize ≤ d.unread.length) (noSep : ¬nlnl <:+: d.unread.take d.initialBufSize)
    {maxSize : Nat} (tight : maxSize < 2 * d.initialBufSize) :
    ∃ d', d.readUntil nlnl maxSize = .ok (([], some (.maxSizeExceeded nlnl)), d') := by
  obtain ⟨d₁, peeked, -, -⟩ := peek_clean clean d.initialBufSize
  rw [if_pos fills, unreported] at peeked
  refine ⟨d₁, ?_⟩
  rw [readUntil, readUntilLoop, peeked]
  simp [ index_eq_none_iff_not_infix.mpr noSep, tight]

/-- Where `readUntil` leaves the first `"\n\n"` unread: a reader that fails
before it, and one whose reads return nothing a hundred times in a row (the
`"\n\n"` either delivers next is never asked for), and unread bytes that
fill the largest window exactly and end there, which `readUntil` reports as
too large instead of returning them with `io.EOF`. -/
theorem readUntil_failedReadOrFullWindow :
    (newDecoder (.script [⟨ascii "ab", some (.other 1)⟩, ⟨nlnl, some .eof⟩])).unread = ascii "ab" ++ nlnl ∧
      (∃ d', (newDecoder (.script [⟨ascii "ab", some (.other 1)⟩, ⟨nlnl, some .eof⟩])).readUntil nlnl 4096 =
        .ok ((ascii "ab", some (.io (.other 1))), d')) ∧
      (newDecoder (.script (List.replicate 100 ⟨[], none⟩ ++ [⟨nlnl, some .eof⟩]))).unread = nlnl ∧
      (∃ d', (newDecoder (.script (List.replicate 100 ⟨[], none⟩ ++ [⟨nlnl, some .eof⟩]))).readUntil nlnl 4096 =
        .ok (([], some (.io .noProgress)), d')) ∧
      (newDecoder (.script [⟨List.replicate 4096 120, some .eof⟩])).initialBufSize = 4096 ∧
      (newDecoder (.script [⟨List.replicate 4096 120, some .eof⟩])).unread = List.replicate 4096 120 ∧
      ∃ d', (newDecoder (.script [⟨List.replicate 4096 120, some .eof⟩])).readUntil nlnl 4096 =
        .ok (([], some (.maxSizeExceeded nlnl)), d') := by
  have gaveUp : (newDecoder (.script (List.replicate 100 ⟨[], none⟩ ++ [⟨nlnl, some .eof⟩]))).b.peekLoop 4096 4096 =
      ⟨4096, [], some .noProgress, [], .script [⟨nlnl, some .eof⟩]⟩ := by
    rw [show (4096 : Nat) = 4095 + 1 from rfl, BufReader.peekLoop, if_pos (by decide),
      BufReader.fill, BufReader.fillTries_emptyReads 0 _ 100 rfl rfl, BufReader.peekLoop_of_not (by simp)]
    rfl
  have unread : (newDecoder (.script [⟨List.replicate 4096 120, some .eof⟩])).unread = List.replicate 4096 120 := by
    simp only [unread_newDecoder, scriptStream, if_true, List.append_nil]
  refine ⟨by rw [unread_newDecoder]; rfl, ⟨_, by rw [readUntil, readUntilLoop]; rfl⟩,
    by rw [unread_newDecoder, scriptStream_emptyReads]; rfl,
    ⟨_, by rw [readUntil, readUntilLoop, peek, BufReader.peek]; erw [gaveUp]; rfl⟩, rfl, unread, ?_⟩
  refine @readUntil_fullWindow _ (clean_newDecoder fun _ mem => .inr (by rw [List.mem_singleton.mp mem])) rfl
    (by rw [unread, List.length_replicate]; rfl) (fun sep => ?_) 4096 (by decide)
  have mem := sep.subset (show (10 : UInt8) ∈ nlnl by decide)
  rw [unread, List.take_replicate] at mem
  exact absurd (List.eq_of_mem_replicate mem) (by decide)

theorem readUntil_reachable_firstHeaders :
    ∃ buf err d', (newDecoder (.script [⟨ascii "x" ++ nlnl ++ ascii "y", some .eof⟩])).readUntil nlnl 4096 =
        .ok ((buf, err), d') ∧ err = none ∧ ascii "x" ++ nlnl ++ ascii "y" = buf ++ d'.unread := by
  have reachable : Reachable [⟨ascii "x" ++ nlnl ++ ascii "y", some .eof⟩]
      (newDecoder (.script [⟨ascii "x" ++ nlnl ++ ascii "y", some .eof⟩])) := .refl _
  obtain ⟨buf, err, d', read, found, -, -⟩ := @readUntil_reachable _
    (fun _ mem => .inr (by rw [List.mem_singleton.mp mem])) _ reachable 4096 0 (by decide) (by decide)
  obtain ⟨unreported, -, -, unread⟩ := found ⟨ascii "x" ++ nlnl, by rw [unread_newDecoder]; exact ⟨ascii "y", rfl⟩,
    List.suffix_append _ _, by decide⟩
  rw [unread_newDecoder] at unread
  exact ⟨buf, err, d', read, unreported, unread⟩

end Decoder

end SnapdAsserts
