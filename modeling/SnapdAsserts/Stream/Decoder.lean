import SnapdAsserts.Stream.Reader
import SnapdAsserts.Assertion.Codec

/-!
# The streaming decoder

A `Decoder` reads a stream of assertions through a `bufio.Reader`.
`readUntil` looks for a delimiter in windows of doubling size, up to a
maximum; `peek` replaces the `bufio.Reader` by a larger one, over an
`io.MultiReader` of the bytes it had buffered and `d.rd`, when a window
outgrows it; `Decode` reads a header block up to `"\n\n"`, a body of the
declared length, and a signature, after a `"\n\n"` separator or, when there is
no body, directly after the header block.

Go's run-time panics are results here: each function returns `.error` with
the `Panic`, and `.ok` with what Go returns otherwise.  `readUntil`'s loop
recurses on windows that double until they pass the maximum, the termination
argument of the Go loop.
-/

namespace SnapdAsserts

/-- `MaxBodySize`. -/
def maxBodySize : Nat := 2 * 1024 * 1024

/-- `MaxHeadersSize`. -/
def maxHeadersSize : Nat := 128 * 1024

/-- `MaxSignatureSize`. -/
def maxSignatureSize : Nat := 128 * 1024

/-- `defaultDecoderButSize`. -/
def defaultDecoderButSize : Nat := 4096

/-- Run-time panics of the decoder. -/
inductive Panic where
  /-- `panic(reerr)` in `peek`. -/
  | peek (err : IoError)
  /-- `make([]byte, 0, n)` with `n < 0`: `"makeslice: cap out of range"`. -/
  | makeslice
  /-- A slice expression out of range. -/
  | sliceBounds
  /-- `(*bytes.Buffer).Truncate(n)` with `n` out of range. -/
  | truncate
  deriving DecidableEq, Repr

/-- Errors of `readUntil`. -/
inductive ReadError where
  /-- An error of `peek`, returned as it is. -/
  | io (err : IoError)
  /-- `"maximum size exceeded while looking for delimiter %q"`. -/
  | maxSizeExceeded (delim : Bytes)
  deriving DecidableEq, Repr

/-- Errors of `Decoder.Decode`, one constructor per message. -/
inductive StreamError where
  /-- An error returned as it is: `io.EOF`, `io.ErrUnexpectedEOF`, or the error
  of reading the body. -/
  | io (err : IoError)
  /-- `"error reading assertion headers: %v"`. -/
  | readingHeaders (err : ReadError)
  /-- `"parsing assertion headers: %v"`. -/
  | parsingHeaders (err : HeaderError)
  /-- `"assertion: %v"`. -/
  | assertion (err : CheckError)
  /-- `"assertion body length %d exceeds maximum body size"`. -/
  | bodyTooLarge (length : Int)
  /-- `"error reading assertion trailer: %v"`. -/
  | readingTrailer (err : ReadError)
  /-- `"error reading assertion signature: %v"`. -/
  | readingSignature (err : ReadError)
  /-- `"missing content/signature separator"`. -/
  | missingSeparator
  /-- An error of `Assemble`, returned as it is. -/
  | assemble (err : AssembleError)
  deriving DecidableEq, Repr

/-- A `Decoder`: its `bufio.Reader` `d.b` with what that reads from, whether
`d.b` is the caller's reader `d.rd` itself, the sticky error `d.err` and the
sizes.  `NewDecoder` is the only constructor and its initial buffer size is
positive. -/
structure Decoder where
  b : BufReader
  aliased : Bool
  initialBufSize : Nat
  err : Option IoError
  maxHeadersSize : Nat
  maxBodySize : Nat
  maxSigSize : Nat
  initialBufSize_pos : 0 < initialBufSize

namespace Decoder

/-- `d.rd` as it now stands: the caller's `*bufio.Reader`, which is `d.b`
itself, when `initBuffer` kept it, and otherwise the reader under `d.b`. -/
def rd (d : Decoder) : Reader :=
  if d.aliased then .bufio d.b.size d.b.buffered d.b.err d.b.rd else d.b.rd

end Decoder

/-- `bufio.NewReaderSize(rd, size)` over a reader that is not a
`*bufio.Reader`: an empty buffer of at least `minReadBufferSize` (16) bytes
over `io.MultiReader(bytes.NewBuffer(pending), rd)`, or over `rd` itself when
`pending` is empty. -/
def newReaderSize (pending : Bytes) (rd : Reader) (size : Nat) : BufReader :=
  ⟨max size 16, [], none, pending, rd⟩

/-- `d.initBuffer()` for a decoder over `rd`: `bufio.NewReaderSize(d.rd,
d.initialBufSize)`, which returns `d.rd` itself when it is a `*bufio.Reader`
with a buffer at least that large. -/
def initBuffer (rd : Reader) (initialBufSize : Nat) : BufReader × Bool :=
  match rd with
  | .bufio size buffered err inner =>
      if initialBufSize ≤ size then (⟨size, buffered, err, [], inner⟩, true)
      else (newReaderSize [] rd initialBufSize, false)
  | .script _ => (newReaderSize [] rd initialBufSize, false)

/-- `NewDecoder(r)`. -/
def newDecoder (r : Reader) : Decoder :=
  let (b, aliased) := initBuffer r defaultDecoderButSize
  { b := b, aliased := aliased, initialBufSize := defaultDecoderButSize, err := none,
    maxHeadersSize := maxHeadersSize, maxBodySize := maxBodySize, maxSigSize := maxSignatureSize,
    initialBufSize_pos := by decide }

namespace Decoder

/-- The rebuffering of `d.peek(size)` once `d.b.Peek(size)` found `d.b` too
small: `rebuf` is what `d.b` buffered, and the new `d.b` has
`(size/d.initialBufSize+1)*d.initialBufSize` bytes over
`io.MultiReader(bytes.NewBuffer(rebuf), d.rd)`. -/
def rebuffer (d : Decoder) (size : Nat) : Except Panic Decoder :=
  let ((rebuf, reerr), b) := d.b.peek d.b.buffered.length
  match reerr with
  | some reerr => .error (.peek reerr)
  | none =>
      let d := { d with b := b }
      .ok { d with
        b := newReaderSize rebuf d.rd ((size / d.initialBufSize + 1) * d.initialBufSize)
        aliased := false }

/-- `if err != nil && d.err == nil { d.err = err }`: the first error sticks. -/
def noteErr (d : Decoder) (err : Option IoError) : Decoder :=
  if err.isSome ∧ d.err = none then { d with err := err } else d

/-- `d.peek(size)`. -/
def peek (d : Decoder) (size : Nat) : Except Panic ((Bytes × Option IoError) × Decoder) := do
  let ((buf, err), b) := d.b.peek size
  let d := { d with b := b }
  let ((buf, err), d) ← if err = some .bufferFull then do
      let d ← d.rebuffer size
      let (result, b) := d.b.peek size
      pure (result, { d with b := b })
    else pure ((buf, err), d)
  let d := d.noteErr err
  pure ((buf, d.err), d)

/-- `d.b.Discard(n)`. -/
def discard (d : Decoder) (n : Nat) : Decoder :=
  { d with b := d.b.discard n }

/-- `d.readExact(size)`. -/
def readExact (d : Decoder) (size : Nat) : Except Panic ((Bytes × Option IoError) × Decoder) :=
  (d.peek size).map fun ((buf, err), d) =>
    let d := d.discard buf.length
    if buf.length = size then ((buf, none), d)
    else if err = some .eof then ((buf, some .unexpectedEOF), d)
    else ((buf, err), d)

/-- The loop of `d.readUntil(delim, maxSize)`, at the window `size`, whose
search starts at `last`. -/
def readUntilLoop (delim : Bytes) (maxSize : Nat) (last : Int) (size : Nat) (positive : 0 < size)
    (d : Decoder) : Except Panic ((Bytes × Option ReadError) × Decoder) :=
  match d.peek size with
  | .error p => .error p
  | .ok ((buf, err), d) =>
      if last < 0 ∨ buf.length < last then .error .sliceBounds
      else
        match index (buf.drop last.toNat) delim with
        | some i =>
            -- `buf[:last+i+len(delim)]` is in range: the delimiter lies in `buf`
            .ok ((buf.take (last.toNat + i + delim.length), none),
              d.discard (last.toNat + i + delim.length))
        | none =>
            if err.isSome ∧ buf.length = d.b.buffered.length then
              .ok ((buf, err.map .io), d.discard buf.length)
            else if tooLarge : maxSize < 2 * size then .ok (([], some (.maxSizeExceeded delim)), d)
            else readUntilLoop delim maxSize (size - delim.length + 1) (2 * size) (by omega) d
termination_by maxSize + 1 - size
decreasing_by omega

/-- `d.readUntil(delim, maxSize)`. -/
def readUntil (d : Decoder) (delim : Bytes) (maxSize : Nat) :
    Except Panic ((Bytes × Option ReadError) × Decoder) :=
  readUntilLoop delim maxSize 0 d.initialBufSize d.initialBufSize_pos d

end Decoder

/-- `if bytes.HasSuffix(sig, nlnl) { sig = sig[:len(sig)-1] }`: a signature
read up to `"\n\n"` keeps one newline. -/
def normalizeSig (sig : Bytes) : Bytes :=
  if nlnl.isSuffixOf sig then sig.dropLast else sig

/-- The end of `Decode`, from the signature on: the body is the content
after the header block and its `"\n\n"` when the body length is positive,
and `Assemble` builds the assertion. -/
def finishDecode [Assemblers] (headers : Headers) (length : Int) (content : Bytes) (headLen : Nat) (sig : Bytes) :
    Except Panic (Except StreamError AssertionBase) :=
  let sig := normalizeSig sig
  if 0 < length ∧ content.length < headLen + nlnl.length then .error .sliceBounds
  else
    let finalBody := if 0 < length then content.drop (headLen + nlnl.length) else []
    .ok ((assemble headers finalBody content sig).mapError .assemble)

namespace Decoder

/-- `Decode` after the trailer: the signature is read after a `"\n\n"`
trailer, and is the trailer itself otherwise, which only a decoder without
body accepts. -/
def decodeSignature [Assemblers] (d : Decoder) (headers : Headers) (length : Int) (content : Bytes) (headLen : Nat)
    (endOfBody : Bytes) : Except Panic (Except StreamError AssertionBase × Decoder) :=
  if endOfBody = nlnl then
    match d.readUntil nlnl d.maxSigSize with
    | .error p => .error p
    | .ok ((sig, err), d) =>
        match err.filter (· != .io .eof) with
        | some err => .ok (.error (.readingSignature err), d)
        | none => (finishDecode headers length content headLen sig).map (·, d)
  else if 0 < length then .ok (.error .missingSeparator, d)
  else if content.length < headLen then .error .truncate
  else (finishDecode headers length (content.take headLen) headLen endOfBody).map (·, d)

/-- `Decode` after the body: the trailer, read up to the next `"\n\n"`. -/
def decodeTrailer [Assemblers] (d : Decoder) (headers : Headers) (length : Int) (content : Bytes) (headLen : Nat) :
    Except Panic (Except StreamError AssertionBase × Decoder) :=
  match d.readUntil nlnl d.maxSigSize with
  | .error p => .error p
  | .ok ((endOfBody, err), d) =>
      match err.filter (· != .io .eof) with
      | some err => .ok (.error (.readingTrailer err), d)
      | none => d.decodeSignature headers length content headLen endOfBody

/-- `Decode` after the header block: the body, read when its length is
positive. -/
def decodeBody [Assemblers] (d : Decoder) (headers : Headers) (length : Int) (headAndSep : Bytes) (headLen : Nat) :
    Except Panic (Except StreamError AssertionBase × Decoder) :=
  if 0 < length then
    match d.readExact length.toNat with
    | .error p => .error p
    | .ok ((_, some err), d) => .ok (.error (.io err), d)
    | .ok ((body, none), d) => d.decodeTrailer headers length (headAndSep ++ body) headLen
  else d.decodeTrailer headers length headAndSep headLen

/-- `d.Decode()`. -/
def decode [Assemblers] (d : Decoder) : Except Panic (Except StreamError AssertionBase × Decoder) :=
  match d.readUntil nlnl d.maxHeadersSize with
  | .error p => .error p
  | .ok ((headAndSep, some err), d) =>
      .ok (.error (if err = .io .eof then .io (if headAndSep.length ≠ 0 then .unexpectedEOF else .eof)
        else .readingHeaders err), d)
  | .ok ((headAndSep, none), d) =>
      if headAndSep.length < nlnl.length then .error .sliceBounds
      else
        let headLen := headAndSep.length - nlnl.length
        match parseHeaders (headAndSep.take headLen) with
        | .error err => .ok (.error (.parsingHeaders err), d)
        | .ok headers =>
            match checkInteger headers (ascii "body-length") 0 with
            | .error err => .ok (.error (.assertion err), d)
            | .ok length =>
                if (d.maxBodySize : Int) < length then .ok (.error (.bodyTooLarge length), d)
                else if (headAndSep.length : Int) + length < 0 then .error .makeslice
                else d.decodeBody headers length headAndSep headLen

/-- The results of `n` successive `Decode` calls, up to the first panic. -/
def decodeN [Assemblers] : Nat → Decoder → Except Panic (List (Except StreamError AssertionBase) × Decoder)
  | 0, d => .ok ([], d)
  | n + 1, d =>
      match d.decode with
      | .error p => .error p
      | .ok (result, d) => (decodeN n d).map fun (results, d) => (result :: results, d)

end Decoder

end SnapdAsserts
