import SnapdAsserts.Assertion.Assemble
import SnapdAsserts.Header.Grammar

/-!
# The single-shot codec

`Decode` cuts a serialized assertion at its last `"\n\n"` into content and
signature, and the content at its first `"\n\n"` into header block and body.
`Encode` joins content and signature with `"\n\n"`, and an `Encoder` writes a
stream of encoded assertions, each ending in a newline, separated by one
more newline.

The main facts here are that `Encode` gives back every input `Decode`
accepts (`encode_of_decode`), and that on an envelope whose signature neither
holds `"\n\n"` nor starts with a newline, `Decode` finds the content and
signature it was built from (`decode_envelope`).
-/

namespace SnapdAsserts

/-- Errors of `Decode`, one constructor per message. -/
inductive DecodeError where
  /-- `"assertion content/signature separator not found"`. -/
  | separatorNotFound
  /-- `"parsing assertion headers: %v"`. -/
  | parsingHeaders (err : HeaderError)
  /-- An error of `Assemble`, returned as it is. -/
  | assemble (err : AssembleError)
  deriving DecidableEq, Repr

/-- The header block and the body of a content, cut at its first `"\n\n"`;
without one the content is all header block and the body is absent. -/
def splitContent (content : Bytes) : Bytes × Bytes :=
  match index content nlnl with
  | none => (content, [])
  | some headersBodySplit => (content.take headersBodySplit, content.drop (headersBodySplit + 2))

/-- The part of `Decode` after the content/signature split. -/
def decodeContent [Assemblers] (content signature : Bytes) : Except DecodeError AssertionBase :=
  match parseHeaders (splitContent content).1 with
  | .error err => .error (.parsingHeaders err)
  | .ok headers => (assemble headers (splitContent content).2 content signature).mapError .assemble

/-- `Decode(serializedAssertion)`. -/
def decode [Assemblers] (serializedAssertion : Bytes) : Except DecodeError AssertionBase :=
  match lastIndex serializedAssertion nlnl with
  | none => .error .separatorNotFound
  | some contentSignatureSplit =>
      decodeContent (serializedAssertion.take contentSignatureSplit)
        (serializedAssertion.drop (contentSignatureSplit + 2))

/-- `Encode(assert)`. -/
def encode (assert : AssertionBase) : Bytes :=
  assert.content ++ nlnl ++ assert.signature

/-- What two assertions must share to be the same assertion: type, revision,
authority, every header, body, content and signature. -/
structure SameAssertion (decoded assert : AssertionBase) : Prop where
  type : decoded.type = assert.type
  revision : decoded.revision = assert.revision
  authorityID : decoded.authorityID = assert.authorityID
  headers : ∀ name, decoded.headers.lookup name = assert.headers.lookup name
  body : decoded.body = assert.body
  content : decoded.content = assert.content
  signature : decoded.signature = assert.signature

/-- Assertions with the same lookups, body, revision, content and signature are
the same assertion. -/
theorem sameAssertion_of_lookup {decoded assert : AssertionBase}
    (headers : ∀ name, decoded.headers.lookup name = assert.headers.lookup name)
    (body : decoded.body = assert.body) (revision : decoded.revision = assert.revision)
    (content : decoded.content = assert.content) (signature : decoded.signature = assert.signature) :
    SameAssertion decoded assert :=
  ⟨by simp [AssertionBase.type, headers], revision, by simp [AssertionBase.authorityID, headers],
    headers, body, content, signature⟩

/-! ## What `Decode` returns -/

theorem decodeContent_eq_ok [Assemblers] {content signature : Bytes} {assert : AssertionBase}
    (decoded : decodeContent content signature = .ok assert) :
    parseHeaders (splitContent content).1 = .ok assert.headers ∧
      assert.body = (splitContent content).2 ∧ assert.content = content ∧
      assert.signature = signature ∧ assert.Valid := by
  unfold decodeContent at decoded
  split at decoded
  · cases decoded
  · rename_i headers parsed
    have assembled := except_mapError_eq_ok.mp decoded
    obtain ⟨revision, _, rfl, -⟩ := assemble_eq_ok_iff.mp assembled
    exact ⟨parsed, rfl, rfl, rfl, valid_of_assemble assembled⟩

theorem decode_eq_ok [Assemblers] {serialized : Bytes} {assert : AssertionBase}
    (decoded : decode serialized = .ok assert) :
    ∃ split, lastIndex serialized nlnl = some split ∧
      decodeContent (serialized.take split) (serialized.drop (split + 2)) = .ok assert := by
  unfold decode at decoded
  split at decoded
  · cases decoded
  · exact ⟨_, ‹_›, decoded⟩

/-- `Encode` gives back every byte string `Decode` accepts. -/
theorem encode_of_decode [Assemblers] {serialized : Bytes} {assert : AssertionBase}
    (decoded : decode serialized = .ok assert) : encode assert = serialized := by
  obtain ⟨split, found, decoded⟩ := decode_eq_ok decoded
  obtain ⟨-, -, content, signature, -⟩ := decodeContent_eq_ok decoded
  obtain ⟨⟨rest, sep⟩, -⟩ := (lastIndex_eq_some_iff (by simp [nlnl])).mp found
  have after : serialized.drop (split + 2) = rest := by
    rw [← List.drop_drop, ← sep]
    rfl
  rw [encode, content, signature, after, List.append_assoc, sep, List.take_append_drop]

/-! ## Where `Decode` cuts an envelope -/

/-- In `content ++ "\n\n" ++ signature`, the last `"\n\n"` is the one after the
content when the signature holds none and does not start with a newline. -/
theorem lastIndex_envelope {content signature : Bytes} (noSep : ¬nlnl <:+: signature)
    (noLead : signature.head? ≠ some 10) :
    lastIndex (content ++ nlnl ++ signature) nlnl = some content.length := by
  rw [lastIndex_eq_some_iff (by simp [nlnl])]
  refine ⟨by simp [List.append_assoc], fun j later => ?_⟩
  obtain ⟨k, rfl⟩ : ∃ k, j = content.length + (k + 1) := ⟨j - content.length - 1, by omega⟩
  rw [List.append_assoc, List.drop_append]
  cases k with
  | zero =>
      rintro ⟨back, hback⟩
      cases signature with
      | nil => simp [nlnl] at hback
      | cons c rest =>
          simp only [nlnl, List.cons_append, List.drop_succ_cons, List.drop_zero, List.nil_append,
            List.cons.injEq] at hback
          exact noLead (by simp [hback.2.1])
  | succ k =>
      intro found
      refine noSep (infix_iff_exists_prefix_drop.mpr ⟨k, ?_⟩)
      simpa [nlnl] using found

/-- A block that holds no `"\n\n"` and does not end in a newline is all
header block. -/
theorem splitContent_block {head : Bytes} (noSep : ¬nlnl <:+: head) :
    splitContent head = (head, []) := by
  simp [splitContent, index_eq_none_iff_not_infix.mpr noSep]

/-- After such a block, the first `"\n\n"` is the one that follows it. -/
theorem index_block_append {head : Bytes} (noSep : ¬nlnl <:+: head)
    (lastNe : head.getLast? ≠ some 10) (body : Bytes) :
    index (head ++ nlnl ++ body) nlnl = some head.length := by
  rw [index_eq_some_iff]
  refine ⟨by simp [List.append_assoc], fun j earlier found => ?_⟩
  rw [List.append_assoc, List.drop_append_of_le_length (by omega)] at found
  by_cases inside : 2 ≤ (head.drop j).length
  · exact noSep (infix_iff_exists_prefix_drop.mpr ⟨j,
      List.prefix_of_prefix_length_le found (List.prefix_append _ _) (by simpa [nlnl] using inside)⟩)
  · obtain ⟨x, single⟩ : ∃ x, head.drop j = [x] :=
      List.length_eq_one.mp (by simp only [List.length_drop] at inside ⊢; omega)
    rw [single] at found
    obtain ⟨back, hback⟩ := found
    simp only [nlnl, List.cons_append, List.nil_append, List.cons.injEq] at hback
    apply lastNe
    rw [← List.take_append_drop j head, single, hback.1.symm]
    simp

theorem splitContent_block_append {head : Bytes} (noSep : ¬nlnl <:+: head)
    (lastNe : head.getLast? ≠ some 10) (body : Bytes) :
    splitContent (head ++ nlnl ++ body) = (head, body) := by
  unfold splitContent
  rw [index_block_append noSep lastNe body]
  dsimp only
  rw [List.append_assoc, List.take_left' rfl, List.drop_append]
  rfl

/-- Content is all header block, when it holds no `"\n\n"`, or its header
block, the first `"\n\n"` and its body. -/
theorem splitContent_cases (content : Bytes) :
    splitContent content = (content, []) ∨
      content = (splitContent content).1 ++ nlnl ++ (splitContent content).2 := by
  unfold splitContent
  split
  · exact .inl rfl
  · rename_i i found
    obtain ⟨⟨after, sep⟩, -⟩ := index_eq_some_iff.mp found
    have rest : content.drop (i + 2) = after := by
      rw [← List.drop_drop, ← sep]
      rfl
    refine .inr ?_
    dsimp only
    rw [rest, List.append_assoc, sep, List.take_append_drop]

/-- On an envelope whose signature holds no `"\n\n"` and does not start with
a newline, `Decode` decodes the content and the signature it was built from. -/
theorem decode_envelope [Assemblers] {content signature : Bytes} (noSep : ¬nlnl <:+: signature)
    (noLead : signature.head? ≠ some 10) :
    decode (content ++ nlnl ++ signature) = decodeContent content signature := by
  unfold decode
  rw [lastIndex_envelope noSep noLead]
  dsimp only
  rw [List.append_assoc, List.take_left' rfl, List.drop_append]
  rfl

/-! ## The stream encoder -/

/-- An `Encoder` over a writer that accepts every write (a `bytes.Buffer`):
what it has written, and `nextSep`. -/
structure Encoder where
  written : Bytes
  nextSep : Bytes

/-- `NewEncoder(w)` on an empty buffer. -/
def newEncoder : Encoder := ⟨[], []⟩

/-- Errors of `Encoder.append`. -/
inductive EncodeError where
  /-- `"internal error: encoded assertion cannot be empty"`. -/
  | empty
  deriving DecidableEq, Repr

/-- `enc.append(encoded)`. -/
def Encoder.append (enc : Encoder) (encoded : Bytes) : Except EncodeError Encoder :=
  match encoded.getLast? with
  | none => .error .empty
  | some last =>
      .ok { written := enc.written ++ enc.nextSep ++ encoded ++ (if last ≠ 10 then nl else [])
            nextSep := nl }

/-- `enc.Encode(assert)`. -/
def Encoder.encode (enc : Encoder) (assert : AssertionBase) : Except EncodeError Encoder :=
  enc.append (SnapdAsserts.encode assert)

/-- Encoding assertions one after another with one encoder. -/
def Encoder.encodeAll (enc : Encoder) : List AssertionBase → Except EncodeError Encoder
  | [] => .ok enc
  | assert :: rest => do
      let enc ← enc.encode assert
      enc.encodeAll rest

/-- An encoded assertion as the stream holds it: ending in a newline. -/
def framed (assert : AssertionBase) : Bytes :=
  encode assert ++ (if (encode assert).getLast? = some 10 then [] else nl)

theorem encode_getLast?_isSome (assert : AssertionBase) : (encode assert).getLast?.isSome := by
  simp [encode, List.getLast?_append, nlnl]

theorem Encoder.encode_eq (enc : Encoder) (assert : AssertionBase) :
    enc.encode assert = .ok ⟨enc.written ++ enc.nextSep ++ framed assert, nl⟩ := by
  obtain ⟨last, found⟩ := Option.isSome_iff_exists.mp (encode_getLast?_isSome assert)
  by_cases newline : last = 10 <;> simp [Encoder.encode, Encoder.append, framed, found, newline]

/-- A fresh encoder writes the framed assertions separated by single newlines. -/
theorem newEncoder_encodeAll (asserts : List AssertionBase) :
    ∃ enc, newEncoder.encodeAll asserts = .ok enc ∧
      enc.written = nl.intercalate (asserts.map framed) := by
  suffices general : ∀ (enc : Encoder) (asserts : List AssertionBase), asserts ≠ [] →
      enc.encodeAll asserts = .ok ⟨enc.written ++ enc.nextSep ++ nl.intercalate (asserts.map framed), nl⟩ by
    cases asserts with
    | nil => exact ⟨newEncoder, rfl, rfl⟩
    | cons assert rest => exact ⟨_, general newEncoder _ (List.cons_ne_nil _ _), by simp [newEncoder]⟩
  intro enc asserts nonempty
  induction asserts generalizing enc with
  | nil => exact absurd rfl nonempty
  | cons assert rest ih =>
      rw [Encoder.encodeAll, Encoder.encode_eq]
      cases rest with
      | nil => simp [Encoder.encodeAll, bind, Except.bind, nl]
      | cons next others =>
          simp only [bind, Except.bind]
          rw [ih _ (List.cons_ne_nil _ _)]
          simp [nl, intercalate_cons_cons]

end SnapdAsserts
