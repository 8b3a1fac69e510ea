import SnapdAsserts.Assertion.Codec
import SnapdAsserts.Header.Write
import Mathlib.Data.List.Sort

/-!
# Assembling and signing

`assembleAndSign` completes a header mapping with `type` and `body-length`,
checks it, writes the content in the canonical order (`type`, `authority-id`,
`revision` when positive, the primary key, the other headers sorted, and
`body-length` when the body is not empty, then the body), signs it and
appends a newline to the signature.

It writes every name and value through `writeHeader` without checking them
against the rules `parseHeaders` enforces, so a mapping with a name outside
`^[a-z][a-z0-9-]*[a-z0-9]$` or a value that is not UTF-8 is signed into an
assertion that `Decode` then rejects.  With valid names and values the
assertion decodes back to itself.
-/

namespace SnapdAsserts

/-- Errors of `assembleAndSign`, one constructor per message. -/
inductive SignError where
  /-- `"internal error: unknown assertion type: %v"`. -/
  | unknownAssertType (name : Bytes)
  /-- `"internal error: unpredefined assertion type for name %v used (unexpected address %p)"`. -/
  | unpredefinedAssertType (name : Bytes)
  /-- An error of a header check, returned as it is. -/
  | check (err : CheckError)
  /-- `"cannot sign assertion: %v"`. -/
  | cannotSign (err : Bytes)
  /-- `"cannot assemble assertion %s: %v"`. -/
  | cannotAssemble (typeName : Bytes) (err : Bytes)
  deriving DecidableEq, Repr

/-- `checkAssertType(assertType)`: Modelled from the spec: only the registered
types are accepted.  Go compares the pointer with the registered one; types
are compared as values here. -/
def checkAssertType (assertType : AssertionType) : Except SignError Unit :=
  match assertionType assertType.name with
  | none => .error (.unknownAssertType assertType.name)
  | some canonical =>
      if canonical = assertType then .ok () else .error (.unpredefinedAssertType assertType.name)

/-- `sort.Strings`: byte-wise lexicographic order. -/
def sortStrings (names : List Bytes) : List Bytes :=
  names.insertionSort (· ≤ ·)

/-- The loop of `assembleAndSign` over the primary key: each header is
checked, then written. -/
def writePrimaryKeys (headers : Headers) : List Bytes → Except SignError Bytes
  | [] => .ok []
  | primKey :: rest => do
      let _ ← (checkPrimaryKey headers primKey).mapError .check
      let text ← writePrimaryKeys headers rest
      return writeHeader headers primKey ++ text

/-- `assembleAndSign(assertType, headers, body, privKey)`, with the signer
`signContent(content, privKey)` given as a function of the content. -/
def assembleAndSign [Assemblers] (signContent : Bytes → Except Bytes Bytes) (assertType : AssertionType)
    (headers : Headers) (body : Bytes) : Except SignError AssertionBase := do
  checkAssertType assertType
  let bodyLength := body.length
  let finalHeaders :=
    (headers.insert (ascii "type") assertType.name).insert (ascii "body-length") (itoa bodyLength)
  let _ ← (checkNotEmpty finalHeaders (ascii "authority-id")).mapError .check
  let revision ← (checkRevision finalHeaders).mapError .check
  let finalHeaders := if 0 < revision then finalHeaders else finalHeaders.erase (ascii "revision")
  let keysText ← writePrimaryKeys finalHeaders assertType.primaryKey
  let written := bookkeeping ++ assertType.primaryKey
  let otherKeys := sortStrings (finalHeaders.keys.filter fun name => name ∉ written)
  let content :=
    ascii "type: " ++ assertType.name ++ writeHeader finalHeaders (ascii "authority-id") ++
      (if 0 < revision then writeHeader finalHeaders (ascii "revision") else []) ++ keysText ++
      otherKeys.flatMap (writeHeader finalHeaders) ++
      (if 0 < bodyLength then writeHeader finalHeaders (ascii "body-length") ++ nlnl ++ body else [])
  let finalHeaders :=
    if 0 < bodyLength then finalHeaders else finalHeaders.erase (ascii "body-length")
  let signature ← (signContent content).mapError .cannotSign
  let assert : AssertionBase :=
    { headers := finalHeaders, body := body, revision := revision, content := content,
      signature := signature ++ [10] }
  (assembler assertType assert).mapError (.cannotAssemble assertType.name)
  return assert

/-- A mapping with the one-letter header name `x`, which `headerNameSanity`
rejects, is signed, even with assemblers that accept every assertion, and the
signed assertion does not decode. -/
theorem assembleAndSign_invalidName_undecodable :
    letI : Assemblers := acceptAll
    let headers : Headers := (((∅ : Headers).insert (ascii "authority-id") (ascii "canonical")).insert
      (ascii "account-id") (ascii "alice")).insert (ascii "x") (ascii "1")
    ∃ assert, assembleAndSign (fun _ => .ok (ascii "sig")) accountType headers [] = .ok assert ∧
      decode (encode assert) = .error (.parsingHeaders (.invalidName (ascii "x"))) := by
  letI : Assemblers := acceptAll
  intro headers
  refine ⟨_, rfl, ?_⟩
  rw [show encode _ = ascii "type: account\nauthority-id: canonical\naccount-id: alice\nx: 1" ++ nlnl ++
      ascii "sig\n" by decide,
    decode_envelope (by decide) (by decide), decodeContent, splitContent_block (by decide),
    parseHeaders, if_pos (by decide),
    show (ascii "type: account\nauthority-id: canonical\naccount-id: alice\nx: 1").splitOn 10 =
      [ascii "type: account", ascii "authority-id: canonical", ascii "account-id: alice", ascii "x: 1"] by
      decide,
    @parseEntries_single (ascii "type: account") (ascii "account") _ _ 4 (by decide) (by decide)
      (by decide),
    @parseEntries_single (ascii "authority-id: canonical") (ascii "canonical") _ _ 12 (by decide)
      (by decide) (by decide),
    @parseEntries_single (ascii "account-id: alice") (ascii "alice") _ _ 10 (by decide) (by decide)
      (by decide),
    @parseEntries_invalidName (ascii "x: 1") _ _ 1 (by decide) (by decide)]
  rfl

/-! ## What a successful run has checked and written -/

theorem writePrimaryKeys_eq_ok {headers : Headers} {keys : List Bytes} {text : Bytes} :
    writePrimaryKeys headers keys = .ok text ↔
      (∀ primKey ∈ keys, ∃ value, checkPrimaryKey headers primKey = .ok value) ∧
        text = keys.flatMap (writeHeader headers) := by
  induction keys generalizing text with
  | nil => simp [writePrimaryKeys, eq_comm]
  | cons primKey rest ih =>
      simp only [writePrimaryKeys, except_bind_eq_ok, except_mapError_eq_ok, pure, Except.pure, ih]
      constructor
      · rintro ⟨value, checked, _, ⟨keys, rfl⟩, written⟩
        refine ⟨fun k hk => ?_, by simpa using (Except.ok.inj written).symm⟩
        rcases List.mem_cons.mp hk with rfl | hk
        · exact ⟨value, checked⟩
        · exact keys k hk
      · rintro ⟨keys, rfl⟩
        obtain ⟨value, checked⟩ := keys primKey (List.mem_cons_self _ _)
        exact ⟨value, checked, _, ⟨fun k hk => keys k (List.mem_cons_of_mem _ hk), rfl⟩, by simp⟩

theorem checkAssertType_eq_ok {assertType : AssertionType} {u : Unit} :
    checkAssertType assertType = .ok u ↔ assertionType assertType.name = some assertType := by
  unfold checkAssertType
  split
  · simp_all
  · rename_i canonical found
    by_cases same : canonical = assertType <;> simp [same, found]

/-- Inserting a header sets its lookup and leaves the others. -/
theorem lookup_insert_eq_ite (s : Headers) (a b x : Bytes) :
    (s.insert a b).lookup x = if x = a then some b else s.lookup x := by
  split
  · subst x; exact AList.lookup_insert s
  · exact AList.lookup_insert_ne ‹_›

/-- Erasing a header unless a condition holds. -/
theorem lookup_eraseUnless_eq_ite (s : Headers) (keep : Prop) [Decidable keep] (a x : Bytes) :
    (if keep then s else s.erase a).lookup x = if x = a ∧ ¬keep then none else s.lookup x := by
  by_cases k : keep
  · simp [k]
  · by_cases same : x = a
    · subst x; simp [k, AList.lookup_erase]
    · simp [k, same, AList.lookup_erase_ne same]

/-! ## The steps of a successful run -/

/-- The mapping `assembleAndSign` checks: the caller's, with `type` and
`body-length` set. -/
def startHeaders (assertType : AssertionType) (headers : Headers) (body : Bytes) : Headers :=
  (headers.insert (ascii "type") assertType.name).insert (ascii "body-length") (itoa body.length)

/-- The mapping it writes: `revision` dropped unless positive. -/
def keptHeaders (assertType : AssertionType) (headers : Headers) (body : Bytes) (revision : Int) : Headers :=
  if 0 < revision then startHeaders assertType headers body
  else (startHeaders assertType headers body).erase (ascii "revision")

/-- The content it signs, written from `kept`. -/
def signedContent (assertType : AssertionType) (kept : Headers) (revision : Int) (body : Bytes) : Bytes :=
  ascii "type: " ++ assertType.name ++ writeHeader kept (ascii "authority-id") ++
    (if 0 < revision then writeHeader kept (ascii "revision") else []) ++
    assertType.primaryKey.flatMap (writeHeader kept) ++
    (sortStrings (kept.keys.filter fun name => name ∉ bookkeeping ++ assertType.primaryKey)).flatMap
      (writeHeader kept) ++
    (if 0 < body.length then writeHeader kept (ascii "body-length") ++ nlnl ++ body else [])

/-- The mapping of the assertion it returns: `body-length` dropped for an
empty body. -/
def signedHeaders (kept : Headers) (body : Bytes) : Headers :=
  if 0 < body.length then kept else kept.erase (ascii "body-length")

theorem lookup_startHeaders (assertType : AssertionType) (headers : Headers) (body x : Bytes) :
    (startHeaders assertType headers body).lookup x =
      if x = ascii "body-length" then some (itoa body.length)
      else if x = ascii "type" then some assertType.name else headers.lookup x := by
  simp only [startHeaders, lookup_insert_eq_ite]

theorem lookup_keptHeaders (assertType : AssertionType) (headers : Headers) (body : Bytes) (revision : Int)
    (x : Bytes) :
    (keptHeaders assertType headers body revision).lookup x =
      if x = ascii "revision" ∧ ¬0 < revision then none else (startHeaders assertType headers body).lookup x :=
  lookup_eraseUnless_eq_ite _ _ _ _

theorem lookup_signedHeaders (kept : Headers) (body x : Bytes) :
    (signedHeaders kept body).lookup x =
      if x = ascii "body-length" ∧ ¬0 < body.length then none else kept.lookup x :=
  lookup_eraseUnless_eq_ite _ _ _ _

/-- What `assembleAndSign` checks and builds before it calls the type's
assembler: the type is the registered one, the caller's `authority-id`,
`revision` and primary key headers pass their checks, and `assert` is the
assertion of the content it wrote and the signature the signer returned for
it, with a newline appended. -/
def Built (signContent : Bytes → Except Bytes Bytes) (assertType : AssertionType) (headers : Headers)
    (body : Bytes) (assert : AssertionBase) : Prop :=
  assertionType assertType.name = some assertType ∧
    (∃ authority, checkNotEmpty (startHeaders assertType headers body) (ascii "authority-id") = .ok authority) ∧
    ∃ revision, checkRevision (startHeaders assertType headers body) = .ok revision ∧
      (∀ primKey ∈ assertType.primaryKey, ∃ value,
        checkPrimaryKey (keptHeaders assertType headers body revision) primKey = .ok value) ∧
      ∃ signature, signContent (signedContent assertType (keptHeaders assertType headers body revision) revision
          body) = .ok signature ∧
        assert = ⟨signedHeaders (keptHeaders assertType headers body revision) body, body, revision,
          signedContent assertType (keptHeaders assertType headers body revision) revision body,
          signature ++ [10]⟩

/-- `assembleAndSign` returns what it built when the type's assembler accepts
it. -/
theorem assembleAndSign_eq_ok [Assemblers] {signContent : Bytes → Except Bytes Bytes} {assertType : AssertionType}
    {headers : Headers} {body : Bytes} {assert : AssertionBase} :
    assembleAndSign signContent assertType headers body = .ok assert ↔
      Built signContent assertType headers body assert ∧ assembler assertType assert = .ok () := by
  simp only [assembleAndSign, Built, except_bind_eq_ok, except_mapError_eq_ok, checkAssertType_eq_ok,
    writePrimaryKeys_eq_ok, pure, Except.pure, Except.ok.injEq]
  constructor
  · rintro ⟨_, registered, authority, authority_ok, revision, revision_ok, keysText, ⟨keys_ok, rfl⟩,
      signature, signed, _, accepted, rfl⟩
    exact ⟨⟨registered, ⟨authority, authority_ok⟩, revision, revision_ok, keys_ok, signature, signed, rfl⟩,
      accepted⟩
  · rintro ⟨⟨registered, ⟨authority, authority_ok⟩, revision, revision_ok, keys_ok, signature, signed, rfl⟩,
      accepted⟩
    exact ⟨(), registered, authority, authority_ok, revision, revision_ok, _, ⟨keys_ok, rfl⟩, signature, signed,
      (), accepted, rfl⟩

theorem mem_sortStrings {names : List Bytes} {name : Bytes} : name ∈ sortStrings names ↔ name ∈ names :=
  (List.perm_insertionSort _ names).mem_iff

theorem nodup_sortStrings {names : List Bytes} (nodup : names.Nodup) : (sortStrings names).Nodup :=
  (List.perm_insertionSort _ names).symm.nodup_iff.mp nodup

/-- The names `assembleAndSign` writes are distinct: bookkeeping names first
and last, then the primary key, then the other names. -/
theorem nodup_canonicalOrder {pre keys others post : List Bytes} (pre_nodup : pre.Nodup)
    (keys_nodup : keys.Nodup) (others_nodup : others.Nodup) (post_nodup : post.Nodup)
    (pre_bookkeeping : ∀ x ∈ pre, x ∈ bookkeeping) (post_bookkeeping : ∀ x ∈ post, x ∈ bookkeeping)
    (pre_post : ∀ x ∈ pre, x ∉ post) (keys_out : ∀ x ∈ keys, x ∉ bookkeeping)
    (others_out : ∀ x ∈ others, x ∉ bookkeeping ∧ x ∉ keys) :
    (pre ++ keys ++ others ++ post).Nodup := by
  simp only [List.nodup_append, List.disjoint_append_left, List.disjoint_append_right]
  exact ⟨⟨⟨pre_nodup, keys_nodup, fun x hp hk => keys_out x hk (pre_bookkeeping x hp)⟩,
    others_nodup, fun x hp ho => (others_out x ho).1 (pre_bookkeeping x hp),
    fun x hk ho => (others_out x ho).2 hk⟩, post_nodup,
    ⟨fun x hp hq => pre_post x hp hq, fun x hk hq => keys_out x hk (post_bookkeeping x hq)⟩,
    fun x ho hq => (others_out x ho).1 (post_bookkeeping x hq)⟩

/-- A signature free of newlines, with the newline `assembleAndSign` appends,
holds no `"\n\n"`. -/
theorem not_nlnl_infix_append_newline {signature : Bytes} (noNewline : 10 ∉ signature) :
    ¬nlnl <:+: signature ++ [10] := by
  rintro ⟨front, back, joined⟩
  have lengths := congrArg List.length joined
  simp only [nlnl, List.length_append, List.length_cons, List.length_singleton, List.length_nil] at lengths
  have leading : front ++ [10] <+: signature :=
    List.prefix_of_prefix_length_le ⟨10 :: back, by rw [← joined]; simp [nlnl]⟩ (List.prefix_append _ _)
      (by simp; omega)
  exact noNewline (leading.subset (by simp))

/-- Such a signature, when not empty, does not start with a newline either. -/
theorem head?_append_newline_ne {signature : Bytes} (nonEmpty : signature ≠ []) (noNewline : 10 ∉ signature) :
    (signature ++ [10]).head? ≠ some 10 := by
  obtain ⟨c, rest, rfl⟩ := List.exists_cons_of_ne_nil nonEmpty
  simp only [List.cons_append, List.head?_cons, ne_eq, Option.some.injEq]
  rintro rfl
  exact noNewline (List.mem_cons_self _ _)

/-! ## Decoding what was signed -/

/-- The names `assembleAndSign` writes after `type`, in its order:
`authority-id`, `revision` when positive, the primary key, the other names
sorted, and `body-length` for a body. -/
def signedOrder (assertType : AssertionType) (kept : Headers) (revision : Int) (body : Bytes) : List Bytes :=
  ascii "authority-id" :: ((if 0 < revision then [ascii "revision"] else []) ++ assertType.primaryKey ++
    sortStrings (kept.keys.filter fun name => name ∉ bookkeeping ++ assertType.primaryKey) ++
    (if 0 < body.length then [ascii "body-length"] else []))

theorem signedContent_eq (assertType : AssertionType) (kept : Headers) (revision : Int) (body : Bytes) :
    signedContent assertType kept revision body = ascii "type: " ++ assertType.name ++
      (signedOrder assertType kept revision body).flatMap (writeHeader kept) ++
      (if 0 < body.length then nlnl ++ body else []) := by
  unfold signedContent signedOrder
  split_ifs <;> simp [List.append_assoc]

theorem mem_signedOrder {assertType : AssertionType} {kept : Headers} {revision : Int} {body name : Bytes} :
    name ∈ signedOrder assertType kept revision body ↔
      name = ascii "authority-id" ∨ (name = ascii "revision" ∧ 0 < revision) ∨ name ∈ assertType.primaryKey ∨
        (name ∈ kept.keys ∧ name ∉ bookkeeping ∧ name ∉ assertType.primaryKey) ∨
        (name = ascii "body-length" ∧ 0 < body.length) := by
  unfold signedOrder
  split_ifs <;> simp [*, mem_sortStrings, or_assoc]

theorem nodup_signedOrder {assertType : AssertionType} (shape : RegisteredShape assertType) (kept : Headers)
    (revision : Int) (body : Bytes) : (ascii "type" :: signedOrder assertType kept revision body).Nodup := by
  have pre_nodup : (ascii "type" :: ascii "authority-id" ::
      if 0 < revision then [ascii "revision"] else []).Nodup := by
    split_ifs <;> decide
  have post_nodup : (if 0 < body.length then [ascii "body-length"] else []).Nodup := by split_ifs <;> decide
  have pre_bookkeeping : ∀ x ∈ ascii "type" :: ascii "authority-id" ::
      (if 0 < revision then [ascii "revision"] else []), x ∈ bookkeeping := by
    split_ifs <;> decide
  have post_bookkeeping : ∀ x ∈ (if 0 < body.length then [ascii "body-length"] else []), x ∈ bookkeeping := by
    split_ifs <;> decide
  have pre_post : ∀ x ∈ ascii "type" :: ascii "authority-id" :: (if 0 < revision then [ascii "revision"] else []),
      x ∉ (if 0 < body.length then [ascii "body-length"] else []) := by
    split_ifs <;> decide
  have others_out : ∀ x ∈ sortStrings (kept.keys.filter fun name => name ∉ bookkeeping ++ assertType.primaryKey),
      x ∉ bookkeeping ∧ x ∉ assertType.primaryKey := fun x member =>
    (by simpa [mem_sortStrings] using member : x ∈ kept.keys ∧ x ∉ bookkeeping ∧ x ∉ assertType.primaryKey).2
  simpa only [signedOrder, List.cons_append] using nodup_canonicalOrder pre_nodup shape.key_nodup
    (nodup_sortStrings ((AList.keys_nodup kept).filter _)) post_nodup pre_bookkeeping post_bookkeeping pre_post
    shape.key_not_bookkeeping others_out

section
variable {assertType : AssertionType} {headers : Headers} {body : Bytes} {revision : Int}

/-- What the mapping `assembleAndSign` returns looks up: `body-length` for a
body, `type`, no `revision` unless it is positive, and the caller's headers. -/
theorem lookup_signedHeaders_keptHeaders (name : Bytes) :
    (signedHeaders (keptHeaders assertType headers body revision) body).lookup name =
      if name = ascii "body-length" then (if 0 < body.length then some (itoa body.length) else none)
      else if name = ascii "type" then some assertType.name
      else if name = ascii "revision" ∧ ¬0 < revision then none
      else headers.lookup name := by
  have tb : ascii "type" ≠ ascii "body-length" := by decide
  have rb : ascii "revision" ≠ ascii "body-length" := by decide
  have rt : ascii "revision" ≠ ascii "type" := by decide
  rw [lookup_signedHeaders, lookup_keptHeaders, lookup_startHeaders]
  by_cases hb : name = ascii "body-length"
  · subst hb; by_cases n : 0 < body.length <;> simp [n, rb.symm]
  by_cases ht : name = ascii "type"
  · subst ht; simp [tb, rt.symm]
  by_cases hr : name = ascii "revision"
  · subst hr; by_cases r : 0 < revision <;> simp [r, rb, rt]
  simp [hb, ht, hr]

/-- The mapping `assembleAndSign` returns has sane names where the caller's
mapping has. -/
theorem sane_signedHeaders (sane : ∀ name ∈ headers.keys, headerNameSanity name = true) :
    ∀ name ∈ (signedHeaders (keptHeaders assertType headers body revision) body).keys,
      headerNameSanity name = true := by
  intro x hx
  rw [← AList.mem_keys, ← AList.lookup_isSome, lookup_signedHeaders_keptHeaders] at hx
  by_cases hb : x = ascii "body-length"
  · subst hb; decide
  by_cases ht : x = ascii "type"
  · subst ht; decide
  rw [if_neg hb, if_neg ht] at hx
  split at hx
  · simp at hx
  · exact sane x (AList.mem_keys.mp (AList.lookup_isSome.mp hx))

/-- ... and UTF-8 values where the caller's mapping has. -/
theorem valid_signedHeaders (shape : RegisteredShape assertType)
    (valid : ∀ name value, headers.lookup name = some value → utf8Valid value = true) :
    ∀ name value, (signedHeaders (keptHeaders assertType headers body revision) body).lookup name = some value →
      utf8Valid value = true := by
  intro x v found
  rw [lookup_signedHeaders_keptHeaders] at found
  split at found
  · split at found
    · cases found; exact utf8Valid_of_ascii (itoa_ascii _)
    · cases found
  · split at found
    · cases found; exact utf8Valid_of_ascii shape.name_ascii
    · split at found
      · cases found
      · exact valid x v found

/-- The content `assembleAndSign` signs is the header block of the mapping it
returns, `type` first and the names of `signedOrder` after it, then the body
behind `"\n\n"` when there is one. -/
theorem signedContent_eq_block (shape : RegisteredShape assertType) :
    signedContent assertType (keptHeaders assertType headers body revision) revision body =
      ((writeHeader (signedHeaders (keptHeaders assertType headers body revision) body) (ascii "type")).tail ++
        (signedOrder assertType (keptHeaders assertType headers body revision) revision body).flatMap
          (writeHeader (signedHeaders (keptHeaders assertType headers body revision) body))) ++
      (if 0 < body.length then nlnl ++ body else []) := by
  have tb : ascii "type" ≠ ascii "body-length" := by decide
  have type_text : (writeHeader (signedHeaders (keptHeaders assertType headers body revision) body)
      (ascii "type")).tail = ascii "type: " ++ assertType.name := by
    simp [writeHeader, lookup_signedHeaders_keptHeaders, tb, shape.name_no_newline]
    rfl
  have same : ∀ x ∈ signedOrder assertType (keptHeaders assertType headers body revision) revision body,
      (signedHeaders (keptHeaders assertType headers body revision) body).lookup x =
        (keptHeaders assertType headers body revision).lookup x := by
    intro x hx
    rw [lookup_signedHeaders, if_neg]
    rintro ⟨rfl, empty⟩
    rcases mem_signedOrder.mp hx with bad | bad | key | other | ⟨-, n⟩
    · exact absurd bad (by decide)
    · exact absurd bad.1 (by decide)
    · exact shape.key_not_bookkeeping _ key (by decide)
    · exact other.2.1 (by decide)
    · exact empty n
  rw [signedContent_eq, flatMap_writeHeader_congr same, type_text]

/-- A positive revision was read from the caller's `revision` header. -/
theorem lookup_revision_isSome (revision_ok : checkRevision (startHeaders assertType headers body) = .ok revision)
    (positive : 0 < revision) : (headers.lookup (ascii "revision")).isSome := by
  cases found : headers.lookup (ascii "revision") with
  | some value => rfl
  | none =>
      have absent : (startHeaders assertType headers body).lookup (ascii "revision") = none := by
        rw [lookup_startHeaders, if_neg (by decide), if_neg (by decide), found]
      simp [checkRevision, checkInteger_of_lookup_none 0 absent] at revision_ok
      omega

/-- The mapping `assembleAndSign` returns holds exactly the names it writes. -/
theorem perm_signedOrder (shape : RegisteredShape assertType)
    (authority_ok : ∃ authority, checkNotEmpty (startHeaders assertType headers body) (ascii "authority-id") =
      .ok authority)
    (revision_ok : checkRevision (startHeaders assertType headers body) = .ok revision)
    (keys_ok : ∀ primKey ∈ assertType.primaryKey, ∃ value,
      checkPrimaryKey (keptHeaders assertType headers body revision) primKey = .ok value) :
    (ascii "type" :: signedOrder assertType (keptHeaders assertType headers body revision) revision body).Perm
      (signedHeaders (keptHeaders assertType headers body revision) body).keys := by
  have tb : ascii "type" ≠ ascii "body-length" := by decide
  have rb : ascii "revision" ≠ ascii "body-length" := by decide
  rw [List.perm_ext_iff_of_nodup (nodup_signedOrder shape _ _ _) (AList.keys_nodup _)]
  intro x
  rw [List.mem_cons, mem_signedOrder]
  conv_rhs => rw [← AList.mem_keys, ← AList.lookup_isSome, lookup_signedHeaders_keptHeaders]
  by_cases ha : x = ascii "authority-id"
  · subst ha
    obtain ⟨authority, found⟩ := authority_ok
    have found := (checkNotEmpty_eq_ok.mp found).1
    rw [lookup_startHeaders] at found
    simp only [show ascii "authority-id" ≠ ascii "body-length" by decide,
      show ascii "authority-id" ≠ ascii "type" by decide, if_false] at found
    simp [found, show ascii "authority-id" ≠ ascii "body-length" by decide,
      show ascii "authority-id" ≠ ascii "type" by decide, show ascii "authority-id" ≠ ascii "revision" by decide]
  by_cases ht : x = ascii "type"
  · subst ht; simp [tb]
  by_cases hb : x = ascii "body-length"
  · subst hb
    have : ascii "body-length" ∉ assertType.primaryKey := fun h => shape.key_not_bookkeeping _ h (by decide)
    have : ascii "body-length" ∈ bookkeeping := by decide
    have : ascii "authority-id" ≠ ascii "body-length" := by decide
    by_cases n : 0 < body.length <;> simp [*, rb.symm, Ne.symm this]
  by_cases hr : x = ascii "revision"
  · subst hr
    have : ascii "revision" ∉ assertType.primaryKey := fun h => shape.key_not_bookkeeping _ h (by decide)
    have : ascii "revision" ∈ bookkeeping := by decide
    have : ascii "authority-id" ≠ ascii "revision" := by decide
    by_cases r : 0 < revision <;> simp [*, lookup_revision_isSome revision_ok, Ne.symm this]
  have plain : x ∉ bookkeeping := by simp [bookkeeping, ha, ht, hb, hr]
  rw [AList.mem_keys.symm.trans AList.lookup_isSome.symm, lookup_keptHeaders, lookup_startHeaders]
  simp only [ha, ht, hb, hr, false_and, false_or, or_false, plain, not_false_eq_true, true_and, if_false]
  constructor
  · rintro (key | ⟨present, -⟩)
    · obtain ⟨value, checked⟩ := keys_ok x key
      have found := (checkNotEmpty_eq_ok.mp (checkPrimaryKey_eq_ok.mp checked).1).1
      rw [lookup_keptHeaders, lookup_startHeaders] at found
      simp only [hr, hb, ht, false_and, if_false] at found
      simp [found]
    · exact present
  · intro present
    by_cases key : x ∈ assertType.primaryKey
    · exact .inl key
    · exact .inr ⟨present, key⟩

/-- The mapping `assembleAndSign` returns passes the checks `Assemble`
makes. -/
theorem checked_signedHeaders (shape : RegisteredShape assertType)
    (registered : assertionType assertType.name = some assertType)
    (authority_ok : ∃ authority, checkNotEmpty (startHeaders assertType headers body) (ascii "authority-id") =
      .ok authority)
    (revision_ok : checkRevision (startHeaders assertType headers body) = .ok revision)
    (keys_ok : ∀ primKey ∈ assertType.primaryKey, ∃ value,
      checkPrimaryKey (keptHeaders assertType headers body revision) primKey = .ok value)
    (fits : body.length < 2 ^ 63) (signature : Bytes) :
    Checked (signedHeaders (keptHeaders assertType headers body revision) body) body (signature ++ [10])
      revision := by
  have tb : ascii "type" ≠ ascii "body-length" := by decide
  have rb : ascii "revision" ≠ ascii "body-length" := by decide
  have rt : ascii "revision" ≠ ascii "type" := by decide
  obtain ⟨authority, authority_ok⟩ := authority_ok
  refine ⟨?_, ⟨authority, ?_⟩, ⟨assertType, ?_, registered, fun k hk => ?_⟩, ?_, by simp⟩
  · by_cases n : 0 < body.length
    · exact checkInteger_of_lookup_itoa 0 (by rw [lookup_signedHeaders_keptHeaders]; simp [n]) fits
    · rw [checkInteger_of_lookup_none 0 (by rw [lookup_signedHeaders_keptHeaders]; simp [n])]
      simp only [Except.ok.injEq]
      omega
  · rw [← authority_ok]
    refine checkNotEmpty_congr ?_
    rw [lookup_signedHeaders_keptHeaders, lookup_startHeaders]
    simp only [show ascii "authority-id" ≠ ascii "body-length" by decide,
      show ascii "authority-id" ≠ ascii "type" by decide, show ascii "authority-id" ≠ ascii "revision" by decide,
      false_and, if_false]
  · exact checkNotEmpty_eq_ok.mpr ⟨by rw [lookup_signedHeaders_keptHeaders]; simp [tb], shape.name_ne_nil⟩
  · obtain ⟨value, checked⟩ := keys_ok k hk
    refine ⟨value, (checkPrimaryKey_congr ?_).trans checked⟩
    rw [lookup_signedHeaders, if_neg fun h => shape.key_not_bookkeeping k hk (by rw [h.1]; decide)]
  · by_cases r : 0 < revision
    · refine (checkRevision_congr ?_).trans revision_ok
      rw [lookup_signedHeaders_keptHeaders, lookup_startHeaders]
      simp [r, rb, rt]
    · have zero : revision = 0 := by have := checkRevision_nonneg revision_ok; omega
      subst zero
      have absent : (signedHeaders (keptHeaders assertType headers body 0) body).lookup
          (ascii "revision") = none := by
        rw [lookup_signedHeaders_keptHeaders]; simp [rb, rt]
      simp [checkRevision, checkInteger_of_lookup_none 0 absent]

end

/-- The canonical encoder round trip, for mappings of valid header names to
UTF-8 values: whatever `assembleAndSign` returns, with a signer whose output is
not empty and free of newlines, `Decode(Encode(a))` gives back the same
assertion.  A body is a Go slice, so its length fits an `int`. -/
theorem decode_encode_assembleAndSign [Assemblers] {signContent : Bytes → Except Bytes Bytes} {assertType : AssertionType}
    {headers : Headers} {body : Bytes} {assert : AssertionBase}
    (signer : ∀ content signature, signContent content = .ok signature → signature ≠ [] ∧ 10 ∉ signature)
    (sane : ∀ name ∈ headers.keys, headerNameSanity name = true)
    (valid : ∀ name value, headers.lookup name = some value → utf8Valid value = true)
    (fits : body.length < 2 ^ 63)
    (signed : assembleAndSign signContent assertType headers body = .ok assert) :
    ∃ decoded, decode (encode assert) = .ok decoded ∧ SameAssertion decoded assert := by
  obtain ⟨⟨registered, authority_ok, revision, revision_ok, keys_ok, signature, signature_ok, rfl⟩, accepted⟩ :=
    assembleAndSign_eq_ok.mp signed
  have typed : (signedHeaders (keptHeaders assertType headers body revision) body).lookup (ascii "type") =
      some assertType.name := by
    simp [lookup_signedHeaders_keptHeaders, show ascii "type" ≠ ascii "body-length" by decide]
  replace accepted : Accepted ⟨signedHeaders (keptHeaders assertType headers body revision) body, body, revision,
      signedContent assertType (keptHeaders assertType headers body revision) revision body, signature ++ [10]⟩ :=
    ⟨assertType, by rw [AssertionBase.type]; dsimp only; rw [typed, Option.getD_some, registered], accepted⟩
  have shape := registeredShape_of_mem assertType (mem_of_assertionType registered).1
  have perm := perm_signedOrder shape authority_ok revision_ok keys_ok
  have checked := checked_signedHeaders shape registered authority_ok revision_ok keys_ok fits signature
  obtain ⟨block_shape, parsed, parses, same_lookup⟩ := writeHeader_block_parses _ (ascii "type") _ perm
    (sane_signedHeaders sane) (valid_signedHeaders shape valid)
  have content_eq := @signedContent_eq_block assertType headers body revision shape
  generalize keptHeaders assertType headers body revision = kept at *
  obtain ⟨sig_ne, sig_no_newline⟩ := signer _ _ signature_ok
  have split_eq : splitContent (signedContent assertType kept revision body) =
      ((writeHeader (signedHeaders kept body) (ascii "type")).tail ++
        (signedOrder assertType kept revision body).flatMap (writeHeader (signedHeaders kept body)), body) := by
    rw [content_eq]
    by_cases n : 0 < body.length
    · rw [if_pos n, ← List.append_assoc]
      exact splitContent_block_append block_shape.no_nlnl block_shape.last_ne body
    · rw [if_neg n, List.append_nil, splitContent_block block_shape.no_nlnl,
        List.eq_nil_of_length_eq_zero (by omega : body.length = 0)]
  have assembled : assemble parsed body (signedContent assertType kept revision body) (signature ++ [10]) =
      .ok ⟨parsed, body, revision, signedContent assertType kept revision body, signature ++ [10]⟩ :=
    assemble_eq_ok_iff.mpr ⟨revision, (checked_congr same_lookup).mpr checked, rfl,
      accepted.congr same_lookup rfl rfl rfl⟩
  refine ⟨⟨parsed, body, revision, signedContent assertType kept revision body, signature ++ [10]⟩, ?_,
    sameAssertion_of_lookup same_lookup rfl rfl rfl rfl⟩
  rw [encode, decode_envelope (not_nlnl_infix_append_newline sig_no_newline)
    (head?_append_newline_ne sig_ne sig_no_newline), decodeContent, split_eq]
  dsimp only
  rw [parses]
  dsimp only
  rw [assembled]
  rfl

/-- An `account` assertion with a body goes through the round trip. -/
theorem decode_encode_assembleAndSign_account :
    letI : Assemblers := acceptAll
    let headers : Headers := ((∅ : Headers).insert (ascii "authority-id") (ascii "canonical")).insert
      (ascii "account-id") (ascii "alice")
    let signContent : Bytes → Except Bytes Bytes := fun _ => .ok (ascii "sig")
    ((∀ content signature, signContent content = .ok signature → signature ≠ [] ∧ 10 ∉ signature) ∧
      (∀ name ∈ headers.keys, headerNameSanity name = true) ∧
      (∀ name value, headers.lookup name = some value → utf8Valid value = true) ∧
      (ascii "hello").length < 2 ^ 63) ∧
    ∃ assert, assembleAndSign signContent accountType headers (ascii "hello") = .ok assert ∧
      ∃ decoded, decode (encode assert) = .ok decoded ∧ SameAssertion decoded assert := by
  letI : Assemblers := acceptAll
  intro headers signContent
  have signer : ∀ content signature, signContent content = .ok signature →
      signature ≠ [] ∧ 10 ∉ signature := by
    intro content signature signed
    cases signed
    decide
  have sane : ∀ name ∈ headers.keys, headerNameSanity name = true := by decide
  have valid : ∀ name value, headers.lookup name = some value → utf8Valid value = true := by
    intro name value found
    simp only [headers, lookup_insert_eq_ite, AList.lookup_empty] at found
    split at found
    · cases found; decide
    · split at found
      · cases found; decide
      · cases found
  have fits : (ascii "hello").length < 2 ^ 63 := by decide
  obtain ⟨assert, signed⟩ : ∃ assert,
      assembleAndSign signContent accountType headers (ascii "hello") = .ok assert := ⟨_, rfl⟩
  exact ⟨⟨signer, sane, valid, fits⟩, assert, signed,
    decode_encode_assembleAndSign signer sane valid fits signed⟩

end SnapdAsserts
