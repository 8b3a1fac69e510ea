import SnapdAsserts.Assertion.Checks

/-!
# Assembling an assertion

`Assemble` checks a header mapping against a body and a signature and builds
the assertion that holds them, which the registered type's assembler then
accepts or rejects.  The assemblers lie outside the codec, so the development
takes them as a parameter, `Assemblers`.  `Checked` states what `Assemble`
checks itself, once, and `assemble_eq_ok_iff` says that `Assemble` succeeds
exactly on checked inputs whose assertion, made of its inputs and the parsed
revision, the type's assembler accepts.  Every assertion it returns satisfies
the invariants of the spec's data model (`AssertionBase.Valid`).
-/

namespace SnapdAsserts

/-- `assertionBase`: the headers, body, revision, signed content and
signature of an assertion.  A body that Go holds as `nil` is the empty list. -/
structure AssertionBase where
  headers : Headers
  body : Bytes
  revision : Int
  content : Bytes
  signature : Bytes

namespace AssertionBase

/-- `Type()`: the registered type named by the `type` header. -/
def type (assert : AssertionBase) : Option AssertionType :=
  assertionType ((assert.headers.lookup (ascii "type")).getD [])

/-- `AuthorityID()`. -/
def authorityID (assert : AssertionBase) : Bytes :=
  (assert.headers.lookup (ascii "authority-id")).getD []

end AssertionBase

/-- Errors of `Assemble`, one constructor per message. -/
inductive AssembleError where
  /-- `"assertion: %v"`. -/
  | assertion (err : CheckError)
  /-- `"assertion body length and declared body-length don't match: %v != %v"`. -/
  | bodyLengthMismatch (actual : Nat) (declared : Int)
  /-- `"unknown assertion type: %q"`. -/
  | unknownType (name : Bytes)
  /-- `"assertion %s: %v"`, for a primary key header. -/
  | primaryKey (typeName : Bytes) (err : CheckError)
  /-- `"empty assertion signature"`. -/
  | emptySignature
  /-- `"assertion %s: %v"`, for the type's assembler. -/
  | assembler (typeName : Bytes) (err : Bytes)
  deriving DecidableEq, Repr

/-- The assemblers of the registered types (`assertType.assembler`), which
the spec leaves outside the codec as type-specific semantic validators; every
result of the development holds for all of them.  Go's assembler returns the
type's variant of the assertion, which embeds the base and exposes its
operations unchanged (the spec's data model), or an error: it is modelled by
that verdict.  The signature is opaque to it, as to the rest of the codec. -/
class Assemblers where
  /-- `assertType.assembler(base)`: `.ok ()` for the type's variant of `base`,
  or the error it returns. -/
  assembler : AssertionType → AssertionBase → Except Bytes Unit
  /-- Go's headers are a map: the verdict reads them only by name. -/
  assembler_lookup (assertType : AssertionType) (base : AssertionBase) (headers : Headers)
    (same : ∀ name, headers.lookup name = base.headers.lookup name) :
    assembler assertType { base with headers := headers } = assembler assertType base
  /-- The verdict does not read the signature. -/
  assembler_signature (assertType : AssertionType) (base : AssertionBase) (signature : Bytes) :
    assembler assertType { base with signature := signature } = assembler assertType base

export Assemblers (assembler)

/-- Assemblers that accept every assertion. -/
def acceptAll : Assemblers := ⟨fun _ _ => .ok (), fun _ _ _ _ => rfl, fun _ _ _ => rfl⟩

/-- Assemblers that accept an assertion when it has the header `name`, and
otherwise report it missing. -/
def requiring (name : Bytes) : Assemblers :=
  ⟨fun _ assert => if (assert.headers.lookup name).isSome then .ok () else .error (ascii "missing " ++ name),
    fun _ _ _ same => by simp only [same], fun _ _ _ => rfl⟩

/-- The loop of `Assemble` over the primary key of a type. -/
def checkPrimaryKeys (headers : Headers) (typeName : Bytes) : List Bytes → Except AssembleError Unit
  | [] => .ok ()
  | primKey :: rest => do
      let _ ← (checkPrimaryKey headers primKey).mapError (.primaryKey typeName)
      checkPrimaryKeys headers typeName rest

/-- `if !ok { return err }`: a check that fails with `err`. -/
def require {ε : Type} (ok : Prop) [Decidable ok] (err : ε) : Except ε Unit :=
  if ok then .ok () else .error err

/-- `Assemble(headers, body, content, signature)`. -/
def assemble [Assemblers] (headers : Headers) (body content signature : Bytes) :
    Except AssembleError AssertionBase := do
  let length ← (checkInteger headers (ascii "body-length") 0).mapError .assertion
  require (length = body.length) (.bodyLengthMismatch body.length length)
  let _ ← (checkNotEmpty headers (ascii "authority-id")).mapError .assertion
  let typ ← (checkNotEmpty headers (ascii "type")).mapError .assertion
  let assertType ← (assertionType typ).elim (.error (.unknownType typ)) .ok
  checkPrimaryKeys headers assertType.name assertType.primaryKey
  let revision ← (checkRevision headers).mapError .assertion
  require (signature ≠ []) .emptySignature
  let assert : AssertionBase := { headers, body, revision, content, signature }
  (assembler assertType assert).mapError (.assembler assertType.name)
  return assert

/-! ## What `Assemble` checks -/

/-- The checks of `Assemble` on a mapping, a body and a signature, with the
revision they parse. -/
structure Checked (headers : Headers) (body signature : Bytes) (revision : Int) : Prop where
  bodyLength : checkInteger headers (ascii "body-length") 0 = .ok body.length
  authority : ∃ authority, checkNotEmpty headers (ascii "authority-id") = .ok authority
  registered : ∃ assertType, checkNotEmpty headers (ascii "type") = .ok assertType.name ∧
    assertionType assertType.name = some assertType ∧
    ∀ primKey ∈ assertType.primaryKey, ∃ value, checkPrimaryKey headers primKey = .ok value
  revision : checkRevision headers = .ok revision
  signature : signature ≠ []

@[simp]
theorem except_bind_eq_ok {ε α β : Type} {x : Except ε α} {f : α → Except ε β} {b : β} :
    x >>= f = .ok b ↔ ∃ a, x = .ok a ∧ f a = .ok b := by
  cases x <;> simp [bind, Except.bind]

@[simp]
theorem except_mapError_eq_ok {ε ε' α : Type} {x : Except ε α} {f : ε → ε'} {a : α} :
    x.mapError f = .ok a ↔ x = .ok a := by
  cases x <;> simp [Except.mapError]

theorem checkPrimaryKeys_eq_ok {headers : Headers} {typeName : Bytes} {keys : List Bytes} :
    checkPrimaryKeys headers typeName keys = .ok () ↔
      ∀ primKey ∈ keys, ∃ value, checkPrimaryKey headers primKey = .ok value := by
  induction keys with
  | nil => simp [checkPrimaryKeys]
  | cons primKey rest ih => simp [checkPrimaryKeys, ih]

@[simp]
theorem require_eq_ok {ε : Type} {ok : Prop} [Decidable ok] {err : ε} {u : Unit} :
    require ok err = .ok u ↔ ok := by
  unfold require; split <;> simp_all

@[simp]
theorem elim_eq_ok {ε α : Type} {found : Option α} {err : ε} {a : α} :
    found.elim (Except.error err) Except.ok = Except.ok a ↔ found = some a := by
  cases found <;> simp

/-- The assembler of an assertion's registered type accepts it. -/
def Accepted [Assemblers] (assert : AssertionBase) : Prop :=
  ∃ assertType, assert.type = some assertType ∧ assembler assertType assert = .ok ()

/-- The registered type a mapping's `type` header names is the type of its
assertions. -/
theorem type_of_typeHeader {headers : Headers} {assertType : AssertionType}
    (typ_ok : checkNotEmpty headers (ascii "type") = .ok assertType.name)
    (found : assertionType assertType.name = some assertType) (base : AssertionBase) (same : base.headers = headers) :
    base.type = some assertType := by
  rw [AssertionBase.type, same, (checkNotEmpty_eq_ok.mp typ_ok).1, Option.getD_some, found]

/-- `Assemble` succeeds exactly on checked inputs whose assertion, made of
them and the revision it parsed, the type's assembler accepts, and then
returns that assertion. -/
theorem assemble_eq_ok_iff [Assemblers] {headers : Headers} {body content signature : Bytes}
    {assert : AssertionBase} :
    assemble headers body content signature = .ok assert ↔
      ∃ revision, Checked headers body signature revision ∧
        assert = { headers, body, revision, content, signature } ∧ Accepted assert := by
  simp only [assemble, except_bind_eq_ok, except_mapError_eq_ok, require_eq_ok, elim_eq_ok, pure, Except.pure,
    Except.ok.injEq]
  constructor
  · rintro ⟨_, length_ok, _, rfl, authority, authority_ok, _, typ_ok, assertType, found, _, keys_ok,
      revision, revision_ok, _, nonempty, _, accepted, rfl⟩
    obtain ⟨-, rfl⟩ := mem_of_assertionType found
    exact ⟨revision, ⟨length_ok, ⟨authority, authority_ok⟩,
      ⟨assertType, typ_ok, found, checkPrimaryKeys_eq_ok.mp keys_ok⟩, revision_ok, nonempty⟩, rfl,
      assertType, type_of_typeHeader typ_ok found _ rfl, accepted⟩
  · rintro ⟨revision, ⟨length_ok, ⟨authority, authority_ok⟩, ⟨assertType, typ_ok, found, keys⟩,
      revision_ok, nonempty⟩, rfl, assertType', typed, accepted⟩
    obtain rfl : assertType = assertType' :=
      Option.some.inj ((type_of_typeHeader typ_ok found _ rfl).symm.trans typed)
    exact ⟨_, length_ok, (), rfl, authority, authority_ok, _, typ_ok, assertType, found, (),
      checkPrimaryKeys_eq_ok.mpr keys, revision, revision_ok, (), nonempty, (), accepted, rfl⟩

/-- The assembler's verdict reads an assertion's headers by name, its body,
revision and content, and nothing else. -/
theorem assembler_congr [Assemblers] (assertType : AssertionType) {base base' : AssertionBase}
    (headers : ∀ name, base'.headers.lookup name = base.headers.lookup name) (body : base'.body = base.body)
    (revision : base'.revision = base.revision) (content : base'.content = base.content) :
    assembler assertType base' = assembler assertType base := by
  obtain ⟨h', b', r', c', s'⟩ := base'
  obtain ⟨h, b, r, c, s⟩ := base
  dsimp only at headers body revision content
  subst body revision content
  calc assembler assertType ⟨h', b', r', c', s'⟩
      = assembler assertType { (⟨h, b', r', c', s'⟩ : AssertionBase) with headers := h' } := rfl
    _ = assembler assertType { (⟨h, b', r', c', s⟩ : AssertionBase) with signature := s' } :=
      Assemblers.assembler_lookup _ _ _ headers
    _ = assembler assertType ⟨h, b', r', c', s⟩ := Assemblers.assembler_signature _ _ _

theorem assembler_eq_ok_congr [Assemblers] {assertType : AssertionType} {base base' : AssertionBase}
    (accepted : assembler assertType base = .ok ())
    (headers : ∀ name, base'.headers.lookup name = base.headers.lookup name) (body : base'.body = base.body)
    (revision : base'.revision = base.revision) (content : base'.content = base.content) :
    assembler assertType base' = .ok () :=
  (assembler_congr assertType headers body revision content).trans accepted

/-- So is whether the type's assembler accepts it. -/
theorem Accepted.congr [Assemblers] {base base' : AssertionBase} (accepted : Accepted base)
    (headers : ∀ name, base'.headers.lookup name = base.headers.lookup name) (body : base'.body = base.body)
    (revision : base'.revision = base.revision) (content : base'.content = base.content) : Accepted base' := by
  obtain ⟨assertType, typed, ok⟩ := accepted
  exact ⟨assertType, by simpa only [AssertionBase.type, headers] using typed,
    assembler_eq_ok_congr ok headers body revision content⟩

/-! ## The data model's invariants -/

/-- The invariants of the spec's data model: an assertion's headers, body and
signature pass the checks of `Assemble`, with its revision the one they parse.
In particular the body has the declared length, `authority-id` is not empty,
`type` names a registered type whose primary key headers are present, not
empty and free of `/`, the revision is not negative and the signature is not
empty. -/
def AssertionBase.Valid (assert : AssertionBase) : Prop :=
  Checked assert.headers assert.body assert.signature assert.revision

/-- Every assertion `Assemble` returns satisfies the data model's invariants. -/
theorem valid_of_assemble [Assemblers] {headers : Headers} {body content signature : Bytes}
    {assert : AssertionBase} (assembled : assemble headers body content signature = .ok assert) :
    assert.Valid := by
  obtain ⟨revision, checked, rfl, -⟩ := assemble_eq_ok_iff.mp assembled
  exact checked

theorem AssertionBase.Valid.revision_nonneg {assert : AssertionBase} (valid : assert.Valid) :
    0 ≤ assert.revision :=
  checkRevision_nonneg valid.revision

/-- `Checked` reads the mapping only through `lookup`. -/
theorem checked_congr {first second : Headers} (same : ∀ name, first.lookup name = second.lookup name)
    {body signature : Bytes} {revision : Int} :
    Checked first body signature revision ↔ Checked second body signature revision := by
  have congr : ∀ name, checkNotEmpty first name = checkNotEmpty second name ∧
      checkPrimaryKey first name = checkPrimaryKey second name := fun name =>
    ⟨checkNotEmpty_congr (same name), checkPrimaryKey_congr (same name)⟩
  constructor <;> rintro ⟨length_ok, authority, registered, revision_ok, nonempty⟩
  · refine ⟨?_, ?_, ?_, ?_, nonempty⟩
    · rwa [← checkInteger_congr (same _)]
    · simpa only [(congr _).1] using authority
    · simpa only [(congr _).1, (congr _).2] using registered
    · rwa [← checkRevision_congr (same _)]
  · refine ⟨?_, ?_, ?_, ?_, nonempty⟩
    · rwa [checkInteger_congr (same _)]
    · simpa only [(congr _).1] using authority
    · simpa only [(congr _).1, (congr _).2] using registered
    · rwa [checkRevision_congr (same _)]

end SnapdAsserts
