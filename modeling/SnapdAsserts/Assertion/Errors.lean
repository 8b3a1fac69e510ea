import SnapdAsserts.Assertion.Sign

/-!
# What the errors of `Assemble` and `assembleAndSign` say

Both functions stop at the first header check that fails and report it with
a message naming a header.  `CheckError.Holds` states what each message says
of the mapping the check read, and every error the two functions return is
true of their input: it names a header they check, with the value the
message describes, or, once every check passed, it is the error of the
type's assembler on the assertion built from the input.

`assembleAndSign` sets `type` and `body-length` itself before its checks, so
each of its check errors is about the caller's own `authority-id`,
`revision` or primary key headers.
-/

namespace SnapdAsserts

/-! ## Errors through `Except` -/

section
variable {ε ε' α β : Type}

@[simp]
theorem except_bind_eq_error {x : Except ε α} {f : α → Except ε β} {e : ε} :
    x >>= f = .error e ↔ x = .error e ∨ ∃ a, x = .ok a ∧ f a = .error e := by
  cases x <;> simp [bind, Except.bind]

@[simp]
theorem except_mapError_eq_error {x : Except ε α} {f : ε → ε'} {e : ε'} :
    x.mapError f = .error e ↔ ∃ e₀, x = .error e₀ ∧ f e₀ = e := by
  cases x <;> simp [Except.mapError]

@[simp]
theorem require_eq_error {ok : Prop} [Decidable ok] {err e : ε} :
    require ok err = .error e ↔ ¬ok ∧ err = e := by
  unfold require; split <;> simp_all

@[simp]
theorem elim_eq_error {found : Option α} {err e : ε} :
    found.elim (Except.error err) Except.ok = (Except.error e : Except ε α) ↔ found = none ∧ err = e := by
  cases found <;> simp

end

/-! ## The header checks -/

namespace CheckError

/-- The header an error of a check names. -/
def header : CheckError → Bytes
  | notInteger name _ | mandatory name | empty name | primaryKeySlash name => name
  | negativeRevision _ => ascii "revision"

/-- What an error's message says of the mapping the check read. -/
def Holds (headers : Headers) : CheckError → Prop
  | notInteger name value => headers.lookup name = some value ∧ atoi value = none
  | mandatory name => headers.lookup name = none
  | empty name => headers.lookup name = some []
  | primaryKeySlash name => ∃ value, headers.lookup name = some value ∧ value ≠ [] ∧ 47 ∈ value
  | negativeRevision revision =>
      ∃ value, headers.lookup (ascii "revision") = some value ∧ atoi value = some revision ∧ revision < 0

/-- A message says something of the value of its header only. -/
theorem holds_congr {first second : Headers} {err : CheckError}
    (same : first.lookup err.header = second.lookup err.header) : err.Holds first ↔ err.Holds second := by
  cases err <;> simp_all [Holds, header]

end CheckError

/-- The error of the check of header `name`: it names `name`, and what it
says of the mapping is true. -/
structure Reports (headers : Headers) (name : Bytes) (err : CheckError) : Prop where
  header : err.header = name
  holds : err.Holds headers

namespace Reports
variable {headers : Headers} {name : Bytes} {err : CheckError}

/-- A report names a header of every list that holds its name. -/
theorem mem {names : List Bytes} (reports : Reports headers name err) (member : name ∈ names) :
    err.header ∈ names ∧ err.Holds headers :=
  ⟨reports.header ▸ member, reports.holds⟩

/-- A report on a mapping holds on every mapping with the same value of its
header. -/
theorem congr {other : Headers} (reports : Reports headers name err) (same : headers.lookup name = other.lookup name) :
    Reports other name err :=
  ⟨reports.header, (CheckError.holds_congr (reports.header ▸ same)).mp reports.holds⟩

end Reports

theorem checkInteger_error {headers : Headers} {name : Bytes} {defl : Int} {err : CheckError}
    (failed : checkInteger headers name defl = .error err) : Reports headers name err := by
  unfold checkInteger at failed
  split at failed
  · cases failed
  · rename_i value found
    split at failed
    · cases failed
      exact ⟨rfl, found, ‹_›⟩
    · cases failed

theorem checkNotEmpty_error {headers : Headers} {name : Bytes} {err : CheckError}
    (failed : checkNotEmpty headers name = .error err) : Reports headers name err := by
  unfold checkNotEmpty at failed
  split at failed <;> cases failed
  · exact ⟨rfl, ‹_›⟩
  · exact ⟨rfl, ‹_›⟩

theorem checkPrimaryKey_error {headers : Headers} {primKey : Bytes} {err : CheckError}
    (failed : checkPrimaryKey headers primKey = .error err) : Reports headers primKey err := by
  unfold checkPrimaryKey at failed
  cases checked : checkNotEmpty headers primKey with
  | error e =>
      rw [checked] at failed
      cases failed
      exact checkNotEmpty_error checked
  | ok value =>
      rw [checked] at failed
      dsimp only at failed
      obtain ⟨found, nonempty⟩ := checkNotEmpty_eq_ok.mp checked
      by_cases slash : 47 ∈ value
      · rw [if_pos slash] at failed
        cases failed
        exact ⟨rfl, value, found, nonempty, slash⟩
      · rw [if_neg slash] at failed
        cases failed

/-- The integer `checkInteger` returns: the default for an absent header,
else the header's value as `strconv.Atoi` reads it. -/
theorem checkInteger_eq_ok {headers : Headers} {name : Bytes} {defl n : Int}
    (parsed : checkInteger headers name defl = .ok n) :
    headers.lookup name = none ∧ n = defl ∨ ∃ value, headers.lookup name = some value ∧ atoi value = some n := by
  unfold checkInteger at parsed
  split at parsed
  · exact .inl ⟨‹_›, (Except.ok.inj parsed).symm⟩
  · split at parsed
    · cases parsed
    · exact .inr ⟨_, ‹_›, by rw [‹atoi _ = _›, Except.ok.inj parsed]⟩

theorem checkRevision_error {headers : Headers} {err : CheckError}
    (failed : checkRevision headers = .error err) : Reports headers (ascii "revision") err := by
  unfold checkRevision at failed
  cases parsed : checkInteger headers (ascii "revision") 0 with
  | error e =>
      rw [parsed] at failed
      cases failed
      exact checkInteger_error parsed
  | ok revision =>
      rw [parsed] at failed
      dsimp only at failed
      by_cases negative : revision < 0
      · rw [if_pos negative] at failed
        cases failed
        rcases checkInteger_eq_ok parsed with ⟨-, rfl⟩ | ⟨value, found, read⟩
        · omega
        · exact ⟨rfl, value, found, read, negative⟩
      · rw [if_neg negative] at failed
        cases failed

/-- The loop of `Assemble` over a primary key stops at the first header that
fails its check. -/
theorem checkPrimaryKeys_error {headers : Headers} {typeName : Bytes} {keys : List Bytes} {e : AssembleError}
    (failed : checkPrimaryKeys headers typeName keys = .error e) :
    ∃ primKey ∈ keys, ∃ err, checkPrimaryKey headers primKey = .error err ∧ e = .primaryKey typeName err := by
  induction keys with
  | nil => cases failed
  | cons primKey rest ih =>
      simp only [checkPrimaryKeys, except_bind_eq_error, except_mapError_eq_error] at failed
      rcases failed with ⟨err, checked, rfl⟩ | ⟨_, -, later⟩
      · exact ⟨primKey, List.mem_cons_self _ _, err, checked, rfl⟩
      · obtain ⟨key, member, err, checked, rfl⟩ := ih later
        exact ⟨key, List.mem_cons_of_mem _ member, err, checked, rfl⟩

/-- The loop of `assembleAndSign` over a primary key stops at the first
header that fails its check. -/
theorem writePrimaryKeys_error {headers : Headers} {keys : List Bytes} {e : SignError}
    (failed : writePrimaryKeys headers keys = .error e) :
    ∃ primKey ∈ keys, ∃ err, checkPrimaryKey headers primKey = .error err ∧ e = .check err := by
  induction keys with
  | nil => cases failed
  | cons primKey rest ih =>
      simp only [writePrimaryKeys, except_bind_eq_error, except_mapError_eq_error] at failed
      rcases failed with ⟨err, checked, rfl⟩ | ⟨_, -, failed⟩
      · exact ⟨primKey, List.mem_cons_self _ _, err, checked, rfl⟩
      · rcases failed with later | ⟨_, -, never⟩
        · obtain ⟨key, member, err, checked, rfl⟩ := ih later
          exact ⟨key, List.mem_cons_of_mem _ member, err, checked, rfl⟩
        · cases never

/-! ## `Assemble` -/

/-- What an error of `Assemble` says of its input: a check of the mapping
failed, the body has another length than declared, the type is not
registered or the signature is empty, or else every check passed and the
error is the one the type's assembler returned on the assertion built from
the input. -/
def AssembleError.Holds [Assemblers] (headers : Headers) (body content signature : Bytes) :
    AssembleError → Prop
  | assertion err =>
      err.header ∈ [ascii "body-length", ascii "authority-id", ascii "type", ascii "revision"] ∧
        err.Holds headers
  | bodyLengthMismatch actual declared =>
      actual = body.length ∧ checkInteger headers (ascii "body-length") 0 = .ok declared ∧ declared ≠ actual
  | unknownType name => headers.lookup (ascii "type") = some name ∧ name ≠ [] ∧ assertionType name = none
  | primaryKey typeName err =>
      ∃ assertType, headers.lookup (ascii "type") = some typeName ∧ assertionType typeName = some assertType ∧
        err.header ∈ assertType.primaryKey ∧ err.Holds headers
  | emptySignature => signature = []
  | assembler typeName err =>
      ∃ assertType revision, assertType.name = typeName ∧ Checked headers body signature revision ∧
        ({ headers, body, revision, content, signature } : AssertionBase).type = some assertType ∧
        Assemblers.assembler assertType { headers, body, revision, content, signature } = .error err

/-- Every error `Assemble` returns is true of its input: it names the header
it checked (`body-length`, `authority-id`, `type`, `revision` or a primary
key header of the type) and says of its value what holds, or reports a body
of another length than declared, an unregistered type, or an empty
signature, or, on an input that passed every check, is the error of the
assembler of the type it names. -/
theorem assemble_error_holds [Assemblers] {headers : Headers} {body content signature : Bytes}
    {err : AssembleError} (failed : assemble headers body content signature = .error err) :
    err.Holds headers body content signature := by
  simp only [assemble, except_bind_eq_error, except_mapError_eq_error, except_mapError_eq_ok,
    require_eq_error, require_eq_ok, elim_eq_error, elim_eq_ok, pure, Except.pure] at failed
  rcases failed with ⟨e, length_failed, rfl⟩ | ⟨length, length_ok, failed⟩
  · exact (checkInteger_error length_failed).mem (by decide)
  rcases failed with ⟨mismatch, rfl⟩ | ⟨_, same, failed⟩
  · exact ⟨rfl, length_ok, mismatch⟩
  rcases failed with ⟨e, authority_failed, rfl⟩ | ⟨authority, authority_ok, failed⟩
  · exact (checkNotEmpty_error authority_failed).mem (by decide)
  rcases failed with ⟨e, type_failed, rfl⟩ | ⟨typ, type_ok, failed⟩
  · exact (checkNotEmpty_error type_failed).mem (by decide)
  obtain ⟨found, nonempty⟩ := checkNotEmpty_eq_ok.mp type_ok
  rcases failed with ⟨unknown, rfl⟩ | ⟨assertType, registered, failed⟩
  · exact ⟨found, nonempty, unknown⟩
  obtain ⟨-, rfl⟩ := mem_of_assertionType registered
  rcases failed with keys_failed | ⟨_, keys_ok, failed⟩
  · obtain ⟨primKey, member, e, checked, rfl⟩ := checkPrimaryKeys_error keys_failed
    exact ⟨assertType, found, registered, (checkPrimaryKey_error checked).mem member⟩
  rcases failed with ⟨e, revision_failed, rfl⟩ | ⟨revision, revision_ok, failed⟩
  · exact (checkRevision_error revision_failed).mem (by decide)
  rcases failed with ⟨empty, rfl⟩ | ⟨_, signed, failed⟩
  · exact not_not.mp empty
  rcases failed with ⟨e, rejected, rfl⟩ | ⟨_, -, never⟩
  · exact ⟨assertType, revision, rfl, ⟨same ▸ length_ok, ⟨authority, authority_ok⟩,
      ⟨assertType, type_ok, registered, checkPrimaryKeys_eq_ok.mp keys_ok⟩, revision_ok, signed⟩,
      type_of_typeHeader type_ok registered _ rfl, rejected⟩
  · cases never

/-- An `account` assertion that passes every check of `Assemble` is rejected
by assemblers that ask for a `display-name` header, with their error. -/
theorem assemble_error_holds_displayName :
    letI : Assemblers := requiring (ascii "display-name")
    let headers : Headers := (((∅ : Headers).insert (ascii "type") (ascii "account")).insert
      (ascii "authority-id") (ascii "canonical")).insert (ascii "account-id") (ascii "alice")
    assemble headers [] [] (ascii "sig") = .error (.assembler (ascii "account") (ascii "missing display-name")) ∧
      (AssembleError.assembler (ascii "account") (ascii "missing display-name")).Holds headers [] []
        (ascii "sig") := by
  letI : Assemblers := requiring (ascii "display-name")
  intro headers
  exact ⟨rfl, assemble_error_holds rfl⟩

/-! ## `assembleAndSign` -/

/-- What an error of `assembleAndSign` says of its input: a type that is not
the registered one, a check error about one of the caller's headers, the
signer's error on some content, or else the error the type's assembler
returned on the assertion it built. -/
def SignError.Holds [Assemblers] (signContent : Bytes → Except Bytes Bytes) (assertType : AssertionType)
    (headers : Headers) (body : Bytes) : SignError → Prop
  | unknownAssertType name => name = assertType.name ∧ assertionType name = none
  | unpredefinedAssertType name =>
      name = assertType.name ∧ ∃ registered, assertionType name = some registered ∧ registered ≠ assertType
  | check err =>
      (err.header = ascii "authority-id" ∨ err.header = ascii "revision" ∨ err.header ∈ assertType.primaryKey) ∧
        err.Holds headers
  | cannotSign err => ∃ content, signContent content = .error err
  | cannotAssemble typeName err =>
      typeName = assertType.name ∧
        ∃ assert, Built signContent assertType headers body assert ∧ Assemblers.assembler assertType assert = .error err

theorem checkAssertType_error [Assemblers] {signContent : Bytes → Except Bytes Bytes} {assertType : AssertionType}
    {headers : Headers} {body : Bytes} {err : SignError} (failed : checkAssertType assertType = .error err) :
    err.Holds signContent assertType headers body := by
  unfold checkAssertType at failed
  split at failed
  · cases failed
    exact ⟨rfl, ‹_›⟩
  · rename_i registered found
    split at failed
    · cases failed
    · cases failed
      exact ⟨rfl, registered, found, ‹_›⟩

/-- Every error `assembleAndSign` returns is true of its input: the type is
not the registered one, or a check failed on the caller's own
`authority-id`, `revision` or primary key header (never on `type` or
`body-length`, which it sets itself) for the reason the message gives, or
the signer failed, or the type's assembler rejected what it built. -/
theorem assembleAndSign_error_holds [Assemblers] {signContent : Bytes → Except Bytes Bytes}
    {assertType : AssertionType} {headers : Headers} {body : Bytes} {err : SignError}
    (failed : assembleAndSign signContent assertType headers body = .error err) :
    err.Holds signContent assertType headers body := by
  simp only [assembleAndSign, except_bind_eq_error, except_mapError_eq_error, except_mapError_eq_ok,
    pure, Except.pure] at failed
  rcases failed with type_failed | ⟨_, type_ok, failed⟩
  · exact checkAssertType_error type_failed
  have registered := checkAssertType_eq_ok.mp type_ok
  have shape := registeredShape_of_mem assertType (mem_of_assertionType registered).1
  have unchanged : ∀ name, name ≠ ascii "type" → name ≠ ascii "body-length" →
      (startHeaders assertType headers body).lookup name = headers.lookup name := fun name notType notLength => by
    rw [lookup_startHeaders, if_neg notLength, if_neg notType]
  rcases failed with ⟨e, authority_failed, rfl⟩ | ⟨authority, authority_ok, failed⟩
  · have reports := (checkNotEmpty_error authority_failed).congr (unchanged _ (by decide) (by decide))
    exact ⟨.inl reports.header, reports.holds⟩
  rcases failed with ⟨e, revision_failed, rfl⟩ | ⟨revision, revision_ok, failed⟩
  · have reports := (checkRevision_error revision_failed).congr (unchanged _ (by decide) (by decide))
    exact ⟨.inr (.inl reports.header), reports.holds⟩
  rcases failed with keys_failed | ⟨_, keys_ok, failed⟩
  · obtain ⟨primKey, member, e, checked, rfl⟩ := writePrimaryKeys_error keys_failed
    change checkPrimaryKey (keptHeaders assertType headers body revision) primKey = .error e at checked
    have notBookkeeping := shape.key_not_bookkeeping primKey member
    simp only [bookkeeping, List.mem_cons, List.not_mem_nil, or_false, not_or] at notBookkeeping
    obtain ⟨notType, -, notRevision, notLength⟩ := notBookkeeping
    have reports : Reports headers primKey e := (checkPrimaryKey_error checked).congr (by
      rw [lookup_keptHeaders, if_neg fun revision_key => notRevision revision_key.1, unchanged _ notType notLength])
    exact ⟨.inr (.inr (reports.header ▸ member)), reports.holds⟩
  rcases failed with ⟨e, sign_failed, rfl⟩ | ⟨signature, signature_ok, failed⟩
  · exact ⟨_, sign_failed⟩
  obtain ⟨keys, rfl⟩ := writePrimaryKeys_eq_ok.mp keys_ok
  rcases failed with ⟨e, rejected, rfl⟩ | ⟨_, -, never⟩
  · exact ⟨rfl, _, ⟨registered, ⟨authority, authority_ok⟩, revision, revision_ok, keys, signature, signature_ok, rfl⟩,
      rejected⟩
  · cases never

/-- An `account` mapping that passes every check of `assembleAndSign` is
signed, and the assertion built from it is rejected by assemblers that ask
for a `display-name` header. -/
theorem assembleAndSign_error_holds_displayName :
    letI : Assemblers := requiring (ascii "display-name")
    let headers : Headers := ((∅ : Headers).insert (ascii "authority-id") (ascii "canonical")).insert
      (ascii "account-id") (ascii "alice")
    assembleAndSign (fun _ => .ok (ascii "sig")) accountType headers [] =
        .error (.cannotAssemble (ascii "account") (ascii "missing display-name")) ∧
      (SignError.cannotAssemble (ascii "account") (ascii "missing display-name")).Holds
        (fun _ => .ok (ascii "sig")) accountType headers [] := by
  letI : Assemblers := requiring (ascii "display-name")
  intro headers
  exact ⟨rfl, assembleAndSign_error_holds rfl⟩

end SnapdAsserts
