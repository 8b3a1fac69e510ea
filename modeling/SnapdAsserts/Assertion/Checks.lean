import SnapdAsserts.Header.Parse
import Mathlib.Data.Nat.Digits

/-!
# Header checks and the type registry

`Assemble` and `assembleAndSign` read a header mapping through four checks:
`checkInteger`, `checkNotEmpty`, `checkPrimaryKey` and `checkRevision`.  Only
`checkRevision` is in the source; the other three are modelled from the
spec's validator (its section 4.3), with `checkInteger` parsing as
`strconv.Atoi` does: an optional sign, decimal digits, and a value in the
range of a 64-bit `int`.

Every check reads the mapping only through `lookup`.
-/

namespace SnapdAsserts

/-- Errors of the header checks, one constructor per message. -/
inductive CheckError where
  /-- `"%q header is not an integer: %v"`. -/
  | notInteger (name value : Bytes)
  /-- `"%q header is mandatory"`. -/
  | mandatory (name : Bytes)
  /-- `"%q header should not be empty"`. -/
  | empty (name : Bytes)
  /-- `"%q primary key header cannot contain '/'"`. -/
  | primaryKeySlash (name : Bytes)
  /-- `"revision should be positive: %v"`. -/
  | negativeRevision (revision : Int)
  deriving DecidableEq, Repr

/-! ## Decimal integers -/

/-- The value of a run of decimal digits read after `acc`, `none` on any other
byte. -/
def digitsValue : Bytes → Nat → Option Nat
  | [], acc => some acc
  | c :: rest, acc => if 48 ≤ c ∧ c ≤ 57 then digitsValue rest (10 * acc + (c.toNat - 48)) else none

/-- The sign `strconv.Atoi` accepts in front of the digits: whether it is
`-`, and the digits. -/
def splitSign : Bytes → Bool × Bytes
  | 45 :: rest => (true, rest)
  | 43 :: rest => (false, rest)
  | text => (false, text)

/-- `strconv.Atoi`: an optional `+` or `-`, at least one decimal digit, and a
value that fits a 64-bit `int`. -/
def atoi (text : Bytes) : Option Int :=
  let (negative, digits) := splitSign text
  if digits = [] then none
  else (digitsValue digits 0).bind fun n =>
    let value : Int := if negative then -n else n
    if -2 ^ 63 ≤ value ∧ value < 2 ^ 63 then some value else none

/-- `strconv.Itoa` on a non-negative `int`: its decimal digits. -/
def itoa (n : Nat) : Bytes :=
  if n = 0 then [48] else (Nat.digits 10 n).reverse.map fun d => (d + 48).toUInt8

theorem toNat_digitByte {d : Nat} (small : d < 10) : ((d + 48).toUInt8).toNat = d + 48 := by
  simp only [Nat.toUInt8, UInt8.ofNat, UInt8.toNat]
  simp
  omega

theorem digitsValue_append_digit (front : Bytes) (acc : Nat) {d : Nat} (small : d < 10) :
    digitsValue (front ++ [(d + 48).toUInt8]) acc = (digitsValue front acc).map (10 * · + d) := by
  induction front generalizing acc with
  | nil =>
      have isDigit : 48 ≤ (d + 48).toUInt8 ∧ (d + 48).toUInt8 ≤ 57 := by
        simp only [UInt8.le_def, BitVec.le_def]
        simp [Nat.toUInt8, UInt8.ofNat, UInt8.toBitVec]
        omega
      simp [digitsValue, isDigit, toNat_digitByte small]
  | cons c rest ih =>
      simp only [List.cons_append, digitsValue]
      split <;> simp [ih]

/-- Digits written most significant first read back as their value. -/
theorem digitsValue_reverse_digits (ds : List Nat) (small : ∀ d ∈ ds, d < 10) :
    digitsValue (ds.reverse.map fun d => (d + 48).toUInt8) 0 = some (Nat.ofDigits 10 ds) := by
  induction ds with
  | nil => rfl
  | cons d ds ih =>
      rw [List.reverse_cons, List.map_append, List.map_singleton,
        digitsValue_append_digit _ _ (small d (List.mem_cons_self _ _)),
        ih fun e he => small e (List.mem_cons_of_mem _ he), Nat.ofDigits_cons]
      simp only [Option.map_some', Nat.cast_id]
      ring_nf

theorem digitsValue_itoa (n : Nat) : digitsValue (itoa n) 0 = some n := by
  unfold itoa
  split
  · subst n; rfl
  · conv => rhs; rw [← Nat.ofDigits_digits 10 n]
    exact digitsValue_reverse_digits _ fun d hd => Nat.digits_lt_base (by norm_num) hd

theorem itoa_digit (n : Nat) : ∀ c ∈ itoa n, 48 ≤ c.toNat ∧ c.toNat ≤ 57 := by
  unfold itoa
  split
  · decide
  · simp only [List.mem_map, List.mem_reverse]
    rintro _ ⟨d, hd, rfl⟩
    have small := Nat.digits_lt_base (b := 10) (by norm_num) hd
    rw [toNat_digitByte small]
    omega

/-- `Itoa` writes ASCII. -/
theorem itoa_ascii (n : Nat) : ∀ c ∈ itoa n, c < 0x80 := by
  intro c hc
  have := (itoa_digit n c hc).2
  simp only [UInt8.lt_def, BitVec.lt_def]
  simp [UInt8.toNat] at this
  simp
  omega

theorem itoa_ne_nil (n : Nat) : itoa n ≠ [] := by
  unfold itoa
  split
  · simp
  · simpa using Nat.digits_ne_nil_iff_ne_zero.mpr ‹_›

theorem splitSign_itoa (n : Nat) : splitSign (itoa n) = (false, itoa n) := by
  obtain ⟨c, rest, h⟩ := List.exists_cons_of_ne_nil (itoa_ne_nil n)
  have digit := itoa_digit n c (h ▸ List.mem_cons_self _ _)
  rw [h]
  unfold splitSign
  split
  · rename_i sign; rw [(List.cons.inj sign).1] at digit; exact absurd digit (by decide)
  · rename_i sign; rw [(List.cons.inj sign).1] at digit; exact absurd digit (by decide)
  · rfl

/-- `Atoi` reads back what `Itoa` writes, for every value of a Go `int`. -/
theorem atoi_itoa (n : Nat) (fits : n < 2 ^ 63) : atoi (itoa n) = some n := by
  simp only [atoi, splitSign_itoa, itoa_ne_nil, digitsValue_itoa, if_false]
  simp
  omega

/-! ## The checks -/

/-- `checkInteger(headers, name, defl)`: Modelled from the spec: the default
when the header is absent, else its value as `strconv.Atoi` reads it. -/
def checkInteger (headers : Headers) (name : Bytes) (defl : Int) : Except CheckError Int :=
  match headers.lookup name with
  | none => .ok defl
  | some value =>
      match atoi value with
      | none => .error (.notInteger name value)
      | some n => .ok n

/-- `checkNotEmpty(headers, name)`: Modelled from the spec: the header's value,
which must be present and not empty. -/
def checkNotEmpty (headers : Headers) (name : Bytes) : Except CheckError Bytes :=
  match headers.lookup name with
  | none => .error (.mandatory name)
  | some [] => .error (.empty name)
  | some value => .ok value

/-- `checkPrimaryKey(headers, primKey)`: Modelled from the spec: a non-empty
value with no `/`. -/
def checkPrimaryKey (headers : Headers) (primKey : Bytes) : Except CheckError Bytes :=
  match checkNotEmpty headers primKey with
  | .error err => .error err
  | .ok value => if 47 ∈ value then .error (.primaryKeySlash primKey) else .ok value

/-- `checkRevision(headers)`: the `revision` header as an integer, `0` when
absent, and never negative. -/
def checkRevision (headers : Headers) : Except CheckError Int :=
  match checkInteger headers (ascii "revision") 0 with
  | .error err => .error err
  | .ok revision => if revision < 0 then .error (.negativeRevision revision) else .ok revision

theorem checkInteger_of_lookup_itoa {headers : Headers} {name : Bytes} {n : Nat} (defl : Int)
    (found : headers.lookup name = some (itoa n)) (fits : n < 2 ^ 63) :
    checkInteger headers name defl = .ok n := by
  simp [checkInteger, found, atoi_itoa n fits]

theorem checkInteger_of_lookup_none {headers : Headers} {name : Bytes} (defl : Int)
    (absent : headers.lookup name = none) : checkInteger headers name defl = .ok defl := by
  simp [checkInteger, absent]

theorem checkNotEmpty_eq_ok {headers : Headers} {name value : Bytes} :
    checkNotEmpty headers name = .ok value ↔ headers.lookup name = some value ∧ value ≠ [] := by
  unfold checkNotEmpty
  cases found : headers.lookup name with
  | none => simp
  | some stored =>
      cases stored with
      | nil => simp [eq_comm]
      | cons c rest => simp only [Except.ok.injEq, Option.some.injEq]; aesop

theorem checkPrimaryKey_eq_ok {headers : Headers} {primKey value : Bytes} :
    checkPrimaryKey headers primKey = .ok value ↔
      checkNotEmpty headers primKey = .ok value ∧ 47 ∉ value := by
  unfold checkPrimaryKey
  cases checkNotEmpty headers primKey with
  | error err => simp
  | ok stored =>
      by_cases slash : 47 ∈ stored
      · simp only [slash, if_true, Except.ok.injEq]; aesop
      · simp only [slash, if_false, Except.ok.injEq]; aesop

/-- A revision that passes `checkRevision` is not negative. -/
theorem checkRevision_nonneg {headers : Headers} {revision : Int}
    (checked : checkRevision headers = .ok revision) : 0 ≤ revision := by
  unfold checkRevision at checked
  split at checked
  · cases checked
  · split at checked
    · cases checked
    · cases checked; omega

/-- The checks read the mapping only through `lookup`. -/
theorem checkInteger_congr {first second : Headers} {name : Bytes}
    (same : first.lookup name = second.lookup name) (defl : Int) :
    checkInteger first name defl = checkInteger second name defl := by
  simp [checkInteger, same]

theorem checkNotEmpty_congr {first second : Headers} {name : Bytes}
    (same : first.lookup name = second.lookup name) :
    checkNotEmpty first name = checkNotEmpty second name := by
  simp [checkNotEmpty, same]

theorem checkPrimaryKey_congr {first second : Headers} {name : Bytes}
    (same : first.lookup name = second.lookup name) :
    checkPrimaryKey first name = checkPrimaryKey second name := by
  simp [checkPrimaryKey, checkNotEmpty_congr same]

theorem checkRevision_congr {first second : Headers}
    (same : first.lookup (ascii "revision") = second.lookup (ascii "revision")) :
    checkRevision first = checkRevision second := by
  simp [checkRevision, checkInteger_congr same]

/-! ## The type registry -/

/-- `AssertionType`: a type's name and the headers of its primary key.  The
type-specific assembler is not part of the source; see `assembler`. -/
structure AssertionType where
  name : Bytes
  primaryKey : List Bytes
  deriving DecidableEq, Repr

def accountType : AssertionType := ⟨ascii "account", [ascii "account-id"]⟩
def accountKeyType : AssertionType := ⟨ascii "account-key", [ascii "account-id", ascii "public-key-id"]⟩
def modelType : AssertionType := ⟨ascii "model", [ascii "series", ascii "brand-id", ascii "model"]⟩
def serialType : AssertionType := ⟨ascii "serial", [ascii "brand-id", ascii "model", ascii "serial"]⟩
def snapDeclarationType : AssertionType := ⟨ascii "snap-declaration", [ascii "series", ascii "snap-id"]⟩
def snapBuildType : AssertionType :=
  ⟨ascii "snap-build", [ascii "series", ascii "snap-id", ascii "snap-digest"]⟩
def snapRevisionType : AssertionType :=
  ⟨ascii "snap-revision", [ascii "series", ascii "snap-id", ascii "snap-digest"]⟩

/-- `typeRegistry`: the understood assertion types. -/
def typeRegistry : List AssertionType :=
  [accountType, accountKeyType, modelType, serialType, snapDeclarationType, snapBuildType,
    snapRevisionType]

/-- `Type(name)`: the registered type of that name. -/
def assertionType (name : Bytes) : Option AssertionType :=
  typeRegistry.find? fun assertType => assertType.name = name

/-- The bookkeeping headers `assembleAndSign` writes itself. -/
def bookkeeping : List Bytes := [ascii "type", ascii "authority-id", ascii "revision", ascii "body-length"]

/-- What the encoder needs of every registered type: its name is one line of
ASCII, and its primary key is a list of distinct valid header names that are
not bookkeeping headers. -/
structure RegisteredShape (assertType : AssertionType) : Prop where
  name_ascii : ∀ c ∈ assertType.name, c < 0x80
  name_no_newline : 10 ∉ assertType.name
  name_ne_nil : assertType.name ≠ []
  key_nodup : assertType.primaryKey.Nodup
  key_sane : ∀ key ∈ assertType.primaryKey, headerNameSanity key = true
  key_not_bookkeeping : ∀ key ∈ assertType.primaryKey, key ∉ bookkeeping

theorem registeredShape_of_mem : ∀ assertType ∈ typeRegistry, RegisteredShape assertType := by
  intro assertType member
  simp only [typeRegistry, List.mem_cons, List.mem_singleton, List.not_mem_nil, or_false] at member
  rcases member with rfl | rfl | rfl | rfl | rfl | rfl | rfl <;>
    exact ⟨by decide, by decide, by decide, by decide, by decide, by decide⟩

theorem mem_of_assertionType {name : Bytes} {assertType : AssertionType}
    (found : assertionType name = some assertType) :
    assertType ∈ typeRegistry ∧ assertType.name = name := by
  have := List.find?_some found
  exact ⟨List.mem_of_find?_eq_some found, by simpa using this⟩

end SnapdAsserts
