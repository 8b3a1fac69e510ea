import SnapdAsserts.Assertion.Sign
import SnapdAsserts.Stream.Returned

/-!
# Every assertion the package makes

Assertions come from three places: the single-shot `Decode`,
`Decoder.Decode`, and `assembleAndSign`.  Each builds its assertion only
once the checks of `Assemble` pass on what the assertion holds, whatever
the types' assemblers then decide, so every
assertion of the package satisfies the invariants of the data model
(`AssertionBase.Valid`): its `Type()` is a registered type whose primary key
headers are present, not empty and free of `/`, its `authority-id` is not
empty, its body has the declared `body-length`, its revision is the one its
headers give and not negative, and its signature is not empty
(`produced_valid`).
-/

namespace SnapdAsserts

/-- What `assembleAndSign` returns passes the checks of `Assemble`; a body is
a Go slice, so its length fits an `int`. -/
theorem valid_of_assembleAndSign [Assemblers] {signContent : Bytes → Except Bytes Bytes} {assertType : AssertionType}
    {headers : Headers} {body : Bytes} {assert : AssertionBase} (fits : body.length < 2 ^ 63)
    (signed : assembleAndSign signContent assertType headers body = .ok assert) : assert.Valid := by
  obtain ⟨⟨registered, authority_ok, revision, revision_ok, keys_ok, signature, -, rfl⟩, -⟩ :=
    assembleAndSign_eq_ok.mp signed
  exact checked_signedHeaders (registeredShape_of_mem assertType (mem_of_assertionType registered).1)
    registered authority_ok revision_ok keys_ok fits signature

/-- Every assertion the package makes satisfies the data model's
invariants: whatever bytes the single-shot `Decode` is given, whatever
state a `Decoder` is in and whatever its reader delivers, and whatever
mapping, body and signer `assembleAndSign` is called with. -/
theorem produced_valid [Assemblers] :
    (∀ serialized assert, decode serialized = .ok assert → assert.Valid) ∧
    (∀ (d d' : Decoder) assert, d.decode = .ok (.ok assert, d') → assert.Valid) ∧
    (∀ signContent assertType (headers : Headers) (body : Bytes) assert, body.length < 2 ^ 63 →
      assembleAndSign signContent assertType headers body = .ok assert → assert.Valid) := by
  refine ⟨fun serialized assert decoded => ?_, fun d d' assert decoded => ?_,
    fun _ _ _ _ _ fits signed => valid_of_assembleAndSign fits signed⟩
  · obtain ⟨split, -, content⟩ := decode_eq_ok decoded
    exact (decodeContent_eq_ok content).2.2.2.2
  · exact valid_of_assemble (Decoder.decode_decoded decoded).assembled

end SnapdAsserts
