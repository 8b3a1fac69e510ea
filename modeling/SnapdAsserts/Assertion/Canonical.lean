import SnapdAsserts.Assertion.Sign

/-!
# The signed content is canonical

Go enumerates a map in no fixed order, and `assembleAndSign` enumerates the
caller's header map, and its copy of it, to collect the headers it writes
after the primary key.  A header map is an association list here, whose
order stands for one enumeration; two lists with the same lookups are the
same map enumerated in two orders.  The content depends on the map only
through its lookups and the set of its names, which `sort.Strings` puts in
one order (`sortStrings_eq_of_perm`), so every enumeration gives the same
assertion (`assembleAndSign_canonical`).  Signing an assertion's own header
map and body again gives its content back: the `revision` and
`body-length` normalisations are idempotent.
-/

namespace SnapdAsserts

/-! ## The order of `sort.Strings` -/

/-- `sort.Strings` compares with Go's `<` on strings, core's `List.lt` over
bytes. -/
theorem bytes_lt_trans {a b c : Bytes} : List.lt a b → List.lt b c → List.lt a c :=
  List.lt_trans UInt8.lt_trans fun ab bc => by
    rw [UInt8.not_lt] at *
    exact UInt8.le_trans bc ab

theorem bytes_lt_antisymm {a b : Bytes} : ¬List.lt a b → ¬List.lt b a → a = b :=
  List.lt_antisymm fun ab ba => by
    rw [UInt8.not_lt] at *
    exact UInt8.eq_of_toBitVec_eq (BitVec.le_antisymm ba ab)

theorem bytes_lt_irrefl (a : Bytes) : ¬List.lt a a :=
  List.lt_irrefl UInt8.lt_irrefl a

instance : IsTotal Bytes (· ≤ ·) where
  total a b := by
    by_cases ba : List.lt b a
    · exact .inr fun ab => bytes_lt_irrefl a (bytes_lt_trans ab ba)
    · exact .inl ba

instance : IsTrans Bytes (· ≤ ·) where
  trans a b c ab bc ca := by
    by_cases lt : List.lt a b
    · exact bc (bytes_lt_trans ca lt)
    · obtain rfl := bytes_lt_antisymm lt ab
      exact bc ca

instance : IsAntisymm Bytes (· ≤ ·) where
  antisymm _ _ ab ba := bytes_lt_antisymm ba ab

/-- `sort.Strings` gives one order to every enumeration of a set of names. -/
theorem sortStrings_eq_of_perm {names names' : List Bytes} (perm : names.Perm names') :
    sortStrings names = sortStrings names' :=
  List.eq_of_perm_of_sorted (((List.perm_insertionSort _ names).trans perm).trans
    (List.perm_insertionSort _ names').symm) (List.sorted_insertionSort _ _) (List.sorted_insertionSort _ _)

/-! ## The content depends on the map, not on its enumeration -/

/-- Two enumerations of one map list the same names. -/
theorem keys_perm_of_lookup {first second : Headers} (same : ∀ name, first.lookup name = second.lookup name) :
    first.keys.Perm second.keys :=
  (List.perm_ext_iff_of_nodup first.keys_nodup second.keys_nodup).mpr fun name => by
    rw [← AList.mem_keys, ← AList.mem_keys, ← AList.lookup_isSome, ← AList.lookup_isSome, same]

theorem signedContent_congr {kept kept' : Headers} (same : ∀ name, kept.lookup name = kept'.lookup name)
    (assertType : AssertionType) (revision : Int) (body : Bytes) :
    signedContent assertType kept revision body = signedContent assertType kept' revision body := by
  have write : writeHeader kept = writeHeader kept' := funext fun name => writeHeader_congr (same name)
  have others := sortStrings_eq_of_perm ((keys_perm_of_lookup same).filter
    fun name => decide (name ∉ bookkeeping ++ assertType.primaryKey))
  rw [signedContent, signedContent, others, write]

section
variable (assertType : AssertionType) (body : Bytes)

theorem lookup_keptHeaders_congr {headers headers' : Headers}
    (same : ∀ name, headers'.lookup name = headers.lookup name) (revision : Int) (name : Bytes) :
    (keptHeaders assertType headers' body revision).lookup name =
      (keptHeaders assertType headers body revision).lookup name := by
  simp only [lookup_keptHeaders, lookup_startHeaders, same]

/-- Signing the returned map again starts from the map that was written. -/
theorem lookup_startHeaders_signedHeaders (headers : Headers) (revision : Int) (name : Bytes) :
    (startHeaders assertType (signedHeaders (keptHeaders assertType headers body revision) body) body).lookup name =
      (keptHeaders assertType headers body revision).lookup name := by
  have rb : ascii "revision" ≠ ascii "body-length" := by decide
  have rt : ascii "revision" ≠ ascii "type" := by decide
  rw [lookup_startHeaders, lookup_keptHeaders, lookup_startHeaders]
  by_cases hb : name = ascii "body-length"
  · simp [hb, rb.symm]
  by_cases ht : name = ascii "type"
  · simp [ht, rt.symm]
  rw [if_neg hb, if_neg ht, lookup_signedHeaders, if_neg (fun h => hb h.1), lookup_keptHeaders,
    lookup_startHeaders, if_neg hb, if_neg ht]

/-- Signing the returned map again reads the revision it was signed with:
the one written, or, when none was written, the default `0`. -/
theorem checkRevision_resigned {headers : Headers} {revision : Int}
    (revision_ok : checkRevision (startHeaders assertType headers body) = .ok revision) :
    checkRevision (startHeaders assertType (signedHeaders (keptHeaders assertType headers body revision) body)
      body) = .ok revision := by
  rw [checkRevision_congr (lookup_startHeaders_signedHeaders assertType body headers revision _)]
  by_cases positive : 0 < revision
  · refine (checkRevision_congr ?_).trans revision_ok
    rw [lookup_keptHeaders, if_neg (fun h => h.2 positive)]
  · have zero : revision = 0 := by have := checkRevision_nonneg revision_ok; omega
    rw [checkRevision, checkInteger_of_lookup_none 0 (by rw [lookup_keptHeaders, if_pos ⟨rfl, positive⟩]), zero]
    rfl

/-- Signing the returned map again keeps the map that was written. -/
theorem lookup_keptHeaders_resigned (headers : Headers) (revision : Int) (name : Bytes) :
    (keptHeaders assertType (signedHeaders (keptHeaders assertType headers body revision) body) body
      revision).lookup name = (keptHeaders assertType headers body revision).lookup name := by
  rw [lookup_keptHeaders, lookup_startHeaders_signedHeaders]
  split_ifs with dropped
  · rw [lookup_keptHeaders, if_pos dropped]
  · rfl

end

/-- The signed content is canonical.  Whatever `assembleAndSign` accepts, it
accepts under every other enumeration of the same header map and returns the
same assertion, the same content bytes included; and signing the returned
assertion's own header map and body again, with any signer, gives its
content back byte for byte, and succeeds whenever that signer signs it. -/
theorem assembleAndSign_canonical [Assemblers] {signContent : Bytes → Except Bytes Bytes} {assertType : AssertionType}
    {headers : Headers} {body : Bytes} {assert : AssertionBase}
    (signed : assembleAndSign signContent assertType headers body = .ok assert) :
    (∀ headers' : Headers, (∀ name, headers'.lookup name = headers.lookup name) →
      ∃ assert', assembleAndSign signContent assertType headers' body = .ok assert' ∧
        SameAssertion assert' assert) ∧
    ∀ signContent' : Bytes → Except Bytes Bytes,
      (∀ assert', assembleAndSign signContent' assertType assert.headers assert.body = .ok assert' →
        assert'.content = assert.content) ∧
      ∀ signature, signContent' assert.content = .ok signature →
        ∃ assert', assembleAndSign signContent' assertType assert.headers assert.body = .ok assert' := by
  obtain ⟨⟨registered, ⟨authority, authority_ok⟩, revision, revision_ok, keys_ok, signature, signature_ok, rfl⟩,
    accepted⟩ := assembleAndSign_eq_ok.mp signed
  refine ⟨fun headers' same => ?_, fun signContent' => ?_⟩
  · -- another enumeration of the same map
    have start : ∀ name, (startHeaders assertType headers' body).lookup name =
        (startHeaders assertType headers body).lookup name := fun name => by
      simp only [lookup_startHeaders, same]
    have kept := lookup_keptHeaders_congr assertType body same revision
    have content := signedContent_congr kept assertType revision body
    have lookups : ∀ name, (signedHeaders (keptHeaders assertType headers' body revision) body).lookup name =
        (signedHeaders (keptHeaders assertType headers body revision) body).lookup name := fun name => by
      simp only [lookup_signedHeaders, kept]
    exact ⟨_, assembleAndSign_eq_ok.mpr ⟨⟨registered, ⟨authority, (checkNotEmpty_congr (start _)).trans authority_ok⟩,
      revision, (checkRevision_congr (start _)).trans revision_ok,
      fun primKey mem => (checkPrimaryKey_congr (kept primKey)).symm ▸ keys_ok primKey mem, signature,
      content ▸ signature_ok, rfl⟩, assembler_eq_ok_congr accepted lookups rfl rfl content⟩,
      sameAssertion_of_lookup lookups rfl rfl content rfl⟩
  · -- the returned map and body, signed again
    have start := lookup_startHeaders_signedHeaders assertType body headers revision
    have resigned := checkRevision_resigned assertType body revision_ok
    have kept := lookup_keptHeaders_resigned assertType body headers revision
    have content := signedContent_congr kept assertType revision body
    refine ⟨fun assert' resigned' => ?_, fun signature' signature_ok' => ⟨_, assembleAndSign_eq_ok.mpr
      ⟨⟨registered, ⟨authority, (checkNotEmpty_congr ((start _).trans ?_)).trans authority_ok⟩, revision, resigned,
        fun primKey mem => (checkPrimaryKey_congr (kept primKey)).symm ▸ keys_ok primKey mem, signature',
        content ▸ signature_ok', rfl⟩,
        assembler_eq_ok_congr accepted (fun name => by simp only [lookup_signedHeaders, kept]) rfl rfl content⟩⟩⟩
    · obtain ⟨⟨-, -, revision', revision_ok', -, -, -, rfl⟩, -⟩ := assembleAndSign_eq_ok.mp resigned'
      obtain rfl : revision' = revision := Except.ok.inj (revision_ok'.symm.trans resigned)
      exact content
    · rw [lookup_keptHeaders, if_neg (fun h => absurd h.1 (by decide))]

/-- An `account` assertion, signed from a map enumerated in two orders and
signed again from its own map with another signer. -/
theorem assembleAndSign_canonical_account :
    letI : Assemblers := acceptAll
    let headers : Headers := ((∅ : Headers).insert (ascii "authority-id") (ascii "canonical")).insert
      (ascii "account-id") (ascii "alice")
    let reordered : Headers := ((∅ : Headers).insert (ascii "account-id") (ascii "alice")).insert
      (ascii "authority-id") (ascii "canonical")
    ∃ assert, assembleAndSign (fun _ => .ok (ascii "sig")) accountType headers (ascii "hello") = .ok assert ∧
      (∃ assert', assembleAndSign (fun _ => .ok (ascii "sig")) accountType reordered (ascii "hello") = .ok assert' ∧
        assert'.content = assert.content) ∧
      ∃ assert', assembleAndSign (fun _ => .ok (ascii "other")) accountType assert.headers assert.body =
        .ok assert' ∧ assert'.content = assert.content := by
  letI : Assemblers := acceptAll
  intro headers reordered
  obtain ⟨assert, signed⟩ : ∃ assert,
      assembleAndSign (fun _ => .ok (ascii "sig")) accountType headers (ascii "hello") = .ok assert := ⟨_, rfl⟩
  obtain ⟨reorder, resign⟩ := assembleAndSign_canonical signed
  have same : ∀ name, reordered.lookup name = headers.lookup name := fun name => by
    simp only [reordered, headers, lookup_insert_eq_ite, AList.lookup_empty]
    split_ifs with h₁ h₂ <;> first | rfl | exact absurd (h₁.symm.trans h₂) (by decide)
  obtain ⟨assert', reordered', sameAssert⟩ := reorder reordered same
  obtain ⟨assert'', resigned⟩ := (resign fun _ => .ok (ascii "other")).2 _ rfl
  exact ⟨assert, signed, ⟨assert', reordered', sameAssert.content⟩, assert'', resigned,
    (resign _).1 _ resigned⟩

end SnapdAsserts
