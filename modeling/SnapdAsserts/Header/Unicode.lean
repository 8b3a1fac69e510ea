import Mathlib.Data.Nat.Digits
import SnapdAsserts.Header.Errors

/-!
# What `utf8.Valid` accepts

`utf8Valid` models the table-driven loop of Go's `utf8.Valid`.  Its meaning
is the one Unicode gives to UTF-8: a byte string is valid exactly when it is
the encoding of a list of Unicode scalar values, each written as Lean's
`String.utf8EncodeChar` writes it (`utf8Valid_iff`).  So `parseHeaders`
fails with "header is not utf8" exactly on the blocks that encode no string
(`parseHeaders_notUtf8_iff`): overlong forms, surrogates and code points past
`U+10FFFF` are all refused.

The proof goes through the table of well-formed byte sequences of one
character (`Utf8Sequence`), in two layers.  The automaton reads exactly
sequences of its rows (`utf8Run_sequence`, `utf8Run_first`), which only
needs the `first` table of `unicode/utf8` by the value of the leading byte
(`leadingByte_cases`).  The rows hold exactly the encodings of scalar values
(`utf8Sequence_utf8Codes`, `exists_utf8Codes`), the bytes `utf8EncodeChar`
writes read as digits of the code point in base 64.
-/

namespace SnapdAsserts

/-! ## Bytes and code points as numbers -/

theorem toNat_toUInt8 (n : Nat) : n.toUInt8.toNat = n % 256 := by
  simp [Nat.toUInt8, UInt8.ofNat, UInt8.toNat, BitVec.toNat_ofNat]

theorem toUInt8_toNat (b : UInt8) : b.toNat.toUInt8 = b :=
  UInt8.toNat.inj (by simp [Nat.toUInt8, UInt8.ofNat, UInt8.toNat, BitVec.toNat_ofNat])

theorem toNat_shiftRight (v k : UInt32) (small : k.toNat < 32) : (v >>> k).toNat = v.toNat / 2 ^ k.toNat := by
  change (v.toBitVec >>> (UInt32.mod k 32).toBitVec).toNat = v.toBitVec.toNat / 2 ^ k.toBitVec.toNat
  have shift : (UInt32.mod k 32).toBitVec.toNat = k.toBitVec.toNat := by
    simp only [UInt32.mod, BitVec.toNat_umod]
    exact Nat.mod_eq_of_lt small
  rw [BitVec.ushiftRight_eq', BitVec.toNat_ushiftRight, Nat.shiftRight_eq_div_pow, shift]

/-- A byte `utf8EncodeChar` writes: the pattern `lead` over the low `j` bits
of `x`. -/
theorem toNat_and_or (x : Nat) {mask lead : UInt8} {j : Nat} (width : mask.toNat = 2 ^ j - 1) (small : j ≤ 8)
    (free : ∀ a : Fin (2 ^ j), (a.val.toUInt8 ||| lead).toNat = a.val + lead.toNat) :
    (x.toUInt8 &&& mask ||| lead).toNat = x % 2 ^ j + lead.toNat := by
  have bits : x.toUInt8 &&& mask = (x % 2 ^ j).toUInt8 := by
    apply UInt8.toNat.inj
    have below : x % 2 ^ j < 256 :=
      (Nat.mod_lt _ (Nat.two_pow_pos j)).trans_le (Nat.pow_le_pow_right (by decide) small)
    rw [UInt8.and_toNat, width, Nat.and_pow_two_sub_one_eq_mod, toNat_toUInt8, toNat_toUInt8,
      Nat.mod_eq_of_lt below, Nat.mod_mod_of_dvd _ (by simpa using Nat.pow_dvd_pow 2 small)]
  rw [bits]
  exact free ⟨_, Nat.mod_lt _ (Nat.two_pow_pos j)⟩

/-! ## The encoder as numbers -/

section
variable {c : Char}

theorem not_le_of_lt {v : UInt32} {k : Nat} {bound : UInt32} (same : bound.toNat = k) (over : k < v.toNat) :
    ¬v ≤ bound :=
  fun within => absurd (same ▸ (within : v.toNat ≤ bound.toNat)) (Nat.not_le.mpr over)

/-- The bytes `utf8EncodeChar` writes for code point `c.val.toNat = n`: `n`
below `0x80`, and otherwise a leading byte and continuation bytes holding
the base-64 digits of `n`. -/
theorem utf8EncodeChar_one (small : c.val.toNat ≤ 0x7f) :
    (String.utf8EncodeChar c).map UInt8.toNat = [c.val.toNat] := by
  simp only [String.utf8EncodeChar, if_pos (show c.val ≤ 0x7f from small), List.map_cons, List.map_nil]
  rw [UInt32.toUInt8, toNat_toUInt8, Nat.mod_eq_of_lt (by omega)]

theorem utf8EncodeChar_two (lo : 0x7f < c.val.toNat) (hi : c.val.toNat ≤ 0x7ff) :
    (String.utf8EncodeChar c).map UInt8.toNat = [c.val.toNat / 64 + 0xC0, c.val.toNat % 64 + 0x80] := by
  simp only [String.utf8EncodeChar, if_neg (show ¬c.val ≤ 0x7f from not_le_of_lt rfl lo), if_pos (show c.val ≤ 0x7ff from hi),
    List.map_cons, List.map_nil]
  rw [UInt32.toUInt8, UInt32.toUInt8, @toNat_and_or _ 0x1f 0xc0 5 rfl (by decide) (by decide),
    @toNat_and_or _ 0x3f 0x80 6 rfl (by decide) (by decide), toNat_shiftRight _ 6 (by decide)]
  simp only [UInt32.reduceToNat, UInt8.reduceToNat, Nat.reducePow, List.cons.injEq, and_true]
  omega

theorem utf8EncodeChar_three (lo : 0x7ff < c.val.toNat) (hi : c.val.toNat ≤ 0xffff) :
    (String.utf8EncodeChar c).map UInt8.toNat =
      [c.val.toNat / 4096 + 0xE0, c.val.toNat / 64 % 64 + 0x80, c.val.toNat % 64 + 0x80] := by
  simp only [String.utf8EncodeChar, if_neg (show ¬c.val ≤ 0x7f from @not_le_of_lt _ 0x7f _ rfl (by omega)),
    if_neg (show ¬c.val ≤ 0x7ff from not_le_of_lt rfl lo), if_pos (show c.val ≤ 0xffff from hi), List.map_cons, List.map_nil]
  rw [UInt32.toUInt8, UInt32.toUInt8, UInt32.toUInt8, @toNat_and_or _ 0x0f 0xe0 4 rfl (by decide) (by decide),
    @toNat_and_or _ 0x3f 0x80 6 rfl (by decide) (by decide), @toNat_and_or _ 0x3f 0x80 6 rfl (by decide) (by decide),
    toNat_shiftRight _ 12 (by decide), toNat_shiftRight _ 6 (by decide)]
  simp only [UInt32.reduceToNat, UInt8.reduceToNat, Nat.reducePow, List.cons.injEq, and_true]
  omega

theorem utf8EncodeChar_four (lo : 0xffff < c.val.toNat) :
    (String.utf8EncodeChar c).map UInt8.toNat =
      [c.val.toNat / 262144 + 0xF0, c.val.toNat / 4096 % 64 + 0x80, c.val.toNat / 64 % 64 + 0x80,
        c.val.toNat % 64 + 0x80] := by
  have valid : c.val.toNat < 0x110000 := by
    rcases c.valid with below | ⟨-, below⟩ <;> omega
  simp only [String.utf8EncodeChar, if_neg (show ¬c.val ≤ 0x7f from @not_le_of_lt _ 0x7f _ rfl (by omega)),
    if_neg (show ¬c.val ≤ 0x7ff from @not_le_of_lt _ 0x7ff _ rfl (by omega)), if_neg (show ¬c.val ≤ 0xffff from not_le_of_lt rfl lo),
    List.map_cons, List.map_nil]
  rw [UInt32.toUInt8, UInt32.toUInt8, UInt32.toUInt8, UInt32.toUInt8,
    @toNat_and_or _ 0x07 0xf0 3 rfl (by decide) (by decide), @toNat_and_or _ 0x3f 0x80 6 rfl (by decide) (by decide),
    @toNat_and_or _ 0x3f 0x80 6 rfl (by decide) (by decide), @toNat_and_or _ 0x3f 0x80 6 rfl (by decide) (by decide),
    toNat_shiftRight _ 18 (by decide), toNat_shiftRight _ 12 (by decide), toNat_shiftRight _ 6 (by decide)]
  simp only [UInt32.reduceToNat, UInt8.reduceToNat, Nat.reducePow, List.cons.injEq, and_true]
  omega

/-- `utf8EncodeChar` on the code point `n`, as numbers: `n` itself below
`0x80`, else a leading byte and the base-64 digits of `n` under `0x80`. -/
def utf8Codes (n : Nat) : List Nat :=
  if n ≤ 0x7f then [n]
  else if n ≤ 0x7ff then [n / 64 + 0xC0, n % 64 + 0x80]
  else if n ≤ 0xffff then [n / 4096 + 0xE0, n / 64 % 64 + 0x80, n % 64 + 0x80]
  else [n / 262144 + 0xF0, n / 4096 % 64 + 0x80, n / 64 % 64 + 0x80, n % 64 + 0x80]

theorem map_toNat_utf8EncodeChar (c : Char) :
    (String.utf8EncodeChar c).map UInt8.toNat = utf8Codes c.val.toNat := by
  unfold utf8Codes
  split_ifs with one two three
  · exact utf8EncodeChar_one one
  · exact utf8EncodeChar_two (by omega) two
  · exact utf8EncodeChar_three (by omega) three
  · exact utf8EncodeChar_four (by omega)

end

/-! ## The automaton as numbers -/

set_option maxRecDepth 8000 in
/-- The `first` table of `unicode/utf8` by the value of a byte: no sequence,
or the length of the sequence it starts and the range of the byte after it. -/
theorem leadingByte_cases (b : UInt8) :
    (leadingByte b = none ∧ (b.toNat < 0xC2 ∨ 0xF5 ≤ b.toNat)) ∨
    (leadingByte b = some (2, 0) ∧ 0xC2 ≤ b.toNat ∧ b.toNat ≤ 0xDF) ∨
    (leadingByte b = some (3, 1) ∧ b.toNat = 0xE0) ∨
    (leadingByte b = some (3, 0) ∧ (0xE1 ≤ b.toNat ∧ b.toNat ≤ 0xEC ∨ 0xEE ≤ b.toNat ∧ b.toNat ≤ 0xEF)) ∨
    (leadingByte b = some (3, 2) ∧ b.toNat = 0xED) ∨
    (leadingByte b = some (4, 3) ∧ b.toNat = 0xF0) ∨
    (leadingByte b = some (4, 0) ∧ 0xF1 ≤ b.toNat ∧ b.toNat ≤ 0xF3) ∨
    (leadingByte b = some (4, 4) ∧ b.toNat = 0xF4) := by
  have table : ∀ n : Fin 256, let n := n.val;
      (leadingByte n.toUInt8 = none ∧ (n < 0xC2 ∨ 0xF5 ≤ n)) ∨
      (leadingByte n.toUInt8 = some (2, 0) ∧ 0xC2 ≤ n ∧ n ≤ 0xDF) ∨
      (leadingByte n.toUInt8 = some (3, 1) ∧ n = 0xE0) ∨
      (leadingByte n.toUInt8 = some (3, 0) ∧ (0xE1 ≤ n ∧ n ≤ 0xEC ∨ 0xEE ≤ n ∧ n ≤ 0xEF)) ∨
      (leadingByte n.toUInt8 = some (3, 2) ∧ n = 0xED) ∨
      (leadingByte n.toUInt8 = some (4, 3) ∧ n = 0xF0) ∨
      (leadingByte n.toUInt8 = some (4, 0) ∧ 0xF1 ≤ n ∧ n ≤ 0xF3) ∨
      (leadingByte n.toUInt8 = some (4, 4) ∧ n = 0xF4) := by decide
  simpa only [toUInt8_toNat] using table ⟨b.toNat, b.toBitVec.isLt⟩

theorem utf8Run_ascii {b : UInt8} (small : b.toNat < 0x80) (rest : Bytes) :
    utf8Run .between (b :: rest) = utf8Run .between rest := by
  simp only [utf8Run, utf8Step, if_pos (show b < 0x80 from small), Option.some_bind]

/-- A leading byte takes the automaton inside a sequence. -/
theorem utf8Run_lead {b : UInt8} {size : Nat} {accept : Fin 5} (lead : leadingByte b = some (size, accept))
    (rest : Bytes) : utf8Run .between (b :: rest) = utf8Run (.inside (size - 1) accept) rest := by
  have large : 0x80 ≤ b.toNat := by rcases leadingByte_cases b with ⟨none, -⟩ | ⟨-, range⟩ | ⟨-, range⟩ | ⟨-, range⟩ |
    ⟨-, range⟩ | ⟨-, range⟩ | ⟨-, range⟩ | ⟨-, range⟩ <;> first | omega | simp [none] at lead
  simp only [utf8Run, utf8Step, if_neg (show ¬b < 0x80 from Nat.not_lt.mpr large), lead, Option.map_some',
    Option.some_bind]

theorem utf8Run_inside {owed : Nat} {accept : Fin 5} {c : UInt8} (lo : (acceptRange accept).1.toNat ≤ c.toNat)
    (hi : c.toNat ≤ (acceptRange accept).2.toNat) (rest : Bytes) :
    utf8Run (.inside owed accept) (c :: rest) = utf8Run (if owed ≤ 1 then .between else .inside (owed - 1) 0) rest := by
  simp only [utf8Run, utf8Step,
    if_pos (show (acceptRange accept).1 ≤ c ∧ c ≤ (acceptRange accept).2 from ⟨lo, hi⟩), Option.some_bind]

/-- A run that ends between characters from inside a sequence reads a byte in
the range the sequence allows next. -/
theorem utf8Run_inside_eq_between {owed : Nat} {accept : Fin 5} {bytes : Bytes}
    (run : utf8Run (.inside owed accept) bytes = some .between) :
    ∃ c more, bytes = c :: more ∧ (acceptRange accept).1.toNat ≤ c.toNat ∧ c.toNat ≤ (acceptRange accept).2.toNat ∧
      utf8Run (if owed ≤ 1 then .between else .inside (owed - 1) 0) more = some .between := by
  cases bytes with
  | nil => simp [utf8Run] at run
  | cons c more =>
      simp only [utf8Run, utf8Step] at run
      by_cases inRange : (acceptRange accept).1 ≤ c ∧ c ≤ (acceptRange accept).2
      · rw [if_pos inRange, Option.some_bind] at run
        exact ⟨c, more, rfl, inRange.1, inRange.2, run⟩
      · rw [if_neg inRange] at run
        cases run

/-- A byte that starts no sequence stops the automaton. -/
theorem utf8Run_noLead {b : UInt8} (large : 0x80 ≤ b.toNat) (noLead : leadingByte b = none) (rest : Bytes) :
    utf8Run .between (b :: rest) = none := by
  simp only [utf8Run, utf8Step, if_neg (show ¬b < 0x80 from Nat.not_lt.mpr large), noLead, Option.map_none',
    Option.none_bind]

/-! ## Well-formed sequences -/

/-- The well-formed UTF-8 byte sequences of one character, by the values of
their bytes and by length: the ranges that the `first` and `acceptRanges`
tables of `unicode/utf8` allow. -/
def Utf8Sequence : List Nat → Prop
  | [x] => x ≤ 0x7F
  | [x, y] => 0xC2 ≤ x ∧ x ≤ 0xDF ∧ 0x80 ≤ y ∧ y ≤ 0xBF
  | [x, y, z] =>
      (x = 0xE0 ∧ 0xA0 ≤ y ∧ y ≤ 0xBF ∨ (0xE1 ≤ x ∧ x ≤ 0xEC ∨ 0xEE ≤ x ∧ x ≤ 0xEF) ∧ 0x80 ≤ y ∧ y ≤ 0xBF ∨
        x = 0xED ∧ 0x80 ≤ y ∧ y ≤ 0x9F) ∧ 0x80 ≤ z ∧ z ≤ 0xBF
  | [x, y, z, w] =>
      (x = 0xF0 ∧ 0x90 ≤ y ∧ y ≤ 0xBF ∨ 0xF1 ≤ x ∧ x ≤ 0xF3 ∧ 0x80 ≤ y ∧ y ≤ 0xBF ∨ x = 0xF4 ∧ 0x80 ≤ y ∧ y ≤ 0x8F) ∧
        0x80 ≤ z ∧ z ≤ 0xBF ∧ 0x80 ≤ w ∧ w ≤ 0xBF
  | _ => False

/-- The automaton reads a well-formed sequence from between characters back
to between characters. -/
theorem utf8Run_sequence {seq : Bytes} (wf : Utf8Sequence (seq.map UInt8.toNat)) (rest : Bytes) :
    utf8Run .between (seq ++ rest) = utf8Run .between rest := by
  match seq, wf with
  | [x], wf => exact utf8Run_ascii (show x.toNat < 0x80 by simp only [Utf8Sequence, List.map] at wf; omega) rest
  | [x, y], wf =>
      simp only [Utf8Sequence, List.map] at wf
      rcases leadingByte_cases x with ⟨-, r⟩ | ⟨lead, -⟩ | ⟨-, r⟩ | ⟨-, r⟩ | ⟨-, r⟩ | ⟨-, r⟩ | ⟨-, r⟩ | ⟨-, r⟩ <;>
        try omega
      rw [List.cons_append, utf8Run_lead lead, List.singleton_append,
        utf8Run_inside (by show 0x80 ≤ _; omega) (by show _ ≤ 0xBF; omega)]
      rfl
  | [x, y, z], wf =>
      simp only [Utf8Sequence, List.map] at wf
      rcases leadingByte_cases x with ⟨-, r⟩ | ⟨-, r⟩ | ⟨lead, r⟩ | ⟨lead, r⟩ | ⟨lead, r⟩ | ⟨-, r⟩ | ⟨-, r⟩ | ⟨-, r⟩ <;>
        try omega
      all_goals
        simp only [List.cons_append, List.singleton_append, utf8Run_lead lead]
        rw [utf8Run_inside (by simp only [acceptRange, UInt8.reduceToNat]; omega)
          (by simp only [acceptRange, UInt8.reduceToNat]; omega), if_neg (by decide),
          utf8Run_inside (by show 0x80 ≤ _; omega) (by show _ ≤ 0xBF; omega)]
        rfl
  | [x, y, z, w], wf =>
      simp only [Utf8Sequence, List.map] at wf
      rcases leadingByte_cases x with ⟨-, r⟩ | ⟨-, r⟩ | ⟨-, r⟩ | ⟨-, r⟩ | ⟨-, r⟩ | ⟨lead, r⟩ | ⟨lead, r⟩ | ⟨lead, r⟩ <;>
        try omega
      all_goals
        simp only [List.cons_append, List.singleton_append, utf8Run_lead lead]
        rw [utf8Run_inside (by simp only [acceptRange, UInt8.reduceToNat]; omega)
          (by simp only [acceptRange, UInt8.reduceToNat]; omega), if_neg (by decide),
          utf8Run_inside (by show 0x80 ≤ _; omega) (by show _ ≤ 0xBF; omega), if_neg (by decide),
          utf8Run_inside (by show 0x80 ≤ _; omega) (by show _ ≤ 0xBF; omega)]
        rfl

/-- A byte string the automaton accepts starts with a well-formed sequence,
and the automaton accepts what follows it. -/
theorem utf8Run_first {b : UInt8} {rest : Bytes} (valid : utf8Run .between (b :: rest) = some .between) :
    ∃ seq more, b :: rest = seq ++ more ∧ Utf8Sequence (seq.map UInt8.toNat) ∧
      utf8Run .between more = some .between := by
  by_cases ascii : b.toNat < 0x80
  · exact ⟨[b], rest, rfl, show b.toNat ≤ 0x7F by omega, by rwa [utf8Run_ascii ascii] at valid⟩
  rcases leadingByte_cases b with ⟨noLead, -⟩ | ⟨lead, r⟩ | ⟨lead, r⟩ | ⟨lead, r⟩ | ⟨lead, r⟩ | ⟨lead, r⟩ |
    ⟨lead, r⟩ | ⟨lead, r⟩
  · rw [utf8Run_noLead (by omega) noLead] at valid
    cases valid
  all_goals
    rw [utf8Run_lead lead] at valid
    obtain ⟨c₁, rest, rfl, lo₁, hi₁, valid⟩ := utf8Run_inside_eq_between valid
    simp only [acceptRange, UInt8.reduceToNat, Nat.reduceSub] at lo₁ hi₁ valid
  · exact ⟨[b, c₁], rest, rfl, by simp only [Utf8Sequence, List.map]; omega, valid⟩
  all_goals
    obtain ⟨c₂, rest, rfl, lo₂, hi₂, valid⟩ := utf8Run_inside_eq_between valid
    simp only [acceptRange, UInt8.reduceToNat, Nat.reduceSub] at lo₂ hi₂ valid
  iterate 3
    exact ⟨[b, c₁, c₂], rest, rfl, by simp only [Utf8Sequence, List.map]; omega, valid⟩
  all_goals
    obtain ⟨c₃, rest, rfl, lo₃, hi₃, valid⟩ := utf8Run_inside_eq_between valid
    simp only [acceptRange, UInt8.reduceToNat, Nat.reduceSub] at lo₃ hi₃ valid
    exact ⟨[b, c₁, c₂, c₃], rest, rfl, by simp only [Utf8Sequence, List.map]; omega, valid⟩

/-! ## Scalar values -/

/-- The encoding of a scalar value is a well-formed sequence. -/
theorem utf8Sequence_utf8Codes {n : Nat} (valid : n.isValidChar) : Utf8Sequence (utf8Codes n) := by
  simp only [Nat.isValidChar] at valid
  unfold utf8Codes
  split_ifs <;> simp only [Utf8Sequence] <;> omega

/-- A well-formed sequence is the encoding of a scalar value: the one its
bytes hold as base-64 digits over their markers. -/
theorem exists_utf8Codes {codes : List Nat} (wf : Utf8Sequence codes) : ∃ n, n.isValidChar ∧ utf8Codes n = codes := by
  match codes, wf with
  | [x], wf =>
      simp only [Utf8Sequence] at wf
      exact ⟨x, .inl (by omega), by simp only [utf8Codes, if_pos wf]⟩
  | [x, y], wf =>
      simp only [Utf8Sequence] at wf
      obtain ⟨a, rfl⟩ := Nat.exists_eq_add_of_le' (show 0xC0 ≤ x by omega)
      obtain ⟨b, rfl⟩ := Nat.exists_eq_add_of_le' (show 0x80 ≤ y by omega)
      refine ⟨a * 64 + b, .inl (by omega), ?_⟩
      simp only [utf8Codes, if_neg (show ¬a * 64 + b ≤ 0x7f by omega), if_pos (show a * 64 + b ≤ 0x7ff by omega),
        List.cons.injEq, and_true]
      omega
  | [x, y, z], wf =>
      simp only [Utf8Sequence] at wf
      obtain ⟨a, rfl⟩ := Nat.exists_eq_add_of_le' (show 0xE0 ≤ x by omega)
      obtain ⟨b, rfl⟩ := Nat.exists_eq_add_of_le' (show 0x80 ≤ y by omega)
      obtain ⟨c, rfl⟩ := Nat.exists_eq_add_of_le' (show 0x80 ≤ z by omega)
      have valid : (a * 4096 + b * 64 + c).isValidChar := by simp only [Nat.isValidChar]; omega
      have over : 0x7ff < a * 4096 + b * 64 + c := by omega
      have digits : a < 16 ∧ b < 64 ∧ c < 64 := by omega
      clear wf
      refine ⟨a * 4096 + b * 64 + c, valid, ?_⟩
      simp only [utf8Codes, if_neg (show ¬a * 4096 + b * 64 + c ≤ 0x7f by omega),
        if_neg (show ¬a * 4096 + b * 64 + c ≤ 0x7ff by omega), if_pos (show a * 4096 + b * 64 + c ≤ 0xffff by omega),
        List.cons.injEq, and_true]
      omega
  | [x, y, z, w], wf =>
      simp only [Utf8Sequence] at wf
      obtain ⟨a, rfl⟩ := Nat.exists_eq_add_of_le' (show 0xF0 ≤ x by omega)
      obtain ⟨b, rfl⟩ := Nat.exists_eq_add_of_le' (show 0x80 ≤ y by omega)
      obtain ⟨c, rfl⟩ := Nat.exists_eq_add_of_le' (show 0x80 ≤ z by omega)
      obtain ⟨d, rfl⟩ := Nat.exists_eq_add_of_le' (show 0x80 ≤ w by omega)
      have valid : 0xdfff < a * 262144 + b * 4096 + c * 64 + d ∧ a * 262144 + b * 4096 + c * 64 + d < 0x110000 := by
        omega
      have over : 0xffff < a * 262144 + b * 4096 + c * 64 + d := by omega
      have digits : b < 64 ∧ c < 64 ∧ d < 64 := by omega
      clear wf
      refine ⟨a * 262144 + b * 4096 + c * 64 + d, .inr valid, ?_⟩
      simp only [utf8Codes, if_neg (show ¬a * 262144 + b * 4096 + c * 64 + d ≤ 0xffff by omega),
        if_neg (show ¬a * 262144 + b * 4096 + c * 64 + d ≤ 0x7ff by omega),
        if_neg (show ¬a * 262144 + b * 4096 + c * 64 + d ≤ 0x7f by omega), List.cons.injEq, and_true]
      omega

theorem utf8Sequence_utf8EncodeChar (c : Char) : Utf8Sequence ((String.utf8EncodeChar c).map UInt8.toNat) := by
  rw [map_toNat_utf8EncodeChar]
  exact utf8Sequence_utf8Codes c.valid

theorem exists_utf8EncodeChar {seq : Bytes} (wf : Utf8Sequence (seq.map UInt8.toNat)) :
    ∃ c : Char, String.utf8EncodeChar c = seq := by
  obtain ⟨n, valid, codes⟩ := exists_utf8Codes wf
  refine ⟨Char.ofNatAux n valid, List.map_injective_iff.mpr (fun _ _ => UInt8.toNat.inj) ?_⟩
  rw [map_toNat_utf8EncodeChar, ← codes]
  rfl

/-! ## What `utf8.Valid` accepts -/

/-- `utf8.Valid` accepts exactly the UTF-8 encodings of strings. -/
theorem utf8Valid_iff (p : Bytes) : utf8Valid p = true ↔ ∃ cs : List Char, p = cs.flatMap String.utf8EncodeChar := by
  constructor
  · intro valid
    induction' size : p.length using Nat.strong_induction_on with k ih generalizing p
    cases p with
    | nil => exact ⟨[], rfl⟩
    | cons b rest =>
        obtain ⟨seq, more, split, wf, valid⟩ := utf8Run_first (of_decide_eq_true valid)
        have nonempty : seq ≠ [] := by rintro rfl; exact wf
        obtain ⟨c, rfl⟩ := exists_utf8EncodeChar wf
        obtain ⟨cs, rfl⟩ := ih more.length (by rw [← size, split, List.length_append]; have := List.length_pos.mpr nonempty; omega)
          more (decide_eq_true valid) rfl
        exact ⟨c :: cs, by rw [split, List.flatMap_cons]⟩
  · rintro ⟨cs, rfl⟩
    induction cs with
    | nil => rfl
    | cons c cs ih => rwa [List.flatMap_cons, utf8Valid, utf8Run_sequence (utf8Sequence_utf8EncodeChar c)]

/-- `parseHeaders` fails with "header is not utf8" exactly on the header
blocks that are the UTF-8 encoding of no string. -/
theorem parseHeaders_notUtf8_iff (head : Bytes) :
    parseHeaders head = .error .notUtf8 ↔ ¬∃ cs : List Char, head = cs.flatMap String.utf8EncodeChar := by
  rw [← utf8Valid_iff]
  unfold parseHeaders
  split
  · rename_i valid
    simp only [valid, not_true_eq_false, iff_false]
    intro failed
    obtain ⟨_, _, _, -, -, broken⟩ := parseEntries_eq_error (fun _ hl => not_mem_of_mem_splitOn hl) failed
    cases broken
  · rename_i invalid
    simpa using invalid

end SnapdAsserts
