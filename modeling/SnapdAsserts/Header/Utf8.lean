import SnapdAsserts.Bytes

/-!
# UTF-8 validity

`parseHeaders` first rejects a header block that is not valid UTF-8
(`utf8.Valid`).  That function accepts exactly the well-formed sequences of
RFC 3629: a byte below `0x80` stands alone, and any other byte must start a
sequence of two to four bytes, as given by the `first` table of package
`unicode/utf8`, whose second byte lies in the range of its `acceptRanges`
entry and whose later bytes are continuation bytes.  It is modelled here as
an automaton reading one byte at a time.

The header encoder relies on two closure facts proved here: validity of a
concatenation, and validity of a value after its newlines are indented.
-/

namespace SnapdAsserts

/-- `acceptRanges` of `unicode/utf8`: where the second byte of a sequence may
lie. -/
def acceptRange : Fin 5 → UInt8 × UInt8
  | 0 => (0x80, 0xBF)
  | 1 => (0xA0, 0xBF)
  | 2 => (0x80, 0x9F)
  | 3 => (0x90, 0xBF)
  | 4 => (0x80, 0x8F)

/-- The `first` table of `unicode/utf8` for a byte of at least `0x80`: the
length of the sequence it starts and the accept range of its second byte, or
`none` for a byte that starts no sequence. -/
def leadingByte (b : UInt8) : Option (Nat × Fin 5) :=
  if b < 0xC2 then none
  else if b ≤ 0xDF then some (2, 0)
  else if b = 0xE0 then some (3, 1)
  else if b ≤ 0xEC then some (3, 0)
  else if b = 0xED then some (3, 2)
  else if b ≤ 0xEF then some (3, 0)
  else if b = 0xF0 then some (4, 3)
  else if b ≤ 0xF3 then some (4, 0)
  else if b = 0xF4 then some (4, 4)
  else none

/-- Where the reader of a UTF-8 sequence stands: between characters, or inside
one with `owed` bytes still to come, the next of them in range `accept`. -/
inductive Utf8State where
  | between
  | inside (owed : Nat) (accept : Fin 5)
  deriving DecidableEq, Repr

/-- One byte of `utf8.Valid`'s loop. -/
def utf8Step : Utf8State → UInt8 → Option Utf8State
  | .between, b =>
      if b < 0x80 then some .between
      else (leadingByte b).map fun (size, accept) => .inside (size - 1) accept
  | .inside owed accept, c =>
      if (acceptRange accept).1 ≤ c ∧ c ≤ (acceptRange accept).2 then
        some (if owed ≤ 1 then .between else .inside (owed - 1) 0)
      else none

/-- The state after reading every byte, or `none` at the first ill-formed
one. -/
def utf8Run : Utf8State → Bytes → Option Utf8State
  | state, [] => some state
  | state, b :: rest => (utf8Step state b).bind fun next => utf8Run next rest

/-- `utf8.Valid`: the bytes are a sequence of whole well-formed UTF-8
encodings. -/
def utf8Valid (p : Bytes) : Bool :=
  utf8Run .between p = some .between

theorem utf8Run_append (state : Utf8State) (front back : Bytes) :
    utf8Run state (front ++ back) = (utf8Run state front).bind fun mid => utf8Run mid back := by
  induction front generalizing state with
  | nil => rfl
  | cons b rest ih =>
      simp only [List.cons_append, utf8Run]
      cases utf8Step state b <;> simp [ih]

/-- Valid UTF-8 is closed under concatenation. -/
theorem utf8Valid_append {front back : Bytes} (hfront : utf8Valid front = true)
    (hback : utf8Valid back = true) : utf8Valid (front ++ back) = true := by
  simp only [utf8Valid, decide_eq_true_eq] at *
  rw [utf8Run_append, hfront]
  exact hback

theorem utf8Valid_cons_of_lt {c : UInt8} (small : c < 0x80) (rest : Bytes) :
    utf8Valid (c :: rest) = utf8Valid rest := by
  simp [utf8Valid, utf8Run, utf8Step, small]

theorem utf8Valid_flatten {pieces : List Bytes} (valid : ∀ piece ∈ pieces, utf8Valid piece = true) :
    utf8Valid pieces.flatten = true := by
  induction pieces with
  | nil => rfl
  | cons piece rest ih =>
      exact utf8Valid_append (valid piece (List.mem_cons_self _ _))
        (ih fun p hp => valid p (List.mem_cons_of_mem _ hp))

/-- Bytes below `0x80` are valid UTF-8, one character each. -/
theorem utf8Valid_of_ascii {p : Bytes} (small : ∀ c ∈ p, c < 0x80) : utf8Valid p = true := by
  induction p with
  | nil => rfl
  | cons c rest ih =>
      have hc := small c (List.mem_cons_self c rest)
      simpa [utf8Valid, utf8Run, utf8Step, hc] using ih fun d hd => small d (List.mem_cons_of_mem c hd)

/-- A newline is refused inside a multi-byte sequence. -/
theorem utf8Step_inside_newline (owed : Nat) (accept : Fin 5) :
    utf8Step (.inside owed accept) 10 = none := by
  have refused : ∀ accept : Fin 5, ¬((acceptRange accept).1 ≤ 10 ∧ 10 ≤ (acceptRange accept).2) := by
    decide
  simp [utf8Step, refused accept]

/-- `strings.Replace(value, "\n", "\n ", -1)`: every newline followed by one
space. -/
def indentNewlines (value : Bytes) : Bytes :=
  value.flatMap fun c => if c = 10 then [10, 32] else [c]

theorem indentNewlines_cons (c : UInt8) (rest : Bytes) :
    indentNewlines (c :: rest) = (if c = 10 then [10, 32] else [c]) ++ indentNewlines rest := by
  simp [indentNewlines]

/-- Indenting the newlines of a value does not change how it reads as UTF-8. -/
theorem utf8Run_indentNewlines (state : Utf8State) (value : Bytes) :
    utf8Run state (indentNewlines value) = utf8Run state value := by
  induction value generalizing state with
  | nil => rfl
  | cons c rest ih =>
      by_cases newline : c = 10
      · subst newline
        cases state with
        | between => simpa [indentNewlines, utf8Run, utf8Step] using ih .between
        | inside owed accept =>
            simp [indentNewlines, utf8Run, utf8Step_inside_newline]
      · simp only [indentNewlines, List.flatMap_cons, newline, if_false, List.singleton_append,
          utf8Run] at ih ⊢
        cases utf8Step state c <;> simp [ih]

theorem utf8Valid_indentNewlines (value : Bytes) :
    utf8Valid (indentNewlines value) = utf8Valid value := by
  simp [utf8Valid, utf8Run_indentNewlines]

end SnapdAsserts
