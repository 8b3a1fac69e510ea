import SnapdAsserts.Header.Utf8
import Mathlib.Data.List.AList

/-!
# Header blocks

`parseHeaders` reads a header block: entries separated by single newlines,
each `NAME ": " VALUE` on one line or `NAME ":"` followed by continuation
lines that start with a space.  The loop over the lines is translated with
the inner scan of continuation lines as `takeWhile`/`dropWhile`, so that it
recurses on the lines left after an entry, as the Go loop advances `i` to `j`.

A header mapping is Go's `map[string]string`; it is modelled as an `AList`,
whose entry order stands for the order in which `range` enumerates the map.
-/

namespace SnapdAsserts

/-- A header mapping, Go's `map[string]string`. -/
abbrev Headers := AList fun _ : Bytes => Bytes

/-! ## Header names -/

/-- `[a-z]`. -/
def lowerLetter (c : UInt8) : Bool := 97 ≤ c && c ≤ 122

/-- `[a-z0-9]`. -/
def lowerAlnum (c : UInt8) : Bool := lowerLetter c || (48 ≤ c && c ≤ 57)

/-- `[a-z0-9-]`, any byte of a header name. -/
def nameByte (c : UInt8) : Bool := lowerAlnum c || c == 45

/-- `[a-z0-9-]*[a-z0-9]$`, the part of a header name after its first letter. -/
def nameTail : Bytes → Bool
  | [] => false
  | [c] => lowerAlnum c
  | c :: d :: rest => nameByte c && nameTail (d :: rest)

/-- `headerNameSanity`: the name matches `^[a-z][a-z0-9-]*[a-z0-9]$`. -/
def headerNameSanity : Bytes → Bool
  | [] => false
  | c :: rest => lowerLetter c && nameTail rest

theorem nameTail_nameByte : ∀ {tail : Bytes}, nameTail tail = true → ∀ c ∈ tail, nameByte c = true
  | [c], h, d, hd => by
      simp only [nameTail] at h
      simp_all [nameByte]
  | c :: d :: rest, h, e, he => by
      simp only [nameTail, Bool.and_eq_true] at h
      rcases List.mem_cons.mp he with rfl | he
      · exact h.1
      · exact nameTail_nameByte h.2 e he

/-- Every byte of a valid header name is one of `[a-z0-9-]`. -/
theorem headerNameSanity_nameByte {name : Bytes} (sane : headerNameSanity name = true) :
    ∀ c ∈ name, nameByte c = true := by
  cases name with
  | nil => simp [headerNameSanity] at sane
  | cons c rest =>
      simp only [headerNameSanity, Bool.and_eq_true] at sane
      intro d hd
      rcases List.mem_cons.mp hd with rfl | hd
      · simp [nameByte, lowerAlnum, sane.1]
      · exact nameTail_nameByte sane.2 d hd

theorem nameByte_lt {c : UInt8} (h : nameByte c = true) : c < 0x80 := by
  simp [nameByte, lowerAlnum, lowerLetter, UInt8.le_def, UInt8.lt_def, BitVec.le_def,
    BitVec.lt_def] at h ⊢
  rcases h with (⟨_, _⟩ | ⟨_, _⟩) | h <;> [omega; omega; (subst h; decide)]

theorem nameByte_ne_newline {c : UInt8} (h : nameByte c = true) : c ≠ 10 := by
  rintro rfl; revert h; decide

theorem nameByte_ne_colon {c : UInt8} (h : nameByte c = true) : c ≠ 58 := by
  rintro rfl; revert h; decide

theorem headerNameSanity_ne_nil {name : Bytes} (sane : headerNameSanity name = true) :
    name ≠ [] := by
  rintro rfl; simp [headerNameSanity] at sane

/-- A valid header name starts with a letter, never with the space of a
continuation line. -/
theorem headerNameSanity_head {name : Bytes} (sane : headerNameSanity name = true) :
    ∃ c rest, name = c :: rest ∧ c ≠ 32 := by
  cases name with
  | nil => simp [headerNameSanity] at sane
  | cons c rest =>
      refine ⟨c, rest, rfl, ?_⟩
      simp only [headerNameSanity, Bool.and_eq_true] at sane
      rintro rfl
      simp [lowerLetter] at sane

/-! ## Parsing -/

/-- The errors of `parseHeaders`, one per `fmt.Errorf` of the source. -/
inductive HeaderError where
  /-- `header is not utf8` -/
  | notUtf8
  /-- `header entry missing ':' separator: %q` -/
  | missingSeparator (entry : Bytes)
  /-- `invalid header name: %q` -/
  | invalidName (name : Bytes)
  /-- `empty multiline header value: %q` -/
  | emptyMultiline (entry : Bytes)
  /-- `header entry should have a space or newline (multiline) before value: %q` -/
  | missingSpace (entry : Bytes)
  deriving DecidableEq, Repr

/-- A continuation line of a multiline value: not empty and starting with a
space. -/
def continuationLine : Bytes → Bool
  | 32 :: _ => true
  | _ => false

/-- The value of a multiline entry as `valueBuf` accumulates it: the
continuation lines without their first byte, joined by newlines. -/
def multilineValue (lines : List Bytes) : Bytes :=
  [10].intercalate (lines.map List.tail)

/-- The loop of `parseHeaders` over the lines of the block, from entry
`lines[i]` on, with the mapping built so far. -/
def parseEntries (lines : List Bytes) (headers : Headers) : Except HeaderError Headers :=
  match lines with
  | [] => .ok headers
  | entry :: rest =>
      match index entry (ascii ":") with
      | none => .error (.missingSeparator entry)
      | some split =>
          let name := entry.take split
          if headerNameSanity name = false then .error (.invalidName name)
          else
            match entry.drop (split + 1) with
            | [] =>
                let continued := rest.takeWhile continuationLine
                if continued = [] then .error (.emptyMultiline entry)
                else
                  parseEntries (rest.dropWhile continuationLine)
                    (headers.insert name (multilineValue continued))
            | 32 :: value => parseEntries rest (headers.insert name value)
            | _ :: _ => .error (.missingSpace entry)
termination_by lines.length
decreasing_by
  all_goals simp_wf
  all_goals first
    | omega
    | exact Nat.lt_succ_of_le (List.dropWhile_suffix continuationLine).length_le

/-- `parseHeaders`: the mapping of a header block, the last entry of a name
winning. -/
def parseHeaders (head : Bytes) : Except HeaderError Headers :=
  if utf8Valid head then parseEntries (head.splitOn 10) ∅ else .error .notUtf8

end SnapdAsserts
