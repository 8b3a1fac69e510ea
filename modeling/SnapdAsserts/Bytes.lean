import Mathlib.Data.List.Basic
import Mathlib.Data.List.Infix

/-!
# Byte strings

Go's `[]byte` and `string` are both finite sequences of bytes, and the codec
moves freely between them.  Both are modelled as `List UInt8`.  This module
gives the few helpers of packages `bytes` and `strings` that the codec calls:
`bytes.Index` and `bytes.LastIndex` as option-valued searches, together with
their exact characterisations, which every later statement about separators
goes through.
-/

namespace SnapdAsserts

/-- A Go byte slice or string. -/
abbrev Bytes := List UInt8

/-- The bytes of an ASCII text; used to write the literals of the source. -/
def ascii (text : String) : Bytes :=
  text.toList.map fun c => c.toNat.toUInt8

/-- `nl`, the one-byte separator `"\n"`. -/
def nl : Bytes := [10]

/-- `nlnl`, the separator `"\n\n"` between headers, body and signature. -/
def nlnl : Bytes := [10, 10]

@[simp]
theorem length_nlnl : nlnl.length = 2 := rfl

/-! ## Joining and splitting at a byte -/

section Intercalate

variable {x : UInt8}

@[simp]
theorem intercalate_singleton (line : Bytes) : [x].intercalate [line] = line := by
  simp [List.intercalate]

theorem intercalate_cons_cons (line next : Bytes) (rest : List Bytes) :
    [x].intercalate (line :: next :: rest) = line ++ x :: [x].intercalate (next :: rest) := by
  simp [List.intercalate, List.intersperse_cons₂]

theorem intercalate_append {front back : List Bytes} (hfront : front ≠ []) (hback : back ≠ []) :
    [x].intercalate (front ++ back) = [x].intercalate front ++ x :: [x].intercalate back := by
  induction front with
  | nil => exact absurd rfl hfront
  | cons line rest ih =>
      obtain ⟨next, back, rfl⟩ := List.exists_cons_of_ne_nil hback
      cases rest with
      | nil => simp [intercalate_cons_cons]
      | cons line' rest =>
          rw [List.cons_append, List.cons_append, intercalate_cons_cons, ← List.cons_append,
            ih (List.cons_ne_nil _ _), intercalate_cons_cons]
          simp

/-- The pieces `strings.Split` cuts a byte string into never hold the
separator. -/
theorem not_mem_of_mem_splitOn {s line : Bytes} (hline : line ∈ s.splitOn x) : x ∉ line := by
  induction s generalizing line with
  | nil => simp_all [List.splitOn]
  | cons c rest ih =>
      simp only [List.splitOn, List.splitOnP_cons] at hline ih
      split at hline
      · rcases List.mem_cons.mp hline with rfl | hline
        · simp
        · exact ih hline
      · rename_i hc
        obtain ⟨first, others, split⟩ := List.exists_cons_of_ne_nil (List.splitOnP_ne_nil
          (fun b => b == x) rest)
        rw [split, List.modifyHead_cons] at hline
        rcases List.mem_cons.mp hline with rfl | hline
        · simp only [beq_iff_eq] at hc
          simp only [List.mem_cons, not_or]
          exact ⟨fun h => hc h.symm, ih (by rw [split]; exact List.mem_cons_self _ _)⟩
        · exact ih (by rw [split]; exact List.mem_cons_of_mem _ hline)

theorem splitOn_append_cons (front back : Bytes) :
    (front ++ x :: back).splitOn x = front.splitOn x ++ back.splitOn x := by
  induction front with
  | nil => simp [List.splitOn]
  | cons c rest ih =>
      simp only [List.splitOn, List.splitOnP_cons, List.cons_append] at ih ⊢
      split
      · simp [ih]
      · obtain ⟨first, others, split⟩ := List.exists_cons_of_ne_nil (List.splitOnP_ne_nil
          (fun b => b == x) rest)
        rw [ih, split]
        rfl

/-- An empty piece in `strings.Split` marks two adjacent separators, or one at
either end. -/
theorem nil_mem_splitOn_of_separator {s : Bytes}
    (h : [x, x] <:+: s ∨ s.head? = some x ∨ s.getLast? = some x) : [] ∈ s.splitOn x := by
  rcases h with ⟨front, back, rfl⟩ | head | last
  · rw [show front ++ [x, x] ++ back = front ++ x :: x :: back by simp, splitOn_append_cons]
    simp [List.splitOn, List.splitOnP_cons]
  · obtain ⟨rest, rfl⟩ : ∃ rest, s = x :: rest := by
      cases s with
      | nil => cases head
      | cons c rest => exact ⟨rest, by simpa using head⟩
    simp [List.splitOn, List.splitOnP_cons]
  · obtain ⟨front, rfl⟩ : ∃ front, s = front ++ [x] := by
      obtain ⟨front, c, split⟩ := List.eq_nil_or_concat s |>.resolve_left (by
        rintro rfl; cases last)
      exact ⟨front, by simp_all⟩
    rw [splitOn_append_cons]
    simp [List.splitOn]

end Intercalate

/-! ## First occurrence -/

/-- `bytes.Index(s, sep)`: the position of the first occurrence of `sep` in
`s`, `none` standing for Go's `-1`. -/
def index (s sep : Bytes) : Option Nat :=
  if sep.isPrefixOf s then some 0
  else
    match s with
    | [] => none
    | _ :: rest => (index rest sep).map (· + 1)

theorem index_cons (c : UInt8) (rest sep : Bytes) :
    index (c :: rest) sep =
      if sep <+: c :: rest then some 0 else (index rest sep).map (· + 1) := by
  simp [index]

/-- Exact characterisation of a successful search: `sep` starts at `i` and at
no earlier position. -/
theorem index_eq_some_iff {s sep : Bytes} {i : Nat} :
    index s sep = some i ↔ sep <+: s.drop i ∧ ∀ j < i, ¬sep <+: s.drop j := by
  induction s generalizing i with
  | nil =>
      cases i with
      | zero => simp [index]
      | succ i =>
          simp only [index, List.isPrefixOf_iff_prefix, List.drop_nil]
          constructor
          · split <;> simp
          · rintro ⟨found, before⟩
            exact absurd found (before 0 (Nat.succ_pos i))
  | cons c rest ih =>
      rw [index_cons]
      by_cases here : sep <+: c :: rest
      · rw [if_pos here]
        cases i with
        | zero => simpa using here
        | succ i =>
            constructor
            · intro h
              cases h
            · rintro ⟨_, before⟩
              exact absurd here (before 0 (Nat.succ_pos i))
      · rw [if_neg here]
        cases i with
        | zero => simp [here]
        | succ i =>
            simp only [Option.map_eq_some', Nat.add_right_cancel_iff, exists_eq_right, ih,
              List.drop_succ_cons]
            constructor
            · rintro ⟨found, before⟩
              refine ⟨found, fun j hj => ?_⟩
              cases j with
              | zero => exact here
              | succ j => exact before j (Nat.lt_of_succ_lt_succ hj)
            · rintro ⟨found, before⟩
              exact ⟨found, fun j hj => before (j + 1) (Nat.succ_lt_succ hj)⟩

/-- A failed search means `sep` starts nowhere in `s`. -/
theorem index_eq_none_iff {s sep : Bytes} :
    index s sep = none ↔ ∀ j, ¬sep <+: s.drop j := by
  induction s with
  | nil =>
      simp only [index, List.isPrefixOf_iff_prefix, List.drop_nil]
      split <;> simp_all
  | cons c rest ih =>
      rw [index_cons]
      by_cases here : sep <+: c :: rest
      · simpa [here] using ⟨0, here⟩
      · simp only [here, if_false, Option.map_eq_none', ih]
        constructor
        · intro h j
          cases j with
          | zero => exact here
          | succ j => exact h j
        · exact fun h j => h (j + 1)

/-- `sep` occurs somewhere in `s` exactly when it starts at some position. -/
theorem infix_iff_exists_prefix_drop {s sep : Bytes} :
    sep <:+: s ↔ ∃ j, sep <+: s.drop j := by
  constructor
  · rintro ⟨front, back, rfl⟩
    exact ⟨front.length, by simp⟩
  · rintro ⟨j, back, hj⟩
    exact ⟨s.take j, back, by rw [List.append_assoc, hj, List.take_append_drop]⟩

theorem index_eq_none_iff_not_infix {s sep : Bytes} :
    index s sep = none ↔ ¬sep <:+: s := by
  simp [index_eq_none_iff, infix_iff_exists_prefix_drop]

/-- A one-byte separator is found right after a prefix free of it. -/
theorem index_append_singleton {front back : Bytes} {x : UInt8} (absent : x ∉ front) :
    index (front ++ x :: back) [x] = some front.length := by
  rw [index_eq_some_iff]
  refine ⟨by simp, fun j hj => ?_⟩
  rw [List.drop_append_of_le_length (Nat.le_of_lt hj)]
  obtain ⟨c, rest, split⟩ : ∃ c rest, front.drop j = c :: rest :=
    List.exists_cons_of_ne_nil (by simp [List.drop_eq_nil_iff]; omega)
  have hc : c ∈ front := List.mem_of_mem_drop (show c ∈ front.drop j by rw [split]; exact List.mem_cons_self c rest)
  rw [split, List.cons_append, List.cons_prefix_cons]
  exact fun h => absent (h.1 ▸ hc)

/-- Where a one-byte separator is found, the string is cut around it. -/
theorem eq_of_index_singleton {s : Bytes} {x : UInt8} {i : Nat} (found : index s [x] = some i) :
    s = s.take i ++ x :: s.drop (i + 1) := by
  obtain ⟨⟨back, split⟩, -⟩ := index_eq_some_iff.mp found
  have rest : s.drop (i + 1) = back := by
    rw [← List.drop_drop, ← split]
    rfl
  rw [rest, ← List.singleton_append, split, List.take_append_drop]

/-! ## Last occurrence -/

/-- `bytes.LastIndex(s, sep)`: the position of the last occurrence of `sep`
in `s`. -/
def lastIndex (s sep : Bytes) : Option Nat :=
  match s with
  | [] => if sep.isPrefixOf [] then some 0 else none
  | c :: rest =>
      match lastIndex rest sep with
      | some i => some (i + 1)
      | none => if sep.isPrefixOf (c :: rest) then some 0 else none

theorem lastIndex_eq_none_iff {s sep : Bytes} :
    lastIndex s sep = none ↔ ∀ j, ¬sep <+: s.drop j := by
  induction s with
  | nil =>
      simp only [lastIndex, List.isPrefixOf_iff_prefix, List.drop_nil]
      split <;> simp_all
  | cons c rest ih =>
      simp only [lastIndex, List.isPrefixOf_iff_prefix]
      cases later : lastIndex rest sep with
      | some k =>
          obtain ⟨j, found⟩ := not_forall_not.mp (ih.not.mp (by simp [later]))
          simpa using ⟨j + 1, found⟩
      | none =>
          have none_after := ih.mp later
          by_cases here : sep <+: c :: rest
          · simpa [here] using ⟨0, here⟩
          · simp only [here, if_false, true_iff]
            intro j
            cases j with
            | zero => exact here
            | succ j => exact none_after j

/-- Exact characterisation of a successful backward search: `sep` starts at
`i` and at no later position. -/
theorem lastIndex_eq_some_iff {s sep : Bytes} {i : Nat} (nonempty : sep ≠ []) :
    lastIndex s sep = some i ↔ sep <+: s.drop i ∧ ∀ j, i < j → ¬sep <+: s.drop j := by
  induction s generalizing i with
  | nil =>
      simp only [lastIndex, List.isPrefixOf_iff_prefix, List.drop_nil,
        List.prefix_nil, nonempty, if_false]
      simp
  | cons c rest ih =>
      simp only [lastIndex, List.isPrefixOf_iff_prefix]
      cases later : lastIndex rest sep with
      | some k =>
          obtain ⟨found, after⟩ := ih.mp later
          simp only [Option.some.injEq]
          constructor
          · rintro rfl
            refine ⟨found, fun j hj => ?_⟩
            obtain ⟨j, rfl⟩ : ∃ j', j = j' + 1 := ⟨j - 1, by omega⟩
            exact after j (by omega)
          · rintro ⟨found', after'⟩
            rcases Nat.lt_trichotomy i (k + 1) with lt | eq | gt
            · exact absurd found (after' (k + 1) lt)
            · exact eq.symm
            · obtain ⟨i, rfl⟩ : ∃ i', i = i' + 1 := ⟨i - 1, by omega⟩
              exact absurd found' (after i (by omega))
      | none =>
          have none_after := lastIndex_eq_none_iff.mp later
          cases i with
          | zero =>
              by_cases here : sep <+: c :: rest
              · simpa [here] using fun j _ => by
                  obtain ⟨j, rfl⟩ : ∃ j', j = j' + 1 := ⟨j - 1, by omega⟩
                  exact none_after j
              · simp [here]
          | succ i =>
              simp only [List.drop_succ_cons]
              split <;> simp [none_after i]

end SnapdAsserts
