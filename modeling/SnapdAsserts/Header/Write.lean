import SnapdAsserts.Header.Grammar

/-!
# Writing headers

`writeHeader` appends one entry to the content `assembleAndSign` builds: a
newline, the name, and the value after `": "`, or after `":\n "` with each of
its newlines followed by a space when the value spans several lines.  Each
such entry is an entry of the grammar, so a block of them reads back, through
`parseHeaders`, as the mapping it was written from.
-/

namespace SnapdAsserts

/-- `writeHeader(buf, headers, name)`: the bytes it appends to `buf`. -/
def writeHeader (headers : Headers) (name : Bytes) : Bytes :=
  let value := (headers.lookup name).getD []
  10 :: name ++
    if 10 ∈ value then ascii ":\n " ++ indentNewlines value else ascii ": " ++ value

/-- The grammar entry `writeHeader` writes for a name and its value. -/
def headerEntry (name value : Bytes) : Entry :=
  if 10 ∈ value then .multiline name (value.splitOn 10) else .single name value

theorem intercalate_cons (first : Bytes) (lines : List Bytes) :
    [10].intercalate (first :: lines) = first ++ (lines.map (List.cons 10)).flatten := by
  induction lines generalizing first with
  | nil => simp
  | cons line rest ih =>
      rw [intercalate_cons_cons, ih]
      simp

/-- The indented lines of a value are its pieces, each after `"\n "`. -/
theorem flatten_splitOn_indent (value : Bytes) :
    ((value.splitOn 10).map fun line => 10 :: 32 :: line).flatten =
      10 :: 32 :: indentNewlines value := by
  induction value with
  | nil => rfl
  | cons c rest ih =>
      simp only [List.splitOn, List.splitOnP_cons] at ih ⊢
      by_cases newline : c = 10
      · subst newline
        simp [ih, indentNewlines_cons]
      · obtain ⟨first, others, split⟩ := List.exists_cons_of_ne_nil (List.splitOnP_ne_nil
          (fun b => b == (10 : UInt8)) rest)
        rw [split] at ih
        simp only [List.map_cons, List.flatten_cons, List.cons_append, List.cons.injEq,
          true_and] at ih
        simp [newline, split, indentNewlines_cons, ← ih]

@[simp]
theorem ascii_colon_newline_space : ascii ":\n " = [58, 10, 32] := rfl

theorem writeHeader_eq (headers : Headers) (name : Bytes) :
    writeHeader headers name = 10 :: (headerEntry name ((headers.lookup name).getD [])).text := by
  by_cases multiline : 10 ∈ (headers.lookup name).getD []
  · simp [writeHeader, headerEntry, multiline, Entry.text, Entry.lines, intercalate_cons,
      List.map_map, Function.comp_def, flatten_splitOn_indent]
  · simp [writeHeader, headerEntry, multiline, Entry.text, Entry.lines]

theorem tail_writeHeader (headers : Headers) (name : Bytes) :
    (writeHeader headers name).tail = (headerEntry name ((headers.lookup name).getD [])).text := by
  rw [writeHeader_eq, List.tail_cons]

/-- `writeHeader` reads the mapping only at the name it writes. -/
theorem writeHeader_congr {first second : Headers} {name : Bytes}
    (same : first.lookup name = second.lookup name) :
    writeHeader first name = writeHeader second name := by
  simp [writeHeader, same]

theorem flatMap_writeHeader_congr {first second : Headers} {names : List Bytes}
    (same : ∀ name ∈ names, first.lookup name = second.lookup name) :
    names.flatMap (writeHeader first) = names.flatMap (writeHeader second) := by
  induction names with
  | nil => rfl
  | cons name rest ih =>
      simp only [List.flatMap_cons]
      rw [writeHeader_congr (same name (List.mem_cons_self _ _)),
        ih fun n hn => same n (List.mem_cons_of_mem _ hn)]

theorem headerEntry_wellFormed {name value : Bytes} (sane : headerNameSanity name = true) :
    (headerEntry name value).WellFormed := by
  unfold headerEntry
  split
  · exact ⟨sane, List.splitOnP_ne_nil _ _, fun _ hv => not_mem_of_mem_splitOn hv⟩
  · rename_i h
    exact ⟨sane, h⟩

@[simp]
theorem headerEntry_name (name value : Bytes) : (headerEntry name value).name = name := by
  unfold headerEntry; split <;> rfl

@[simp]
theorem headerEntry_value (name value : Bytes) : (headerEntry name value).value = value := by
  unfold headerEntry
  split
  · exact List.intercalate_splitOn value 10
  · rfl

/-- The entries of a mapping in a given order of its names. -/
def headerEntries (headers : Headers) (names : List Bytes) : List Entry :=
  names.map fun name => headerEntry name ((headers.lookup name).getD [])

/-- Writing names in order, without the first newline, renders their
entries. -/
theorem writeHeader_block (headers : Headers) (first : Bytes) (others : List Bytes) :
    (writeHeader headers first).tail ++ others.flatMap (writeHeader headers) =
      renderEntries (headerEntries headers (first :: others)) := by
  have written : writeHeader headers =
      fun name => 10 :: (headerEntry name ((headers.lookup name).getD [])).text :=
    funext (writeHeader_eq headers)
  simp [renderEntries, headerEntries, intercalate_cons, written, List.flatMap, Function.comp_def]

/-- Each name keeps, in the entries, the value of the mapping. -/
theorem lastValue_headerEntries (headers : Headers) (names : List Bytes) (name : Bytes) :
    lastValue (headerEntries headers names) name =
      if name ∈ names then some ((headers.lookup name).getD []) else none := by
  have found : (names.reverse.find? fun n => decide (n = name)) =
      if name ∈ names then some name else none := by
    split
    · rename_i mem
      cases h : names.reverse.find? fun n => decide (n = name) with
      | none => simpa using List.find?_eq_none.mp h name (List.mem_reverse.mpr mem)
      | some other => simpa using List.find?_some h
    · rename_i absent
      exact List.find?_eq_none.mpr fun n hn same => absent (by
        simp only [decide_eq_true_eq] at same
        exact same ▸ List.mem_reverse.mp hn)
  unfold lastValue headerEntries
  rw [← List.map_reverse, List.find?_map]
  simp only [Function.comp_def, headerEntry_name, found]
  split <;> simp

theorem utf8Valid_writeHeader {headers : Headers} {name : Bytes} (sane : headerNameSanity name = true)
    (valid : utf8Valid ((headers.lookup name).getD []) = true) :
    utf8Valid (writeHeader headers name) = true := by
  have name_ascii : utf8Valid name = true :=
    utf8Valid_of_ascii fun c hc => nameByte_lt (headerNameSanity_nameByte sane c hc)
  unfold writeHeader
  simp only [List.cons_append, utf8Valid_cons_of_lt (show (10 : UInt8) < 0x80 by decide)]
  apply utf8Valid_append name_ascii
  split
  · exact utf8Valid_append (by decide) (by rwa [utf8Valid_indentNewlines])
  · exact utf8Valid_append (by decide) valid

/-- Writing the names of a mapping of valid names to valid UTF-8 values, in
any order, the first without its newline, gives a block of lines that parses
back to the mapping. -/
theorem writeHeader_block_parses (headers : Headers) (first : Bytes) (others : List Bytes)
    (order : (first :: others).Perm headers.keys)
    (sane : ∀ name ∈ headers.keys, headerNameSanity name = true)
    (valid : ∀ name value, headers.lookup name = some value → utf8Valid value = true) :
    let block := (writeHeader headers first).tail ++ others.flatMap (writeHeader headers)
    LineBlock block ∧ ∃ parsed, parseHeaders block = .ok parsed ∧
      ∀ name, parsed.lookup name = headers.lookup name := by
  intro block
  have mem_keys : ∀ name ∈ first :: others, ∃ value, headers.lookup name = some value :=
    fun name hname => Option.isSome_iff_exists.mp
      (AList.lookup_isSome.mpr (AList.mem_keys.mpr (order.subset hname)))
  have wf : ∀ entry ∈ headerEntries headers (first :: others), entry.WellFormed := by
    simp only [headerEntries, List.mem_map]
    rintro _ ⟨name, hname, rfl⟩
    exact headerEntry_wellFormed (sane name (order.subset hname))
  have nonempty : headerEntries headers (first :: others) ≠ [] := by simp [headerEntries]
  have rendered : block = renderEntries (headerEntries headers (first :: others)) :=
    writeHeader_block headers first others
  have valid_name : ∀ name ∈ first :: others, utf8Valid (writeHeader headers name) = true := by
    intro name hname
    obtain ⟨value, hvalue⟩ := mem_keys name hname
    exact utf8Valid_writeHeader (sane name (order.subset hname)) (by simpa [hvalue] using valid _ _ hvalue)
  have valid_block : utf8Valid block = true := by
    have first_ok : utf8Valid (writeHeader headers first).tail = true := by
      have := valid_name first (List.mem_cons_self _ _)
      rwa [writeHeader_eq, utf8Valid_cons_of_lt (by decide), ← tail_writeHeader] at this
    refine utf8Valid_append first_ok (utf8Valid_flatten ?_)
    simp only [List.mem_map]
    rintro _ ⟨name, hname, rfl⟩
    exact valid_name name (List.mem_cons_of_mem _ hname)
  refine ⟨lineBlock_of_splitOn (rendered ▸ splitOn_renderEntries nonempty wf) wf,
    assignEntries ∅ (headerEntries headers (first :: others)), ?_, fun name => ?_⟩
  · rw [parseHeaders, if_pos valid_block, rendered, splitOn_renderEntries nonempty wf,
      parseEntries_flatMap_lines wf]
  · rw [lookup_assignEntries, lastValue_headerEntries]
    split
    · rename_i hname
      obtain ⟨value, hvalue⟩ := mem_keys name hname
      simp [hvalue]
    · rename_i absent
      exact (AList.lookup_eq_none.mpr fun h => absent (order.symm.subset (AList.mem_keys.mp h))).symm

/-- Header serializer and parser are inverse: for every mapping from valid
header names to valid UTF-8 values and every order of its names, the block
written by `writeHeader` in that order, without its first newline, holds no
`"\n\n"`, has no newline at either end, and parses back to the mapping. -/
theorem parseHeaders_writeHeader_block (headers : Headers) (first : Bytes) (others : List Bytes)
    (order : (first :: others).Perm headers.keys)
    (sane : ∀ name ∈ headers.keys, headerNameSanity name = true)
    (valid : ∀ name value, headers.lookup name = some value → utf8Valid value = true) :
    let block := (writeHeader headers first).tail ++ others.flatMap (writeHeader headers)
    ¬nlnl <:+: block ∧ block.head? ≠ some 10 ∧ block.getLast? ≠ some 10 ∧
      ∃ parsed, parseHeaders block = .ok parsed ∧
        ∀ name, parsed.lookup name = headers.lookup name := by
  obtain ⟨shape, parses⟩ := writeHeader_block_parses headers first others order sane valid
  exact ⟨shape.no_nlnl, shape.head_ne, shape.last_ne, parses⟩

/-- A two-line value under one name is written as a multi-line entry and read back. -/
theorem parseHeaders_writeHeader_block_multiline :
    let headers := (∅ : Headers).insert (ascii "body") (ascii "a\nb")
    ([ascii "body"].Perm headers.keys ∧
      (∀ name ∈ headers.keys, headerNameSanity name = true) ∧
      (∀ name value, headers.lookup name = some value → utf8Valid value = true)) ∧
    let block := (writeHeader headers (ascii "body")).tail ++ [].flatMap (writeHeader headers)
    ¬nlnl <:+: block ∧ block.head? ≠ some 10 ∧ block.getLast? ≠ some 10 ∧
      ∃ parsed, parseHeaders block = .ok parsed ∧
        ∀ name, parsed.lookup name = headers.lookup name := by
  intro headers
  have order : [ascii "body"].Perm headers.keys := by decide
  have sane : ∀ name ∈ headers.keys, headerNameSanity name = true := by decide
  have valid : ∀ name value, headers.lookup name = some value → utf8Valid value = true := by
    intro name value found
    by_cases same : name = ascii "body"
    · subst same
      simp only [headers, AList.lookup_insert, Option.some.injEq] at found
      subst found
      decide
    · simp only [headers, AList.lookup_insert_ne same, AList.lookup_empty, reduceCtorEq] at found
  exact ⟨⟨order, sane, valid⟩, parseHeaders_writeHeader_block headers _ [] order sane valid⟩

end SnapdAsserts
