import SnapdAsserts.Header.Parse

/-!
# The header grammar

A header block is a list of entries, each rendered as one or more lines, the
lines of the whole block joined by single newlines.  An entry is either
`NAME ": " VALUE` on one line, or `NAME ":"` followed by continuation lines
`" " Vj`, its value being the `Vj` joined by newlines.

`parseHeaders` succeeds exactly on the valid UTF-8 renderings of lists of
well-formed entries, and returns their mapping with the last entry of each
name winning.  The two directions are `parseEntries_flatMap_lines` and
`parseEntries_eq_ok`.
-/

namespace SnapdAsserts

/-- An entry of a header block. -/
inductive Entry where
  /-- `NAME ": " VALUE` -/
  | single (name value : Bytes)
  /-- `NAME ":"` followed by the continuation lines `"\n " Vj` -/
  | multiline (name : Bytes) (values : List Bytes)
  deriving DecidableEq, Repr

namespace Entry

/-- The header name an entry assigns. -/
def name : Entry → Bytes
  | single name _ => name
  | multiline name _ => name

/-- The value an entry assigns: `V`, or the `Vj` joined by newlines. -/
def value : Entry → Bytes
  | single _ value => value
  | multiline _ values => [10].intercalate values

/-- The lines an entry occupies. -/
def lines : Entry → List Bytes
  | single name value => [name ++ ascii ": " ++ value]
  | multiline name values => (name ++ ascii ":") :: values.map (List.cons 32)

/-- The text `ei` of an entry: its lines joined by newlines. -/
def text (entry : Entry) : Bytes :=
  [10].intercalate entry.lines

/-- What the grammar asks of an entry: a name matching `headerNameSanity`,
values free of newlines, and at least one continuation line. -/
def WellFormed : Entry → Prop
  | single name value => headerNameSanity name = true ∧ 10 ∉ value
  | multiline name values =>
      headerNameSanity name = true ∧ values ≠ [] ∧ ∀ v ∈ values, 10 ∉ v

theorem lines_ne_nil (entry : Entry) : entry.lines ≠ [] := by
  cases entry <;> simp [lines]

theorem wellFormed_name {entry : Entry} (wf : entry.WellFormed) :
    headerNameSanity entry.name = true := by
  cases entry <;> exact wf.1

/-- Every line of a well-formed entry is free of newlines. -/
theorem newline_not_mem_lines {entry : Entry} (wf : entry.WellFormed) :
    ∀ line ∈ entry.lines, 10 ∉ line := by
  have name_ok := fun c hc => nameByte_ne_newline (headerNameSanity_nameByte (wellFormed_name wf) c hc)
  cases entry with
  | single name value =>
      simp only [lines, List.mem_singleton, forall_eq, List.mem_append, not_or]
      exact ⟨⟨fun h => name_ok 10 h rfl, by decide⟩, wf.2⟩
  | multiline name values =>
      simp only [lines, List.mem_cons, List.mem_map, forall_eq_or_imp, List.mem_append, not_or]
      refine ⟨⟨fun h => name_ok 10 h rfl, by decide⟩, ?_⟩
      rintro _ ⟨v, hv, rfl⟩
      simpa using wf.2.2 v hv

/-- Every line of an entry is non-empty. -/
theorem lines_nonempty (entry : Entry) (wf : entry.WellFormed) : ∀ line ∈ entry.lines, line ≠ [] := by
  have := headerNameSanity_ne_nil (wellFormed_name wf)
  cases entry <;> simp_all [lines, name]

end Entry

/-- `e1 "\n" e2 ... "\n" ek`: the block of a list of entries. -/
def renderEntries (entries : List Entry) : Bytes :=
  [10].intercalate (entries.map Entry.text)

/-- The mapping of a list of entries assigned in order, so that the last entry
of a name wins. -/
def assignEntries (headers : Headers) (entries : List Entry) : Headers :=
  entries.foldl (fun acc entry => acc.insert entry.name entry.value) headers

/-- The value of the last entry of a name. -/
def lastValue (entries : List Entry) (name : Bytes) : Option Bytes :=
  (entries.reverse.find? fun entry => entry.name = name).map Entry.value

/-- Assigning entries in order leaves each name with the value of its last
entry. -/
theorem lookup_assignEntries (entries : List Entry) (name : Bytes) :
    (assignEntries ∅ entries).lookup name = lastValue entries name := by
  induction entries using List.reverseRecOn with
  | nil => simp [assignEntries, lastValue]
  | append_singleton entries entry ih =>
      simp only [assignEntries, List.foldl_append, List.foldl_cons, List.foldl_nil] at ih ⊢
      by_cases same : entry.name = name
      · subst same
        simp [lastValue]
      · rw [AList.lookup_insert_ne (Ne.symm same), ih]
        simp [lastValue, same]

theorem renderEntries_eq_intercalate_lines (entries : List Entry) :
    renderEntries entries = [10].intercalate (entries.flatMap Entry.lines) := by
  induction entries with
  | nil => rfl
  | cons entry rest ih =>
      cases rest with
      | nil => simp [renderEntries, Entry.text]
      | cons next rest =>
          rw [renderEntries, List.map_cons, List.map_cons, intercalate_cons_cons,
            ← List.map_cons, ← renderEntries, ih,
            show (entry :: next :: rest).flatMap Entry.lines =
              entry.lines ++ (next :: rest).flatMap Entry.lines from rfl,
            intercalate_append entry.lines_ne_nil (by simp [Entry.lines_ne_nil]), Entry.text]

/-- A rendered block splits back into the lines of its entries. -/
theorem splitOn_renderEntries {entries : List Entry} (nonempty : entries ≠ [])
    (wf : ∀ entry ∈ entries, entry.WellFormed) :
    (renderEntries entries).splitOn 10 = entries.flatMap Entry.lines := by
  rw [renderEntries_eq_intercalate_lines]
  apply List.splitOn_intercalate
  · simp only [List.mem_flatMap]
    rintro line ⟨entry, hentry, hline⟩
    exact Entry.newline_not_mem_lines (wf entry hentry) line hline
  · obtain ⟨entry, rest, rfl⟩ := List.exists_cons_of_ne_nil nonempty
    simp [Entry.lines_ne_nil]

/-! ## Parsing a rendered block -/

/-- The lines after an entry start a new entry: they are exhausted or the next
one is no continuation line. -/
def StartsEntry (lines : List Bytes) : Prop :=
  ∀ line ∈ lines.head?, continuationLine line = false

theorem startsEntry_flatMap_lines {entries : List Entry}
    (wf : ∀ entry ∈ entries, entry.WellFormed) : StartsEntry (entries.flatMap Entry.lines) := by
  cases entries with
  | nil => simp [StartsEntry]
  | cons entry rest =>
      obtain ⟨c, tail, split, hc⟩ := headerNameSanity_head (Entry.wellFormed_name
        (wf entry (List.mem_cons_self _ _)))
      cases entry <;>
        simp_all [StartsEntry, Entry.lines, Entry.name, continuationLine]

@[simp]
theorem ascii_colon : ascii ":" = [58] := rfl

@[simp]
theorem ascii_colon_space : ascii ": " = [58, 32] := rfl

/-- One step of the loop of `parseHeaders`: a well-formed entry is read back
and assigned. -/
theorem parseEntries_lines_append {entry : Entry} (wf : entry.WellFormed) {rest : List Bytes}
    (next : StartsEntry rest) (headers : Headers) :
    parseEntries (entry.lines ++ rest) headers =
      parseEntries rest (headers.insert entry.name entry.value) := by
  have sane := Entry.wellFormed_name wf
  have no_colon : (58 : UInt8) ∉ entry.name :=
    fun h => nameByte_ne_colon (headerNameSanity_nameByte sane 58 h) rfl
  have no_continued : rest.takeWhile continuationLine = [] := by
    cases rest with
    | nil => rfl
    | cons line rest => simp [next line rfl]
  have same_rest : rest.dropWhile continuationLine = rest := by
    cases rest with
    | nil => rfl
    | cons line rest => simp [next line rfl]
  cases entry with
  | single name value =>
      simp only [Entry.name] at no_colon sane
      rw [Entry.lines, List.singleton_append, parseEntries, ascii_colon, ascii_colon_space,
        List.append_assoc, List.cons_append, index_append_singleton no_colon]
      simp [sane, Entry.name, Entry.value]
  | multiline name values =>
      simp only [Entry.name] at no_colon sane
      have continued : ((values.map (List.cons 32)) ++ rest).takeWhile continuationLine =
          values.map (List.cons 32) := by
        rw [List.takeWhile_append_of_pos (by simp [continuationLine]), no_continued,
          List.append_nil]
      have dropped : ((values.map (List.cons 32)) ++ rest).dropWhile continuationLine = rest := by
        rw [List.dropWhile_append_of_pos (by simp [continuationLine]), same_rest]
      rw [Entry.lines, List.cons_append, parseEntries, ascii_colon,
        @index_append_singleton name [] 58 no_colon]
      simp only [List.take_left', sane, List.drop_left', continued, dropped]
      simp [wf.2.1, Entry.name, Entry.value, multilineValue, Function.comp_def]

/-- The parse of the lines of well-formed entries is their mapping. -/
theorem parseEntries_flatMap_lines {entries : List Entry}
    (wf : ∀ entry ∈ entries, entry.WellFormed) (headers : Headers) :
    parseEntries (entries.flatMap Entry.lines) headers = .ok (assignEntries headers entries) := by
  induction entries generalizing headers with
  | nil => simp [parseEntries, assignEntries]
  | cons entry rest ih =>
      have wf_rest := fun e he => wf e (List.mem_cons_of_mem entry he)
      rw [List.flatMap_cons, parseEntries_lines_append (wf entry (List.mem_cons_self _ _))
        (startsEntry_flatMap_lines wf_rest), ih wf_rest]
      rfl

/-! ## Reading a block back into entries -/

theorem continuationLine_eq {line : Bytes} (h : continuationLine line = true) :
    line = 32 :: line.tail := by
  cases line with
  | nil => simp [continuationLine] at h
  | cons c rest =>
      cases c using UInt8.casesOn
      simp only [continuationLine] at h
      split at h <;> simp_all

/-- The multiline entry the loop of `parseHeaders` reads at a line that ends
at its first `':'`, followed by continuation lines. -/
theorem multiline_read {entry : Bytes} {rest : List Bytes} {split : Nat}
    (noNewline : ∀ line ∈ entry :: rest, 10 ∉ line) (found : index entry (ascii ":") = some split)
    (sane : headerNameSanity (entry.take split) = true) (ends : entry.drop (split + 1) = [])
    (nonempty : rest.takeWhile continuationLine ≠ []) :
    (Entry.multiline (entry.take split) ((rest.takeWhile continuationLine).map List.tail)).WellFormed ∧
      entry :: rest = (Entry.multiline (entry.take split) ((rest.takeWhile continuationLine).map List.tail)).lines ++
        rest.dropWhile continuationLine := by
  have hentry := @eq_of_index_singleton entry 58 split (by rwa [← ascii_colon])
  rw [ends] at hentry
  have restored : ((rest.takeWhile continuationLine).map List.tail).map (List.cons 32) =
      rest.takeWhile continuationLine := by
    rw [List.map_map]
    conv_rhs => rw [← List.map_id (rest.takeWhile continuationLine)]
    exact List.map_congr_left fun l hl => (continuationLine_eq (List.mem_takeWhile_imp hl)).symm
  refine ⟨⟨sane, by simpa using nonempty, ?_⟩, ?_⟩
  · simp only [List.mem_map]
    rintro _ ⟨l, hl, rfl⟩ hmem
    exact noNewline l (List.mem_cons_of_mem _ ((List.takeWhile_sublist _).subset hl)) (List.mem_of_mem_tail hmem)
  · rw [Entry.lines, restored, ascii_colon, List.cons_append, List.takeWhile_append_dropWhile, ← hentry]

/-- The single-line entry the loop of `parseHeaders` reads at a line with a
space after its first `':'`. -/
theorem single_read {entry value : Bytes} {split : Nat} (noNewline : 10 ∉ entry)
    (found : index entry (ascii ":") = some split) (sane : headerNameSanity (entry.take split) = true)
    (spaced : entry.drop (split + 1) = 32 :: value) :
    (Entry.single (entry.take split) value).WellFormed ∧ [entry] = (Entry.single (entry.take split) value).lines := by
  have hentry := @eq_of_index_singleton entry 58 split (by rwa [← ascii_colon])
  rw [spaced] at hentry
  refine ⟨⟨sane, fun h => noNewline ?_⟩, ?_⟩
  · rw [hentry]
    simp [h]
  · rw [Entry.lines, ascii_colon_space]
    simpa using hentry

/-- The loop of `parseHeaders` succeeds only on the lines of well-formed
entries, and returns their mapping. -/
theorem parseEntries_eq_ok {lines : List Bytes} {headers result : Headers}
    (noNewline : ∀ line ∈ lines, 10 ∉ line) (parsed : parseEntries lines headers = .ok result) :
    ∃ entries : List Entry, lines = entries.flatMap Entry.lines ∧
      (∀ entry ∈ entries, entry.WellFormed) ∧ result = assignEntries headers entries := by
  induction lines, headers using parseEntries.induct with
  | case1 headers =>
      simp only [parseEntries, Except.ok.injEq] at parsed
      exact ⟨[], rfl, by simp, by simp [assignEntries, parsed]⟩
  | case2 headers entry rest missing =>
      rw [parseEntries, missing] at parsed
      cases parsed
  | case3 headers entry rest split found name insane =>
      rw [parseEntries, found] at parsed
      simp only [name] at insane
      simp [insane] at parsed
  | case4 headers entry rest split found name sane ends continued empty =>
      rw [parseEntries, found] at parsed
      simp only [name, continued] at sane empty
      simp [sane, ends, empty] at parsed
  | case5 headers entry rest split found name sane ends continued nonempty ih =>
      rw [parseEntries, found] at parsed
      simp only [name, continued] at sane nonempty ih
      simp only [sane, ends, nonempty, Bool.true_eq_false, if_false] at parsed
      obtain ⟨wf_read, hlines_read⟩ := multiline_read noNewline found (by simpa using sane) ends nonempty
      obtain ⟨entries, hlines, wf, hresult⟩ :=
        ih (fun l hl => noNewline l (List.mem_cons_of_mem _ ((List.dropWhile_suffix _).subset hl))) parsed
      refine ⟨_ :: entries, by rw [List.flatMap_cons, ← hlines, hlines_read], ?_, ?_⟩
      · exact List.forall_mem_cons.mpr ⟨wf_read, wf⟩
      · simp [hresult, assignEntries, Entry.name, Entry.value, multilineValue]
  | case6 headers entry rest split found name sane value spaced ih =>
      rw [parseEntries, found] at parsed
      simp only [name] at sane ih
      simp only [sane, spaced, Bool.true_eq_false, if_false] at parsed
      obtain ⟨wf_read, hlines_read⟩ :=
        single_read (noNewline entry (List.mem_cons_self _ _)) found (by simpa using sane) spaced
      obtain ⟨entries, hlines, wf, hresult⟩ :=
        ih (fun l hl => noNewline l (List.mem_cons_of_mem _ hl)) parsed
      refine ⟨_ :: entries, ?_, List.forall_mem_cons.mpr ⟨wf_read, wf⟩, ?_⟩
      · rw [List.flatMap_cons, ← hlines, ← hlines_read, List.singleton_append]
      · simp [hresult, assignEntries, Entry.name, Entry.value]
  | case7 headers entry rest split found name sane c tail other spaced =>
      rw [parseEntries, found] at parsed
      simp only [name] at sane
      simp only [sane, spaced, if_false] at parsed
      split at parsed <;> simp_all

/-- One single-line entry with a valid name: its value is assigned. -/
theorem parseEntries_single {entry value : Bytes} {rest : List Bytes} {headers : Headers} {split : Nat}
    (found : index entry (ascii ":") = some split) (sane : headerNameSanity (entry.take split) = true)
    (spaced : entry.drop (split + 1) = 32 :: value) :
    parseEntries (entry :: rest) headers = parseEntries rest (headers.insert (entry.take split) value) := by
  rw [parseEntries, found]
  simp only [sane, Bool.true_eq_false, if_false, spaced]

/-- An entry whose name is not valid stops the loop. -/
theorem parseEntries_invalidName {entry : Bytes} {rest : List Bytes} {headers : Headers} {split : Nat}
    (found : index entry (ascii ":") = some split) (insane : headerNameSanity (entry.take split) = false) :
    parseEntries (entry :: rest) headers = .error (.invalidName (entry.take split)) := by
  rw [parseEntries, found]
  simp only [insane, if_true]

/-! ## The shape of a block -/

/-- A block of non-empty lines joined by single newlines: it holds no `"\n\n"`
and has no newline at either end. -/
structure LineBlock (block : Bytes) : Prop where
  no_nlnl : ¬nlnl <:+: block
  head_ne : block.head? ≠ some 10
  last_ne : block.getLast? ≠ some 10

theorem lineBlock_of_splitOn {block : Bytes} {entries : List Entry}
    (lines : block.splitOn 10 = entries.flatMap Entry.lines) (wf : ∀ entry ∈ entries, entry.WellFormed) :
    LineBlock block := by
  have nonempty : [] ∉ block.splitOn 10 := by
    rw [lines, List.mem_flatMap]
    rintro ⟨entry, hentry, hempty⟩
    exact Entry.lines_nonempty entry (wf entry hentry) [] hempty rfl
  exact ⟨fun h => nonempty (nil_mem_splitOn_of_separator (.inl h)),
    fun h => nonempty (nil_mem_splitOn_of_separator (.inr (.inl h))),
    fun h => nonempty (nil_mem_splitOn_of_separator (.inr (.inr h)))⟩

/-- A block `parseHeaders` accepts is a block of non-empty lines. -/
theorem lineBlock_of_parseHeaders {head : Bytes} {headers : Headers}
    (parsed : parseHeaders head = .ok headers) : LineBlock head := by
  unfold parseHeaders at parsed
  split at parsed
  · obtain ⟨entries, hlines, wf, -⟩ :=
      parseEntries_eq_ok (fun _ hl => not_mem_of_mem_splitOn hl) parsed
    exact lineBlock_of_splitOn hlines wf
  · cases parsed

/-- `parseHeaders` accepts exactly the header grammar: a valid UTF-8 block that
renders a non-empty list of well-formed entries, and it returns the entries'
assignment, in which each name has the value of its last entry
(`lookup_assignEntries`). -/
theorem parseHeaders_eq_ok_iff {head : Bytes} {headers : Headers} :
    parseHeaders head = .ok headers ↔
      utf8Valid head = true ∧ ∃ entries : List Entry, entries ≠ [] ∧
        (∀ entry ∈ entries, entry.WellFormed) ∧ head = renderEntries entries ∧
        headers = assignEntries ∅ entries := by
  constructor
  · intro parsed
    unfold parseHeaders at parsed
    split at parsed
    · rename_i valid
      obtain ⟨entries, hlines, wf, rfl⟩ :=
        parseEntries_eq_ok (fun _ hl => not_mem_of_mem_splitOn hl) parsed
      refine ⟨valid, entries, ?_, wf, ?_, rfl⟩
      · rintro rfl
        exact List.splitOnP_ne_nil _ head hlines
      · rw [renderEntries_eq_intercalate_lines, ← hlines, List.intercalate_splitOn]
    · cases parsed
  · rintro ⟨valid, entries, nonempty, wf, rfl, rfl⟩
    rw [parseHeaders, if_pos valid, splitOn_renderEntries nonempty wf,
      parseEntries_flatMap_lines wf]

end SnapdAsserts
