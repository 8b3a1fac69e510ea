import SnapdAsserts.Header.Grammar

/-!
# Where `parseHeaders` stops

The loop of `parseHeaders` reads a block entry by entry and stops at the
first line that does not start a well-formed entry.  `LineError` says which
rule of the grammar a line breaks and what the error then names: the line
itself, or the text before its first `':'` for an invalid name.

A block that is valid UTF-8 and fails splits into the lines of well-formed
entries, all read, and then the line the error is about, at which no
well-formed entry starts (`parseHeaders_eq_error`).
-/

namespace SnapdAsserts

/-- The rule of the grammar that `line`, followed by `rest`, breaks, with the
error `parseHeaders` returns for it. -/
inductive LineError (line : Bytes) (rest : List Bytes) : HeaderError → Prop where
  /-- No `':'` on the line. -/
  | missingSeparator (missing : index line (ascii ":") = none) : LineError line rest (.missingSeparator line)
  /-- The text before the first `':'` is no header name. -/
  | invalidName {split : Nat} (found : index line (ascii ":") = some split)
      (insane : headerNameSanity (line.take split) = false) : LineError line rest (.invalidName (line.take split))
  /-- A line ending at its `':'` with no continuation line after it. -/
  | emptyMultiline {split : Nat} (found : index line (ascii ":") = some split)
      (sane : headerNameSanity (line.take split) = true) (ends : line.drop (split + 1) = [])
      (empty : rest.takeWhile continuationLine = []) : LineError line rest (.emptyMultiline line)
  /-- Something other than a space after the `':'`. -/
  | missingSpace {split : Nat} {c : UInt8} {tail : Bytes} (found : index line (ascii ":") = some split)
      (sane : headerNameSanity (line.take split) = true) (after : line.drop (split + 1) = c :: tail)
      (other : c ≠ 32) : LineError line rest (.missingSpace line)

namespace Entry

/-- The first line of a well-formed entry has its first `':'` right after a
valid name, and after it a space, or nothing and then a continuation line. -/
theorem lines_starts {entry : Entry} (wf : entry.WellFormed) {line : Bytes} {rest : List Bytes}
    (starts : entry.lines <+: line :: rest) :
    index line (ascii ":") = some entry.name.length ∧ headerNameSanity (line.take entry.name.length) = true ∧
      (line.drop (entry.name.length + 1) = [] ∧ rest.takeWhile continuationLine ≠ [] ∨
        ∃ value, line.drop (entry.name.length + 1) = 32 :: value) := by
  have sane := wellFormed_name wf
  have no_colon : (58 : UInt8) ∉ entry.name :=
    fun h => nameByte_ne_colon (headerNameSanity_nameByte sane 58 h) rfl
  obtain ⟨more, split⟩ := starts
  cases entry with
  | single key value =>
      simp only [lines, name, List.singleton_append, List.cons.injEq] at split no_colon sane
      obtain ⟨rfl, -⟩ := split
      refine ⟨?_, by simpa [name] using sane, .inr ⟨value, by simp [name]⟩⟩
      rw [ascii_colon_space, ascii_colon, List.append_assoc, List.cons_append, name,
        index_append_singleton no_colon]
  | multiline key values =>
      simp only [lines, name, List.cons_append, List.cons.injEq] at split no_colon sane
      obtain ⟨rfl, rfl⟩ := split
      obtain ⟨v, vs, rfl⟩ := List.exists_cons_of_ne_nil wf.2.1
      refine ⟨?_, by simpa [name] using sane, .inl ⟨by simp [name], by simp [continuationLine]⟩⟩
      rw [ascii_colon, name, @index_append_singleton key [] 58 no_colon]

end Entry

/-- No well-formed entry starts at a line that breaks the grammar. -/
theorem LineError.not_starts {line : Bytes} {rest : List Bytes} {err : HeaderError}
    (broken : LineError line rest err) {entry : Entry} (wf : entry.WellFormed) : ¬entry.lines <+: line :: rest := by
  intro starts
  obtain ⟨found, sane, after⟩ := entry.lines_starts wf starts
  cases broken with
  | missingSeparator missing => rw [found] at missing; cases missing
  | invalidName found' insane =>
      rw [found] at found'
      cases found'
      rw [sane] at insane
      cases insane
  | emptyMultiline found' _ ends empty =>
      rw [found] at found'
      cases found'
      rcases after with ⟨-, continued⟩ | ⟨value, spaced⟩
      · exact continued empty
      · rw [ends] at spaced; cases spaced
  | missingSpace found' _ after' other =>
      rw [found] at found'
      cases found'
      rcases after with ⟨ends, -⟩ | ⟨value, spaced⟩
      · rw [ends] at after'; cases after'
      · rw [after'] at spaced
        exact other (List.cons.inj spaced).1

/-- The loop of `parseHeaders` fails only after reading the lines of
well-formed entries, at a line that breaks the grammar. -/
theorem parseEntries_eq_error {lines : List Bytes} {headers : Headers} {err : HeaderError}
    (noNewline : ∀ line ∈ lines, 10 ∉ line) (failed : parseEntries lines headers = .error err) :
    ∃ (entries : List Entry) (line : Bytes) (rest : List Bytes), lines = entries.flatMap Entry.lines ++ line :: rest ∧
      (∀ entry ∈ entries, entry.WellFormed) ∧ LineError line rest err := by
  induction lines, headers using parseEntries.induct with
  | case1 headers => rw [parseEntries] at failed; cases failed
  | case2 headers entry rest missing =>
      rw [parseEntries, missing] at failed
      cases failed
      exact ⟨[], entry, rest, rfl, by simp, .missingSeparator missing⟩
  | case3 headers entry rest split found name insane =>
      rw [parseEntries, found] at failed
      simp only [name] at insane
      simp only [insane, if_true, Except.error.injEq] at failed
      subst failed
      exact ⟨[], entry, rest, rfl, by simp, .invalidName found insane⟩
  | case4 headers entry rest split found name sane ends continued empty =>
      rw [parseEntries, found] at failed
      simp only [name, continued] at sane empty
      simp only [sane, ends, empty, Bool.true_eq_false, if_false, if_true, Except.error.injEq] at failed
      subst failed
      exact ⟨[], entry, rest, rfl, by simp, .emptyMultiline found (by simpa using sane) ends empty⟩
  | case5 headers entry rest split found name sane ends continued nonempty ih =>
      rw [parseEntries, found] at failed
      simp only [name, continued] at sane nonempty ih
      simp only [sane, ends, nonempty, Bool.true_eq_false, if_false] at failed
      obtain ⟨wf_read, hlines_read⟩ := multiline_read noNewline found (by simpa using sane) ends nonempty
      obtain ⟨entries, line, rest', hlines, wf, broken⟩ :=
        ih (fun l hl => noNewline l (List.mem_cons_of_mem _ ((List.dropWhile_suffix _).subset hl))) failed
      refine ⟨_ :: entries, line, rest', ?_, List.forall_mem_cons.mpr ⟨wf_read, wf⟩, broken⟩
      rw [List.flatMap_cons, List.append_assoc, ← hlines, hlines_read]
  | case6 headers entry rest split found name sane value spaced ih =>
      rw [parseEntries, found] at failed
      simp only [name] at sane ih
      simp only [sane, spaced, Bool.true_eq_false, if_false] at failed
      obtain ⟨wf_read, hlines_read⟩ :=
        single_read (noNewline entry (List.mem_cons_self _ _)) found (by simpa using sane) spaced
      obtain ⟨entries, line, rest', hlines, wf, broken⟩ :=
        ih (fun l hl => noNewline l (List.mem_cons_of_mem _ hl)) failed
      refine ⟨_ :: entries, line, rest', ?_, List.forall_mem_cons.mpr ⟨wf_read, wf⟩, broken⟩
      rw [List.flatMap_cons, List.append_assoc, ← hlines, ← hlines_read, List.singleton_append]
  | case7 headers entry rest split found name sane c tail other spaced =>
      rw [parseEntries, found] at failed
      simp only [name] at sane
      simp only [sane, spaced, Bool.true_eq_false, if_false] at failed
      cases failed
      exact ⟨[], entry, rest, rfl, by simp, .missingSpace found (by simpa using sane) spaced other⟩

/-- `parseHeaders` rejects a block that is not UTF-8 with `notUtf8`; any
other error is about the first line at which no well-formed entry starts,
every line before it belonging to well-formed entries, and says which rule
of the grammar that line breaks. -/
theorem parseHeaders_eq_error {head : Bytes} {err : HeaderError} (failed : parseHeaders head = .error err) :
    utf8Valid head = false ∧ err = .notUtf8 ∨
      ∃ (entries : List Entry) (line : Bytes) (rest : List Bytes), head.splitOn 10 = entries.flatMap Entry.lines ++ line :: rest ∧
        (∀ entry ∈ entries, entry.WellFormed) ∧ LineError line rest err ∧
        ∀ entry : Entry, entry.WellFormed → ¬entry.lines <+: line :: rest := by
  unfold parseHeaders at failed
  split at failed
  · obtain ⟨entries, line, rest, hlines, wf, broken⟩ :=
      parseEntries_eq_error (fun _ hl => not_mem_of_mem_splitOn hl) failed
    exact .inr ⟨entries, line, rest, hlines, wf, broken, fun _ => broken.not_starts⟩
  · rename_i invalid
    cases failed
    exact .inl ⟨by simpa using invalid, rfl⟩

/-- A second `type` header with a capital letter is rejected at its line,
after the first entry. -/
theorem parseHeaders_eq_error_capital :
    parseHeaders (ascii "type: account\nType: x") = .error (.invalidName (ascii "Type")) ∧
      (utf8Valid (ascii "type: account\nType: x") = false ∧ HeaderError.invalidName (ascii "Type") = .notUtf8 ∨
        ∃ (entries : List Entry) (line : Bytes) (rest : List Bytes), (ascii "type: account\nType: x").splitOn 10 = entries.flatMap Entry.lines ++ line :: rest ∧
          (∀ entry ∈ entries, entry.WellFormed) ∧ LineError line rest (.invalidName (ascii "Type")) ∧
          ∀ entry : Entry, entry.WellFormed → ¬entry.lines <+: line :: rest) := by
  have failed : parseHeaders (ascii "type: account\nType: x") = .error (.invalidName (ascii "Type")) := by
    rw [parseHeaders, if_pos (by decide),
      show (ascii "type: account\nType: x").splitOn 10 = [ascii "type: account", ascii "Type: x"] by decide,
      @parseEntries_single (ascii "type: account") (ascii "account") _ _ 4 (by decide) (by decide) (by decide),
      @parseEntries_invalidName (ascii "Type: x") _ _ 4 (by decide) (by decide)]
    rfl
  exact ⟨failed, parseHeaders_eq_error failed⟩

end SnapdAsserts
