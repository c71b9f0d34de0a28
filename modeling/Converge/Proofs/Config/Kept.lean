import Converge.Proofs.Config.Rereading
import Converge.Proofs.Yaml.Entries

/-!
# Configurations without bindings

The text of a configuration without bindings is two lines of a name and a word below one with an empty mapping, since a
duration is written plain. So YAML keeps it, whatever its durations are.

## Main Definitions

* `Config.durationEntries` — the entries of a configuration that are durations.

## Main Statements

* `Duration.scalarLine_literal` — a written duration is written plain in YAML.
* `Config.all_write_of_no_bindings` — the tokens of a configuration without bindings.
* `Config.kept_of_no_bindings` — YAML keeps every configuration without bindings.
* `Config.reread_within_words` — which durations and configurations are read again as they were.
-/

namespace Converge

open Chars Yaml Yaml.Step

namespace Duration

theorem counts_literal (d : Duration) : Counts d.literal.toList := by
  have hdigits : ∀ c ∈ d.millis.repr.toList, isDigit c = true := fun c => isDigit_of_mem_repr
  have hnonempty : d.millis.repr.toList ≠ [] := by simp [Nat.toList_repr]
  have hunit : ['m', 's'].map asciiLower = Scale.milliseconds.name := rfl
  obtain ⟨htake, hdrop⟩ := span_digits_append hdigits hunit []
  rw [List.append_nil, ← toList_literal] at htake hdrop
  exact ⟨by rwa [htake], ['s'], hdrop⟩

theorem isPlainChar_of_mem_literal {d : Duration} : ∀ c ∈ d.literal.toList, isPlainChar c = true := by
  intro c hc
  rw [toList_literal, List.mem_append] at hc
  obtain hdigit | hunit := hc
  · rw [isPlainChar, isDigit_of_mem_repr hdigit, Bool.true_or]
  · have hall : (['m', 's'].all isPlainChar) = true := rfl
    exact List.all_eq_true.1 hall c hunit

theorem literal_ne_nil (d : Duration) : d.literal.toList ≠ [] := by simp [toList_literal]

/-- A written duration is written plain in YAML. -/
theorem scalarLine_literal (d : Duration) (indent : Nat) :
    Writer.scalarLine indent d.literal = d.literal.toList ++ ['\n'] := by
  have hplain := Writer.styleOf_of_isPlainChar d.literal_ne_nil isPlainChar_of_mem_literal
    d.counts_literal.isZeroPadded_eq (ofPlain_of_counts d.counts_literal)
  simp only [Writer.scalarLine, hplain]

end Duration

namespace Config

section Unbound

variable (timeout interval : Duration)

/-- The entries of a configuration that are durations. -/
def durationEntries : List (List Char × List Char) :=
  [("timeout".toList, timeout.literal.toList), ("interval".toList, interval.literal.toList)]

theorem plainEntry_durationEntries : ∀ entry ∈ durationEntries timeout interval, PlainEntry entry := by
  have hentry {name : String} (hname : name.toList ≠ []) (hshort : name.toList.length ≤ Scanner.keyLimit)
      (hchars : name.toList.all isPlainChar = true) (d : Duration) : PlainEntry (name.toList, d.literal.toList) :=
    ⟨hname, hshort, List.all_eq_true.1 hchars, d.literal_ne_nil, Duration.isPlainChar_of_mem_literal⟩
  rw [durationEntries, List.forall_mem_cons, List.forall_mem_singleton]
  exact ⟨hentry (by decide +kernel) (by decide +kernel) (by decide +kernel) timeout,
    hentry (by decide +kernel) (by decide +kernel) (by decide +kernel) interval⟩

/-- The text of a configuration without bindings. -/
theorem toList_write_of_no_bindings : (Config.mk Table.empty timeout interval).write.toList =
    "bindings: \x7b\x7d\n".toList ++ entryLines (durationEntries timeout interval) := by
  have hwrite : (Config.mk Table.empty timeout interval).write =
      String.ofList ("bindings: \x7b\x7d\n".toList ++
        ("timeout:".toList ++ ' ' :: Writer.scalarLine 2 timeout.literal ++
          ("interval:".toList ++ ' ' :: Writer.scalarLine 2 interval.literal ++ []))) := rfl
  rw [hwrite, String.toList_ofList, Duration.scalarLine_literal, Duration.scalarLine_literal]
  simp [durationEntries, entryLines]

/-- Behind the bindings of a configuration that has none. -/
theorem run_no_bindings (lines : List Char) (bound : Nat) :
    (Scanner.start ("bindings: \x7b\x7d\n".toList ++ lines)).run (bound + 4) =
      (Scanner.behindColon 12 0 12 [.flowMappingEnd, .flowMappingStart, .value, .scalar .plain "bindings".toList] 4
        [⟨0, [.blockMappingStart, .key]⟩] ('\n' :: lines)).run bound := rfl

/-- The tokens of a configuration without bindings. -/
theorem all_write_of_no_bindings : Token.all (Config.mk Table.empty timeout interval).write.toList =
    .ok [.blockMappingStart, .key, .scalar .plain "bindings".toList, .value, .flowMappingStart, .flowMappingEnd,
      .key, .scalar .plain "timeout".toList, .value, .scalar .plain timeout.literal.toList,
      .key, .scalar .plain "interval".toList, .value, .scalar .plain interval.literal.toList,
      .blockEnd, .streamEnd] := by
  have hplain := plainEntry_durationEntries timeout interval
  have hlines := atWord_entryLines hplain
  have hchars : ∀ c ∈ "bindings: \x7b\x7d\n".toList ++ entryLines (durationEntries timeout interval),
      isMapChar c = true := by
    rw [List.forall_mem_append]
    exact ⟨List.all_eq_true.1 (by decide +kernel : "bindings: \x7b\x7d\n".toList.all isMapChar = true),
      isMapChar_of_mem_entryLines hplain⟩
  obtain ⟨bound, hbound⟩ : ∃ bound,
      ("bindings: \x7b\x7d\n".toList ++ entryLines (durationEntries timeout interval)).length =
        3 * (durationEntries timeout interval).length + bound + 1 + 4 := by
    have hlength := length_entryLines (durationEntries timeout interval)
    have hfirst : "bindings: \x7b\x7d\n".toList.length = 13 := by decide +kernel
    rw [List.length_append, hfirst]
    exact ⟨(entryLines (durationEntries timeout interval)).length + 8 -
      3 * (durationEntries timeout interval).length, by omega⟩
  rw [toList_write_of_no_bindings, Token.all_of_isMapChar hchars, hbound, run_no_bindings]
  obtain ⟨cursor, hrun⟩ := Scanner.run_entries hplain (Scanner.toNext_behindValue hlines) bound
  rw [hrun]
  rfl

/-- **YAML keeps every configuration without bindings.** -/
theorem kept_of_no_bindings : (Config.mk Table.empty timeout interval).KeptByYaml := by
  have hvalue (d : Duration) (stream : Stream) : Ends (.ok (.string d.literal))
      (value stream (depthLimit - 1) (.scalar .none .plain (String.ofList d.literal.toList))) := by
    have hscalar : Scalar.value .none .plain d.literal = .ok (.string d.literal) := ofPlain_of_counts d.counts_literal
    intro uses
    rw [String.ofList_toList]
    show (Scalar.value .none .plain d.literal >>= fun document => Except.ok (document, uses)) = _
    rw [hscalar]
    rfl
  refine ⟨.ofRoot (some (.mapping .none [(.scalar .none .plain "bindings", .mapping .none []),
    (.scalar .none .plain "timeout", .scalar .none .plain (String.ofList timeout.literal.toList)),
    (.scalar .none .plain "interval", .scalar .none .plain (String.ofList interval.literal.toList))])), _, ?_, rfl, ?_⟩
  · rw [Stream.ofText, all_write_of_no_bindings]
    rfl
  · exact .entries (fun _ => rfl) (fun _ => rfl) (fun _ => rfl) (hvalue timeout _) (fun _ => rfl) (hvalue interval _)

end Unbound

/-- **What is written is read again as long as its milliseconds fit a word.** Take any duration that is read from a
literal or from a number of seconds: it is written as a literal that is read as the same duration if its milliseconds
fit a 64-bit word, and as none if they do not. So a configuration that a program has loaded, from whatever file and
environment, is read again as the same configuration if the milliseconds of both its durations fit a word, and is
refused if they do not, whether it has no bindings or YAML keeps those that it has. -/
theorem reread_within_words (environment : Environment) (files : Files) :
    (∀ d : Duration, d.Readable →
      Duration.ofLiteral? d.literal = if d.millis < Chars.wordBound then some d else none) ∧
      ∀ config, load environment files = .ok config → config.bindings = Table.empty ∨ config.KeptByYaml →
        read config.write = if config.Fits then .ok config else .error (.invalidValue "invalid duration") := by
  refine ⟨fun _ readable => readable.reread, fun config loaded kept => ?_⟩
  have readable := readable_of_load loaded
  obtain unbound | kept := kept
  · obtain ⟨bindings, timeout, interval⟩ := config
    cases unbound
    exact read_write_of_kept readable (kept_of_no_bindings timeout interval)
  · exact read_write_of_kept readable kept

section Milliseconds

/-- The variables of a program with a configuration file. -/
def givenFile : Environment := ⟨fun name => if name = pathVariable then some "c.yaml" else none, "/home/a"⟩

/-- A file with a text in it, and no other. -/
def fileOf (text : String) : Files := .ofPaths [("c.yaml", .ok text)]

/-- An entry whose name and value are written plain. -/
def plainEntry (name value : String) : Node × Node := (.scalar .none .plain name, .scalar .none .plain value)

/-- A timeout of one and a half seconds and a binding. -/
def ofOneBinding : Config :=
  ⟨Table.ofList [("a", .number (.integer 1))], ⟨1500 * nanosPerMilli, by decide⟩, .quarterSecond⟩

theorem kept_ofOneBinding : ofOneBinding.KeptByYaml := by
  have hwrite : ofOneBinding.write = "bindings:\n  a: 1\ntimeout: 1500ms\ninterval: 250ms\n" := by decide +kernel
  have htokens : Token.all "bindings:\n  a: 1\ntimeout: 1500ms\ninterval: 250ms\n".toList = .ok
      [.blockMappingStart, .key, .scalar .plain "bindings".toList, .value, .blockMappingStart, .key,
        .scalar .plain "a".toList, .value, .scalar .plain "1".toList, .blockEnd, .key, .scalar .plain "timeout".toList,
        .value, .scalar .plain "1500ms".toList, .key, .scalar .plain "interval".toList, .value,
        .scalar .plain "250ms".toList, .blockEnd, .streamEnd] := by decide +kernel
  refine ⟨.ofRoot (some (.mapping .none [(.scalar .none .plain "bindings", .mapping .none [plainEntry "a" "1"]),
    plainEntry "timeout" "1500ms", plainEntry "interval" "250ms"])), _, ?_, rfl, ?_⟩
  · rw [hwrite, Stream.ofText, htokens]
    rfl
  · exact .entries (fun _ => rfl) (fun _ => rfl) (fun _ => rfl) (fun _ => rfl) (fun _ => rfl) (fun _ => rfl)

/-- A timeout of one and a half seconds is written and read again, by itself and in a configuration with bindings. -/
theorem reread_within_words_of_one_binding :
    Duration.ofLiteral? ofOneBinding.timeout.literal = some ofOneBinding.timeout ∧
      load givenFile (fileOf "timeout: 1500ms\nbindings: \x7ba: 1\x7d\n") = .ok ofOneBinding ∧
      read ofOneBinding.write = .ok ofOneBinding := by
  have hload : load givenFile (fileOf "timeout: 1500ms\nbindings: \x7ba: 1\x7d\n") = .ok ofOneBinding := by
    decide +kernel
  have hreread := reread_within_words givenFile (fileOf "timeout: 1500ms\nbindings: \x7ba: 1\x7d\n")
  have hliteral := hreread.1 _ (readable_of_load hload).timeout
  have hwritten := hreread.2 _ hload (.inr kept_ofOneBinding)
  rw [if_pos (by decide)] at hliteral hwritten
  exact ⟨hliteral, hload, hwritten⟩

/-- The largest number of seconds is read, and what is written for it is not. -/
theorem largest_seconds_not_reread :
    let d : Duration := ⟨18446744073709551615 * nanosPerSecond, by decide⟩
    let config : Config := ⟨Table.empty, d, .quarterSecond⟩
    Duration.ofSeconds? 18446744073709551615 = some d ∧ Duration.ofLiteral? d.literal = none ∧
      load givenFile (fileOf "timeout: 18446744073709551615\n") = .ok config ∧
      read config.write = .error (.invalidValue "invalid duration") := by
  decide +kernel

end Milliseconds

end Config

end Converge
