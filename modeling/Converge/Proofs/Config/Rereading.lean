import Converge.Config.Source
import Converge.Proofs.Duration.Written
import Converge.Proofs.Yaml.Ordered

/-!
# Configurations that are written and read again

A program's configuration comes from a file and from the environment, and either way its durations are read from
literals or from numbers of seconds. They are written as literals in milliseconds. So whether a configuration survives
being written and read again depends on its durations alone, as far as YAML keeps what was written: on whether their
milliseconds still fit the word that a number is read into.

## Main Definitions

* `Yaml.Step.Ends` — how a reading ends.
* `Config.Seen`, `Config.KeptByYaml` — a reader of YAML sees the fields of a configuration as they were written.
* `Config.Fits` — the milliseconds of both durations fit a word.

## Main Statements

* `Config.readable_of_load` — the durations of a configuration that was loaded are ones that are read.
* `Config.ofNode_ends` — what becomes of a configuration that is seen as it was written.
* `Config.read_write_of_kept` — a configuration that YAML keeps is read again exactly if its durations fit.

## Design Notes

The YAML around the fields is not looked into here. That names, bindings and texts come back from it as they were written
is what `KeptByYaml` says of a configuration.
-/

namespace Converge

open Yaml Yaml.Step

namespace Yaml.Step

variable {α β : Type}

/-- A reading ends in this way, from any count of uses of aliases on, and adds none to them. -/
def Ends (outcome : Except Error α) (step : Step α) : Prop := ∀ uses, step.run uses = outcome.map (·, uses)

theorem Ends.pure (result : α) : Ends (.ok result) (Pure.pure result : Step α) := fun _ => rfl

theorem Ends.throw (error : Error) : Ends (.error error) (throw error : Step α) := fun _ => rfl

/-- One reading after the other ends as the second, or as the first if that fails. -/
theorem Ends.bind {γ : Type} {step : Step α} {next : α → Step β} {outcome : Except Error γ} {make : γ → α}
    {last : γ → Except Error β} (h : Ends (outcome.map make) step)
    (hnext : ∀ value, Ends (last value) (next (make value))) : Ends (outcome.bind last) (step >>= next) := by
  intro uses
  rw [StateT.run_bind, h uses]
  cases outcome with
  | error => rfl
  | ok value => exact hnext value uses

theorem Ends.map {step : Step α} {outcome : Except Error α} (h : Ends outcome step) (make : α → β) :
    Ends (outcome.map make) (step >>= fun value => Pure.pure (make value)) := by
  intro uses
  rw [StateT.run_bind, h uses]
  cases outcome <;> rfl

theorem Ends.bind_ok {step : Step α} {next : α → Step β} {value : α} {outcome : Except Error β}
    (h : Ends (.ok value) step) (hnext : Ends outcome (next value)) : Ends outcome (step >>= next) := by
  intro uses
  rw [StateT.run_bind, h uses]
  exact hnext uses

end Yaml.Step

namespace Config

/-- The durations of a configuration are ones that are read. -/
structure Readable (config : Config) : Prop where
  timeout : config.timeout.Readable
  interval : config.interval.Readable

theorem readable_standard : standard.Readable :=
  ⟨.inr ⟨10, rfl⟩, .inl ⟨"250ms", by decide +kernel⟩⟩

/-- The duration that a value gives: that of a literal, or so many seconds. -/
def durationOf? : Document → Option Duration
  | .string text => Duration.ofLiteral? text
  | document => document.natural?.bind Duration.ofSeconds?

theorem readable_of_durationOf? {document : Document} {d : Duration} (h : durationOf? document = some d) :
    d.Readable := by
  unfold durationOf? at h
  split at h
  · exact .inl ⟨_, h⟩
  · obtain ⟨n, -, hn⟩ := Option.bind_eq_some_iff.1 h
    exact .inr ⟨n, hn⟩

theorem readDuration_eq_bind (stream : Stream) (depth : Nat) (node : Node) :
    readDuration stream depth node = value stream depth node >>= fun given =>
      match durationOf? given with
      | some duration => pure duration
      | none => throw (.invalidValue "invalid duration") := rfl

theorem readDuration_gives (stream : Stream) (depth : Nat) (node : Node) :
    Gives Duration.Readable (readDuration stream depth node) := by
  rw [readDuration_eq_bind]
  refine (Gives.any _).bind fun given _ => ?_
  split
  · next duration hduration => exact Gives.pure (readable_of_durationOf? hduration)
  · exact Gives.throw _

/-- The durations of fields are ones that are read. -/
structure Fields.Readable (fields : Fields) : Prop where
  timeout : ∀ d, fields.timeout = some d → d.Readable
  interval : ∀ d, fields.interval = some d → d.Readable

theorem Fields.readable_none : Fields.none.Readable where
  timeout d hd := by cases hd
  interval d hd := by cases hd

theorem Fields.Readable.config {fields : Fields} (h : fields.Readable) : fields.config.Readable := by
  obtain ⟨bindings, timeout, interval⟩ := fields
  constructor
  · cases timeout with
    | none => exact readable_standard.timeout
    | some d => exact h.timeout d rfl
  · cases interval with
    | none => exact readable_standard.interval
    | some d => exact h.interval d rfl

theorem Fields.add_gives {fields : Fields} (h : fields.Readable) (stream : Stream) (depth : Nat) (entry : Node × Node) :
    Gives Fields.Readable (Fields.add stream depth fields entry) := by
  rw [Fields.add]
  refine (Gives.any _).bind fun name _ => ?_
  split
  · split
    · exact Gives.throw _
    · exact (Gives.any _).bind fun bindings _ => Gives.pure ⟨h.timeout, h.interval⟩
  · split
    · exact Gives.throw _
    · refine (readDuration_gives stream depth entry.2).bind fun d hd => Gives.pure ⟨fun e he => ?_, h.interval⟩
      cases he
      exact hd
  · split
    · exact Gives.throw _
    · refine (readDuration_gives stream depth entry.2).bind fun d hd => Gives.pure ⟨h.timeout, fun e he => ?_⟩
      cases he
      exact hd
  · exact Gives.pure h

theorem ofNode_gives (stream : Stream) (node : Node) : Gives Readable (ofNode stream node) := by
  rw [ofNode]
  refine (Gives.any _).bind fun node _ => ?_
  split
  · exact Gives.pure readable_standard
  · split
    · next entries _ =>
        have hfields : Gives Fields.Readable (entries.foldlM (Fields.add stream (depthLimit - 1)) .none) :=
          Gives.foldlM (fun entry _ fields h => Fields.add_gives h stream (depthLimit - 1) entry) Fields.readable_none
        exact hfields.bind fun fields h => Gives.pure h.config
    · refine Gives.bind (P := Fields.Readable) ?_ fun fields h => Gives.pure h.config
      rw [Fields.ofItems]
      split
      · exact Gives.throw _
      · refine (Gives.any _).bind fun bindings _ => ?_
        refine (Gives.optionMapM (fun item => readDuration_gives stream _ item) _).bind fun timeout htimeout => ?_
        refine (Gives.optionMapM (fun item => readDuration_gives stream _ item) _).bind fun interval hinterval => ?_
        exact Gives.pure ⟨htimeout, hinterval⟩
    · exact Gives.throw _

theorem readable_of_read {text : String} {config : Config} (h : read text = .ok config) : config.Readable := by
  rw [read] at h
  split at h
  · cases h
    exact readable_standard
  · obtain ⟨stream, -, hstream⟩ := bind_eq_ok_iff.1 h
    rw [ofStream] at hstream
    split at hstream
    · cases hstream
      exact readable_standard
    · obtain ⟨⟨result, uses⟩, hrun, rfl⟩ := map_eq_ok_iff.1 hstream
      exact ofNode_gives _ _ 0 uses result hrun

theorem readable_of_override {environment : Environment} {name : String} {current d : Duration}
    (hcurrent : current.Readable) (h : override environment name current = .ok d) : d.Readable := by
  unfold override at h
  split at h
  · cases h
    exact hcurrent
  · next value _ =>
      split at h
      · next duration hduration =>
          cases h
          exact .inl ⟨value, hduration⟩
      · cases h

/-- **The durations of a program's configuration are ones that are read**: from its file or from its environment, or
they are the standard ones. -/
theorem readable_of_load {environment : Environment} {files : Files} {config : Config}
    (h : load environment files = .ok config) : config.Readable := by
  have hoverrides {given : Config} (hgiven : given.Readable) (h : (do
      let timeout ← override environment timeoutVariable given.timeout
      let interval ← override environment intervalVariable given.interval
      return { given with timeout := timeout, interval := interval }) = .ok config) : config.Readable := by
    obtain ⟨timeout, htimeout, hrest⟩ := bind_eq_ok_iff.1 h
    obtain ⟨interval, hinterval, hconfig⟩ := bind_eq_ok_iff.1 hrest
    cases hconfig
    exact ⟨readable_of_override hgiven.timeout htimeout, readable_of_override hgiven.interval hinterval⟩
  simp only [load] at h
  split at h
  · obtain ⟨given, hgiven, hrest⟩ := bind_eq_ok_iff.1 h
    obtain ⟨text, -, hread⟩ := bind_eq_ok_iff.1 hgiven
    exact hoverrides (readable_of_read (mapError_eq_ok_iff.1 hread)) hrest
  · exact hoverrides readable_standard h

/-! ### Reading what was written -/

/-- What becomes of a written duration when it is read. -/
def reread (d : Duration) : Except Yaml.Error Duration :=
  if d.millis < Chars.wordBound then .ok d else .error (.invalidValue "invalid duration")

theorem readDuration_ends {stream : Stream} {depth : Nat} {node : Node} {d : Duration} (readable : d.Readable)
    (written : Ends (.ok (.string d.literal)) (value stream depth node)) :
    Ends (reread d) (readDuration stream depth node) := by
  rw [readDuration_eq_bind]
  refine written.bind_ok ?_
  rw [durationOf?, readable.reread, reread]
  split
  · exact Ends.pure d
  · exact Ends.throw _

/-- What a reader of YAML sees of a configuration that was written: a mapping with an entry for each field, and in them
the bindings and the literals of the durations. -/
inductive Seen (config : Config) (stream : Stream) : Node → Prop
  | entries {properties : Properties} {bindings timeout interval : Node × Node}
      (bindingsName : Ends (.ok "bindings") (keyText stream bindings.1))
      (bindingsRead : Ends (.ok config.bindings) (readBindings stream (depthLimit - 1) bindings.2))
      (timeoutName : Ends (.ok "timeout") (keyText stream timeout.1))
      (timeoutRead : Ends (.ok (.string config.timeout.literal)) (value stream (depthLimit - 1) timeout.2))
      (intervalName : Ends (.ok "interval") (keyText stream interval.1))
      (intervalRead : Ends (.ok (.string config.interval.literal)) (value stream (depthLimit - 1) interval.2)) :
      Seen config stream (.mapping properties [bindings, timeout, interval])

/-- **A configuration that is seen as it was written** is read with its bindings, and with what becomes of its
durations. -/
theorem ofNode_ends {config : Config} {stream : Stream} {node : Node} (readable : config.Readable)
    (seen : config.Seen stream node) :
    Ends ((reread config.timeout).bind fun timeout => (reread config.interval).bind fun interval =>
      .ok ⟨config.bindings, timeout, interval⟩) (ofNode stream node) := by
  obtain ⟨bindingsName, bindingsRead, timeoutName, timeoutRead, intervalName, intervalRead⟩ := seen
  next properties bindings timeout interval =>
    have hbindings : Ends (.ok ⟨some config.bindings, none, none⟩)
        (Fields.add stream (depthLimit - 1) .none bindings) :=
      bindingsName.bind_ok (bindingsRead.bind_ok (Ends.pure _))
    have htimeout : Ends ((reread config.timeout).map fun d => ⟨some config.bindings, some d, none⟩)
        (Fields.add stream (depthLimit - 1) ⟨some config.bindings, none, none⟩ timeout) :=
      timeoutName.bind_ok ((readDuration_ends readable.timeout timeoutRead).map _)
    have hinterval (t : Duration) :
        Ends ((reread config.interval).map fun d => ⟨some config.bindings, some t, some d⟩)
          (Fields.add stream (depthLimit - 1) ⟨some config.bindings, some t, none⟩ interval) :=
      intervalName.bind_ok ((readDuration_ends readable.interval intervalRead).map _)
    rw [ofNode]
    refine (Ends.pure _).bind_ok ?_
    show Ends _ ([bindings, timeout, interval].foldlM (Fields.add stream (depthLimit - 1)) .none >>= fun fields =>
      pure fields.config)
    simp only [List.foldlM_cons, List.foldlM_nil, bind_pure, bind_assoc]
    exact hbindings.bind_ok (htimeout.bind fun t => (hinterval t).bind fun i => Ends.pure _)

/-- The milliseconds of both durations fit a 64-bit word. -/
def Fits (config : Config) : Prop :=
  config.timeout.millis < Chars.wordBound ∧ config.interval.millis < Chars.wordBound

instance : DecidablePred Fits := fun _ => inferInstanceAs (Decidable (_ ∧ _))

/-- YAML keeps a configuration: in the text that is written for it, its fields are seen as they were written. -/
def KeptByYaml (config : Config) : Prop :=
  ∃ stream node, Stream.ofText config.write = .ok stream ∧ stream.root = some node ∧ config.Seen stream node

/-- The text of a configuration is not blank, since it begins with a name and a colon. -/
theorem blank_write (config : Config) : Chars.blank config.write = false := by
  have hcolon : ':' ∈ Writer.nameText 0 "bindings" := by
    rw [Writer.nameText]
    split <;> simp
  have hwrite : config.write = String.ofList (Writer.blanks 0 ++ (Writer.nameText 0 "bindings" ++
      Writer.value (Writer.placeOf 0 "bindings") (.object config.bindings.entries)) ++
      Writer.mapping 0 [("timeout", .string config.timeout.literal), ("interval", .string config.interval.literal)]) :=
    rfl
  rw [Chars.blank, Chars.allBlank, List.all_eq_false, hwrite, String.toList_ofList]
  exact ⟨':', by simp [hcolon], by decide⟩

/-- **A configuration that YAML keeps is read again exactly if its durations fit.** -/
theorem read_write_of_kept {config : Config} (readable : config.Readable) (kept : config.KeptByYaml) :
    read config.write = if config.Fits then .ok config else .error (.invalidValue "invalid duration") := by
  obtain ⟨stream, node, hstream, hroot, seen⟩ := kept
  have hread : read config.write = (ofNode stream node).run' 0 := by
    rw [read, blank_write, hstream]
    simp only [Bool.false_eq_true, if_false, Except.bind, ofStream, hroot]
  have hrun : (ofNode stream node).run' 0 = ((ofNode stream node).run 0).map Prod.fst := rfl
  rw [hread, hrun, ofNode_ends readable seen 0, reread, reread]
  by_cases fits : config.Fits
  · rw [if_pos fits, if_pos fits.1, if_pos fits.2]
    rfl
  · rw [if_neg fits]
    by_cases htimeout : config.timeout.millis < Chars.wordBound
    · have hinterval : ¬ config.interval.millis < Chars.wordBound := fun hinterval => fits ⟨htimeout, hinterval⟩
      rw [if_pos htimeout, if_neg hinterval]
      rfl
    · rw [if_neg htimeout]
      rfl

end Config

end Converge
