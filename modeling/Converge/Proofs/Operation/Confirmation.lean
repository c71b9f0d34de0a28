import Converge.Proofs.Operation.Preparation
import Converge.Proofs.Operation.Waiting
import Converge.Proofs.Store.Run
import Converge.Store.Scripted

/-!
# What success of a wait means

A wait that ends well ends with a round of reads that shows what was asked for, and nothing is read after it. So
its success speaks of one round: all targets were found in it, or none was. Every round has read the targets in
their order, and there is a handle for each of them, so the handles are left with what this round has read.

## Main Definitions

* `Orchestrator.Concluded` — a waiting call that ends well, with everything that it went through.
* `Orchestrator.Confirmed` — of this, what a client can tell from its exchanges with the store.
* `Orchestrator.Found`, `Orchestrator.Gone` — the last round has found all targets, or none.

## Main Statements

* `Orchestrator.Course.exists_concluded` — a waiting call that ends well has gone through all its phases.
* `Orchestrator.Concluded.exists_answered_of_getElem?` — a read of the last round shows what is asked for after
  the answer to the write of its target. The statements about the last round follow from this one.
* `Orchestrator.success_is_one_round` — the meaning of success.
-/

namespace Converge

/-! ### What a round shows -/

theorem Predicate.Shown.exists_ok {predicate : Predicate} {read : Read} (h : predicate.Shown read)
    (hpredicate : predicate ≠ .absent) : ∃ document, read = .ok document := by
  cases predicate with
  | present => exact h
  | absent => exact (hpredicate rfl).elim
  | atLeast version =>
      obtain ⟨document, -, hread, -⟩ := h
      exact ⟨document, hread⟩

namespace Round

/-- A round in which all is found has read documents. -/
theorem exists_documents {round : Round} (h : ∀ entry ∈ round, ∃ document, entry.2 = .ok document) :
    ∃ documents : List Document, round.map Prod.snd = documents.map .ok := by
  induction round with
  | nil => exact ⟨[], rfl⟩
  | cons entry round ih =>
      obtain ⟨⟨document, hdocument⟩, hround⟩ := List.forall_mem_cons.1 h
      obtain ⟨documents, hdocuments⟩ := ih hround
      exact ⟨document :: documents, by rw [List.map_cons, List.map_cons, hdocument, hdocuments]⟩

variable {round : Round} {documents : List Document} {index : Nat} {document : Document}

theorem exists_check_of_documents (h : round.map Prod.snd = documents.map .ok)
    (hdocument : documents[index]? = some document) : ∃ check, round[index]? = some (check, .ok document) := by
  have hread : (round.map Prod.snd)[index]? = some (.ok document) := by
    rw [h, List.getElem?_map, hdocument, Option.map_some]
  rw [List.getElem?_map] at hread
  obtain ⟨⟨check, read⟩, hentry, rfl⟩ := Option.map_eq_some_iff.1 hread
  exact ⟨check, hentry⟩

/-- A document that the last round has read is the last that was seen. -/
theorem lastSeen_of_documents (earlier : List Round) (h : round.map Prod.snd = documents.map .ok)
    (hdocument : documents[index]? = some document) : lastSeen (earlier ++ [round]) index = some document := by
  obtain ⟨check, hentry⟩ := exists_check_of_documents h hdocument
  rw [lastSeen_concat, hentry]
  rfl

end Round

namespace Mutation

variable {operation : Operation} {driver : Driver} {kind : Mutation}

/-- Of the waiting operations only one deletes. -/
theorem eq_delete_iff_of_waits (h : Mutation.of? operation driver = some kind)
    (hwaits : operation.waits = true) : kind = .delete ↔ operation = .deleteAndWait := by
  cases operation <;> cases driver <;> cases h <;> simp_all [Operation.waits]

/-- An update patches or replaces. -/
theorem eq_patch_or_replace_of_update (h : Mutation.of? .updateAndWait driver = some kind) :
    kind = .patch ∨ kind = .replace := by
  cases driver <;> cases h <;> simp

end Mutation

namespace Orchestrator

variable {σ : Type} {o : Orchestrator σ} {context : Context} {operation : Operation}
  {arguments : List Argument}

theorem predicateAfter_eq_absent_iff {kind : Mutation} {stored : Option Document} :
    predicateAfter kind stored = .absent ↔ kind = .delete := by
  unfold predicateAfter
  cases kind <;> simp
  all_goals split <;> simp

/-- A call that is to wait has time to. -/
theorem exists_spec_of_waits {ready : Ready} (h : o.ready operation arguments = .ok ready)
    (hwaits : operation.waits = true) : ∃ spec, ready.spec = some spec := by
  obtain ⟨options, hresolve, hspec, -, -⟩ := ready_eq_ok_iff.1 h
  obtain ⟨draft, -, -, rfl⟩ := resolve_eq_ok_iff.1 hresolve
  simp only [waitSpec, Draft.options, hwaits, if_true, mapError_eq_ok_iff, map_eq_ok_iff] at hspec
  obtain ⟨spec, -, hspec⟩ := hspec
  exact ⟨spec, hspec.symm⟩

/-- After all writes but deletions there is a handle for each target, if the caller has given any place for
handles. -/
theorem length_handles_of_keep {ready : Ready} {applied : List Applied} {result : Except Failure Unit}
    {destinations : Destinations} (prepared : o.ready operation arguments = .ok ready)
    (kept : o.keep ready applied = (result, destinations)) (hkind : ready.kind ≠ .delete)
    (happlied : applied.length = ready.plan.targets.length) (hgiven : given arguments ≠ []) :
    destinations.handles.length = ready.plan.targets.length := by
  obtain ⟨options, -, -, hplan, -⟩ := ready_eq_ok_iff.1 prepared
  rw [given_of_ready prepared] at hgiven
  rw [keep, if_neg hkind] at kept
  have hdestinations := congrArg (fun kept => kept.2.handles.length) kept
  simp only [Destinations.length_handles_store] at hdestinations
  rw [← hdestinations]
  split
  · simp [documentsOf, happlied]
  · rename_i hempty
    refine (length_targets_of_plan hplan fun hnone => ?_).symm
    cases hplaces : ready.plan.destinations with
    | none => exact hgiven (by rw [hplaces]; rfl)
    | object handle =>
        rw [hplaces] at hnone
        cases hnone
    | objects handles =>
        rw [hplaces] at hnone
        exact hempty (hplaces.trans (congrArg Destinations.objects hnone))

/-- A call that waits and ends well has gone through all its phases. -/
structure Concluded (o : Orchestrator σ) (operation : Operation) (arguments : List Argument)
    (log : List Exchange) (outcome : Outcome (σ × List Exchange) Unit) (ready : Ready)
    (answered : Answered ready.kind) (earlier : List Round) (last : Round) (destinations : Destinations) :
    Prop where
  prepared : o.ready operation arguments = .ok ready
  targets : answered.map Sigma.fst = ready.plan.targets
  kept : o.keep ready answered.applied = (.ok (), destinations)
  exchanges : outcome.state.2 = log ++ answered.exchanges ++ earlier.flatMap Round.exchanges ++ last.exchanges
  checks : ∀ round ∈ earlier ++ [last], round.map Prod.fst = answered.checks
  shows : last.Shows
  handles : heldBy outcome.arguments =
    destinations.handles.mapIdx fun index handle => handle.refreshed (lastSeen (earlier ++ [last]) index)

theorem Course.exists_concluded {state : σ × List Exchange} {outcome : Outcome (σ × List Exchange) Unit}
    (course : o.transcribed.Course context operation arguments state outcome) (hwaits : operation.waits = true)
    (hok : outcome.result = .ok ()) :
    ∃ (ready : Ready) (answered : Answered ready.kind) (earlier : List Round) (last : Round)
      (destinations : Destinations),
      o.Concluded operation arguments state.2 outcome ready answered earlier last destinations := by
  cases course with
  | refused | stopped | undelivered => cases hok
  | delivered prepared written kept noWait =>
      obtain ⟨spec, hspec⟩ := exists_spec_of_waits prepared hwaits
      cases noWait.symm.trans hspec
  | @waited ready applied reached destinations spec run prepared written kept waits confirmed =>
      obtain ⟨answered, htargets, rfl, hlog⟩ := exists_answered_of_writeAll written
      obtain ⟨report, hreport, -⟩ := map_eq_ok_iff.1 hok
      have hchecks : ∀ round ∈ run.rounds, round.map Prod.fst = answered.checks := fun round hround =>
        checks_of_confirm (by rwa [confirmed])
      have htranscript := confirm_transcript o context spec answered.applied reached
      obtain ⟨tick, hends⟩ := confirm_endsAt o.transcribed context spec answered.applied reached
      rw [confirmed] at htranscript hends
      obtain ⟨earlier, hrounds⟩ := hends.exists_last_round
      refine ⟨ready, answered, earlier, _, destinations, prepared, htargets, kept, ?_, ?_,
        hends.shows_of_ok hreport, ?_⟩
      · rw [htranscript, hlog, hrounds, List.flatMap_append, List.flatMap_singleton, List.append_assoc,
          List.append_assoc, List.append_assoc]
      · rwa [← hrounds]
      · rw [heldBy_of_waited prepared kept, hrounds]

/-! ### The last round -/

namespace Concluded

variable {log : List Exchange} {outcome : Outcome (σ × List Exchange) Unit} {ready : Ready}
  {answered : Answered ready.kind} {earlier : List Round} {last : Round} {destinations : Destinations}
  {documents : List Document}

theorem checks_last (h : o.Concluded operation arguments log outcome ready answered earlier last destinations) :
    last.map Prod.fst = answered.checks :=
  h.checks last (List.mem_append_right _ List.mem_cons_self)

/-- The last read of a target is one of the last round. -/
theorem exists_lastRead? (h : o.Concluded operation arguments log outcome ready answered earlier last destinations)
    {target : Target} (htarget : target ∈ ready.plan.targets) :
    ∃ entry ∈ last, entry.1.key = target.key ∧ lastRead? target.key outcome.state.2 = some entry.2 := by
  rw [h.exchanges]
  apply exists_lastRead?_of_round
  rw [map_key_of_checks h.targets h.checks_last]
  exact List.mem_map_of_mem htarget

/-- What is asked for of a target depends on the answer to its write. -/
theorem exists_answered_of_getElem?
    (h : o.Concluded operation arguments log outcome ready answered earlier last destinations)
    {index : Nat} {entry : Check × Read} (hentry : last[index]? = some entry) :
    ∃ a, answered[index]? = some a ∧
      (predicateAfter ready.kind ((ready.kind.call a.1).document? a.2)).Shown entry.2 := by
  have hcheck : answered.checks[index]? = some entry.1 := by
    rw [← h.checks_last, List.getElem?_map, hentry, Option.map_some]
  rw [Answered.getElem?_checks] at hcheck
  obtain ⟨a, ha, hpredicate⟩ := Option.map_eq_some_iff.1 hcheck
  have hshown := h.shows entry (List.mem_of_getElem? hentry)
  rw [← hpredicate] at hshown
  exact ⟨a, ha, hshown⟩

/-- After all writes but deletions, every target was found in the last round. -/
theorem exists_documents (h : o.Concluded operation arguments log outcome ready answered earlier last destinations)
    (hkind : ready.kind ≠ .delete) : ∃ documents : List Document, last.map Prod.snd = documents.map .ok := by
  refine Round.exists_documents fun entry hentry => ?_
  obtain ⟨index, hindex⟩ := List.mem_iff_getElem?.1 hentry
  obtain ⟨a, -, hshown⟩ := h.exists_answered_of_getElem? hindex
  exact hshown.exists_ok fun habsent => hkind (predicateAfter_eq_absent_iff.1 habsent)

/-- After a deletion, no target was. -/
theorem exists_notFound (h : o.Concluded operation arguments log outcome ready answered earlier last destinations)
    (hkind : ready.kind = .delete) {entry : Check × Read} (hentry : entry ∈ last) :
    ∃ key, entry.2 = .error (.notFound key) := by
  obtain ⟨index, hindex⟩ := List.mem_iff_getElem?.1 hentry
  obtain ⟨a, -, hshown⟩ := h.exists_answered_of_getElem? hindex
  rwa [predicateAfter_eq_absent_iff.2 hkind] at hshown

/-- There is a handle for each target, if the caller has given any place for handles. -/
theorem length_handles (h : o.Concluded operation arguments log outcome ready answered earlier last destinations)
    (hkind : ready.kind ≠ .delete) (hgiven : given arguments ≠ []) :
    destinations.handles.length = ready.plan.targets.length := by
  have hcount := congrArg List.length h.targets
  rw [List.length_map] at hcount
  refine length_handles_of_keep h.prepared h.kept hkind ?_ hgiven
  rw [Answered.applied, List.length_map, hcount]

/-- A caller who has given no place for handles finds none. -/
theorem given_ne_nil_of_handle
    (h : o.Concluded operation arguments log outcome ready answered earlier last destinations) {index : Nat}
    {handle : Handle} (hhandle : (heldBy outcome.arguments)[index]? = some handle) : given arguments ≠ [] := by
  have alike := keep_alike h.kept
  rw [h.handles] at hhandle
  rw [given_of_ready h.prepared]
  intro hnone
  cases hplaces : ready.plan.destinations with
  | none =>
      rw [hplaces] at alike
      cases destinations with
      | none => cases hhandle
      | object | objects => cases alike
  | object | objects =>
      rw [hplaces] at hnone
      cases hnone

/-- A deletion leaves the handles to the rounds. -/
theorem heldBy_of_delete (h : o.Concluded operation arguments log outcome ready answered earlier last destinations)
    (hkind : ready.kind = .delete) :
    heldBy outcome.arguments =
      (heldBy arguments).mapIdx fun index handle => handle.refreshed (lastSeen (earlier ++ [last]) index) := by
  have hkept := h.kept
  rw [keep, if_pos hkind] at hkept
  cases hkept
  rw [h.handles, heldBy_of_ready h.prepared]

/-- The caller's handles hold what the last round has read. -/
theorem map_state (h : o.Concluded operation arguments log outcome ready answered earlier last destinations)
    (hread : last.map Prod.snd = documents.map .ok)
    (hlength : destinations.handles.length = ready.plan.targets.length) :
    (heldBy outcome.arguments).map Handle.state = documents.map some := by
  have hcount : documents.length = ready.plan.targets.length := by
    have hreads := congrArg List.length hread
    have hkeys := congrArg List.length (map_key_of_checks h.targets h.checks_last)
    simp only [List.length_map] at hreads hkeys
    omega
  rw [h.handles]
  refine List.ext_getElem (by simp [hlength, hcount]) fun index _ hindex => ?_
  rw [List.length_map] at hindex
  have hseen := Round.lastSeen_of_documents earlier hread (List.getElem?_eq_getElem hindex)
  simp [hseen, Handle.withState]

/-- What the last round has read of an object that was updated has reached the version of the answer. -/
theorem exists_reached (h : o.Concluded operation arguments log outcome ready answered earlier last destinations)
    (hkind : ready.kind = .patch ∨ ready.kind = .replace) (hread : last.map Prod.snd = documents.map .ok)
    {index : Nat} {a : (target : Target) × (ready.kind.call target).Answer} {document stored : Document}
    {version : Version} (ha : answered[index]? = some a) (hdocument : documents[index]? = some document)
    (hstored : (ready.kind.call a.1).document? a.2 = some stored)
    (hversion : Version.ofDocument? stored = some version) :
    ∃ actual, Version.ofDocument? document = some actual ∧ actual.isAtLeast version = true := by
  obtain ⟨check, hentry⟩ := Round.exists_check_of_documents hread hdocument
  obtain ⟨a', ha', hshown⟩ := h.exists_answered_of_getElem? hentry
  cases ha.symm.trans ha'
  have hpredicate : predicateAfter ready.kind (some stored) = .atLeast version := by
    obtain hkind | hkind := hkind <;> simp [hkind, predicateAfter, hversion]
  rw [hstored, hpredicate] at hshown
  obtain ⟨_, actual, ⟨⟩, hactual, hreached⟩ := hshown
  exact ⟨actual, hactual, hreached⟩

end Concluded

/-! ### What success means -/

/-- A waiting call has written all its targets and then read them in rounds. The last read of each target is one
of the last round. -/
structure Confirmed (o : Orchestrator σ) (operation : Operation) (arguments : List Argument)
    (log : List Exchange) (outcome : Outcome (σ × List Exchange) Unit) (ready : Ready)
    (answered : Answered ready.kind) (earlier : List Round) (last : Round) : Prop where
  prepared : o.ready operation arguments = .ok ready
  targets : answered.map Sigma.fst = ready.plan.targets
  exchanges : outcome.state.2 = log ++ answered.exchanges ++ earlier.flatMap Round.exchanges ++ last.exchanges
  keys : ∀ round ∈ earlier ++ [last], round.map (·.1.key) = ready.plan.targets.map Target.key
  latest : ∀ target ∈ ready.plan.targets,
    ∃ entry ∈ last, entry.1.key = target.key ∧ lastRead? target.key outcome.state.2 = some entry.2

/-- The last round has found every target, and the handles hold what it has read. After an update, what it has
read of a target has reached the version that the write of the target was answered with, if there is one. -/
structure Found {kind : Mutation} (operation : Operation) (before after : List Argument) (answered : Answered kind)
    (last : Round) (documents : List Document) : Prop where
  read : last.map Prod.snd = documents.map .ok
  held : given before ≠ [] → (heldBy after).map Handle.state = documents.map some
  reached : operation = .updateAndWait → ∀ (index : Nat) (a : (target : Target) × (kind.call target).Answer)
    (document stored : Document) (version : Version), answered[index]? = some a →
    documents[index]? = some document → (kind.call a.1).document? a.2 = some stored →
    Version.ofDocument? stored = some version →
    ∃ actual, Version.ofDocument? document = some actual ∧ actual.isAtLeast version = true

/-- The last round has found no target, and each handle holds the last that any round has read for it. -/
structure Gone (before after : List Argument) (earlier : List Round) (last : Round) : Prop where
  read : ∀ entry ∈ last, ∃ key, entry.2 = .error (.notFound key)
  held : heldBy after =
    (heldBy before).mapIdx fun index handle => handle.refreshed (lastSeen (earlier ++ [last]) index)

/-- **A wait that ends well is vouched for by one round of reads.** Whatever the store answers, a waiting
operation that ends well has ended with a round in which every target was read for the last time. After a
creation or an update all these reads have found an object, the handles hold these objects, and an update has
been seen at the version that its write was answered with, or past it. After a deletion all of them have found
nothing, and each handle holds what was last read for it, or what it held before if nothing was. -/
theorem success_is_one_round (o : Orchestrator σ) (context : Context) (operation : Operation)
    (arguments : List Argument) (state : σ × List Exchange) (hwaits : operation.waits = true)
    (hok : (o.transcribed.mutate operation context arguments state).result = .ok ()) :
    let outcome := o.transcribed.mutate operation context arguments state
    ∃ (ready : Ready) (answered : Answered ready.kind) (earlier : List Round) (last : Round),
      o.Confirmed operation arguments state.2 outcome ready answered earlier last ∧
        (operation ≠ .deleteAndWait →
          ∃ documents, Found operation arguments outcome.arguments answered last documents) ∧
        (operation = .deleteAndWait → Gone arguments outcome.arguments earlier last) := by
  intro outcome
  obtain ⟨ready, answered, earlier, last, destinations, h⟩ :=
    (mutate_course o.transcribed context operation arguments state).exists_concluded hwaits hok
  obtain ⟨-, -, -, -, hof⟩ := ready_eq_ok_iff.1 h.prepared
  have hkind := Mutation.eq_delete_iff_of_waits hof hwaits
  refine ⟨ready, answered, earlier, last, ?_, ?_, ?_⟩
  · refine ⟨h.prepared, h.targets, h.exchanges, ?_, fun target htarget => h.exists_lastRead? htarget⟩
    exact fun round hround => map_key_of_checks h.targets (h.checks round hround)
  · intro hoperation
    rw [ne_eq, ← hkind] at hoperation
    obtain ⟨documents, hread⟩ := h.exists_documents hoperation
    refine ⟨documents, hread, fun hgiven => h.map_state hread (h.length_handles hoperation hgiven), ?_⟩
    rintro rfl index a document stored version ha hdocument hstored hversion
    have hupdate := Mutation.eq_patch_or_replace_of_update hof
    exact h.exists_reached hupdate hread ha hdocument hstored hversion
  · intro hoperation
    rw [← hkind] at hoperation
    exact ⟨fun entry hentry => h.exists_notFound hoperation hentry, h.heldBy_of_delete hoperation⟩

section BehindLag

open MemoryStore

/-- An update of a config map on a store that goes on showing the object before a write once. The write and two
rounds of one read are three exchanges. -/
theorem success_is_one_round_behind_lag :
    let o := standard ScriptedStore.objectStore
    let store : ScriptedStore :=
      { ScriptedStore.ofWorld
          ⟨empty.run [atNoon (.create (configMap "a" []))], .none, "2024-05-01T12:00:00Z"⟩ with
        lag := 1 }
    let arguments :=
      [Argument.object (.ofDocument (configMap "a" [("note", .string "new")])), .timeout .tenSeconds]
    let outcome := o.transcribed.mutate .updateAndWait ⟨0, []⟩ arguments (store, [])
    outcome.result = .ok () ∧ outcome.state.2.length = 3 ∧
      ∃ (ready : Ready) (answered : Answered ready.kind) (earlier : List Round) (last : Round)
        (documents : List Document),
        o.Confirmed .updateAndWait arguments [] outcome ready answered earlier last ∧
          Found .updateAndWait arguments outcome.arguments answered last documents := by
  intro o store arguments outcome
  have hok : outcome.result = .ok () := by decide +kernel +revert
  have hlength : outcome.state.2.length = 3 := by decide +kernel +revert
  obtain ⟨ready, answered, earlier, last, hconfirmed, hfound, -⟩ :=
    success_is_one_round o ⟨0, []⟩ .updateAndWait arguments (store, []) rfl hok
  obtain ⟨documents, hdocuments⟩ := hfound (by decide)
  exact ⟨hok, hlength, ready, answered, earlier, last, documents, hconfirmed, hdocuments⟩

end BehindLag

end Orchestrator

end Converge
