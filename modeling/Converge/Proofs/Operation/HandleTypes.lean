import Converge.Handle.Kinds
import Converge.Proofs.Operation.FailFast
import Converge.Proofs.Operation.Preparation
import Converge.Proofs.Operation.Validation
import Converge.Proofs.Operation.Waiting
import Converge.Store.Scripted

/-!
# Where types are checked

A handle with a shape is asked whether it accepts a document at two places: before the writes, for the documents
of a template, and after them, for the documents that are delivered. It is not asked at two others. A call
without a template writes the states of its handles, whatever these are. And what a wait reads replaces the
states of the handles, whatever that is.

## Main Definitions

* `Handle.Follows` — a handle holds what was last read for it, or else takes what it accepts.

## Main Statements

* `Orchestrator.typed_but_for_reads` — after every call, every handle that a wait has not refreshed holds what it
  held or a document that it accepts.
* `Orchestrator.wait_refreshes_unchecked` — a wait that leaves a document in a handle that does not accept it.
* `Orchestrator.templates_checked_first` — a template with a document that is not accepted does nothing; without
  a template the first write is made whatever the handles accept.
* `Orchestrator.handle_writes_unchecked` — a handle whose own state it does not accept, and which is written.
-/

namespace Converge

/-- A handle holds the document that was last read for it. If there was none, it stays as it is or takes a
document that it accepts. -/
def Handle.Follows (copier : Copier) (read : Option Document) (before after : Handle) : Prop :=
  match read with
  | some document => after = before.withState document
  | none => before.Takes copier after

/-- What is read for a handle replaces whatever it has taken before. -/
theorem Handle.Takes.follows {copier : Copier} {before after : Handle} (h : before.Takes copier after)
    (read : Option Document) : before.Follows copier read (after.refreshed read) := by
  cases read with
  | none => exact h
  | some document =>
      obtain rfl | ⟨taken, -, rfl⟩ := h <;> rfl

/-- By shape, a handle with a shape holds what it held, a document of this shape, or what was read. -/
theorem Handle.Follows.byShape {read : Option Document} {before after : Handle} {shape : Shape}
    (h : before.Follows .byShape read after) (hshape : before.shape = some shape) :
    after.state = before.state ∨
      ∃ document, after.state = some document ∧ (shape.check document = .ok () ∨ read = some document) := by
  cases read with
  | some document =>
      cases h
      exact .inr ⟨document, rfl, .inr rfl⟩
  | none =>
      obtain rfl | ⟨document, accepted, rfl⟩ := h
      · exact .inl rfl
      · exact .inr ⟨document, rfl, .inl (by simpa [Copier.byShape, hshape] using accepted)⟩

namespace Orchestrator

variable {σ : Type} {o : Orchestrator σ} {context : Context} {operation : Operation}
  {arguments : List Argument}

/-! ### Handles after a call -/

/-- A delivery that is put back leaves in each handle a document that it accepts, or none. -/
theorem exists_taken_of_putBack {options : Options} {plan : Plan} {targets : List Target}
    {documents : List Document} {result : Except Failure Unit} {destinations : Destinations}
    (hresolve : resolve operation arguments o.config = .ok options) (hplan : o.plan options = .ok plan)
    (h : plan.destinations.store o.copier targets documents = (result, destinations)) {index : Nat}
    {before : Handle} (hbefore : (heldBy arguments)[index]? = some before) :
    ∃ after, (heldBy (destinations.putBack arguments))[index]? = some after ∧
      before.Takes o.copier after := by
  have hdestinations : destinations = (plan.destinations.store o.copier targets documents).2 :=
    (congrArg Prod.snd h).symm
  rw [heldBy_of_resolve hresolve] at hbefore
  rw [hdestinations, destinations_of_plan hplan, heldBy_putBack hresolve (Destinations.store_alike ..)]
  exact Destinations.exists_taken_of_store _ _ _ _ hbefore

/-- However a call ends, its handles follow the reads of its rounds. -/
theorem Course.exists_spans {state : σ × List Exchange} {outcome : Outcome (σ × List Exchange) Unit}
    (course : o.transcribed.Course context operation arguments state outcome) :
    ∃ written rounds, o.Spans operation arguments written rounds ∧
      outcome.state.2 = state.2 ++ written ++ rounds.flatMap Round.exchanges ∧
      ∀ (index : Nat) (before : Handle), (heldBy arguments)[index]? = some before →
        ∃ after, (heldBy outcome.arguments)[index]? = some after ∧
          before.Follows o.copier (lastSeen rounds index) after := by
  cases course with
  | refused refuses =>
      refine ⟨[], [], .refused refuses, by simp, ?_⟩
      exact fun index before hbefore => ⟨before, hbefore, .inl rfl⟩
  | stopped prepared fails =>
      obtain ⟨written, hlog, hwritten⟩ := exists_written_of_writeAll fails
      refine ⟨written, [], .of_writes prepared hwritten, by simpa using hlog, ?_⟩
      exact fun index before hbefore => ⟨before, hbefore, .inl rfl⟩
  | undelivered prepared written kept | delivered prepared written kept =>
      obtain ⟨written, hlog, hwritten⟩ := exists_written_of_writeAll written
      refine ⟨written, [], .of_writes prepared hwritten, by simpa using hlog, ?_⟩
      intro index before hbefore
      rw [heldBy_putBack_of_ready prepared (keep_alike kept)]
      exact exists_taken_of_keep prepared kept hbefore
  | @waited ready applied reached destinations spec run prepared written kept waits confirmed =>
      obtain ⟨answered, htargets, rfl, hlog⟩ := exists_answered_of_writeAll written
      subst confirmed
      refine ⟨answered.exchanges, (o.transcribed.confirm context spec answered.applied reached).rounds,
        .ready prepared ?_ ?_ ?_, ?_, ?_⟩
      · have hcalls := answered.map_call_exchanges
        rw [htargets] at hcalls
        exact ⟨[], (List.append_nil _).trans hcalls⟩
      · exact fun round hround => map_key_of_checks htargets (checks_of_confirm hround)
      · intro hwaits
        cases waits.symm.trans (spec_of_not_waits prepared hwaits)
      · rw [← hlog]
        exact confirm_transcript ..
      · intro index before hbefore
        obtain ⟨after, hafter, htaken⟩ := exists_taken_of_keep prepared kept hbefore
        refine ⟨_, ?_, htaken.follows _⟩
        rw [heldBy_of_waited prepared kept, List.getElem?_mapIdx, hafter, Option.map_some]

theorem GetCourse.exists_taken {state : σ} {outcome : Outcome σ Unit}
    (course : o.GetCourse context arguments state outcome) {index : Nat} {before : Handle}
    (hbefore : (heldBy arguments)[index]? = some before) :
    ∃ after, (heldBy outcome.arguments)[index]? = some after ∧ before.Takes o.copier after := by
  cases course with
  | refused refuses => exact ⟨before, hbefore, .inl rfl⟩
  | stopped prepared fails => exact ⟨before, hbefore, .inl rfl⟩
  | delivered prepared read stored =>
      obtain ⟨options, hresolve, hplan⟩ := planned_eq_ok_iff.1 prepared
      exact exists_taken_of_putBack hresolve hplan stored hbefore

theorem exists_taken_of_render (state : σ) {index : Nat} {before : Handle}
    (hbefore : (heldBy arguments)[index]? = some before) :
    ∃ after, (heldBy (o.render arguments state).arguments)[index]? = some after ∧
      before.Takes o.copier after := by
  unfold render
  split
  · exact ⟨before, hbefore, .inl rfl⟩
  · rename_i plan hplan
    obtain ⟨options, hresolve, hplan⟩ := planned_eq_ok_iff.1 hplan
    exact exists_taken_of_putBack hresolve hplan rfl hbefore

/-- **A handle takes what it accepts, or what a wait has read.** Whatever the store answers, a call that writes
is followed by rounds of reads only if it waits. After it, a handle whose target was read in one of them holds
the document of the last such read, and any other holds what it held before or a document that it accepts. So
does every handle after a call that only reads or renders. -/
theorem typed_but_for_reads (o : Orchestrator σ) (context : Context) (arguments : List Argument)
    (state : σ × List Exchange) :
    (∀ operation,
      let outcome := o.transcribed.mutate operation context arguments state
      ∃ written rounds, o.Spans operation arguments written rounds ∧
        outcome.state.2 = state.2 ++ written ++ rounds.flatMap Round.exchanges ∧
        ∀ (index : Nat) (before : Handle), (heldBy arguments)[index]? = some before →
          ∃ after, (heldBy outcome.arguments)[index]? = some after ∧
            before.Follows o.copier (lastSeen rounds index) after) ∧
      ∀ (index : Nat) (before : Handle), (heldBy arguments)[index]? = some before →
        (∃ after, (heldBy (o.transcribed.get context arguments state).arguments)[index]? = some after ∧
          before.Takes o.copier after) ∧
        ∃ after, (heldBy (o.transcribed.render arguments state).arguments)[index]? = some after ∧
          before.Takes o.copier after := by
  refine ⟨?_, ?_⟩
  · intro operation outcome
    exact (mutate_course o.transcribed context operation arguments state).exists_spans
  · intro index before hbefore
    exact ⟨(get_course o.transcribed context arguments state).exists_taken hbefore,
      exists_taken_of_render state hbefore⟩

section RefreshedUnchecked

open MemoryStore

/-- A config map with a mode. -/
def modal (name : String) (mode : Document) : Document :=
  .ofEntries [("apiVersion", .string "v1"), ("kind", .string "ConfigMap"),
    ("metadata", .ofEntries [("name", .string name)]), ("data", .ofEntries [("mode", mode)])]

/-- A config map is deleted, and the store goes on showing it once, by then with a number for its mode. The typed handle
holds this document, which it does not accept, and it is what was last read for it. If the same handle is read, it takes
what is stored, which it accepts. -/
theorem typed_but_for_reads_of_stale_read :
    let o := standard ScriptedStore.objectStore
    let fast := modal "a" (.string "fast")
    let numbered := modal "a" (.number (.integer 5))
    let stored := ScriptedStore.ofWorld ⟨empty.run [atNoon (.create fast)], .none, "2024-05-01T12:00:00Z"⟩
    let stale : ScriptedStore := { stored with reads := [.answer numbered] }
    let handle : Handle := ⟨some fast, some Kinds.configMap⟩
    let deleted := o.transcribed.mutate .deleteAndWait ⟨0, []⟩ [.object handle] (stale, [])
    let read := o.transcribed.get ⟨0, []⟩ [.object handle] (stored, [])
    (∃ written rounds, o.Spans .deleteAndWait [.object handle] written rounds ∧
        deleted.state.2 = written ++ rounds.flatMap Round.exchanges ∧ lastSeen rounds 0 = some numbered) ∧
      (heldBy deleted.arguments).map Handle.state = [some numbered] ∧ Kinds.configMap.check numbered ≠ .ok () ∧
      ∃ after, (heldBy read.arguments)[0]? = some after ∧ after.state ≠ some fast ∧ handle.Takes o.copier after := by
  intro o fast numbered stored stale handle deleted read
  have hstates : (heldBy deleted.arguments).map Handle.state = [some numbered] := by decide +kernel
  have hother : numbered ≠ fast := by decide +kernel
  have hrefused : Kinds.configMap.check numbered ≠ .ok () := by decide +kernel
  have hread : ((heldBy read.arguments).map Handle.state)[0]? ≠ some (some fast) := by decide +kernel
  obtain ⟨hmutate, -⟩ := typed_but_for_reads o ⟨0, []⟩ [.object handle] (stale, [])
  obtain ⟨written, rounds, hspans, hlog, hfollows⟩ := hmutate .deleteAndWait
  obtain ⟨after, hafter, hfollows⟩ := hfollows 0 handle rfl
  have hstate : after.state = some numbered := by
    have hget : ((heldBy deleted.arguments).map Handle.state)[0]? = some (some numbered) := by rw [hstates]; rfl
    rw [List.getElem?_map, show (heldBy deleted.arguments)[0]? = some after from hafter] at hget
    exact Option.some.inj hget
  have hseen : lastSeen rounds 0 = some numbered := by
    obtain hkept | ⟨document, hdocument, haccepted | hseen⟩ := hfollows.byShape rfl
    · exact absurd (Option.some.inj (hstate.symm.trans hkept)) hother
    · rw [Option.some.inj (hdocument.symm.trans hstate)] at haccepted
      exact absurd haccepted hrefused
    · rw [hseen, ← hdocument, hstate]
  obtain ⟨-, hget⟩ := typed_but_for_reads o ⟨0, []⟩ [.object handle] (stored, [])
  obtain ⟨⟨taken, htaken, htakes⟩, -⟩ := hget 0 handle rfl
  have htaken : (heldBy read.arguments)[0]? = some taken := htaken
  have hlog : deleted.state.2 = written ++ rounds.flatMap Round.exchanges := hlog
  have hnew : taken.state ≠ some fast := by
    intro hold
    have hget : ((heldBy read.arguments).map Handle.state)[0]? = some (some fast) := by
      rw [List.getElem?_map, htaken, Option.map_some, hold]
    exact absurd hget hread
  exact ⟨⟨written, rounds, hspans, hlog, hseen⟩, hstates, hrefused, taken, htaken, hnew, htakes⟩

/-- A config map is deleted, and the store goes on showing it once. By then its mode is a number, where the type
has texts. The deletion ends well, and the typed handle holds a document that its type refuses. -/
theorem wait_refreshes_unchecked :
    let o := standard ScriptedStore.objectStore
    let fast := modal "a" (.string "fast")
    let numbered := modal "a" (.number (.integer 5))
    let store : ScriptedStore :=
      { ScriptedStore.ofWorld ⟨empty.run [atNoon (.create fast)], .none, "2024-05-01T12:00:00Z"⟩ with
        reads := [.answer numbered] }
    let arguments := [Argument.object ⟨some fast, some Kinds.configMap⟩, .timeout .tenSeconds]
    let outcome := o.mutate .deleteAndWait ⟨0, []⟩ arguments store
    outcome.result = .ok () ∧ (heldBy outcome.arguments).map Handle.state = [some numbered] ∧
      numbered ≠ fast ∧ Kinds.configMap.check numbered = .error
        (.conversion "ConfigMap" "invalid type: number, expected a string") := by
  decide +kernel

end RefreshedUnchecked

/-! ### Handles before a call -/

/-- The first call that a store receives is the write of the first target. -/
theorem exists_first_call {ready : Ready} (hready : o.ready operation arguments = .ok ready) (state : σ) :
    ∃ target later, ready.plan.targets.head? = some target ∧
      (o.recorded.mutate operation context arguments (state, [])).state.2 = ready.kind.call target :: later := by
  obtain ⟨options, -, -, hplan, -⟩ := ready_eq_ok_iff.1 hready
  have hwrites : (∃ reached, o.store.Completes context _ state reached) ∨ _ :=
    ObjectStore.completes_or_stops ready.kind.call ready.plan.targets state
  obtain ⟨reached, hcompletes⟩ | ⟨done, failed, cause, left, hstops⟩ := hwrites
  · obtain ⟨reads, hcalls, -⟩ := mutate_of_completes hready hcompletes
    obtain ⟨target, others, htargets⟩ := List.exists_cons_of_ne_nil (targets_ne_nil_of_plan hplan)
    rw [htargets] at hcalls ⊢
    exact ⟨target, _, rfl, hcalls⟩
  · have hcalls := congrArg (fun outcome => outcome.state.2) (mutate_of_stops hready hstops)
    obtain ⟨rest, hsplit⟩ := hstops.split
    cases done with
    | nil => exact ⟨failed, [], by rw [hsplit]; rfl, hcalls⟩
    | cons first done => exact ⟨first, _, by rw [hsplit]; rfl, hcalls⟩

/-- A call whose template gives a document that is not accepted is refused. -/
theorem exists_error_of_rejected {options : Options} {source : TemplateSource} {text : String}
    {documents : List Document} {index : Nat} {document : Document} {handle : Handle} {cause : CopyError}
    (hresolve : resolve operation arguments o.config = .ok options)
    (htemplate : options.template = some source) (hload : Plan.load o.files source = .ok text)
    (hrender : o.renderer.render text (Bindings.merge options.bindings) = .ok documents)
    (hdocument : documents[index]? = some document) (hhandle : (heldBy arguments)[index]? = some handle)
    (rejected : o.copier.check document handle = .error cause) :
    ∃ failure, o.ready operation arguments = .error failure := by
  cases hready : o.ready operation arguments with
  | error failure => exact ⟨failure, rfl⟩
  | ok ready =>
      obtain ⟨options', hresolve', -, hplan, -⟩ := ready_eq_ok_iff.1 hready
      cases hresolve.symm.trans hresolve'
      obtain ⟨text', hload', hrender', -, -, haccepted⟩ := of_plan_template htemplate hplan
      cases hload.symm.trans hload'
      cases hrender.symm.trans hrender'
      rw [heldBy_of_ready hready] at hhandle
      rw [List.getElem?_map] at hdocument
      obtain ⟨target, htarget, rfl⟩ := Option.map_eq_some_iff.1 hdocument
      cases rejected.symm.trans (haccepted index target handle htarget hhandle)

/-- **The documents of a template are tested before the first write, the states of handles are not.** If the
template of a call gives a document that the handle at its position does not accept, the call fails and has done
nothing. What a call without a template is made ready for does not depend on what handles accept. And once a call
is ready, the write of its first target reaches the store. -/
theorem templates_checked_first (o : Orchestrator σ) (context : Context) (operation : Operation)
    (arguments : List Argument) (state : σ) :
    (∀ options source text documents, resolve operation arguments o.config = .ok options →
      options.template = some source → Plan.load o.files source = .ok text →
      o.renderer.render text (Bindings.merge options.bindings) = .ok documents →
      (∃ (index : Nat) (document : Document) (handle : Handle) (cause : CopyError),
        documents[index]? = some document ∧ (heldBy arguments)[index]? = some handle ∧
          o.copier.check document handle = .error cause) →
      ∃ failure, (o.recorded.mutate operation context arguments (state, [])).Untouched failure arguments state) ∧
      (∀ options, resolve operation arguments o.config = .ok options → options.template = none →
        ∀ copier, { o with copier := copier }.ready operation arguments = o.ready operation arguments) ∧
      ∀ ready, o.ready operation arguments = .ok ready →
        ∃ target later, ready.plan.targets.head? = some target ∧
          (o.recorded.mutate operation context arguments (state, [])).state.2 =
            ready.kind.call target :: later := by
  refine ⟨?_, ?_, fun ready hready => exists_first_call hready state⟩
  · rintro options source text documents hresolve htemplate hload hrender
      ⟨index, document, handle, cause, hdocument, hhandle, rejected⟩
    obtain ⟨failure, hready⟩ :=
      exists_error_of_rejected hresolve htemplate hload hrender hdocument hhandle rejected
    have hready' : o.recorded.ready operation arguments = .error failure := hready
    exact ⟨failure, by simp only [Outcome.Untouched, mutate, hready']⟩
  · intro options hresolve htemplate copier
    have hplan : { o with copier := copier }.plan options = o.plan options := by
      rw [plan_of_no_template htemplate, plan_of_no_template htemplate]
    simp only [Orchestrator.ready, hresolve, hplan, mapError_ok, bind, Except.bind]

section WrittenUnchecked

open MemoryStore

/-- A secret. -/
def secret (name : String) : Document :=
  .ofEntries [("apiVersion", .string "v1"), ("kind", .string "Secret"),
    ("metadata", .ofEntries [("name", .string name)])]

/-- A template gives a secret, which a handle for config maps does not accept: the call fails and has done nothing. The
same handle with the secret for its state is written, since without a template nothing is tested. -/
theorem templates_checked_first_for_secret :
    let o := { standard MemoryStore.objectStore with renderer := ⟨fun _ _ => .ok [secret "a"]⟩ }
    let world : World := ⟨empty, .none, "2024-05-01T12:00:00Z"⟩
    let handle : Handle := ⟨some (secret "a"), some Kinds.configMap⟩
    let byTemplate := [Argument.template (.inline "secret"), .object handle]
    let byHandle := [Argument.object handle]
    (∃ cause, o.copier.check (secret "a") handle = .error cause) ∧
      (∃ failure, (o.recorded.mutate .create ⟨0, []⟩ byTemplate (world, [])).Untouched failure byTemplate world) ∧
      (∀ copier, ∃ ready, { o with copier := copier }.ready .create byHandle = .ok ready) ∧
      ∃ target later, target.document = secret "a" ∧
        (o.recorded.mutate .create ⟨0, []⟩ byHandle (world, [])).state.2 = Mutation.create.call target :: later := by
  intro o world handle byTemplate byHandle
  obtain ⟨cause, rejected⟩ : ∃ cause, o.copier.check (secret "a") handle = .error cause := ⟨_, rfl⟩
  obtain ⟨ready, hready, hkind, hdocument⟩ : ∃ ready, o.ready .create byHandle = .ok ready ∧
      ready.kind = .create ∧ ready.plan.targets.head?.map Target.document = some (secret "a") := ⟨_, rfl, rfl, rfl⟩
  obtain ⟨htemplates, -, -⟩ := templates_checked_first o ⟨0, []⟩ .create byTemplate world
  obtain ⟨-, hcopiers, hwrites⟩ := templates_checked_first o ⟨0, []⟩ .create byHandle world
  refine ⟨⟨cause, rejected⟩, ?_, ?_, ?_⟩
  · obtain ⟨options, hresolve, htemplate⟩ : ∃ options, resolve .create byTemplate o.config = .ok options ∧
        options.template = some (.inline "secret") := ⟨_, rfl, rfl⟩
    exact htemplates options (.inline "secret") "secret" [secret "a"] hresolve htemplate rfl rfl
      ⟨0, secret "a", handle, cause, rfl, rfl, rejected⟩
  · obtain ⟨options, hresolve, htemplate⟩ : ∃ options, resolve .create byHandle o.config = .ok options ∧
        options.template = none := ⟨_, rfl, rfl⟩
    exact fun copier => ⟨ready, (hcopiers options hresolve htemplate copier).trans hready⟩
  · obtain ⟨target, later, hfirst, hlog⟩ := hwrites ready hready
    rw [hfirst] at hdocument
    rw [hkind] at hlog
    exact ⟨target, later, Option.some.inj hdocument, hlog⟩

/-- A handle for config maps has been given a secret for its state. A template that gives the same secret is
refused for it before any call. Without the template the secret is created, and only then refused. -/
theorem handle_writes_unchecked :
    let o := { standard MemoryStore.objectStore with renderer := ⟨fun _ _ => .ok [secret "a"]⟩ }
    let world : World := ⟨empty, .none, "2024-05-01T12:00:00Z"⟩
    let handle : Handle := ⟨some (secret "a"), some Kinds.configMap⟩
    let mismatch := CopyError.typeMismatch "v1, Kind=ConfigMap" "v1, Kind=Secret"
    let refused := Failure.copy "v1, Kind=Secret a" mismatch
    let byTemplate := o.recorded.mutate .create ⟨0, []⟩ [.template (.inline "secret"), .object handle] (world, [])
    let byHandle := o.recorded.mutate .create ⟨0, []⟩ [.object handle] (world, [])
    o.copier.check (secret "a") handle = .error mismatch ∧
      (byTemplate.result = .error refused ∧ byTemplate.state.2 = []) ∧
      byHandle.result = .error refused ∧ byHandle.state.2 = [.create (secret "a")] := by
  refine ⟨?_, ⟨?_, ?_⟩, ?_, ?_⟩ <;> rfl

end WrittenUnchecked

end Orchestrator

end Converge
