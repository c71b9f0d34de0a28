import Converge.Proofs.Operation.Alone
import Converge.Proofs.Store.History

/-!
# Reading, editing and writing back

A handle that a call has left with a document carries its version as well. A client that edits the document and
leaves its key and its version alone can write it back: nobody has come in between, so the version is still the
one that is stored.

## Main Definitions

* `MemoryStore.Keeps` — an edit leaves alone what the key and the version of a document are read from.
* `MemoryStore.Mirrors` — a handle holds what is stored under its key.
* `Orchestrator.Obtains` — a call that fills a handle: a creation, an update or a reading.

## Main Statements

* `MemoryStore.Keeps.ofDocument`, `MemoryStore.Keeps.version_eq` — an edited document has the same key and version.
* `Orchestrator.Obtains.exists_mirrors` — after such a call the handle holds what is stored.
* `Orchestrator.update_eq` — an update through a handle stores its state, and the handle holds what is stored.
* `Orchestrator.edits_are_stored` — both together: what was obtained can be edited and written back.
-/

namespace Converge

namespace MemoryStore

/-! ### Edits -/

/-- An edited document is of the same type as the one that it was made of and has the same name, namespace and
version. -/
structure Keeps (document edited : Document) : Prop where
  apiVersion : edited.get? "apiVersion" = document.get? "apiVersion"
  kind : edited.get? "kind" = document.get? "kind"
  name : metadata? edited "name" = metadata? document "name"
  scope : metadata? edited "namespace" = metadata? document "namespace"
  version : metadata? edited "resourceVersion" = metadata? document "resourceVersion"

theorem isObject_of_get? {document : Document} {name : String} {value : Document}
    (h : document.get? name = some value) : document.isObject = true := by
  cases document with
  | object => rfl
  | null | bool | number | string | array => cases h

namespace Keeps

variable {document edited : Document} {key : ObjectKey}

/-- An edited document has the same key. -/
theorem ofDocument (h : Keeps document edited) (named : ObjectKey.ofDocument document = .ok key) :
    ObjectKey.ofDocument edited = .ok key := by
  obtain ⟨fields, hfields⟩ := metadata_of_ofDocument named
  have hname : metadata? document "name" = (Document.object fields).get? "name" := by
    rw [metadata?, hfields, Option.bind_some]
  have hscope : metadata? document "namespace" = (Document.object fields).get? "namespace" := by
    rw [metadata?, hfields, Option.bind_some]
  -- Both documents have a name in their metadata, so the metadata of the edited one are there as well.
  obtain ⟨value, hvalue⟩ : ∃ value, metadata? document "name" = some value := by
    cases hvalue : metadata? document "name" with
    | some value => exact ⟨value, rfl⟩
    | none =>
        rw [hname] at hvalue
        simp only [ObjectKey.ofDocument, hfields, hvalue, Option.bind_none, Option.map_none,
          Option.filter_none] at named
        cases htype : ResourceType.ofDocument document <;> rw [htype] at named <;> cases named
  obtain ⟨metadata, hmetadata, -⟩ := Option.bind_eq_some_iff.1 (h.name.trans hvalue)
  have hname' : metadata.get? "name" = (Document.object fields).get? "name" := by
    rw [← hname, ← h.name, metadata?, hmetadata, Option.bind_some]
  have hscope' : metadata.get? "namespace" = (Document.object fields).get? "namespace" := by
    rw [← hscope, ← h.scope, metadata?, hmetadata, Option.bind_some]
  have htype : ResourceType.ofDocument edited = ResourceType.ofDocument document := by
    have hobject := isObject_of_get? hfields
    have hobject' := isObject_of_get? hmetadata
    unfold ResourceType.ofDocument
    rw [hobject, hobject', h.apiVersion, h.kind]
    rfl
  rw [← named, ObjectKey.ofDocument, ObjectKey.ofDocument, htype, hfields, hmetadata]
  simp only [hname', hscope']

/-- An edited document has the same version. -/
theorem version_eq (h : Keeps document edited) : Version.ofDocument? edited = Version.ofDocument? document := by
  have hversion := h.version
  unfold metadata? at hversion
  unfold Version.ofDocument?
  rw [hversion]

end Keeps

theorem checkVersion_of_eq {key : ObjectKey} {current incoming : Document}
    (h : Version.ofDocument? incoming = Version.ofDocument? current) : checkVersion key current incoming = .ok () := by
  unfold checkVersion
  rw [h]
  cases Version.ofDocument? current <;> simp

/-- A handle of any documents holds what is stored under its key. -/
structure Mirrors (store : MemoryStore) (handle : Handle) (key : ObjectKey) (document : Document) : Prop where
  generic : handle.shape = none
  state : handle.state = some document
  key_eq : handle.key = .ok key
  stored : store.objects.get? key = some document

theorem mirrors_of_stored {store : MemoryStore} {handle : Handle} {key : ObjectKey} {document : Document}
    (generic : handle.shape = none) (named : ObjectKey.ofDocument document = .ok key)
    (stored : store.objects.get? key = some document) : Mirrors store (handle.withState document) key document where
  generic := generic
  state := rfl
  key_eq := by
    rw [Handle.key, Handle.document, Handle.withState, generic]
    exact named
  stored := stored

/-- The document states the key. -/
theorem Mirrors.named {store : MemoryStore} {handle : Handle} {key : ObjectKey} {document : Document}
    (h : Mirrors store handle key document) : ObjectKey.ofDocument document = .ok key := by
  have hkey := h.key_eq
  rwa [Handle.key, Handle.document, h.generic, h.state] at hkey

end MemoryStore

namespace Orchestrator

open MemoryStore

/-! ### Obtaining a document -/

/-- A call that fills a handle, with its outcome. -/
inductive Obtains {σ : Type} (o : Orchestrator σ) (context : Context) (arguments : List Argument) (state : σ) :
    Outcome σ Unit → Prop
  | create : Obtains o context arguments state (o.mutate .create context arguments state)
  | update : Obtains o context arguments state (o.mutate .update context arguments state)
  | get : Obtains o context arguments state (o.get context arguments state)

section Obtaining

variable {o : Orchestrator World} {context : Context} {arguments : List Argument} {handle : Handle} {world : World}

/-- A handle of any documents takes any document. -/
theorem store_object {handle : Handle} (generic : handle.shape = none) (target : Target) (document : Document) :
    (Destinations.object handle).store .byShape [target] [document] =
      (.ok (), .object (handle.withState document)) := by
  have hcheck : Copier.byShape.check document handle = .ok () := by
    simp only [Copier.byShape, generic]
  simp [Destinations.store, Destinations.handles, Destinations.deliver, Copier.copy, hcheck, Except.map,
    Destinations.withHandles]

/-- The plan of a call with one handle has one target. -/
theorem exists_target_of_plan {σ : Type} {o : Orchestrator σ} {options : Options} {plan : Plan}
    (h : o.plan options = .ok plan) (hhandle : plan.destinations = .object handle) :
    ∃ target, plan.targets = [target] := by
  have hlength := length_targets_of_plan h
  rw [hhandle] at hlength
  exact List.length_eq_one_iff.1 (hlength nofun)

theorem destinations_of_toList {destinations : Destinations} (h : [Destinations.object handle] = destinations.toList) :
    destinations = .object handle := by
  cases destinations <;> cases h
  rfl

/-- A handle whose state has a key can be updated. -/
theorem ready_update_object {σ : Type} {o : Orchestrator σ} {key : ObjectKey} {edited : Document}
    (generic : handle.shape = none) (hstate : handle.state = some edited)
    (named : ObjectKey.ofDocument edited = .ok key) :
    o.ready .update [.object handle] =
      .ok ⟨⟨.handles, [⟨key, edited⟩], .object handle⟩, .replace, none⟩ := by
  have htarget : Plan.targetOfHandle 1 handle = .ok ⟨key, edited⟩ := by
    rw [Plan.targetOfHandle, Handle.document, generic, hstate]
    simp only [named]
  have htargets : Plan.targetsOfHandles (.object handle) = .ok [⟨key, edited⟩] := by
    simp [Plan.targetsOfHandles, Destinations.handles, htarget]
  let options := { Draft.empty with object := some handle }.options .update o.config
  have hresolve : resolve .update [.object handle] o.config = .ok options := rfl
  have hplan : o.plan options = .ok ⟨.handles, [⟨key, edited⟩], .object handle⟩ := by
    have hdestinations : Destinations.ofOptions options = .object handle := rfl
    rw [plan_of_no_template rfl, hdestinations, htargets]
    rfl
  exact ready_eq_ok_iff.2 ⟨options, hresolve, rfl, hplan, rfl⟩

/-- A single write that goes through. -/
theorem writeAll_of_commit (memory : o.store = objectStore) (active : world.contexts.isCancelled context = false)
    {kind : Mutation} {target : Target} {left : Option Document}
    (commit : Commit world.memory ⟨false, world.now, kind.call target⟩ target.key left) :
    o.writeAll context kind [target] world =
      (.ok [⟨target.key, left, predicateAfter kind left⟩],
        { world with memory := world.memory.set target.key left }) := by
  obtain ⟨answer, hserve, rfl⟩ := commit.exists_answer
  have hcall : o.store.call context (kind.call target) world =
      (.ok answer, { world with memory := world.memory.set target.key ((kind.call target).document? answer) }) := by
    rw [memory, call_eq active, step, hserve]
  have hnone (state : World) : o.writeAll context kind [] state = (.ok [], state) := rfl
  exact writeAll_cons_eq_ok_iff.2 ⟨answer, _, [], hcall, hnone _, rfl⟩

variable (memory : o.store = objectStore) (copier : o.copier = .byShape)
  (active : world.contexts.isCancelled context = false) (generic : handle.shape = none)
include memory copier active generic

/-- After a creation or an update that ends well the handle holds what is stored. -/
theorem exists_mirrors_of_mutate {operation : Operation} (waits : operation.waits = false)
    (keeps : ∀ driver, Mutation.of? operation driver ≠ some .delete) (hgiven : given arguments = [.object handle])
    (succeeds : (o.mutate operation context arguments world).result = .ok ()) :
    ∃ after document key, heldBy (o.mutate operation context arguments world).arguments = [after] ∧
      Mirrors (o.mutate operation context arguments world).state.memory after key document := by
  have course := mutate_course o context operation arguments world
  generalize o.mutate operation context arguments world = outcome at course succeeds ⊢
  cases course with
  | refused | stopped | undelivered => cases succeeds
  | waited prepared written kept hwaits =>
      rw [spec_of_not_waits prepared waits] at hwaits
      cases hwaits
  | @delivered ready applied reached destinations prepared written kept noWait =>
      have hdestinations := destinations_of_toList (hgiven.symm.trans (given_of_ready prepared))
      obtain ⟨options, -, -, hplan, hkind⟩ := ready_eq_ok_iff.1 prepared
      obtain ⟨target, htargets⟩ := exists_target_of_plan hplan hdestinations
      have hnot : ready.kind ≠ .delete := fun hdelete => keeps ready.plan.driver (hdelete ▸ hkind)
      obtain ⟨hbatch, -⟩ := batch_of_writeAll memory active (keyed_of_ready prepared) written
      have hheld := heldBy_putBack_of_ready prepared (keep_alike kept)
      rw [htargets] at hbatch
      rw [keep, if_neg hnot, hdestinations, copier, htargets] at kept
      generalize reached.memory = final at hbatch ⊢
      obtain _ | ⟨commit, ⟨⟩⟩ := hbatch
      obtain ⟨document, rfl⟩ := Option.ne_none_iff_exists'.1 (mt commit.left_eq_none_iff.1 hnot)
      obtain rfl : destinations = .object (handle.withState document) :=
        congrArg Prod.snd (kept.symm.trans (store_object generic target document))
      exact ⟨_, document, target.key, hheld, mirrors_of_stored generic commit.named (get?_set_self ..)⟩

/-- After a reading that ends well the handle holds what is stored. -/
theorem exists_mirrors_of_get (sound : Sound world.memory) (hgiven : given arguments = [.object handle])
    (succeeds : (o.get context arguments world).result = .ok ()) :
    ∃ after document key, heldBy (o.get context arguments world).arguments = [after] ∧
      Mirrors (o.get context arguments world).state.memory after key document := by
  have course := get_course o context arguments world
  generalize o.get context arguments world = outcome at course succeeds ⊢
  cases course with
  | refused | stopped => cases succeeds
  | @delivered plan documents reached result destinations prepared read stored =>
      obtain ⟨options, hresolve, hplan⟩ := planned_eq_ok_iff.1 prepared
      have hgiven' := hgiven.symm.trans (given_of_resolve hresolve)
      rw [← destinations_of_plan hplan] at hgiven'
      have hdestinations := destinations_of_toList hgiven'
      obtain ⟨target, htargets⟩ := exists_target_of_plan hplan hdestinations
      have hcall : objectStore.call context (.get target.key) world = (world.memory.find target.key, world) :=
        call_eq active _
      rw [htargets, readTargets, memory, hcall] at read
      cases hfind : world.memory.find target.key with
      | error cause =>
          rw [hfind] at read
          cases read
      | ok document =>
          rw [hfind] at read
          cases read
          have hfound := find_eq_ok_iff.1 hfind
          rw [hdestinations, copier, htargets, store_object generic target document] at stored
          cases stored
          have alike : (Destinations.object (handle.withState document)).Alike (Destinations.ofOptions options) := by
            rw [← destinations_of_plan hplan, hdestinations]
            trivial
          have hheld := heldBy_putBack hresolve alike
          exact ⟨_, document, target.key, hheld, mirrors_of_stored generic (sound.named hfound) hfound⟩

/-- After a call that ends well the handle holds what is stored. -/
theorem Obtains.exists_mirrors (sound : Sound world.memory) (hgiven : given arguments = [.object handle])
    {outcome : Outcome World Unit} (obtains : o.Obtains context arguments world outcome)
    (succeeds : outcome.result = .ok ()) :
    ∃ after document key, heldBy outcome.arguments = [after] ∧ Mirrors outcome.state.memory after key document := by
  cases obtains with
  | create =>
      have keeps : ∀ driver, Mutation.of? .create driver ≠ some .delete := by
        intro driver
        cases driver <;> decide
      exact exists_mirrors_of_mutate memory copier active generic rfl keeps hgiven succeeds
  | update =>
      have keeps : ∀ driver, Mutation.of? .update driver ≠ some .delete := by
        intro driver
        cases driver <;> decide
      exact exists_mirrors_of_mutate memory copier active generic rfl keeps hgiven succeeds
  | get => exact exists_mirrors_of_get memory copier active generic sound hgiven succeeds

/-- **An update through a handle stores its state**, if the key is in use and the version, if there is one, is the
stored one. The handle then holds what is stored. -/
theorem update_eq {key : ObjectKey} {current edited : Document} (hstate : handle.state = some edited)
    (named : ObjectKey.ofDocument edited = .ok key)
    (found : world.memory.objects.get? key = some current) (fresh : checkVersion key current edited = .ok ()) :
    let stored := stampNext current (world.memory.revision + 1) edited
    o.mutate .update context [.object handle] world =
      ⟨.ok (), [.object (handle.withState stored)], { world with memory := world.memory.write key stored }⟩ := by
  intro stored
  have hready := ready_update_object generic hstate named (o := o)
  have hwrite : o.writeAll context .replace [⟨key, edited⟩] world =
      (.ok [⟨key, some stored, predicateAfter .replace (some stored)⟩],
        { world with memory := world.memory.write key stored }) :=
    writeAll_of_commit memory active (.update named found fresh)
  have hkeep : o.keep ⟨⟨.handles, [⟨key, edited⟩], .object handle⟩, .replace, none⟩
      [⟨key, some stored, predicateAfter .replace (some stored)⟩] =
        (.ok (), .object (handle.withState stored)) := by
    rw [keep, if_neg Mutation.noConfusion, copier]
    exact store_object generic _ stored
  simp only [mutate, hready, hwrite, hkeep]
  rfl

end Obtaining

/-- **What was obtained can be edited and written back.** After a creation, an update or a reading that ends well the
caller's handle holds the document that is stored under its key. However that is edited, an update through the handle
then ends well. It stores the edited document but for the fields that the store writes itself, and the handle again
holds what is stored. -/
theorem edits_are_stored (o : Orchestrator World) (memory : o.store = objectStore) (copier : o.copier = .byShape)
    (requests : List Request) (contexts : Cancellations) (now : String) (context : Context)
    (active : contexts.isCancelled context = false) (arguments : List Argument) (handle : Handle)
    (hgiven : given arguments = [.object handle]) (generic : handle.shape = none) (outcome : Outcome World Unit)
    (obtains : o.Obtains context arguments ⟨empty.run requests, contexts, now⟩ outcome)
    (succeeds : outcome.result = .ok ()) :
    ∃ after document key, heldBy outcome.arguments = [after] ∧ Mirrors outcome.state.memory after key document ∧
      ∀ (edited : Document), Keeps document edited →
      ∀ (contexts' : Cancellations) (now' : String) (context' : Context), contexts'.isCancelled context' = false →
        let next := o.mutate .update context' [.object (after.withState edited)]
          ⟨outcome.state.memory, contexts', now'⟩
        next.result = .ok () ∧
          ∃ last stored, heldBy next.arguments = [last] ∧
            next.state.memory = outcome.state.memory.write key stored ∧
            Mirrors next.state.memory last key stored ∧ unstamped stored = unstamped edited := by
  obtain ⟨after, document, key, hheld, mirrors⟩ :=
    obtains.exists_mirrors memory copier active generic (sound_run requests) hgiven succeeds
  refine ⟨after, document, key, hheld, mirrors, ?_⟩
  intro edited keeps contexts' now' context' active' next
  have named := keeps.ofDocument mirrors.named
  have fresh : checkVersion key document edited = .ok () := checkVersion_of_eq keeps.version_eq
  let stored := stampNext document (outcome.state.memory.revision + 1) edited
  have generic' : (after.withState edited).shape = none := mirrors.generic
  have hnext : next = ⟨.ok (), [.object (after.withState stored)],
      ⟨outcome.state.memory.write key stored, contexts', now'⟩⟩ :=
    update_eq memory copier active' generic' rfl named mirrors.stored fresh
  have hnamed : ObjectKey.ofDocument stored = .ok key := ofDocument_stampNext _ _ named
  have hstored : (outcome.state.memory.write key stored).objects.get? key = some stored :=
    get?_set_self _ key (some stored)
  rw [hnext]
  exact ⟨rfl, _, stored, rfl, rfl, mirrors_of_stored mirrors.generic hnamed hstored, unstamped_stampNext _ _ named⟩

/-- A config map is read and comes back with a note, at the version that was read. -/
theorem edits_are_stored_of_config_map :
    let o := standard objectStore
    let memory := empty.run [atNoon (.create (configMap "a" []))]
    let arguments := [Argument.object (Handle.ofDocument (configMap "a" []))]
    let outcome := o.get ⟨0, []⟩ arguments ⟨memory, .none, "2024-05-01T12:00:00Z"⟩
    let edited := configMap "a" [("note", .string "new"), ("resourceVersion", .string "1")]
    outcome.result = .ok () ∧ outcome.state.memory.revision = 1 ∧
      ∃ after document key, heldBy outcome.arguments = [after] ∧ Mirrors outcome.state.memory after key document ∧
        Keeps document edited ∧
        let next := o.mutate .update ⟨0, []⟩ [.object (after.withState edited)]
          ⟨outcome.state.memory, .none, "2024-05-01T12:30:00Z"⟩
        next.result = .ok () ∧
          ∃ last stored, heldBy next.arguments = [last] ∧
            next.state.memory = outcome.state.memory.write key stored ∧
            Mirrors next.state.memory last key stored ∧ unstamped stored = unstamped edited := by
  intro o memory arguments outcome edited
  have succeeds : outcome.result = .ok () := by decide +kernel +revert
  have hrevision : outcome.state.memory.revision = 1 := by decide +kernel +revert
  have hheld : (heldBy outcome.arguments).map Handle.state =
      [some (stampNew "2024-05-01T12:00:00Z" 1 (configMap "a" []))] := by decide +kernel +revert
  have keeps : Keeps (stampNew "2024-05-01T12:00:00Z" 1 (configMap "a" [])) edited := by
    constructor <;> decide +kernel +revert
  obtain ⟨after, document, key, hafter, mirrors, hedits⟩ :=
    edits_are_stored o rfl rfl _ .none _ ⟨0, []⟩ rfl arguments _ rfl rfl outcome .get succeeds
  obtain rfl : document = stampNew "2024-05-01T12:00:00Z" 1 (configMap "a" []) := by
    rw [hafter, List.map_singleton, mirrors.state] at hheld
    exact Option.some.inj (List.head_eq_of_cons_eq hheld)
  have hnext := hedits edited keeps .none "2024-05-01T12:30:00Z" ⟨0, []⟩ rfl
  exact ⟨succeeds, hrevision, after, _, key, hafter, mirrors, keeps, hnext⟩

end Orchestrator

end Converge
