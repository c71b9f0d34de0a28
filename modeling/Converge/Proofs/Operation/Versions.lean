import Converge.Proofs.Operation.Confirmation
import Converge.Proofs.Store.Lagging

/-!
# Versions never go back

A write is stamped with a version that is newer than everything the store has answered so far, and a wait for it
ends with a read at this version or past it. So whatever stale documents the handles have taken in between, in the
end they are ahead of all that was there before the write. The store may lag behind as it likes, lose reads and
serve other clients.

## Main Definitions

* `Orchestrator.Acts`, `Orchestrator.History` — what a client does to a store, and what its updates leave.
* `Orchestrator.Advances` — an update leaves its handles past everything before it.
* `Orchestrator.Older` — the versions of some handles are less than those of others.

## Main Statements

* `Orchestrator.Concluded.advances` — an update that ends well does so.
* `Orchestrator.History.ordered` — over all that a client does its exchanges stay in order.
* `Orchestrator.versions_never_go_back` — so from update to update versions increase.

## Design Notes

What is said of an update compares its handles with what was answered before their writes. The rounds of the
update itself are not compared: with several targets, a round that does not show one of them may show another at
a newer version than the round in the end.
-/

namespace Converge.Orchestrator

open MemoryStore

variable {σ : Type} {o : Orchestrator σ}

/-! ### What a client has done -/

/-- One operation of a client takes a store with its exchanges to the next state. Rendering is none of these: it
calls no store. -/
inductive Acts (o : Orchestrator σ) (state : σ × List Exchange) : σ × List Exchange → Prop
  | mutate (operation : Operation) (context : Context) (arguments : List Argument) :
      Acts o state (o.transcribed.mutate operation context arguments state).state
  | get (context : Context) (arguments : List Argument) :
      Acts o state (o.transcribed.get context arguments state).state
  | list (context : Context) (arguments : List Argument) :
      Acts o state (o.transcribed.list context arguments state).state

/-- What a client has done to a store so far, and what its successful updates have left in their handles. -/
inductive History (o : Orchestrator σ) : σ × List Exchange → List (List Handle) → Prop
  | start (state : σ) : History o (state, []) []
  | acted {state next : σ × List Exchange} {updates : List (List Handle)} (before : History o state updates)
      (acts : Acts o state next) : History o next updates
  | updated {state : σ × List Exchange} {updates : List (List Handle)} (before : History o state updates)
      (context : Context) (arguments : List Argument)
      (succeeds : (o.transcribed.mutate .updateAndWait context arguments state).result = .ok ()) :
      History o (o.transcribed.mutate .updateAndWait context arguments state).state
        (updates ++ [heldBy (o.transcribed.mutate .updateAndWait context arguments state).arguments])

variable {past : σ → List Request} {state next : σ × List Exchange} {updates : List (List Handle)}

/-- All that an operation does to the store is to call it. -/
theorem Acts.exists_calls (acts : Acts o state next) :
    ∃ context calls, next = o.store.transcribed.after context calls state := by
  cases acts with
  | mutate operation context arguments =>
      exact ⟨context, (mutate_course o.transcribed context operation arguments state).exists_calls⟩
  | get context arguments => exact ⟨context, (get_course o.transcribed context arguments state).exists_calls⟩
  | list context arguments => exact ⟨context, exists_calls_of_list o.transcribed context arguments state⟩

theorem Acts.prefix_next (acts : Acts o state next) : state.2 <+: next.2 := by
  obtain ⟨context, calls, rfl⟩ := acts.exists_calls
  exact ObjectStore.prefix_after calls state

theorem Acts.ordered (acts : Acts o state next) (lagging : Lagging o.store past)
    (ordered : Ordered (past state.1) state.2) : Ordered (past next.1) next.2 := by
  obtain ⟨context, calls, rfl⟩ := acts.exists_calls
  exact ordered.after lagging context calls

/-- Whatever a client does, its exchanges with a store that lags behind stay in order. -/
theorem History.ordered (history : History o state updates) (lagging : Lagging o.store past) :
    Ordered (past state.1) state.2 := by
  induction history with
  | start state => exact ordered_nil _
  | acted before acts ih => exact acts.ordered lagging ih
  | updated before context arguments succeeds ih =>
      exact (Acts.mutate .updateAndWait context arguments).ordered lagging ih

/-! ### What an update leaves -/

/-- Patches and replacements answer the document as it is stored. -/
theorem exists_stored {kind : Mutation} (hkind : kind = .patch ∨ kind = .replace)
    (a : (target : Target) × (kind.call target).Answer) :
    ∃ stored, (kind.call a.1).document? a.2 = some stored ∧
      stored ∈ (Exchange.mk (kind.call a.1) (.ok a.2)).documents := by
  obtain rfl | rfl := hkind
  · exact ⟨a.2, rfl, List.mem_singleton_self _⟩
  · exact ⟨a.2, rfl, List.mem_singleton_self _⟩

theorem writes_of_kind (kind : Mutation) (target : Target) : (kind.call target).writes = true := by
  cases kind <;> rfl

/-- What an update of several targets leaves, on a store with exchanges so far: the version of each handle is
not less than the one its own write was stamped with, and greater than all versions that were answered before
that write. -/
structure Advances (o : Orchestrator σ) (arguments : List Argument) (log : List Exchange)
    (outcome : Outcome (σ × List Exchange) Unit) (ready : Ready) (answered : Answered ready.kind) : Prop where
  prepared : o.ready .updateAndWait arguments = .ok ready
  targets : answered.map Sigma.fst = ready.plan.targets
  exchanges : log ++ answered.exchanges <+: outcome.state.2
  handles : ∀ (index : Nat) (handle : Handle), (heldBy outcome.arguments)[index]? = some handle →
    ∃ a stored stamped number, answered[index]? = some a ∧
      (ready.kind.call a.1).document? a.2 = some stored ∧ Numbered stored stamped ∧
      handle.version? = some ⟨number.repr⟩ ∧ stamped ≤ number ∧
      ∀ exchange ∈ log ++ answered.exchanges.take index, ∀ document ∈ exchange.documents,
        ∃ older, Numbered document older ∧ older < number

section Update

variable {operation : Operation} {arguments : List Argument} {log : List Exchange}
  {outcome : Outcome (σ × List Exchange) Unit} {ready : Ready} {answered : Answered ready.kind}
  {earlier : List Round} {last : Round} {destinations : Destinations}

/-- The document of a handle is one that the last round has read. -/
theorem Concluded.exists_documents_of_handle
    (h : o.Concluded .updateAndWait arguments log outcome ready answered earlier last destinations)
    {index : Nat} {handle : Handle} (hhandle : (heldBy outcome.arguments)[index]? = some handle) :
    ∃ (documents : List Document) (document : Document), last.map Prod.snd = documents.map .ok ∧
      documents[index]? = some document ∧ handle.state = some document := by
  obtain ⟨-, -, -, -, hof⟩ := ready_eq_ok_iff.1 h.prepared
  have hkind : ready.kind ≠ .delete := fun hdelete => by
    cases (Mutation.eq_delete_iff_of_waits hof rfl).1 hdelete
  obtain ⟨documents, hread⟩ := h.exists_documents hkind
  have hheld := h.map_state hread (h.length_handles hkind (h.given_ne_nil_of_handle hhandle))
  have hstate := congrArg (fun states => states[index]?) hheld
  simp only [List.getElem?_map, hhandle, Option.map_some] at hstate
  obtain ⟨document, hdocument, hsome⟩ := Option.map_eq_some_iff.1 hstate.symm
  exact ⟨documents, document, hread, hdocument, hsome.symm⟩

/-- The write of a target stands behind the writes of those before it. -/
theorem Concluded.exists_split
    (h : o.Concluded operation arguments log outcome ready answered earlier last destinations) {index : Nat}
    {a : (target : Target) × (ready.kind.call target).Answer} (ha : answered[index]? = some a) :
    ∃ after, outcome.state.2 =
      log ++ answered.exchanges.take index ++ ⟨ready.kind.call a.1, .ok a.2⟩ :: after := by
  have hexchange : answered.exchanges[index]? = some ⟨ready.kind.call a.1, .ok a.2⟩ := by
    rw [Answered.exchanges, List.getElem?_map, ha, Option.map_some]
  have hsplit : answered.exchanges = answered.exchanges.take index ++
      ⟨ready.kind.call a.1, .ok a.2⟩ :: answered.exchanges.drop (index + 1) := by
    rw [← List.singleton_append, ← Option.toList_some, ← hexchange, ← List.drop_eq_getElem?_toList_append,
      List.take_append_drop]
  refine ⟨answered.exchanges.drop (index + 1) ++ earlier.flatMap Round.exchanges ++ last.exchanges, ?_⟩
  rw [h.exchanges]
  conv_lhs => rw [hsplit]
  simp only [List.append_assoc, List.cons_append]

/-- What the last round has read is among the exchanges. -/
theorem Concluded.exists_exchange_of_documents
    (h : o.Concluded operation arguments log outcome ready answered earlier last destinations)
    {documents : List Document} {index : Nat} {document : Document}
    (hread : last.map Prod.snd = documents.map .ok) (hdocument : documents[index]? = some document) :
    ∃ exchange ∈ outcome.state.2, document ∈ exchange.documents := by
  obtain ⟨check, hentry⟩ := Round.exists_check_of_documents hread hdocument
  refine ⟨⟨.get check.key, .ok document⟩, ?_, List.mem_singleton_self _⟩
  rw [h.exchanges]
  exact List.mem_append_right _ (List.mem_map_of_mem (List.mem_of_getElem? hentry))

/-- **An update that ends well leaves its handles past everything before it.** -/
theorem Concluded.advances
    (h : o.Concluded .updateAndWait arguments log outcome ready answered earlier last destinations)
    {requests : List Request} (ordered : Ordered requests outcome.state.2) :
    o.Advances arguments log outcome ready answered := by
  obtain ⟨-, -, -, -, hof⟩ := ready_eq_ok_iff.1 h.prepared
  have hkind := Mutation.eq_patch_or_replace_of_update hof
  refine ⟨h.prepared, h.targets, ?_, ?_⟩
  · rw [h.exchanges, List.append_assoc]
    exact List.prefix_append _ _
  intro index handle hhandle
  obtain ⟨documents, document, hread, hdocument, hstate⟩ := h.exists_documents_of_handle hhandle
  obtain ⟨check, hentry⟩ := Round.exists_check_of_documents hread hdocument
  obtain ⟨a, ha, -⟩ := h.exists_answered_of_getElem? hentry
  obtain ⟨stored, hstored, hanswered⟩ := exists_stored hkind a
  obtain ⟨after, hsplit⟩ := h.exists_split ha
  rw [hsplit] at ordered
  obtain ⟨stamped, hstamped, -⟩ :=
    ordered.numbered _ (List.mem_append_right _ List.mem_cons_self) stored hanswered
  obtain ⟨read, hmem, hdocuments⟩ := h.exists_exchange_of_documents hread hdocument
  rw [hsplit] at hmem
  obtain ⟨number, hnumber, -⟩ := ordered.numbered read hmem document hdocuments
  obtain ⟨actual, hactual, hreached⟩ := h.exists_reached hkind hread ha hdocument hstored hstamped
  cases hnumber.symm.trans hactual
  have hle := Version.le_of_isAtLeast hreached
  refine ⟨a, stored, stamped, number, ha, hstored, hstamped, ?_, hle, ?_⟩
  · rw [Handle.version?, hstate]
    exact hnumber
  · intro exchange hexchange answered hanswer
    obtain ⟨older, newer, holder, hnewer, hlt⟩ :=
      ordered.precedes_of_mem hexchange (writes_of_kind _ _) answered hanswer stored hanswered
    cases hnewer.unique hstamped
    exact ⟨older, holder, Nat.lt_of_lt_of_le hlt hle⟩

end Update

/-! ### Update after update -/

/-- The versions of the first handles are less than those of the second. -/
def Older (first second : List Handle) : Prop :=
  ∀ before ∈ first, ∀ after ∈ second, ∃ older newer : Nat,
    before.version? = some ⟨older.repr⟩ ∧ after.version? = some ⟨newer.repr⟩ ∧ older < newer

theorem History.exists_advances (history : History o state updates) (lagging : Lagging o.store past)
    {context : Context} {arguments : List Argument}
    (succeeds : (o.transcribed.mutate .updateAndWait context arguments state).result = .ok ()) :
    let outcome := o.transcribed.mutate .updateAndWait context arguments state
    ∃ (ready : Ready) (answered : Answered ready.kind), o.Advances arguments state.2 outcome ready answered := by
  obtain ⟨ready, answered, earlier, last, destinations, h⟩ :=
    (mutate_course o.transcribed context .updateAndWait arguments state).exists_concluded rfl succeeds
  exact ⟨ready, answered, h.advances ((history.updated context arguments succeeds).ordered lagging)⟩

/-- What updates have left in their handles was answered to some call. -/
theorem History.exists_exchange (history : History o state updates) {handles : List Handle}
    (hhandles : handles ∈ updates) {handle : Handle} (hhandle : handle ∈ handles) :
    ∃ exchange ∈ state.2, ∃ document ∈ exchange.documents, handle.state = some document := by
  induction history with
  | start state => cases hhandles
  | acted before acts ih =>
      obtain ⟨exchange, hexchange, hdocument⟩ := ih hhandles
      exact ⟨exchange, acts.prefix_next.mem hexchange, hdocument⟩
  | @updated state updates before context arguments succeeds ih =>
      rcases List.mem_append.1 hhandles with hbefore | hnew
      · obtain ⟨exchange, hexchange, hdocument⟩ := ih hbefore
        have acts : Acts o state _ := .mutate .updateAndWait context arguments
        exact ⟨exchange, acts.prefix_next.mem hexchange, hdocument⟩
      · cases List.mem_singleton.1 hnew
        obtain ⟨index, hindex⟩ := List.mem_iff_getElem?.1 hhandle
        obtain ⟨ready, answered, earlier, last, destinations, h⟩ :=
          (mutate_course o.transcribed context .updateAndWait arguments state).exists_concluded rfl succeeds
        obtain ⟨documents, document, hread, hdocument, hstate⟩ := h.exists_documents_of_handle hindex
        obtain ⟨exchange, hexchange, hmem⟩ := h.exists_exchange_of_documents hread hdocument
        exact ⟨exchange, hexchange, document, hmem, hstate⟩

theorem History.older (history : History o state updates) (lagging : Lagging o.store past) :
    updates.Pairwise Older := by
  induction history with
  | start state => exact .nil
  | acted before acts ih => exact ih
  | updated before context arguments succeeds ih =>
      refine List.pairwise_append.2 ⟨ih, List.pairwise_singleton _ _, ?_⟩
      intro first hfirst second hsecond before' hbefore after hafter
      cases List.mem_singleton.1 hsecond
      obtain ⟨exchange, hexchange, document, hdocument, hstate⟩ := before.exists_exchange hfirst hbefore
      obtain ⟨ready, answered, advances⟩ := before.exists_advances lagging succeeds
      obtain ⟨index, hindex⟩ := List.mem_iff_getElem?.1 hafter
      obtain ⟨a, stored, stamped, newer, -, -, -, hnewer, -, hprior⟩ := advances.handles index after hindex
      obtain ⟨older, holder, hlt⟩ := hprior exchange (List.mem_append_left _ hexchange) document hdocument
      refine ⟨older, newer, ?_, hnewer, hlt⟩
      rw [Handle.version?, hstate]
      exact holder

/-- **Versions never go back.** A client works on a store whose writes reach the store in memory and whose reads
may show whatever was stored under the key before, or fail, while other clients write to the same memory. Each of
its updates that waits and ends well leaves every handle at a version that is not less than the one the write
of its target was stamped with, and greater than all versions that were answered to any call before that write. So
from one such update to the next the versions of the handles increase. -/
theorem versions_never_go_back (o : Orchestrator σ) (past : σ → List Request) (lagging : Lagging o.store past)
    (state : σ × List Exchange) (updates : List (List Handle)) (history : History o state updates) :
    (∀ context arguments,
      let outcome := o.transcribed.mutate .updateAndWait context arguments state
      outcome.result = .ok () →
        ∃ (ready : Ready) (answered : Answered ready.kind), o.Advances arguments state.2 outcome ready answered) ∧
      updates.Pairwise Older := by
  refine ⟨?_, history.older lagging⟩
  intro context arguments outcome succeeds
  exact history.exists_advances lagging succeeds

section BehindLag

/-- Two updates of an object that another client updates as well. Each of them is shown the object as it was
before its write at first, the second after a read that fails. The first ends at the version of the other client's
write, the second at its own. -/
theorem versions_never_go_back_behind_lag :
    let o := standard LaggingStore.objectStore
    let noted (text : String) := configMap "a" [("note", .string text)]
    let theirs := atNoon (.update (noted "theirs"))
    let store : LaggingStore :=
      ⟨[atNoon (.create (noted "first"))],
        [⟨[], .ok 0⟩, ⟨[], .ok 1⟩, ⟨[theirs], .ok 3⟩,
          ⟨[theirs], .ok 0⟩, ⟨[], .error (.transport "connection refused")⟩, ⟨[], .ok 3⟩, ⟨[], .ok 5⟩]⟩
    let arguments (text : String) := [Argument.object (.ofDocument (noted text)), .timeout .tenSeconds]
    let first := o.transcribed.mutate .updateAndWait ⟨0, []⟩ (arguments "second") (store, [])
    let second := o.transcribed.mutate .updateAndWait ⟨0, []⟩ (arguments "third") first.state
    (first.result = .ok () ∧ (heldBy first.arguments).map Handle.version? = [some ⟨"3"⟩]) ∧
      (second.result = .ok () ∧ (heldBy second.arguments).map Handle.version? = [some ⟨"5"⟩]) ∧
      Lagging o.store LaggingStore.past ∧ History o first.state [heldBy first.arguments] ∧
      (∃ (ready : Ready) (answered : Answered ready.kind),
        o.Advances (arguments "third") first.state.2 second ready answered) ∧
      [heldBy first.arguments, heldBy second.arguments].Pairwise Older := by
  intro o noted theirs store arguments first second
  have hthird : (heldBy first.arguments).map Handle.version? = [some ⟨"3"⟩] := by decide +kernel +revert
  have hfifth : (heldBy second.arguments).map Handle.version? = [some ⟨"5"⟩] := by decide +kernel +revert
  have hfirst : first.result = .ok () := by decide +kernel +revert
  have hsecond : second.result = .ok () := by decide +kernel +revert
  have history : History o first.state [heldBy first.arguments] :=
    (History.start store).updated ⟨0, []⟩ _ hfirst
  refine ⟨⟨hfirst, hthird⟩, ⟨hsecond, hfifth⟩, LaggingStore.lagging, history, ?_, ?_⟩
  · exact (versions_never_go_back o LaggingStore.past LaggingStore.lagging _ _ history).1 ⟨0, []⟩ _ hsecond
  · exact (versions_never_go_back o LaggingStore.past LaggingStore.lagging _ _
      (history.updated ⟨0, []⟩ _ hsecond)).2

end BehindLag

end Converge.Orchestrator
