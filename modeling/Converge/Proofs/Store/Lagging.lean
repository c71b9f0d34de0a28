import Converge.Proofs.Store.Sound
import Converge.Proofs.Store.Transcript
import Converge.Proofs.Version

/-!
# Stores that lag behind

Between a client and the store in memory there may be anything that delays or loses reads, and other clients
write to the same memory. What such a store answers to a write is what the memory answers. What it answers to a
read may be any document that was ever stored under the key, or an error. Nothing is said of when it shows what:
neither that a later read shows a later document nor that a read ever shows the last one.

## Main Definitions

* `Held` — a document was stored under a key at some time.
* `Answers` — what such a store may answer to a call, and which requests have reached the memory by then.
* `Lagging` — every answer of a store is of this kind.
* `LaggingStore` — a store that makes use of all of it.
* `Numbered` — a document has a number as its version.
* `Ordered` — the exchanges with such a store, as far as their versions go.

## Main Statements

* `Answers.exists_numbered` — what is answered has a version that was given by then.
* `Answers.exists_numbered_of_writes` — what a write answers has a version that was not given before.
* `Ordered.after` — so every write answers what is newer than all that any call has answered before.
* `LaggingStore.lagging` — the store that makes use of all of it is of this kind.
-/

namespace Converge

/-- The version of a document is a number. -/
def Numbered (document : Document) (number : Nat) : Prop := Version.ofDocument? document = some ⟨number.repr⟩

theorem Numbered.unique {document : Document} {m n : Nat} (hm : Numbered document m) (hn : Numbered document n) :
    m = n :=
  Chars.repr_injective (congrArg Version.text (Option.some.inj (hm.symm.trans hn)))

namespace MemoryStore

/-! ### What was stored at some time -/

/-- A document was stored under a key after some of the requests. -/
def Held (past : List Request) (key : ObjectKey) (document : Document) : Prop :=
  ∃ earlier, earlier <+: past ∧ (empty.run earlier).objects.get? key = some document

/-- The count of writes does not go back. -/
theorem revision_mono {earlier later : List Request} (h : earlier <+: later) :
    (empty.run earlier).revision ≤ (empty.run later).revision := by
  obtain ⟨rest, rfl⟩ := h
  rw [run_append, revision_run (empty.run earlier) rest]
  exact Nat.le_add_right _ _

theorem Kept.numbered {document : Document} {birth version : Nat} (h : Kept document birth version) :
    Numbered document version :=
  let ⟨_, _, stamped⟩ := h.stamped
  stamped.version_ofDocument?

/-- What was stored at some time has a version that was given by then. -/
theorem Held.exists_numbered {past : List Request} {key : ObjectKey} {document : Document}
    (h : Held past key document) : ∃ number, Numbered document number ∧ number ≤ (empty.run past).revision := by
  obtain ⟨earlier, hprefix, hstored⟩ := h
  obtain ⟨birth, version, kept, hle⟩ := (sound_run earlier).kept hstored
  exact ⟨version, kept.numbered, Nat.le_trans hle (revision_mono hprefix)⟩

theorem Commit.numbered {store : MemoryStore} {request : Request} {key : ObjectKey} {document : Document}
    (h : Commit store request key (some document)) (sound : Sound store) :
    Numbered document (store.revision + 1) :=
  let ⟨_, kept, _⟩ := h.kept sound
  kept.numbered

/-- The document that a write answers is what it leaves in the store. -/
theorem commit_of_documents {store : MemoryStore} {request : Request} {answer : request.call.Answer}
    {document : Document} (writes : request.call.writes = true) (h : (store.serve request).1 = .ok answer)
    (hdocument : document ∈ request.call.documents answer) :
    ∃ key, Commit store request key (some document) := by
  obtain ⟨cancelled, now, call⟩ := request
  cases cancelled with
  | true => cases h
  | false =>
      cases call with
      | get | list => cases writes
      | delete key => cases hdocument
      | create source =>
          cases List.mem_singleton.1 hdocument
          obtain ⟨next, hcreate, -⟩ := of_settle_eq_ok h
          obtain ⟨key, named, free, rfl, -⟩ := create_eq_ok_iff.1 hcreate
          exact ⟨key, .create named free⟩
      | update source =>
          cases List.mem_singleton.1 hdocument
          obtain ⟨next, hupdate, -⟩ := of_settle_eq_ok h
          obtain ⟨key, current, named, found, fresh, rfl, -⟩ := update_eq_ok_iff.1 hupdate
          exact ⟨key, .update named found fresh⟩
      | patch key source =>
          cases List.mem_singleton.1 hdocument
          obtain ⟨next, hpatch, -⟩ := of_settle_eq_ok h
          obtain ⟨current, found, fresh, named, rfl, -⟩ := patch_eq_ok_iff.1 hpatch
          exact ⟨key, .patch named found fresh⟩

/-! ### Answers -/

/-- What may be answered to a call when requests have reached the memory, and which have reached it by then.
Other clients may always have been faster. -/
inductive Answers (past : List Request) : (call : StoreCall) → Except StoreError call.Answer → List Request → Prop
  /-- A read shows what was stored under the key at some time. -/
  | shown {key : ObjectKey} {document : Document} (others : List Request)
      (held : Held (past ++ others) key document) : Answers past (.get key) (.ok document) (past ++ others)
  /-- A read finds no object, or fails. -/
  | unread {key : ObjectKey} (others : List Request) (error : StoreError) :
      Answers past (.get key) (.error error) (past ++ others)
  /-- A list shows what was stored at some time. -/
  | listed {selector : Selector} {documents : List Document} (others : List Request)
      (held : ∀ document ∈ documents, ∃ key, Held (past ++ others) key document) :
      Answers past (.list selector) (.ok documents) (past ++ others)
  | unlisted {selector : Selector} (others : List Request) (error : StoreError) :
      Answers past (.list selector) (.error error) (past ++ others)
  /-- A write reaches the memory. -/
  | written {call : StoreCall} (others : List Request) (cancelled : Bool) (now : String)
      (writes : call.writes = true) :
      Answers past call ((empty.run (past ++ others)).serve ⟨cancelled, now, call⟩).1
        (past ++ others ++ [⟨cancelled, now, call⟩])

namespace Answers

variable {past next : List Request} {call : StoreCall} {answer : Except StoreError call.Answer}

/-- What has reached the memory stays. -/
theorem prefix_next (h : Answers past call answer next) : past <+: next := by
  cases h with
  | shown others | unread others | listed others | unlisted others => exact List.prefix_append past others
  | written others => exact List.append_assoc past others _ ▸ List.prefix_append past _

variable {document : Document}

/-- **What is answered has a version that was given by then.** -/
theorem exists_numbered (h : Answers past call answer next)
    (hdocument : document ∈ (Exchange.mk call answer).documents) :
    ∃ number, Numbered document number ∧ number ≤ (empty.run next).revision := by
  obtain ⟨a, hanswer, hmem⟩ := Exchange.mem_documents_iff.1 hdocument
  cases h with
  | shown others held =>
      cases hanswer
      cases List.mem_singleton.1 hmem
      exact held.exists_numbered
  | listed others held =>
      cases hanswer
      obtain ⟨key, held⟩ := held document hmem
      exact held.exists_numbered
  | unread | unlisted => cases hanswer
  | written others cancelled now writes =>
      obtain ⟨key, hcommit⟩ := commit_of_documents writes hanswer hmem
      have hrevision : (empty.run (past ++ others ++ [⟨cancelled, now, call⟩])).revision =
          (empty.run (past ++ others)).revision + 1 := by
        rw [run_append _ (past ++ others), run_cons, run_nil, hcommit.step_eq, revision_set]
      exact ⟨_, hcommit.numbered (sound_run _), Nat.le_of_eq hrevision.symm⟩

/-- **What a write answers has a version that was not given before.** -/
theorem exists_numbered_of_writes (h : Answers past call answer next) (writes : call.writes = true)
    (hdocument : document ∈ (Exchange.mk call answer).documents) :
    ∃ number, Numbered document number ∧ (empty.run past).revision < number := by
  obtain ⟨a, hanswer, hmem⟩ := Exchange.mem_documents_iff.1 hdocument
  cases h with
  | shown | unread | listed | unlisted => cases writes
  | written others cancelled now =>
      obtain ⟨key, hcommit⟩ := commit_of_documents writes hanswer hmem
      refine ⟨_, hcommit.numbered (sound_run _), ?_⟩
      exact Nat.lt_succ_of_le (revision_mono (List.prefix_append past others))

end Answers

/-- A store whose answers are all of this kind, and the requests that have reached the memory behind it. -/
def Lagging {σ : Type} (store : ObjectStore σ) (past : σ → List Request) : Prop :=
  ∀ (context : Context) (call : StoreCall) (state : σ),
    Answers (past state) call (store.call context call state).1 (past (store.call context call state).2)

/-! ### Exchanges -/

/-- If the later exchange is a write, what it answers is newer than what the earlier one answered. -/
def Precedes (earlier later : Exchange) : Prop :=
  later.call.writes = true → ∀ document ∈ earlier.documents, ∀ stored ∈ later.documents,
    ∃ older newer, Numbered document older ∧ Numbered stored newer ∧ older < newer

/-- Everything that was answered has a version that was given by then, and each write answers what is newer than
all that was answered before. -/
structure Ordered (past : List Request) (log : List Exchange) : Prop where
  numbered : ∀ exchange ∈ log, ∀ document ∈ exchange.documents,
    ∃ number, Numbered document number ∧ number ≤ (empty.run past).revision
  precedes : log.Pairwise Precedes

theorem ordered_nil (past : List Request) : Ordered past [] where
  numbered _ h := by cases h
  precedes := .nil

/-- One more answer of a store that lags behind keeps the exchanges in order. -/
theorem Ordered.concat {past next : List Request} {log : List Exchange} (ordered : Ordered past log)
    {call : StoreCall} {answer : Except StoreError call.Answer} (h : Answers past call answer next) :
    Ordered next (log ++ [⟨call, answer⟩]) where
  numbered := by
    intro exchange hexchange document hdocument
    rcases List.mem_append.1 hexchange with hlog | hnew
    · obtain ⟨number, hnumber, hle⟩ := ordered.numbered exchange hlog document hdocument
      exact ⟨number, hnumber, Nat.le_trans hle (revision_mono h.prefix_next)⟩
    · cases List.mem_singleton.1 hnew
      exact h.exists_numbered hdocument
  precedes := by
    refine List.pairwise_append.2 ⟨ordered.precedes, List.pairwise_singleton _ _, ?_⟩
    intro earlier hearlier later hlater writes document hdocument stored hstored
    cases List.mem_singleton.1 hlater
    obtain ⟨older, holder, hle⟩ := ordered.numbered earlier hearlier document hdocument
    obtain ⟨newer, hnewer, hlt⟩ := h.exists_numbered_of_writes writes hstored
    exact ⟨older, newer, holder, hnewer, Nat.lt_of_le_of_lt hle hlt⟩

/-- A write answers what is newer than all that was answered before it. -/
theorem Ordered.precedes_of_mem {past : List Request} {before after : List Exchange} {write : Exchange}
    (ordered : Ordered past (before ++ write :: after)) {earlier : Exchange} (hearlier : earlier ∈ before) :
    Precedes earlier write :=
  (List.pairwise_append.1 ordered.precedes).2.2 earlier hearlier write List.mem_cons_self

section Calls

variable {σ : Type} {store : ObjectStore σ} {past : σ → List Request}

theorem Ordered.after {state : σ × List Exchange} (ordered : Ordered (past state.1) state.2)
    (lagging : Lagging store past) (context : Context) (calls : List StoreCall) :
    Ordered (past (store.transcribed.after context calls state).1)
      (store.transcribed.after context calls state).2 := by
  induction calls generalizing state with
  | nil => exact ordered
  | cons call calls ih => exact ih (ordered.concat (lagging context call state.1))

end Calls

end MemoryStore

/-! ### A store that lags by a script -/

open MemoryStore

/-- What happens with a call: other clients are faster, and a read shows the memory as it was after so many
requests, or fails. -/
structure Move where
  others : List Request
  shown : Except StoreError Nat

/-- A store that lags: the requests that have reached the memory, and what happens with the next calls. After
those nothing lags. -/
structure LaggingStore where
  past : List Request
  moves : List Move

namespace LaggingStore

/-- What is answered to a read of the memory as it was after so many requests. -/
def remembered (past : List Request) (key : ObjectKey) : Except StoreError Nat → Except StoreError Document
  | .ok count => (empty.run (past.take count)).find key
  | .error error => .error error

/-- Answers a call. -/
def answer (past : List Request) (shown : Except StoreError Nat) : (c : StoreCall) →
    Except StoreError c.Answer × List Request
  | .get key => (remembered past key shown, past)
  | .list selector => (.ok ((empty.run past).list selector), past)
  | c => (((empty.run past).serve (atNoon c)).1, past ++ [atNoon c])

/-- The store as one that is called through contexts. -/
def objectStore : ObjectStore LaggingStore where
  call _ c store :=
    let (move, moves) := match store.moves with
      | move :: moves => (move, moves)
      | [] => (⟨[], .ok store.past.length⟩, [])
    let (answer, past) := answer (store.past ++ move.others) move.shown c
    (answer, ⟨past, moves⟩)

theorem held_of_remembered {past : List Request} {key : ObjectKey} {shown : Except StoreError Nat}
    {document : Document} (h : remembered past key shown = .ok document) : Held past key document := by
  cases shown with
  | ok count => exact ⟨past.take count, List.take_prefix count past, find_eq_ok_iff.1 h⟩
  | error error => cases h

theorem answers (past others : List Request) (shown : Except StoreError Nat) (call : StoreCall) :
    Answers past call (answer (past ++ others) shown call).1 (answer (past ++ others) shown call).2 := by
  cases call with
  | get key =>
      rw [answer]
      cases hread : remembered (past ++ others) key shown with
      | ok document => exact .shown others (held_of_remembered hread)
      | error error => exact .unread others error
  | list selector =>
      refine .listed others fun document hdocument => ?_
      obtain ⟨entry, hentry, rfl⟩ := List.mem_map.1 (List.mem_filter.1 hdocument).1
      exact ⟨entry.1, past ++ others, List.prefix_rfl, Table.get?_eq_some_iff.2 hentry⟩
  | create | update | patch | delete => exact .written others false _ rfl

/-- **Whatever its script, the store is one that lags behind.** -/
theorem lagging : Lagging objectStore LaggingStore.past := by
  intro context call store
  obtain ⟨past, moves⟩ := store
  cases moves with
  | nil => exact answers past [] (.ok past.length) call
  | cons move moves => exact answers past move.others move.shown call

end LaggingStore

end Converge
