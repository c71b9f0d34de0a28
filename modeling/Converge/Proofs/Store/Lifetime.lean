import Converge.Proofs.Store.History

/-!
# The life of an object

An object lives from the request that creates it to the one that removes it. Whatever clients write into its
metadata in between, the fields of the store follow a law of their own: the unique name and the time of
creation stay, the generation counts the changes, and the version grows. All else is what the clients wrote.

## Main Definitions

* `rewrites` — an update or a patch of an object goes through.
* `removes` — the removal of an object goes through.

## Main Statements

* `exists_rewritten` — what one change makes of the stored document.
* `stamped_run` — the fields of the store over a life.
* `law_of_life` — the law as a whole, for every object of every run.
-/

namespace Converge.MemoryStore

/-- An update or a patch of the object under a key goes through. -/
def rewrites (key : ObjectKey) (store : MemoryStore) (request : Request) : Bool :=
  store.touches key request && (brought? request.call).isSome

/-- The removal of the object under a key goes through. -/
def removes (key : ObjectKey) (store : MemoryStore) (request : Request) : Bool :=
  store.touches key request &&
    match request.call with
    | .delete _ => true
    | _ => false

variable {store : MemoryStore} {request : Request} {key : ObjectKey}

/-! ### One request -/

/-- A request that does not touch a key leaves its object as it is. -/
theorem get?_step_of_not_touches (h : store.touches key request = false) :
    (store.step request).objects.get? key = store.objects.get? key := by
  rcases store.commit_or_idle request with ⟨key', left, hcommit⟩ | ⟨-, hidle⟩
  · rw [hcommit.step_eq]
    refine get?_set_of_ne store ?_ left
    rintro rfl
    cases h.symm.trans hcommit.touches
  · rw [hidle]

/-- A creation that goes through stores the new document. -/
theorem stored_of_create {source : Document} (hcall : request.call = .create source)
    (h : store.touches key request) :
    ObjectKey.ofDocument source = .ok key ∧
      (store.step request).objects.get? key =
        some (stampNew request.now (store.revision + 1) source) := by
  obtain ⟨left, hcommit⟩ := commit_of_touches h
  rw [hcommit.step_eq, get?_set_self]
  cases hcommit with
  | create named free =>
      cases hcall
      exact ⟨named, rfl⟩
  | update | patch | delete => cases hcall

/-- A change that goes through stores what the document that was there becomes. -/
theorem exists_rewritten (h : store.rewrites key request) :
    ∃ current source, store.objects.get? key = some current ∧
      rewritten? current request.call = some source ∧ ObjectKey.ofDocument source = .ok key ∧
      (store.step request).objects.get? key =
        some (stampNext current (store.revision + 1) source) := by
  obtain ⟨htouches, hbrought⟩ := Bool.and_eq_true_iff.1 h
  obtain ⟨left, hcommit⟩ := commit_of_touches htouches
  rw [hcommit.step_eq, get?_set_self]
  cases hcommit with
  | update named found fresh | patch named found fresh => exact ⟨_, _, found, rfl, named, rfl⟩
  | create | delete => cases hbrought

/-- Where there is an object, what goes through changes it or removes it. -/
theorem touches_cases {current : Document} (found : store.objects.get? key = some current)
    (h : store.touches key request) : store.rewrites key request ∨ store.removes key request := by
  obtain ⟨left, hcommit⟩ := commit_of_touches h
  cases hcommit with
  | create named free =>
      rw [found] at free
      cases free
  | update | patch => exact .inl (by simp [rewrites, h, brought?])
  | delete => exact .inr (by simp [removes, h])

/-! ### A life -/

/-- As long as an object is not removed it is there, its unique name and its time of creation stay, and its
generation counts the changes. The induction is on the requests, over stores and stored documents. -/
theorem stamped_run {document uid created : Document} {generation version : Nat} (requests : List Request)
    (stored : store.objects.get? key = some document)
    (stamped : Stamped document uid created generation version)
    (alive : store.count (removes key) requests = 0) :
    ∃ last version', (store.run requests).objects.get? key = some last ∧
      Stamped last uid created (generation + store.count (rewrites key) requests) version' := by
  induction requests generalizing store document generation version with
  | nil => exact ⟨document, version, stored, stamped⟩
  | cons request requests ih =>
      obtain ⟨hstays, hrest⟩ := count_cons_eq_zero_iff.1 alive
      cases hrewrites : store.rewrites key request with
      | true =>
          obtain ⟨current, source, found, -, -, hnext⟩ := exists_rewritten hrewrites
          cases found.symm.trans stored
          obtain ⟨last, version', hlast, hstamped⟩ := ih hnext (stamped.stampNext _ _) hrest
          refine ⟨last, version', hlast, ?_⟩
          rwa [count, hrewrites, if_pos rfl, ← Nat.add_assoc]
      | false =>
          have huntouched : store.touches key request = false := by
            cases h : store.touches key request with
            | false => rfl
            | true => rcases touches_cases stored h with h | h <;> simp_all
          rw [← get?_step_of_not_touches huntouched] at stored
          obtain ⟨last, version', hlast, hstamped⟩ := ih stored stamped hrest
          refine ⟨last, version', hlast, ?_⟩
          rwa [count, hrewrites, if_neg Bool.false_ne_true, Nat.zero_add]

/-- A change of a document stores what it makes of it under a higher version. -/
theorem version_lt_of_rewrites {document uid created : Document} {generation version : Nat}
    (sound : Sound store) (stored : store.objects.get? key = some document)
    (stamped : Stamped document uid created generation version) (h : store.rewrites key request) :
    ∃ content next version', rewritten? document request.call = some content ∧
      (store.step request).objects.get? key = some next ∧ unstamped next = unstamped content ∧
      Stamped next uid created (generation + 1) version' ∧ version < version' := by
  obtain ⟨current, content, found, hcontent, named, hnext⟩ := exists_rewritten h
  cases found.symm.trans stored
  have hle : version ≤ store.revision := by
    obtain ⟨birth, version', kept, hle⟩ := sound.kept stored
    rw [version_unique stamped.version kept.version_eq]
    exact hle
  exact ⟨content, _, store.revision + 1, hcontent, hnext, unstamped_stampNext _ _ named,
    stamped.stampNext _ _, Nat.lt_succ_of_le hle⟩

/-- **The law of a life.** Take any run in which a creation goes through. It stores the document that was
sent, with a unique name of its own, the time of the clock, and the first generation. As long as the object
is not removed, whatever else is requested, its unique name and its time of creation stay and its generation
is one more than the count of its changes; and the next change of it stores what was sent, or the stored
document with the patch merged into it, under a higher version. No later creation of the run, under whatever
key, gives the same unique name. -/
theorem law_of_life (before : List Request) (birth : Request) (key : ObjectKey) (source : Document)
    (creates : birth.call = .create source) (born : (empty.run before).touches key birth) :
    let start := (empty.run before).step birth
    ∃ first uid version,
      start.objects.get? key = some first ∧ unstamped first = unstamped source ∧
      Stamped first (.string uid) (.string birth.now) 1 version ∧
      (∀ life, start.count (removes key) life = 0 →
        ∃ last version', (start.run life).objects.get? key = some last ∧
          Stamped last (.string uid) (.string birth.now) (1 + start.count (rewrites key) life) version' ∧
          ∀ change, (start.run life).rewrites key change →
            ∃ content next version'', rewritten? last change.call = some content ∧
              ((start.run life).step change).objects.get? key = some next ∧
              unstamped next = unstamped content ∧
              metadata? next "resourceVersion" = some (.string version''.repr) ∧
              version' < version'') ∧
      ∀ between again other source', again.call = .create source' →
        (start.run between).touches other again →
        ∃ second, ((start.run between).step again).objects.get? other = some second ∧
          metadata? second "uid" ≠ metadata? first "uid" := by
  intro start
  obtain ⟨named, hfirst⟩ := stored_of_create creates born
  have hstamped := stamped_stampNew birth.now ((empty.run before).revision + 1) source
  have hstart : Sound start := (sound_run before).step birth
  refine ⟨_, _, _, hfirst, unstamped_stampNew _ _ named, hstamped, ?_, ?_⟩
  · intro life alive
    obtain ⟨last, version', hlast, hstamped'⟩ := stamped_run life hfirst hstamped alive
    refine ⟨last, version', hlast, hstamped', ?_⟩
    intro change hchange
    obtain ⟨content, next, version'', hcontent, hnext, hrest, hstamped'', hlt⟩ :=
      version_lt_of_rewrites (hstart.run life) hlast hstamped' hchange
    exact ⟨content, next, version'', hcontent, hnext, hrest, hstamped''.version, hlt⟩
  · intro between again other source' hagain htouches
    obtain ⟨-, hsecond⟩ := stored_of_create hagain htouches
    refine ⟨_, hsecond, ?_⟩
    intro heq
    have hbirths := birth_unique (stamped_stampNew _ _ _).uid (heq.trans hstamped.uid)
    have hrevision : start.revision = (empty.run before).revision + 1 := by
      obtain ⟨left, hcommit⟩ := commit_of_touches born
      exact (congrArg MemoryStore.revision hcommit.step_eq).trans (revision_set _ _ _)
    have := revision_run start between
    omega

/-- The creation and two changes of an object bring values of their own for the fields of the store, or take
these away. -/
theorem law_of_life_of_forgeries :
    let before := [atNoon (.create (configMap "b" []))]
    let source := configMap "a" [("uid", .string "mem-000000000001"), ("generation", .string "9")]
    let birth := atNoon (.create source)
    let start := (empty.run before).step birth
    let life :=
      [atNoon (.update (configMap "a" [("creationTimestamp", .null), ("uid", .null)])),
        atNoon (.delete (configMapKey "b")),
        atNoon (.patch (configMapKey "a")
          (.ofEntries [("metadata", .ofEntries [("generation", .null), ("uid", .string "x")])]))]
    birth.call = .create source ∧
      (empty.run before).touches (configMapKey "a") birth = true ∧
      start.count (removes (configMapKey "a")) life = 0 ∧
      ∃ first last uid version version',
        start.objects.get? (configMapKey "a") = some first ∧
        Stamped first (.string uid) (.string birth.now) 1 version ∧
        (start.run life).objects.get? (configMapKey "a") = some last ∧
        Stamped last (.string uid) (.string birth.now) 3 version' := by
  intro before source birth start life
  have born : (empty.run before).touches (configMapKey "a") birth := by decide +kernel
  have alive : start.count (removes (configMapKey "a")) life = 0 := by decide +kernel
  obtain ⟨first, uid, version, hfirst, -, hstamped, hlife, -⟩ :=
    law_of_life before birth (configMapKey "a") source rfl born
  obtain ⟨last, version', hlast, hstamped', -⟩ := hlife life alive
  have changes : start.count (rewrites (configMapKey "a")) life = 2 := by decide +kernel
  rw [changes] at hstamped'
  exact ⟨rfl, born, alive, first, last, uid, version, version', hfirst, hstamped, hlast, hstamped'⟩

end Converge.MemoryStore
