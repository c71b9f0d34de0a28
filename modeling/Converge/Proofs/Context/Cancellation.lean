import Converge.Proofs.Context.Descent
import Converge.Proofs.Store.Transcript
import Converge.Store.Memory
import Mathlib.Data.List.Induction

/-!
# Cancelled contexts

A client makes contexts, cancels some of them, and calls a store in memory through them, in any order. Whether a context
is cancelled depends on nothing but the origins of the contexts and on which of them were cancelled: it has to heed one
that was. It then stays cancelled, and no call through it reaches the store. Contexts that heed no cancelled one do not
notice: their calls are answered as if there had been no cancellation and no call through the contexts it concerns.

## Main Definitions

* `Client` — the contexts that a client has made, the store, and its calls with their answers.
* `Client.Step`, `Client.run` — what a client does, and what comes of it.
* `Client.family`, `Client.Cancels` — the origins of the contexts, and which of them were cancelled.
* `Client.Alike` — two clients that differ in one cancellation only.

## Main Statements

* `Client.sound_run` — contexts and cancelled tokens are as the steps say, in every state of a run.
* `Client.alike_run` — two such clients go on alike as long as only one of them calls through the contexts concerned.
* `Client.cancellation_reaches_descendants_only` — which contexts are cancelled, and what becomes of calls.

## Design Notes

A step names contexts by their positions in the order of making. One that names a context which is not there does
nothing, so a context cannot be cancelled before it is made.
-/

namespace Converge

/-- A client of a store in memory: the contexts that it has made, in order, the store, and the calls that it has made,
each with the position of its context and its answer. -/
structure Client where
  contexts : List Context
  world : MemoryStore.World
  answers : List (Nat × Exchange)

namespace Client

/-- What a client does: it makes a context alone, as a copy of another one, around the token of another one, or as a
child of another one; it cancels a context; or it calls the store through one, at a time of the clock. -/
inductive Step where
  | background
  | clone (source : Nat)
  | withToken (source : Nat)
  | child (parent : Nat)
  | cancel (target : Nat)
  | call (position : Nat) (now : String) (c : StoreCall)

/-- A client of a store, before its first step. -/
def start (memory : MemoryStore) : Client := ⟨[], ⟨memory, .none, ""⟩, []⟩

/-- The client with one more context. -/
def add (client : Client) (made : Context × Cancellations) : Client :=
  { client with contexts := client.contexts ++ [made.1], world := { client.world with contexts := made.2 } }

/-- The client with a context cancelled. -/
def cancel (client : Client) (context : Context) : Client :=
  { client with world := { client.world with contexts := client.world.contexts.cancel context } }

/-- The client after a call through a context. -/
def call (client : Client) (position : Nat) (now : String) (c : StoreCall) (context : Context) : Client :=
  let (answer, world) := MemoryStore.objectStore.call context c { client.world with now := now }
  { client with world := world, answers := client.answers ++ [(position, ⟨c, answer⟩)] }

/-- What comes of the context at a position; nothing if there is none. -/
def on (client : Client) (position : Nat) (act : Context → Client) : Client :=
  match client.contexts[position]? with
  | some context => act context
  | none => client

/-- The client after a step. -/
def step (client : Client) : Step → Client
  | .background => client.add client.world.contexts.background
  | .clone source | .withToken source => client.on source fun context => client.add (context, client.world.contexts)
  | .child parent => client.on parent fun context => client.add (client.world.contexts.child context)
  | .cancel target => client.on target client.cancel
  | .call position now c => client.on position (client.call position now c)

/-- The client after steps, one after the other. -/
def run (client : Client) (steps : List Step) : Client := steps.foldl step client

/-- Whether a context lets calls through. -/
def check (client : Client) (context : Context) : Except StoreError Unit := client.world.contexts.check context

@[simp] theorem run_cons (client : Client) (step : Step) (steps : List Step) :
    client.run (step :: steps) = (client.step step).run steps := rfl

theorem run_append (client : Client) (first second : List Step) :
    client.run (first ++ second) = (client.run first).run second := List.foldl_append

theorem on_of_found {client : Client} {position : Nat} {context : Context}
    (found : client.contexts[position]? = some context) (act : Context → Client) :
    client.on position act = act context := by
  rw [on, found]

@[simp] theorem on_self (client : Client) (position : Nat) : (client.on position fun _ => client) = client := by
  rw [on]
  split <;> rfl

theorem check_eq_error_iff {client : Client} {context : Context} :
    client.check context = .error .cancelled ↔ ∃ token ∈ context.lineage, token ∈ client.world.contexts.cancelled := by
  rw [← Cancellations.isCancelled_iff, check, Cancellations.check]
  split <;> simp_all

/-! ### What a step can do -/

/-- The context that a step names. -/
def Step.position? : Step → Option Nat
  | .background => none
  | .clone source | .withToken source => some source
  | .child parent => some parent
  | .cancel target => some target
  | .call position _ _ => some position

/-- The steps that make a context, with its origin. -/
inductive Makes (client : Client) : Step → Origin → Context × Cancellations → Prop
  | background : Makes client .background .alone client.world.contexts.background
  | clone {source : Nat} {context : Context} (found : client.contexts[source]? = some context) :
      Makes client (.clone source) (.copyOf source) (context, client.world.contexts)
  | withToken {source : Nat} {context : Context} (found : client.contexts[source]? = some context) :
      Makes client (.withToken source) (.copyOf source) (context, client.world.contexts)
  | child {parent : Nat} {context : Context} (found : client.contexts[parent]? = some context) :
      Makes client (.child parent) (.childOf parent) (client.world.contexts.child context)

/-- What a step does: it makes a context, cancels one, or calls the store through one; or it names one that is not
there. -/
inductive Does (client : Client) : Step → Client → Prop
  | make {step : Step} {origin : Origin} {made : Context × Cancellations} (makes : Makes client step origin made) :
      Does client step (client.add made)
  | cancel {target : Nat} {context : Context} (found : client.contexts[target]? = some context) :
      Does client (.cancel target) (client.cancel context)
  | call {position : Nat} {now : String} {c : StoreCall} {context : Context}
      (found : client.contexts[position]? = some context) :
      Does client (.call position now c) (client.call position now c context)
  | nothing {step : Step} {position : Nat} (names : step.position? = some position)
      (missing : client.contexts[position]? = none) : Does client step client

/-- Each step does one of these. -/
theorem does_step (client : Client) (step : Step) : Does client step (client.step step) := by
  have hon {position : Nat} (act : Context → Client) (names : step.position? = some position)
      (does : ∀ context, client.contexts[position]? = some context → Does client step (act context)) :
      Does client step (client.on position act) := by
    cases hposition : client.contexts[position]? with
    | none =>
        rw [on, hposition]
        exact .nothing names hposition
    | some context =>
        rw [on_of_found hposition]
        exact does context hposition
  cases step with
  | background => exact .make .background
  | clone source => exact hon _ rfl fun _ found => .make (.clone found)
  | withToken source => exact hon _ rfl fun _ found => .make (.withToken found)
  | child parent => exact hon _ rfl fun _ found => .make (.child found)
  | cancel target => exact hon _ rfl fun _ found => .cancel found
  | call position now c => exact hon _ rfl fun _ found => .call found

/-! ### What steps say of the contexts -/

/-- The family of contexts with one more, if a step makes one from a context that is there. -/
def grow (family : Family) : Step → Family
  | .background => family ++ [.alone]
  | .clone source | .withToken source => if source < family.length then family ++ [.copyOf source] else family
  | .child parent => if parent < family.length then family ++ [.childOf parent] else family
  | .cancel _ | .call _ _ _ => family

/-- The origins of the contexts that are made by steps. -/
def family (steps : List Step) : Family := steps.foldl grow []

/-- One of the steps cancels a context that is there. -/
def Cancels (steps : List Step) (target : Nat) : Prop :=
  ∃ before after, steps = before ++ .cancel target :: after ∧ target < (family before).length

theorem family_concat (steps : List Step) (step : Step) : family (steps ++ [step]) = grow (family steps) step :=
  List.foldl_append

theorem length_le_grow (family : Family) (step : Step) : family.length ≤ (grow family step).length := by
  cases step with
  | background => simp [grow]
  | clone | withToken | child =>
      rw [grow]
      split <;> simp
  | cancel | call => exact Nat.le_refl _

theorem length_family_le (first second : List Step) : (family first).length ≤ (family (first ++ second)).length := by
  induction second using List.reverseRecOn with
  | nil => simp
  | append_singleton second step ih =>
      rw [← List.append_assoc, family_concat]
      exact Nat.le_trans ih (length_le_grow _ step)

/-- What is cancelled is there. -/
theorem Cancels.lt_length {steps : List Step} {target : Nat} (h : Cancels steps target) :
    target < (family steps).length := by
  obtain ⟨before, after, rfl, hlt⟩ := h
  exact Nat.lt_of_lt_of_le hlt (length_family_le before _)

theorem cancels_concat_iff {steps : List Step} {step : Step} {target : Nat} :
    Cancels (steps ++ [step]) target ↔ Cancels steps target ∨ step = .cancel target ∧ target < (family steps).length := by
  constructor
  · rintro ⟨before, after, heq, hlt⟩
    obtain rfl | ⟨rest, last, rfl⟩ := after.eq_nil_or_concat
    · obtain ⟨rfl, hstep⟩ := List.append_inj' heq rfl
      cases hstep
      exact .inr ⟨rfl, hlt⟩
    · rw [List.concat_eq_append, ← List.cons_append, ← List.append_assoc] at heq
      obtain ⟨rfl, -⟩ := List.append_inj' heq rfl
      exact .inl ⟨before, rest, rfl, hlt⟩
  · rintro (⟨before, after, rfl, hlt⟩ | ⟨rfl, hlt⟩)
    · exact ⟨before, after ++ [step], by rw [List.append_assoc, List.cons_append], hlt⟩
    · exact ⟨steps, [], rfl, hlt⟩

/-! ### Contexts and tokens follow the steps -/

/-- Contexts and cancelled tokens are as steps say. -/
structure Sound (steps : List Step) (client : Client) : Prop where
  carried : (family steps).Carried client.contexts
  issued : ∀ context ∈ client.contexts, context.token < client.world.contexts.issued
  cancelled : ∀ token, token ∈ client.world.contexts.cancelled ↔
    ∃ target context, Cancels steps target ∧ client.contexts[target]? = some context ∧ context.token = token

theorem sound_start (memory : MemoryStore) : Sound [] (start memory) where
  carried := .nil
  issued _ h := by cases h
  cancelled token := by
    refine iff_of_false List.not_mem_nil ?_
    rintro ⟨target, context, -, hfound, -⟩
    cases hfound

namespace Sound

variable {steps : List Step} {client next : Client} {step : Step}

/-- The contexts that the steps speak of are there, and no others. -/
theorem lt_length_iff (h : Sound steps client) {position : Nat} :
    position < (family steps).length ↔ ∃ context, client.contexts[position]? = some context := by
  rw [h.carried.length_eq]
  constructor
  · intro hlt
    exact ⟨client.contexts[position], List.getElem?_eq_getElem hlt⟩
  · rintro ⟨context, found⟩
    exact (List.getElem?_eq_some_iff.1 found).1

/-- A step that neither makes nor cancels a context. -/
theorem idle (h : Sound steps client) (hfamily : family (steps ++ [step]) = family steps)
    (hcancel : ∀ target, step = .cancel target → ¬ target < (family steps).length)
    (hcontexts : next.contexts = client.contexts) (htokens : next.world.contexts = client.world.contexts) :
    Sound (steps ++ [step]) next where
  carried := by
    rw [hfamily, hcontexts]
    exact h.carried
  issued := by
    rw [hcontexts, htokens]
    exact h.issued
  cancelled token := by
    rw [htokens, h.cancelled, hcontexts]
    refine exists_congr fun target => exists_congr fun context => and_congr_left' ?_
    rw [cancels_concat_iff]
    exact (or_iff_left fun ⟨hstep, hlt⟩ => hcancel target hstep hlt).symm

/-- A step that makes a context. -/
theorem made (h : Sound steps client) {origin : Origin} {made : Context × Cancellations}
    (makes : Makes client step origin made) : Sound (steps ++ [step]) (client.add made) := by
  have hfresh (context : Context) (hcontext : context ∈ client.contexts) :
      context.token ≠ client.world.contexts.issued := Nat.ne_of_lt (h.issued context hcontext)
  have hfamily : family (steps ++ [step]) = family steps ++ [origin] := by
    rw [family_concat]
    cases makes with
    | background => rfl
    | clone found | withToken found | child found => exact if_pos (h.lt_length_iff.2 ⟨_, found⟩)
  have hmade : Made client.contexts origin made.1 := by
    cases makes with
    | background => exact .alone rfl hfresh
    | clone found | withToken found => exact .copyOf found
    | child found => exact .childOf found rfl hfresh
  have hissued : made.1.token < made.2.issued ∧ client.world.contexts.issued ≤ made.2.issued := by
    cases makes with
    | background | child => exact ⟨Nat.lt_succ_self _, Nat.le_succ _⟩
    | clone found | withToken found => exact ⟨h.issued _ (List.mem_of_getElem? found), Nat.le_refl _⟩
  have hcancelled : made.2.cancelled = client.world.contexts.cancelled := by
    cases makes <;> rfl
  have hcancels (target : Nat) : Cancels (steps ++ [step]) target ↔ Cancels steps target := by
    rw [cancels_concat_iff]
    refine or_iff_left fun hnew => ?_
    rw [hnew.1] at makes
    cases makes
  refine ⟨hfamily ▸ .concat h.carried hmade, ?_, ?_⟩
  · intro context hcontext
    obtain hold | hnew := List.mem_append.1 hcontext
    · exact Nat.lt_of_lt_of_le (h.issued context hold) hissued.2
    · rw [List.mem_singleton.1 hnew]
      exact hissued.1
  · intro token
    rw [Client.add, hcancelled, h.cancelled]
    refine exists_congr fun target => exists_congr fun context => ?_
    rw [hcancels]
    -- What was cancelled is among the contexts that were there before.
    refine and_congr_right fun hbefore => and_congr_left' ?_
    rw [List.getElem?_append_left (h.carried.length_eq ▸ hbefore.lt_length)]

/-- A step that cancels a context. -/
theorem cancel (h : Sound steps client) {target : Nat} {context : Context}
    (found : client.contexts[target]? = some context) : Sound (steps ++ [.cancel target]) (client.cancel context) := by
  have hlt : target < (family steps).length := h.lt_length_iff.2 ⟨context, found⟩
  refine ⟨?_, h.issued, ?_⟩
  · rw [family_concat]
    exact h.carried
  · intro token
    simp only [Client.cancel, Cancellations.cancel, List.mem_cons, h.cancelled, cancels_concat_iff]
    constructor
    · rintro (rfl | ⟨other, another, hcancels, hfound, htoken⟩)
      · exact ⟨target, context, .inr ⟨rfl, hlt⟩, found, rfl⟩
      · exact ⟨other, another, .inl hcancels, hfound, htoken⟩
    · rintro ⟨other, another, hcancels | ⟨hstep, -⟩, hfound, rfl⟩
      · exact .inr ⟨other, another, hcancels, hfound, rfl⟩
      · cases hstep
        cases found.symm.trans hfound
        exact .inl rfl

/-- **A step keeps contexts and tokens in line with the steps.** -/
theorem of_does (h : Sound steps client) (does : Does client step next) : Sound (steps ++ [step]) next := by
  cases does with
  | make makes => exact h.made makes
  | cancel found => exact h.cancel found
  | call =>
      refine h.idle (family_concat steps _) (fun _ hstep => ?_) rfl rfl
      cases hstep
  | @nothing step position names missing =>
      have hlength : ¬ position < (family steps).length := by
        rw [h.lt_length_iff, missing]
        rintro ⟨context, found⟩
        cases found
      refine h.idle ?_ (fun target hstep => ?_) rfl rfl
      · rw [family_concat]
        cases step with
        | background => cases names
        | clone | withToken | child =>
            cases names
            exact if_neg hlength
        | cancel | call => rfl
      · subst hstep
        cases names
        exact hlength

end Sound

/-- **Contexts and cancelled tokens are as the steps say**, in every state of a run. -/
theorem sound_run (memory : MemoryStore) (steps : List Step) : Sound steps ((start memory).run steps) := by
  induction steps using List.reverseRecOn with
  | nil => exact sound_start memory
  | append_singleton steps step ih =>
      rw [run_append]
      exact ih.of_does (does_step _ step)

/-! ### What was cancelled stays cancelled -/

section Growth

variable {client next : Client} {step : Step}

theorem Does.prefix_contexts (does : Does client step next) : client.contexts <+: next.contexts := by
  cases does with
  | make => exact List.prefix_append _ _
  | cancel | call | nothing => exact List.prefix_rfl

theorem Does.cancelled_subset (does : Does client step next) :
    client.world.contexts.cancelled ⊆ next.world.contexts.cancelled := by
  cases does with
  | make makes => cases makes <;> exact List.Subset.refl _
  | cancel => exact List.subset_cons_self _ _
  | call | nothing => exact List.Subset.refl _

theorem prefix_contexts_run (client : Client) (steps : List Step) : client.contexts <+: (client.run steps).contexts := by
  induction steps generalizing client with
  | nil => exact List.prefix_rfl
  | cons step steps ih => exact (client.does_step step).prefix_contexts.trans (ih (client.step step))

theorem cancelled_subset_run (client : Client) (steps : List Step) :
    client.world.contexts.cancelled ⊆ (client.run steps).world.contexts.cancelled := by
  induction steps generalizing client with
  | nil => exact List.Subset.refl _
  | cons step steps ih => exact List.Subset.trans (client.does_step step).cancelled_subset (ih (client.step step))

/-- A context that was made stays at its position. -/
theorem found_run {position : Nat} {context : Context} (found : client.contexts[position]? = some context)
    (steps : List Step) : (client.run steps).contexts[position]? = some context := by
  obtain ⟨later, hlater⟩ := client.prefix_contexts_run steps
  rw [← hlater, List.getElem?_append_left (List.getElem?_eq_some_iff.1 found).1]
  exact found

end Growth

/-- **A call through a cancelled context fails and does nothing**, whatever is called and whatever is stored. -/
theorem call_of_cancelled {contexts : Cancellations} {context : Context}
    (h : contexts.check context = .error .cancelled) (memory : MemoryStore) (now : String) (c : StoreCall) :
    MemoryStore.objectStore.call context c ⟨memory, contexts, now⟩ = (.error .cancelled, ⟨memory, contexts, now⟩) := by
  rw [Cancellations.check] at h
  split at h
  · next hcancelled =>
      simp only [MemoryStore.objectStore, MemoryStore.answer, hcancelled]
      rfl
  · cases h

/-! ### Contexts that a cancellation does not concern -/

section Concern

variable (concerned : Nat → Prop) [DecidablePred concerned]

/-- Whether a step calls the store through one of some contexts. -/
def Step.callsThrough : Step → Bool
  | .call position _ _ => decide (concerned position)
  | _ => false

/-- The steps without the calls through some contexts. -/
def withoutCalls (steps : List Step) : List Step := steps.filter fun step => !step.callsThrough concerned

/-- The calls through the other contexts, with their answers. -/
def otherAnswers (client : Client) : List (Nat × Exchange) := client.answers.filter fun (position, _) => !concerned position

/-- Two clients that differ in the cancellation of one token, and in calls through the contexts concerned. -/
structure Alike (token : Nat) (stopped free : Client) : Prop where
  contexts : stopped.contexts = free.contexts
  memory : stopped.world.memory = free.world.memory
  issued : stopped.world.contexts.issued = free.world.contexts.issued
  cancelled : ∀ other, other ∈ stopped.world.contexts.cancelled ↔ other = token ∨ other ∈ free.world.contexts.cancelled
  answers : stopped.otherAnswers concerned = free.otherAnswers concerned

end Concern

namespace Alike

variable {concerned : Nat → Prop} [DecidablePred concerned] {token : Nat} {stopped free : Client}

/-- A token apart, the same contexts are cancelled. -/
theorem isCancelled_eq (h : Alike concerned token stopped free) {context : Context} (apart : token ∉ context.lineage) :
    stopped.world.contexts.isCancelled context = free.world.contexts.isCancelled context := by
  rw [Bool.eq_iff_iff, Cancellations.isCancelled_iff, Cancellations.isCancelled_iff]
  refine exists_congr fun other => and_congr_right fun hmem => ?_
  rw [h.cancelled]
  refine or_iff_right fun heq => ?_
  rw [heq] at hmem
  exact apart hmem

theorem add (h : Alike concerned token stopped free) {context : Context} {tokens tokens' : Cancellations}
    (issued : tokens.issued = tokens'.issued) (cancelled : tokens.cancelled = stopped.world.contexts.cancelled)
    (cancelled' : tokens'.cancelled = free.world.contexts.cancelled) :
    Alike concerned token (stopped.add (context, tokens)) (free.add (context, tokens')) where
  contexts := by rw [Client.add, Client.add, h.contexts]
  memory := h.memory
  issued := issued
  cancelled other := by
    rw [Client.add, Client.add, cancelled, cancelled']
    exact h.cancelled other
  answers := h.answers

theorem cancel (h : Alike concerned token stopped free) (context : Context) :
    Alike concerned token (stopped.cancel context) (free.cancel context) where
  contexts := h.contexts
  memory := h.memory
  issued := h.issued
  cancelled other := by
    simp only [Client.cancel, Cancellations.cancel, List.mem_cons, h.cancelled]
    exact or_left_comm
  answers := h.answers

/-- A call through a context that is not concerned is answered alike, and does the same to the store. -/
theorem call (h : Alike concerned token stopped free) {context : Context} (apart : token ∉ context.lineage)
    (position : Nat) (now : String) (c : StoreCall) :
    Alike concerned token (stopped.call position now c context) (free.call position now c context) := by
  have hanswer : stopped.world.memory.answer (stopped.world.contexts.isCancelled context) now c =
      free.world.memory.answer (free.world.contexts.isCancelled context) now c := by
    rw [h.isCancelled_eq apart, h.memory]
  refine ⟨h.contexts, congrArg Prod.snd hanswer, h.issued, h.cancelled, ?_⟩
  simp only [otherAnswers, Client.call, List.filter_append, MemoryStore.objectStore, hanswer]
  rw [show stopped.answers.filter _ = free.answers.filter _ from h.answers]

/-- A call through a context that is concerned fails, so it makes no difference. -/
theorem call_left (h : Alike concerned token stopped free) {context : Context} (below : token ∈ context.lineage)
    {position : Nat} (hposition : concerned position) (now : String) (c : StoreCall) :
    Alike concerned token (stopped.call position now c context) free := by
  have hcheck : stopped.check context = .error .cancelled :=
    check_eq_error_iff.2 ⟨token, below, (h.cancelled token).2 (.inl rfl)⟩
  have hcall := call_of_cancelled hcheck stopped.world.memory now c
  rw [Client.call, hcall]
  refine ⟨h.contexts, h.memory, h.issued, h.cancelled, ?_⟩
  have hdropped : (!decide (concerned position)) = false := by simp [hposition]
  simp only [otherAnswers, List.filter_append, List.filter_cons, hdropped, List.filter_nil]
  exact (List.append_nil _).trans h.answers

theorem on (h : Alike concerned token stopped free) {position : Nat} {act act' : Context → Client}
    (acts : ∀ context, stopped.contexts[position]? = some context → Alike concerned token (act context) (act' context)) :
    Alike concerned token (stopped.on position act) (free.on position act') := by
  rw [Client.on, Client.on, ← h.contexts]
  cases hposition : stopped.contexts[position]? with
  | none => exact h
  | some context => exact acts context hposition

/-- **A step that both take keeps two clients alike**, unless it is a call through a context that is concerned. -/
theorem step (h : Alike concerned token stopped free)
    (lineage : ∀ position context, stopped.contexts[position]? = some context →
      (concerned position ↔ token ∈ context.lineage))
    {step : Step} (kept : step.callsThrough concerned = false) :
    Alike concerned token (stopped.step step) (free.step step) := by
  cases step with
  | background =>
      have hcontext : (⟨free.world.contexts.issued, []⟩ : Context) = ⟨stopped.world.contexts.issued, []⟩ := by
        rw [h.issued]
      rw [Client.step, Client.step, Cancellations.background, Cancellations.background, hcontext]
      exact h.add (congrArg (· + 1) h.issued) rfl rfl
  | clone | withToken => exact h.on fun _ _ => h.add h.issued rfl rfl
  | child parent =>
      refine h.on fun context _ => ?_
      rw [Cancellations.child, Cancellations.child, h.issued]
      exact h.add rfl rfl rfl
  | cancel => exact h.on fun context _ => h.cancel context
  | call position now c =>
      refine h.on fun context found => h.call (fun below => ?_) position now c
      rw [Step.callsThrough, decide_eq_false_iff_not] at kept
      exact kept ((lineage position context found).2 below)

/-- A step that only the first takes keeps them alike if it is a call through a context that is concerned. -/
theorem step_left (h : Alike concerned token stopped free)
    (lineage : ∀ position context, stopped.contexts[position]? = some context →
      (concerned position ↔ token ∈ context.lineage))
    {step : Step} (left : step.callsThrough concerned = true) : Alike concerned token (stopped.step step) free := by
  cases step with
  | call position now c =>
      rw [Step.callsThrough, decide_eq_true_iff] at left
      have hon : Alike concerned token (stopped.on position (stopped.call position now c))
          (free.on position fun _ => free) :=
        h.on fun context found => h.call_left ((lineage position context found).1 left) left now c
      rwa [on_self] at hon
  | background | clone | withToken | child | cancel => cases left

end Alike

/-- **Two clients stay alike** if only the first of them calls through the contexts that are concerned. -/
theorem alike_run {concerned : Nat → Prop} [DecidablePred concerned] {token : Nat} {stopped free : Client}
    (h : Alike concerned token stopped free) (steps : List Step)
    (lineage : ∀ position context, (stopped.run steps).contexts[position]? = some context →
      (concerned position ↔ token ∈ context.lineage)) :
    Alike concerned token (stopped.run steps) (free.run (withoutCalls concerned steps)) := by
  induction steps generalizing stopped free with
  | nil => exact h
  | cons step steps ih =>
      have hlineage (position : Nat) (context : Context) (found : stopped.contexts[position]? = some context) :
          concerned position ↔ token ∈ context.lineage :=
        lineage position context (found_run found (step :: steps))
      rw [run_cons, withoutCalls, List.filter_cons]
      cases hleft : step.callsThrough concerned with
      | false => exact ih (h.step hlineage hleft) lineage
      | true => exact ih (h.step_left hlineage hleft) lineage

/-! ### Whole runs -/

/-- A context that is cancelled stays so. -/
theorem check_run {client : Client} {context : Context} (h : client.check context = .error .cancelled)
    (later : List Step) : (client.run later).check context = .error .cancelled := by
  obtain ⟨token, hlineage, hcancelled⟩ := check_eq_error_iff.1 h
  exact check_eq_error_iff.2 ⟨token, hlineage, client.cancelled_subset_run later hcancelled⟩

/-- The contexts that are cancelled after steps are those that heed a context which one of the steps cancelled. -/
theorem check_run_iff (memory : MemoryStore) (steps : List Step) {position : Nat} {context : Context}
    (made : ((start memory).run steps).contexts[position]? = some context) :
    ((start memory).run steps).check context = .error .cancelled ↔
      ∃ target, Cancels steps target ∧ (family steps).Heeds position target := by
  have sound := sound_run memory steps
  rw [check_eq_error_iff]
  constructor
  · rintro ⟨token, hlineage, hcancelled⟩
    obtain ⟨target, another, hcancels, hfound, rfl⟩ := (sound.cancelled token).1 hcancelled
    exact ⟨target, hcancels, (sound.carried.heeds_iff made hfound).2 hlineage⟩
  · rintro ⟨target, hcancels, hheeds⟩
    obtain ⟨another, hfound⟩ := sound.lt_length_iff.1 hcancels.lt_length
    exact ⟨another.token, (sound.carried.heeds_iff made hfound).1 hheeds,
      (sound.cancelled _).2 ⟨target, another, hcancels, hfound, rfl⟩⟩

/-- A cancellation makes a run differ from the one without it in the token of its target only, and in calls through the
contexts that heed it. -/
theorem alike_of_cancel (memory : MemoryStore) (steps later : List Step) {target : Nat} {concerned : Nat → Prop}
    [DecidablePred concerned] (hlt : target < (family steps).length)
    (heeds : ∀ position, concerned position ↔ (family (steps ++ .cancel target :: later)).Heeds position target) :
    ∃ another, ((start memory).run (steps ++ .cancel target :: later)).contexts[target]? = some another ∧
      Alike concerned another.token ((start memory).run (steps ++ .cancel target :: later))
        ((start memory).run (steps ++ withoutCalls concerned later)) := by
  obtain ⟨another, hfound⟩ := (sound_run memory steps).lt_length_iff.1 hlt
  have hwhole : (start memory).run (steps ++ .cancel target :: later) =
      (((start memory).run steps).cancel another).run later := by
    rw [run_append, run_cons, step, on_of_found hfound]
  have htarget : ((start memory).run (steps ++ .cancel target :: later)).contexts[target]? = some another := by
    have hcancel : (((start memory).run steps).cancel another).contexts[target]? = some another := hfound
    rw [hwhole]
    exact found_run hcancel later
  have lineage (position : Nat) (context : Context)
      (found : ((start memory).run (steps ++ .cancel target :: later)).contexts[position]? = some context) :
      concerned position ↔ another.token ∈ context.lineage := by
    rw [heeds]
    exact (sound_run memory _).carried.heeds_iff found htarget
  have halike : Alike concerned another.token (((start memory).run steps).cancel another) ((start memory).run steps) :=
    ⟨rfl, rfl, rfl, fun _ => List.mem_cons, rfl⟩
  refine ⟨another, htarget, ?_⟩
  rw [hwhole] at lineage ⊢
  rw [run_append]
  exact alike_run halike later lineage

open Classical in
/-- **A cancellation reaches the contexts that share the token or come from it, and no others.** In any run, a context
is cancelled if it heeds one that a step cancelled. From then on it stays cancelled, and every call through it fails and
leaves the store as it is. To the other contexts it is as if there had been no cancellation: calls through them are
answered as in a run without it, and without the calls through the contexts concerned, and the store is left the same. -/
theorem cancellation_reaches_descendants_only (memory : MemoryStore) (steps : List Step) :
    (∀ position context, ((start memory).run steps).contexts[position]? = some context →
      (((start memory).run steps).check context = .error .cancelled ↔
        ∃ target, Cancels steps target ∧ (family steps).Heeds position target) ∧
      (((start memory).run steps).check context = .error .cancelled →
        ∀ later, let reached := (start memory).run (steps ++ later)
          reached.contexts[position]? = some context ∧ reached.check context = .error .cancelled ∧
            ∀ stored now c, MemoryStore.objectStore.call context c ⟨stored, reached.world.contexts, now⟩ =
              (.error .cancelled, ⟨stored, reached.world.contexts, now⟩))) ∧
    ∀ target later, target < (family steps).length →
      let whole := steps ++ .cancel target :: later
      let concerned (position : Nat) : Prop := (family whole).Heeds position target
      let stopped := (start memory).run whole
      let free := (start memory).run (steps ++ withoutCalls concerned later)
      stopped.otherAnswers concerned = free.otherAnswers concerned ∧
        stopped.world.memory = free.world.memory ∧ stopped.contexts = free.contexts ∧
        ∀ position context, stopped.contexts[position]? = some context → ¬ concerned position →
          stopped.check context = free.check context := by
  refine ⟨fun position context made => ⟨check_run_iff memory steps made, fun hfails later => ?_⟩, ?_⟩
  · have hlater := check_run hfails later
    rw [run_append]
    exact ⟨found_run made later, hlater, fun stored now c => call_of_cancelled hlater stored now c⟩
  · intro target later hlt whole concerned stopped free
    obtain ⟨another, htarget, alike⟩ := alike_of_cancel memory steps later hlt fun position => Iff.rfl
    refine ⟨alike.answers, alike.memory, alike.contexts, fun position context found apart => ?_⟩
    have hlineage : another.token ∉ context.lineage := fun below =>
      apart (((sound_run memory whole).carried.heeds_iff found htarget).2 below)
    rw [check, check, Cancellations.check, Cancellations.check, alike.isCancelled_eq hlineage]

open Classical in
/-- A context gets a child, which is cloned and cancelled, and then gets a child of its own: that one is cancelled from
the start. When a context apart is cancelled as well, a call through the first one is answered as before. -/
theorem cancellation_reaches_late_child :
    let steps : List Step := [.background, .child 0, .clone 1, .background, .cancel 1, .child 1]
    let list : StoreCall := .list (.ofType ⟨"", "v1", "ConfigMap"⟩)
    let later : List Step := [.call 3 "" list, .call 0 "" list]
    let concerned (position : Nat) : Prop := (family (steps ++ .cancel 3 :: later)).Heeds position 3
    ((start .empty).run steps).contexts[4]? = some ⟨3, [1, 0]⟩ ∧
      (∃ target, Cancels steps target ∧ (family steps).Heeds 4 target) ∧
      ((start .empty).run (steps ++ later)).check ⟨3, [1, 0]⟩ = .error .cancelled ∧
      3 < (family steps).length ∧
      ((start .empty).run (steps ++ .cancel 3 :: later)).otherAnswers concerned =
        ((start .empty).run (steps ++ withoutCalls concerned later)).otherAnswers concerned := by
  intro steps list later concerned
  have h := cancellation_reaches_descendants_only .empty steps
  have hlate : ((start .empty).run steps).check ⟨3, [1, 0]⟩ = .error .cancelled := rfl
  exact ⟨rfl, (h.1 4 _ rfl).1.1 hlate, ((h.1 4 _ rfl).2 hlate later).2.1, by decide, (h.2 3 later (by decide)).1⟩

end Client

end Converge
