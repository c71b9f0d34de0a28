import Converge.CommandLine
import Converge.Config.Source
import Converge.Http.Store
import Converge.Orchestrator
import Converge.Store.Memory
import Converge.Yaml.Writer

/-!
# The program

A run of the program reads its command line and its configuration, finds its store, carries out one operation and
prints the documents that come of it.

## Main Definitions

* `Surroundings` — what a run depends on besides its command line.
* `Trouble` — why a run has no result, with the words for it and the exit code.
* `Program.execute` — carries out a command on a store.
* `Program.run` — a run of the program.
-/

namespace Converge

/-- What a run depends on besides its command line: the environment, the files, and the time. -/
structure Surroundings where
  environment : Environment
  files : Files
  now : String

/-- Why a run has no result. -/
inductive Trouble where
  | refused (cause : CommandLine.Refusal)
  | config (cause : ConfigError)
  | store (cause : HttpStoreError)
  | badType (cause : IdentityError)
  | badSelector (expression : String)
  | failed (operation : Operation) (failure : Failure)
  deriving DecidableEq

namespace Trouble

/-- The words for a run without a result. -/
def message : Trouble → String
  | .refused cause => cause.message
  | .config _ => "failed to load settle config"
  | .store cause => cause.message
  | .badType cause => cause.message
  | .badSelector expression => "invalid label selector '" ++ expression ++ "'"
  | .failed operation failure => failure.report operation

/-- What is behind it, where the words do not say it. -/
def cause? : Trouble → Option String
  | .config cause => some cause.message
  | _ => none

/-- The code with which the program ends. -/
def exitCode : Trouble → Nat
  | .refused _ => 2
  | _ => 1

end Trouble

namespace Program

/-! ### Output -/

/-- The name of the program with its version. -/
def versionLine : String := "settle 0.1.0\n"

/-- Documents in print. -/
def printed (documents : List Document) : String := "---\n".intercalate (documents.map Yaml.write)

/-- The documents of the lists of handles among some arguments. -/
def documentsOf (arguments : List Argument) : List Document :=
  (arguments.flatMap fun argument => match argument with
    | .objects handles => handles
    | _ => []).filterMap Handle.document

/-- The lines that tell what was deleted. -/
def deletions (documents : List Document) : String :=
  String.join (documents.filterMap fun document =>
    (ObjectKey.ofDocument document).toOption.map fun key => key.display ++ " deleted\n")

/-! ### Commands -/

section Commands

variable {σ : Type} (o : Orchestrator σ) (context : Context) (state : σ)

/-- The arguments for a template. -/
def templateArguments (template : TemplateCall) : List Argument :=
  .template (.file template.file) :: (if template.bindings.isEmpty then [] else [.bindings template.bindings])

/-- The documents that an operation left in the list of handles. -/
def result (operation : Operation) (outcome : Outcome σ Unit) : Except Trouble String :=
  match outcome.result with
  | .ok () => .ok (printed (documentsOf outcome.arguments))
  | .error failure => .error (.failed operation failure)

/-- Renders a template and prints the documents. -/
def render (template : TemplateCall) : Except Trouble (List Document) :=
  (o.render (templateArguments template) state).result.mapError (.failed .render)

/-- Writes the documents of a template. A deletion leaves no documents, so the rendered ones tell what is gone. -/
def mutate (operation : Operation) (template : TemplateCall) (timeout interval : Option Duration) :
    Except Trouble String := do
  let rendered ← render o state template
  let arguments := templateArguments template ++ timeout.toList.map .timeout ++ interval.toList.map .interval
  if operation = .delete || operation = .deleteAndWait then
    -- Without a list of handles: there is nothing to put into it.
    let _ ← result operation (o.mutate operation context arguments state)
    return deletions rendered
  else result operation (o.mutate operation context (arguments ++ [.objects []]) state)

/-- The selector of a list. -/
def selectorOf (apiVersion kind : String) (scope expression : Option String) : Except Trouble Selector := do
  let type ← (ResourceType.ofApiVersion apiVersion kind).mapError .badType
  let selector := Selector.ofType type
  let selector := match scope with
    | some scope => selector.inScope scope
    | none => selector
  match expression with
  | none => return selector
  | some expression =>
      match selector.withExpression? expression with
      | some selector => return selector
      | none => throw (.badSelector expression)

/-- Carries out a command on a store. -/
def execute : Command → Except Trouble String
  | .mutate operation template timeout interval => mutate o context state operation template timeout interval
  | .get template =>
      result .get (o.get context (templateArguments template ++ [.objects []]) state)
  | .render template => (render o state template).map printed
  | .list apiVersion kind scope expression =>
      (selectorOf apiVersion kind scope expression).bind fun selector =>
        result .list (o.list context [.selector selector, .objects []] state)

end Commands

/-! ### Runs -/

/-- The template file of a command. -/
def templateFile? : Command → Option String
  | .mutate _ template _ _ | .get template | .render template => some template.file
  | .list _ _ _ _ => none

/-- The files that a run may read: its configuration and its template. -/
def filesOf (environment : Environment) (words : List String) : List String :=
  match CommandLine.read words with
  | .ok (.run _ command) => Config.path environment :: (templateFile? command).toList
  | _ => []

/-- The variables of the environment that a run may look up. -/
def variableNames : List String :=
  [Config.pathVariable, Config.timeoutVariable, Config.intervalVariable, HttpStore.urlVariable,
    HttpStore.tokenVariable]

/-- What a command line asks for is carried out: on a fresh store in memory, or on the store that the environment
names, behind a network. -/
def invoke (network : Http.Network Cancellations) (surroundings : Surroundings) :
    Invocation → Except Trouble String
  | .version => .ok versionLine
  | .run memory command => do
      let config ← (Config.load surroundings.environment surroundings.files).mapError .config
      let (context, contexts) := Cancellations.none.background
      if memory then
        let o := { Orchestrator.standard MemoryStore.objectStore with config := config, files := surroundings.files }
        execute o context ⟨.empty, contexts, surroundings.now⟩ command
      else
        let store ← (HttpStore.ofEnvironment surroundings.environment.lookup).mapError .store
        let o := { Orchestrator.standard (store.objectStore network) with
          config := config, files := surroundings.files }
        execute o context contexts command

/-- A run of the program: what it prints, or why it prints nothing. -/
def run (network : Http.Network Cancellations) (surroundings : Surroundings) (words : List String) :
    Except Trouble String := do
  let invocation ← (CommandLine.read words).mapError .refused
  invoke network surroundings invocation

end Program

end Converge
