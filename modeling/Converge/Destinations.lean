import Converge.Failure

/-!
# Targets and destinations

A call works on targets: documents with their keys. What comes of them goes to the caller's handles, the
first document to the first handle and so on. The handles also say how many documents are wanted.

## Main Definitions

* `Target` — a document with its key.
* `Destinations` — no handle, one handle or a list of handles.
* `Destinations.wanted` — how many documents the handles ask for.
* `Destinations.check`, `Destinations.store`, `Destinations.refresh` — testing and filling the handles.
* `Destinations.putBack` — the caller's arguments with the filled handles.

## Design Notes

Documents are copied one by one. When a handle refuses its document, those before it have taken theirs.
-/

namespace Converge

/-- A document with its key. -/
structure Target where
  key : ObjectKey
  document : Document

/-- The handles of a call. -/
inductive Destinations where
  | none
  | object (handle : Handle)
  | objects (handles : List Handle)

namespace Destinations

/-- The handles among the slots of a call. -/
def ofOptions (options : Options) : Destinations :=
  match options.object, options.objects with
  | some handle, _ => .object handle
  | Option.none, some handles => .objects handles
  | Option.none, Option.none => .none

/-- The handles in order. -/
def handles : Destinations → List Handle
  | .none => []
  | .object handle => [handle]
  | .objects handles => handles

/-- The same kind of destinations with other handles. -/
def withHandles : Destinations → List Handle → Destinations
  | .object _, handle :: _ => .object handle
  | .objects _, handles => .objects handles
  | destinations, _ => destinations

/-- How many documents the handles ask for. -/
def wanted : Destinations → DocumentCount
  | .object _ => .exactly 1
  | .objects (_ :: others) => .exactly (others.length + 1)
  | _ => .atLeastOne

/-- Fails if a handle refuses its document. -/
def check (copier : Copier) (destinations : Destinations) (targets : List Target) : Except Failure Unit :=
  (targets.zip destinations.handles).forM fun (target, handle) =>
    (copier.check target.document handle).mapError (.copy target.key.display)

/-- Copies documents into handles up to the first that is refused. -/
def deliver (copier : Copier) : List (Target × Document) → List Handle → Except Failure Unit × List Handle
  | (target, document) :: rest, handle :: handles =>
      match copier.copy document handle with
      | .error cause => (.error (.copy target.key.display cause), handle :: handles)
      | .ok filled =>
          let (result, handles) := deliver copier rest handles
          (result, filled :: handles)
  | _, handles => (.ok (), handles)

/-- Copies documents into the handles. An empty list gets a new handle for each document. -/
def store (copier : Copier) (destinations : Destinations) (targets : List Target)
    (documents : List Document) : Except Failure Unit × Destinations :=
  match destinations with
  | .objects [] => (.ok (), .objects (documents.map Handle.ofDocument))
  | destinations =>
      let (result, handles) := deliver copier (targets.zip documents) destinations.handles
      (result, destinations.withHandles handles)

/-- Gives the handle at a position a fresh document. -/
def refresh (destinations : Destinations) (read : Nat × Document) : Destinations :=
  destinations.withHandles (destinations.handles.modify read.1 (·.withState read.2))

/-- The caller's arguments with these handles in place of the given ones. -/
def putBack (destinations : Destinations) (arguments : List Argument) : List Argument :=
  arguments.map fun argument =>
    match argument, destinations with
    | .object _, .object handle => .object handle
    | .objects _, .objects handles => .objects handles
    | argument, _ => argument

end Destinations

end Converge
