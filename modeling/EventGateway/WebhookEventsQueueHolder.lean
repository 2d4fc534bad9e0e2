import EventGateway.LabelledSteps
import Mathlib.Data.List.Basic
import Mathlib.Data.List.Nodup
import Mathlib.Data.List.Perm.Basic
import Mathlib.Logic.Function.Basic

/-!
The holder of the BullMQ queue, under every interleaving of publishers, error events
and shutdown at the points where the code awaits. Its callbacks for the logger are left out.
-/

namespace EventGateway.WebhookEventsQueueHolder

open LabelledSteps

inductive HolderError
  | destroyed
  | construction
  | add
deriving DecidableEq

/-- The fields of the service, and what has happened so far: the instances built, the calls of `close()`
and those of `markPoisoned`. While `recreatePromise` is pending it keeps its `queueToReplace`. -/
structure Holder (ν : Type) where
  currentQueue : Option ν
  poisoned : Bool
  recreatePromise : Option (Option ν)
  destroyed : Bool
  created : List ν
  closed : List ν
  marked : List ν

section Code

variable {ν : Type} [DecidableEq ν]

def markPoisoned (h : Holder ν) (queue : ν) : Holder ν :=
  { h with
    poisoned := if h.currentQueue = some queue then true else h.poisoned
    marked := queue :: h.marked }

/-- `built` is what the constructor of the queue comes to: an instance, or an exception. -/
def replaceQueue (h : Holder ν) (oldQueue built : Option ν) : Except HolderError (ν × Holder ν) :=
  if h.destroyed then .error .destroyed
  else
    match built with
    | none => .error .construction
    | some newQueue => .ok (newQueue,
      { h with
        currentQueue := some newQueue
        poisoned := false
        created := newQueue :: h.created
        closed := (oldQueue.filter (fun old => old ≠ newQueue)).toList ++ h.closed })

def getQueue (h : Holder ν) (built : Option ν) : Except HolderError (ν × Holder ν) :=
  if h.destroyed then .error .destroyed
  else
    match h.currentQueue, h.poisoned with
    | some queue, false => .ok (queue, h)
    | _, _ => replaceQueue h h.currentQueue built

def recreateQueue (h : Holder ν) (queueToReplace : Option ν) : Except HolderError (Holder ν) :=
  if h.destroyed then .error .destroyed
  else
    match h.recreatePromise with
    | some _ => .ok h
    | none => .ok { h with recreatePromise := some queueToReplace }

/-- The instance, or `none` where the caller awaits `recreatePromise`. -/
def getHealthyQueueForPublish (h : Holder ν) : Except HolderError (Option ν × Holder ν) :=
  if h.destroyed then .error .destroyed
  else
    match h.currentQueue, h.poisoned with
    | some queue, false => .ok (some queue, h)
    | _, _ => (recreateQueue h h.currentQueue).map (fun h' => (none, h'))

def recreateCallback (h : Holder ν) (queueToReplace built : Option ν) : Except HolderError (ν × Holder ν) :=
  match queueToReplace, h.currentQueue with
  | some old, some current =>
    if current ≠ old ∧ h.poisoned = false then .ok (current, h) else replaceQueue h h.currentQueue built
  | _, _ => replaceQueue h h.currentQueue built

def recreate (h : Holder ν) (queueToReplace built : Option ν) : Except HolderError ν × Holder ν :=
  match recreateCallback h queueToReplace built with
  | .ok (queue, h') => (.ok queue, { h' with recreatePromise := none })
  | .error error => (.error error, { h with recreatePromise := none })

def takeQueue (h : Holder ν) : Holder ν :=
  { h with currentQueue := none, poisoned := false, closed := h.currentQueue.toList ++ h.closed }

end Code

inductive AddOutcome
  | pending
  | resolved
  | rejected
deriving DecidableEq

/-- Where a call of `addProcessWebhookEvent` stands: at an `await` that is not settled (`awaits…`, `adds…`),
or at one that is and from which it has not gone on. -/
inductive Phase (ν : Type)
  | idle
  | awaitsFirst
  | hasFirst (firstQueue : ν)
  | addsFirst (firstQueue : ν)
  | awaitsRecreation (firstQueue : ν)
  | recreated (firstQueue : ν)
  | awaitsRetry (firstQueue : ν)
  | hasRetry (firstQueue retryQueue : ν)
  | addsRetry (firstQueue retryQueue : ν)
  | resolved
  | rejected (error : HolderError)

structure PublishCall (ν : Type) where
  phase : Phase ν
  adds : List (ν × AddOutcome)

inductive DestroyPhase
  | idle
  | awaitsRecreation
  | closing
  | resolved
  | rejected
deriving DecidableEq

structure System (ν κ : Type) where
  holder : Holder ν
  publishes : κ → PublishCall ν
  destroys : κ → DestroyPhase

inductive Label (ν κ : Type)
  | getQueue (built : Option ν)
  | publish (call : κ)
  | resume (call : κ)
  | addSettles (call : κ) (resolves : Bool)
  | error (queue : ν)
  | recreate (built : Option ν)
  | destroy (call : κ)
  | destroyResumes (call : κ)
  | closeSettles (call : κ) (resolves : Bool)

section Steps

variable {ν κ : Type} [DecidableEq ν] [DecidableEq κ]

def System.initial : System ν κ where
  holder := ⟨none, false, none, false, [], [], []⟩
  publishes := fun _ => ⟨.idle, []⟩
  destroys := fun _ => .idle

def isFresh (h : Holder ν) (built : Option ν) : Bool := built.all (fun queue => !h.created.contains queue)

def publishStarts (call : PublishCall ν) (h : Holder ν) (has : ν → Phase ν) (awaits : Phase ν) :
    PublishCall ν × Holder ν :=
  match getHealthyQueueForPublish h with
  | .ok (some queue, h') => ({ call with phase := has queue }, h')
  | .ok (none, h') => ({ call with phase := awaits }, h')
  | .error error => ({ call with phase := .rejected error }, h)

def publishResumes (call : PublishCall ν) (h : Holder ν) : Option (PublishCall ν × Holder ν) :=
  match call.phase with
  | .hasFirst firstQueue => some (⟨.addsFirst firstQueue, call.adds ++ [(firstQueue, .pending)]⟩, h)
  | .recreated firstQueue => some (publishStarts call h (.hasRetry firstQueue) (.awaitsRetry firstQueue))
  | .hasRetry firstQueue retryQueue =>
    some (⟨.addsRetry firstQueue retryQueue, call.adds ++ [(retryQueue, .pending)]⟩, h)
  | _ => none

def publishAddSettles (call : PublishCall ν) (h : Holder ν) (resolves : Bool) : Option (PublishCall ν × Holder ν) :=
  match call.phase with
  | .addsFirst firstQueue =>
    if resolves then some (⟨.resolved, call.adds.dropLast ++ [(firstQueue, .resolved)]⟩, h)
    else
      let adds := call.adds.dropLast ++ [(firstQueue, .rejected)]
      match recreateQueue (markPoisoned h firstQueue) (some firstQueue) with
      | .ok h' => some (⟨.awaitsRecreation firstQueue, adds⟩, h')
      | .error error => some (⟨.rejected error, adds⟩, markPoisoned h firstQueue)
  | .addsRetry _ retryQueue =>
    if resolves then some (⟨.resolved, call.adds.dropLast ++ [(retryQueue, .resolved)]⟩, h)
    else some (⟨.rejected .add, call.adds.dropLast ++ [(retryQueue, .rejected)]⟩, markPoisoned h retryQueue)
  | _ => none

def promiseSettles (result : Except HolderError ν) : Phase ν → Phase ν
  | .awaitsFirst =>
    match result with
    | .ok queue => .hasFirst queue
    | .error error => .rejected error
  | .awaitsRecreation firstQueue =>
    match result with
    | .ok _ => .recreated firstQueue
    | .error error => .rejected error
  | .awaitsRetry firstQueue =>
    match result with
    | .ok queue => .hasRetry firstQueue queue
    | .error error => .rejected error
  | phase => phase

def destroyTakes (s : System ν κ) (call : κ) : System ν κ :=
  { s with
    holder := takeQueue s.holder
    destroys := Function.update s.destroys call (if s.holder.currentQueue.isSome then .closing else .resolved) }

def step (s : System ν κ) : Label ν κ → Option (System ν κ)
  | .getQueue built =>
    if isFresh s.holder built then
      match getQueue s.holder built with
      | .ok (_, h) => some { s with holder := h }
      | .error _ => some s
    else none
  | .publish call =>
    match (s.publishes call).phase with
    | .idle =>
      let (publish, h) := publishStarts (s.publishes call) s.holder .hasFirst .awaitsFirst
      some { s with holder := h, publishes := Function.update s.publishes call publish }
    | _ => none
  | .resume call =>
    (publishResumes (s.publishes call) s.holder).map fun (publish, h) =>
      { s with holder := h, publishes := Function.update s.publishes call publish }
  | .addSettles call resolves =>
    (publishAddSettles (s.publishes call) s.holder resolves).map fun (publish, h) =>
      { s with holder := h, publishes := Function.update s.publishes call publish }
  | .error queue => if queue ∈ s.holder.created then some { s with holder := markPoisoned s.holder queue } else none
  | .recreate built =>
    match s.holder.recreatePromise with
    | some queueToReplace =>
      if isFresh s.holder built then
        let (result, h) := recreate s.holder queueToReplace built
        some { s with
          holder := h
          publishes := fun call => { s.publishes call with phase := promiseSettles result (s.publishes call).phase } }
      else none
    | none => none
  | .destroy call =>
    if s.destroys call = .idle then
      let s' := { s with holder := { s.holder with destroyed := true } }
      if s.holder.recreatePromise.isSome then
        some { s' with destroys := Function.update s.destroys call .awaitsRecreation }
      else some (destroyTakes s' call)
    else none
  | .destroyResumes call =>
    if s.destroys call = .awaitsRecreation ∧ s.holder.recreatePromise = none then some (destroyTakes s call) else none
  | .closeSettles call resolves =>
    if s.destroys call = .closing then
      some { s with destroys := Function.update s.destroys call (if resolves then .resolved else .rejected) }
    else none

def machine (ν κ : Type) [DecidableEq ν] [DecidableEq κ] : Machine (System ν κ) (Label ν κ) := ⟨.initial, step⟩

end Steps

end EventGateway.WebhookEventsQueueHolder
