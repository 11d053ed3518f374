import Mathlib.Logic.Function.Basic
import ExitLane.Effect.Machine

/-!
# The mutation authority of the supervisor

`container_control.py` grants one writer at a time. `MutationAuthority.exclusive` is
an async context manager around an `asyncio.Lock`; `_handle` runs a client's session
inside it, and `subordinate` runs borrowed operations of the lease holder beside it.
All of this is one event loop, so a step here is what one task does between two
`await`s, and every interleaving of the tasks is a list of actions.

Two points are coarser than the source, both towards more interleavings: any waiter
may take a free lock, and a drain of an empty set is a step of its own.
-/

namespace ExitLane.Control

open Effect

abbrev SessionId := Nat
abbrev OperationId := Nat

/-- `MutationOwner.label`: the app's lease, the two callbacks of the control socket, and the
sections that the supervisor itself enters. -/
inductive Label where
  | acquire
  | backup
  | restore
  | startup
  | restart
  deriving DecidableEq

/-- The codes of `ControlError` that a session can end with. -/
inductive Code where
  | busy
  | expired
  | recoveryRequired
  | invalidRequest
  | invalidRelease
  | operationFailed
  | connectionFailed
  deriving DecidableEq

/-- What can come out of the body of `exclusive` instead of its end. -/
inductive Fault where
  | control (code : Code)
  | timeout
  | cancelled
  | other
  deriving DecidableEq

/-- How a section ended: `ok` is a release or a finished callback. -/
abbrev Result := Except Fault Unit

/-- The argument `reason` of the quiesce callback. -/
inductive Reason where
  | ownerLost
  | operationInterrupted
  deriving DecidableEq

/-- The task `finish_loss`. -/
inductive Loss where
  | draining (snapshot : List OperationId)
  | quiescing
  | quiesced (safe : Bool)
  deriving DecidableEq

/-- The task `_finish_interrupted`: first `_abandon`, then the callback is awaited. -/
inductive Interrupt where
  | quiescing
  | joining (safe : Bool)
  deriving DecidableEq

/-- Where a session waits. `granting` and `leased` are the two awaits of an app's lease,
`operating` the wait for a callback or for the supervisor's own body. -/
inductive Pc where
  | fresh
  | waiting
  | granting
  | leased
  | dispatching
  | operating
  | interrupted (phase : Interrupt) (fault : Fault)
  | settling (result : Result)
  | losing (phase : Loss) (fault : Fault)
  | leaving (snapshot : List OperationId) (result : Result)
  | closing (safe : Option Bool) (result : Result)
  | answering (result : Result)
  | ended

/-- Between the grant and the release of the lock. -/
def Pc.inside : Pc → Bool
  | .fresh | .waiting | .answering _ | .ended => false
  | _ => true

structure Session where
  label : Label
  pc : Pc
  /-- The callback task of `backup` and `restore` is running. -/
  callback : Bool

/-- The task `guarded_operation` of one call of `subordinate`. -/
inductive Phase where
  | absent
  | running
  | cleaning
  | done
  deriving DecidableEq

def Phase.live : Phase → Bool
  | .running | .cleaning => true
  | .absent | .done => false

structure Operation where
  owner : SessionId
  phase : Phase

/-- The fields of `MutationAuthority`, and the tasks of the event loop. -/
structure State where
  lock : Option SessionId
  poisoned : Bool
  owner : Option SessionId
  subordinates : List OperationId
  revoking : Bool
  subordinateFailed : Bool
  session : SessionId → Session
  operation : OperationId → Operation

inductive Event where
  | granted (s : SessionId)
  | lost (s : SessionId)
  | quiesced (s : SessionId) (reason : Reason) (safe : Bool)
  | poisoned
  | began (i : OperationId) (s : SessionId)
  | finished (i : OperationId)
  | left (s : SessionId)
  | acknowledged (s : SessionId)
  deriving DecidableEq

/-! ## The parts of the source between two awaits -/

variable (st : State) (s : SessionId)

def State.goto (pc : Pc) : State :=
  { st with session := Function.update st.session s { st.session s with pc := pc } }

def State.setPhase (i : OperationId) (phase : Phase) : State :=
  { st with operation := Function.update st.operation i { st.operation i with phase := phase } }

def State.setCallback (running : Bool) : State :=
  { st with session := Function.update st.session s { st.session s with callback := running } }

/-- The end of `_abandon`: anything but success poisons the authority. -/
def State.abandon (reason : Reason) (safe : Bool) : State × List Event :=
  if safe then (st, [.quiesced s reason true])
  else ({ st with poisoned := true }, [.poisoned, .quiesced s reason false])

/-- The session owns the authority. -/
def State.enter : State :=
  { st with lock := some s, owner := some s, revoking := false, subordinateFailed := false }

/-- The session gets the lock: `if self._poisoned` and what follows up to the `yield`. -/
def State.grant : State × List Event :=
  if st.poisoned then (st.goto s (.answering (.error (.control .recoveryRequired))), [])
  else
    ((st.enter s).goto s
      (match (st.session s).label with
        | .acquire => .granting
        | .backup | .restore => .dispatching
        | .startup | .restart => .operating), [.granted s])

/-- `except BaseException` of `exclusive`. -/
def State.lose (fault : Fault) : State × List Event :=
  ({ st with revoking := true }.goto s (.losing (.draining st.subordinates) fault), [.lost s])

/-- The outer `finally` of `exclusive`, up to its drain. -/
def State.leave (result : Result) : State :=
  { st with revoking := true }.goto s (.leaving st.subordinates result)

/-- The inner `finally`: the owner is cleared and the lock released. -/
def State.unlock (result : Result) : State × List Event :=
  ({ st with owner := none, lock := none }.goto s (.answering result), [.left s])

/-- The tasks of a drain's `gather` are done. -/
def State.drainedAll (snapshot : List OperationId) : Bool :=
  snapshot.all fun i => (st.operation i).phase == .done

/-- `self._subordinates.difference_update(...)`. -/
def State.prune : State :=
  { st with subordinates := st.subordinates.filter fun i => (st.operation i).phase != .done }

/-- What a lost session raises after `finish_loss`. -/
def lossFault (safe : Bool) (fault : Fault) : Fault :=
  if !safe then .control .recoveryRequired
  else if fault = .timeout then .control .expired
  else fault

/-- The body of a session raises at an await: the callback of a session in `operating` is first
interrupted, and the tasks of the cleanup swallow the cancellation. -/
def State.raiseIn (fault : Fault) : Option (State × List Event) :=
  match (st.session s).pc with
  | .granting | .leased | .dispatching | .settling _ => some (st.lose s fault)
  | .operating =>
    match (st.session s).label with
    | .backup | .restore => some (st.goto s (.interrupted .quiescing fault), [])
    | .acquire | .startup | .restart => some (st.lose s fault)
  | _ => none

/-! ## The actions -/

inductive Action where
  /-- A session of this label reaches `exclusive`. -/
  | arrive (s : SessionId) (label : Label)
  /-- `wait_for` on the lock times out. -/
  | giveUp (s : SessionId)
  | take (s : SessionId)
  /-- The token has been written. -/
  | wrote (s : SessionId)
  /-- The body ends: a valid release frame, or the end of the supervisor's body. -/
  | finish (s : SessionId)
  /-- The body raises. -/
  | fail (s : SessionId) (fault : Fault)
  | cancel (s : SessionId)
  | dispatch (s : SessionId)
  | callbackDone (s : SessionId)
  /-- `asyncio.wait` returns with the callback's result alone. -/
  | collect (s : SessionId)
  /-- The reader task has joined; `valid` is `isinstance(result, dict)`. -/
  | settle (s : SessionId) (valid : Bool)
  | drained (s : SessionId)
  /-- The quiesce callback of this session's cleanup has an outcome. -/
  | quiesced (s : SessionId) (safe : Bool)
  | resume (s : SessionId)
  | answer (s : SessionId)
  | borrow (i : OperationId)
  | operationDone (i : OperationId)
  | operationFailed (i : OperationId)
  | operationQuiesced (i : OperationId) (safe : Bool)
  | discard (i : OperationId)
  | requireRecovery

/-- The end of a drain: another round, or what follows it. -/
def State.afterDrain : Option (State × List Event) :=
  match (st.session s).pc with
  | .losing (.draining snapshot) fault =>
    if st.drainedAll snapshot then
      let st' := st.prune
      if st'.subordinates.isEmpty then some (st'.goto s (.losing .quiescing fault), [])
      else some (st'.goto s (.losing (.draining st'.subordinates) fault), [])
    else none
  | .leaving snapshot result =>
    if st.drainedAll snapshot then
      let st' := st.prune
      if st'.subordinates.isEmpty then
        if st'.subordinateFailed then some (st'.goto s (.closing none result), [])
        else some (st'.unlock s result)
      else some (st'.goto s (.leaving st'.subordinates result), [])
    else none
  | _ => none

/-- A session's own quiesce has an outcome. -/
def State.afterQuiesce (safe : Bool) : Option (State × List Event) :=
  match (st.session s).pc with
  | .interrupted .quiescing fault =>
    let (st', new) := st.abandon s .operationInterrupted safe
    some (st'.goto s (.interrupted (.joining safe) fault), new)
  | .losing .quiescing fault =>
    let (st', new) := st.abandon s .ownerLost safe
    some (st'.goto s (.losing (.quiesced safe) fault), new)
  | .closing none result =>
    let (st', new) := st.abandon s .operationInterrupted safe
    some (st'.goto s (.closing (some safe) result), new)
  | _ => none

/-- A session goes on after a cleanup task that is done. -/
def State.afterCleanup : Option (State × List Event) :=
  match (st.session s).pc with
  | .interrupted (.joining safe) fault =>
    if (st.session s).callback then none
    else
      let raised := if safe then fault else .control .recoveryRequired
      some (st.goto s (.settling (.error raised)), [])
  | .losing (.quiesced safe) fault => some (st.leave s (.error (lossFault safe fault)), [])
  | .closing (some safe) result =>
    some (st.unlock s (if safe then result else .error (.control .recoveryRequired)))
  | _ => none

/-- What a task does when the event loop runs it next. -/
def step : Action → Option (State × List Event)
  | .arrive s label =>
    match (st.session s).pc with
    | .fresh =>
      some ({ st with session := Function.update st.session s ⟨label, .waiting, false⟩ }, [])
    | _ => none
  | .giveUp s =>
    match (st.session s).pc with
    | .waiting => some (st.goto s (.answering (.error (.control .busy))), [])
    | _ => none
  | .take s =>
    match (st.session s).pc, st.lock with
    | .waiting, none => some (st.grant s)
    | _, _ => none
  | .wrote s =>
    match (st.session s).pc with
    | .granting => some (st.goto s .leased, [])
    | _ => none
  | .finish s =>
    match (st.session s).pc, (st.session s).label with
    | .leased, _ | .operating, .startup | .operating, .restart => some (st.leave s (.ok ()), [])
    | _, _ => none
  | .fail s fault => st.raiseIn s fault
  | .cancel s =>
    match (st.session s).pc with
    | .waiting => some (st.goto s (.answering (.error .cancelled)), [])
    | .answering _ => some (st.goto s .ended, [])
    | _ => st.raiseIn s .cancelled
  | .dispatch s =>
    match (st.session s).pc with
    | .dispatching => some ((st.setCallback s true).goto s .operating, [])
    | _ => none
  | .callbackDone s =>
    if (st.session s).callback then some (st.setCallback s false, []) else none
  | .collect s =>
    match (st.session s).pc, (st.session s).callback, (st.session s).label with
    | .operating, false, .backup | .operating, false, .restore =>
      some (st.goto s (.settling (.ok ())), [])
    | _, _, _ => none
  | .settle s valid =>
    match (st.session s).pc with
    | .settling (.ok ()) =>
      if valid then some (st.leave s (.ok ()), [])
      else some (st.lose s (.control .operationFailed))
    | .settling (.error fault) => some (st.lose s fault)
    | _ => none
  | .drained s => st.afterDrain s
  | .quiesced s safe => st.afterQuiesce s safe
  | .resume s => st.afterCleanup s
  | .answer s =>
    match (st.session s).pc, (st.session s).label with
    | .answering _, .startup | .answering _, .restart => some (st.goto s .ended, [])
    | .answering (.ok ()), _ => some (st.goto s .ended, [.acknowledged s])
    | .answering (.error _), _ => some (st.goto s .ended, [])
    | _, _ => none
  | .borrow i =>
    match st.owner, (st.operation i).phase with
    | some s, .absent =>
      if (st.session s).label = .acquire ∧ st.poisoned = false ∧ st.revoking = false then
        some ({ st with
          subordinates := i :: st.subordinates
          operation := Function.update st.operation i ⟨s, .running⟩ }, [.began i s])
      else none
    | _, _ => none
  | .operationDone i =>
    match (st.operation i).phase with
    | .running => some (st.setPhase i .done, [.finished i])
    | _ => none
  | .operationFailed i =>
    match (st.operation i).phase with
    | .running =>
      some ({ st with revoking := true, subordinateFailed := true }.setPhase i .cleaning, [])
    | _ => none
  | .operationQuiesced i safe =>
    match (st.operation i).phase with
    | .cleaning =>
      let (st', new) := st.abandon (st.operation i).owner .operationInterrupted safe
      some (st'.setPhase i .done, .finished i :: new)
    | _ => none
  | .discard i =>
    match (st.operation i).phase with
    | .done => some ({ st with subordinates := st.subordinates.erase i }, [])
    | _ => none
  | .requireRecovery => some ({ st with poisoned := true }, [.poisoned])

/-- `MutationAuthority.__init__`; no session has arrived yet. -/
def initial : State where
  lock := none
  poisoned := false
  owner := none
  subordinates := []
  revoking := false
  subordinateFailed := false
  session := fun _ => ⟨.acquire, .fresh, false⟩
  operation := fun _ => ⟨0, .absent⟩

/-- The authority with all its sessions and borrowed operations. -/
def authority : Machine State Action Event := ⟨initial, step⟩

end ExitLane.Control
