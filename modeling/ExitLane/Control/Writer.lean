import ExitLane.Effect.Machine

/-!
# Writers that keep the lease of a cancelled caller

`runtime_mutation.py`: `finish_writer` runs an operation as a task of its own and waits for it
behind `asyncio.shield`. `RuntimeMutationMiddleware` awaits it inside the mutation context, so that
a request that is cancelled keeps its lease until the application has ended.

A step is what happens between two awaits. The event loop is spelled out as far as it matters: a
cancellation of the caller cancels the future that it awaits, or is remembered for its next step if
that future is done already, and the shield passes the end of the task on in a callback of its own.
-/

namespace ExitLane.Control.Writer

open Effect

variable {α ε : Type}

/-- How a coroutine ends. -/
inductive Ending (α ε : Type) where
  | returned (value : α)
  /-- With an `Exception`. -/
  | failed (error : ε)
  /-- With another `BaseException` that is not a cancellation. -/
  | escaped (error : ε)
  | cancelled
  deriving DecidableEq

/-- The two awaits of `finish_writer`. -/
inductive Await where
  | first
  | again
  deriving DecidableEq

/-- What an await waits for. A cancellation of the caller is passed on to a task that it awaits, and
stops at the future of a shield. -/
inductive Awaited where
  | task
  | shield

def Await.awaited : Await → Awaited
  | .first => .shield
  | .again => .shield

/-- Where the request is. -/
inductive Phase (α ε : Type) where
  | outside
  /-- At an await of the future of `shield`, which is `none` while it is pending. -/
  | waiting (place : Await) (future : Option (Ending α ε)) (mustCancel : Bool)
  /-- `finish_writer` has ended, inside the mutation context. -/
  | ended (outcome : Ending α ε)
  /-- The mutation context has been exited. -/
  | left (outcome : Ending α ε)
  deriving DecidableEq

/-- The application task, `none` until it is done, whether its cancellation was requested, and the
request that created it. -/
structure State (α ε : Type) where
  task : Option (Ending α ε)
  requested : Bool
  phase : Phase α ε
  deriving DecidableEq

inductive Action (α ε : Type) where
  /-- The mutation context is entered and the task created. -/
  | enter
  | finish (ending : Ending α ε)
  /-- The callback of the shield on the task. -/
  | notify
  | cancel
  | wake
  | leave

inductive Event (α ε : Type) where
  | cancelled
  | finished (ending : Ending α ε)
  deriving DecidableEq

/-- The `while` loop of the handler; its end raises the cancellation again. -/
def await (task : Option (Ending α ε)) : Phase α ε :=
  if task.isSome then .ended .cancelled else .waiting .again none false

/-- The code after an await. -/
def resume (task : Option (Ending α ε)) : Await → Ending α ε → Phase α ε
  | .first, .cancelled => await task
  | .first, ending => .ended ending
  | .again, .failed _ => .ended .cancelled
  | .again, .escaped error => .ended (.escaped error)
  | .again, .returned _ | .again, .cancelled => await task

def step (s : State α ε) : Action α ε → Option (State α ε × List (Event α ε))
  | .enter => match s.phase with
    | .outside => some (⟨none, false, .waiting .first none false⟩, [])
    | _ => none
  | .finish ending => match s.phase, s.task with
    | .outside, _ | _, some _ => none
    | phase, none => some ({ s with task := some ending, phase := phase }, [.finished ending])
  | .notify => match s.phase, s.task with
    | .waiting place none mustCancel, some ending =>
      some ({ s with phase := .waiting place (some ending) mustCancel }, [])
    | _, _ => none
  | .cancel => match s.phase with
    | .waiting place none mustCancel => match place.awaited with
      | .shield =>
        some ({ s with phase := .waiting place (some .cancelled) mustCancel }, [.cancelled])
      | .task => some ({ s with requested := true }, [.cancelled])
    | .waiting place (some ending) _ =>
      some ({ s with phase := .waiting place (some ending) true }, [.cancelled])
    | _ => none
  | .wake => match s.phase with
    | .waiting place (some ending) mustCancel =>
      some ({ s with phase := resume s.task place (if mustCancel then .cancelled else ending) }, [])
    | _ => none
  | .leave => match s.phase with
    | .ended outcome => some ({ s with phase := .left outcome }, [])
    | _ => none

def machine (α ε : Type) : Machine (State α ε) (Action α ε) (Event α ε) :=
  ⟨⟨none, false, .outside⟩, step⟩

/-! ## What the caller gets -/

/-- The end of the task; or for a cancelled caller the cancellation, which only a `BaseException`
of the task can replace. -/
def Fits (cancelled : Prop) (ending outcome : Ending α ε) : Prop :=
  (¬cancelled → outcome = ending) ∧ (cancelled → outcome = .cancelled ∨
    ∃ error, ending = .escaped error ∧ outcome = .escaped error)

/-- What is known at each phase, if the task and the past cancellations of the caller are these. -/
def Good (task : Option (Ending α ε)) (cancelled : Prop) : Phase α ε → Prop
  | .outside => ¬cancelled
  | .waiting place future mustCancel =>
    -- the future has the end of the task, if it was not cancelled itself
    (∀ ending, future = some ending → ending = .cancelled ∧ cancelled ∨ task = some ending) ∧
    (mustCancel = true ∨ place = .again → cancelled) ∧
    (place = .first → cancelled → future = some .cancelled ∨ mustCancel = true)
  | .ended outcome | .left outcome => ∃ ending, task = some ending ∧ Fits cancelled ending outcome

variable {task : Option (Ending α ε)} {cancelled : Prop}

/-- The loop ends with the cancellation, and only after the task. -/
theorem good_await (hpending : task = none → cancelled)
    (hdone : ∀ ending, task = some ending → ¬cancelled → ending = .cancelled) :
    Good task cancelled (await task) := by
  cases task with
  | none =>
    have hc := hpending rfl
    exact ⟨nofun, fun _ => hc, nofun⟩
  | some ending =>
    refine ⟨ending, rfl, fun hno => ?_, fun _ => .inl rfl⟩
    exact (hdone ending rfl hno).symm

theorem good_resume {place : Await} {ending : Ending α ε} {mustCancel : Bool}
    (h : Good task cancelled (.waiting place (some ending) mustCancel)) :
    Good task cancelled (resume task place (if mustCancel then .cancelled else ending)) := by
  obtain ⟨hfuture, hcancelled, hfirst⟩ := h
  replace hfuture := hfuture ending rfl
  cases place with
  | again =>
    have hc : cancelled := hcancelled (.inr rfl)
    have hawait : Good task cancelled (await task) :=
      good_await (fun _ => hc) fun _ _ hno => absurd hc hno
    cases mustCancel with
    | true => exact hawait
    | false =>
      cases ending with
      | returned value => exact hawait
      | cancelled => exact hawait
      | failed error =>
        have htask := hfuture.resolve_left (by simp)
        exact ⟨_, htask, fun hno => absurd hc hno, fun _ => .inl rfl⟩
      | escaped error =>
        have htask := hfuture.resolve_left (by simp)
        exact ⟨_, htask, fun hno => absurd hc hno, fun _ => .inr ⟨error, rfl, rfl⟩⟩
  | first =>
    cases mustCancel with
    | true =>
      have hc : cancelled := hcancelled (.inl rfl)
      exact good_await (fun _ => hc) fun _ _ hno => absurd hc hno
    | false =>
      cases ending with
      | cancelled =>
        -- either the caller was cancelled, or the task
        refine good_await (fun hnone => ?_) fun other hother hno => ?_
        · rcases hfuture with ⟨-, hc⟩ | htask
          · exact hc
          · rw [hnone] at htask
            cases htask
        · rcases hfuture with ⟨-, hc⟩ | htask
          · exact absurd hc hno
          · rw [hother] at htask
            cases htask
            rfl
      | _ =>
        have htask := hfuture.resolve_left (by simp)
        have hno : ¬cancelled := fun hc => by simpa using hfirst rfl hc
        exact ⟨_, htask, fun _ => rfl, fun hc => absurd hc hno⟩

/-- A delivered cancellation is not lost. -/
theorem good_cancel {place : Await} {future : Option (Ending α ε)} {mustCancel : Bool}
    (h : Good task cancelled (.waiting place future mustCancel)) :
    Good task True
      (.waiting place (some (future.getD .cancelled)) (future.isSome || mustCancel)) := by
  obtain ⟨hfuture, -, -⟩ := h
  cases future with
  | none =>
    refine ⟨fun _ he => .inl ⟨?_, trivial⟩, fun _ => trivial, fun _ _ => .inl rfl⟩
    exact (Option.some.inj he).symm
  | some ending =>
    refine ⟨fun other he => ?_, fun _ => trivial, fun _ _ => .inr rfl⟩
    exact (hfuture other he).imp_left fun h => ⟨h.1, trivial⟩

theorem good_step {s s' : State α ε} {past new : List (Event α ε)} {a : Action α ε}
    (h : Good s.task (.cancelled ∈ past) s.phase) (hstep : step s a = some (s', new)) :
    Good s'.task (.cancelled ∈ new ++ past) s'.phase := by
  obtain ⟨task, requested, phase⟩ := s
  cases a with
  | enter =>
    cases phase <;> cases hstep
    exact ⟨nofun, by simp, fun _ hc => absurd hc h⟩
  | finish ending =>
    -- nothing of the request refers to a task that is still running
    cases task with
    | some _ => cases phase <;> cases hstep
    | none =>
      cases phase with
      | outside => cases hstep
      | waiting place future mustCancel =>
        cases hstep
        obtain ⟨hfuture, hrest⟩ := h
        refine ⟨fun e he => ?_, by simpa using hrest⟩
        exact .inl (by simpa using (hfuture e he).resolve_right nofun)
      | ended outcome => exact absurd h.choose_spec.1 nofun
      | left outcome => exact absurd h.choose_spec.1 nofun
  | notify =>
    rcases phase with _ | ⟨place, _ | _, mustCancel⟩ | _ | _ <;> rcases task with _ | ending <;>
      cases hstep
    obtain ⟨-, hcancelled, hfirst⟩ := h
    exact ⟨fun _ he => .inr he, hcancelled, fun hp hc => .inr ((hfirst hp hc).resolve_left nofun)⟩
  | cancel =>
    rcases phase with _ | ⟨_ | _, _ | ending, mustCancel⟩ | _ | _ <;> cases hstep <;>
      simpa using good_cancel h
  | wake =>
    rcases phase with _ | ⟨place, _ | ending, mustCancel⟩ | _ | _ <;> cases hstep
    exact good_resume h
  | leave =>
    cases phase <;> cases hstep
    exact h

theorem good_run {s : State α ε} {past : List (Event α ε)} (hrun : (machine α ε).Run s past) :
    Good s.task (.cancelled ∈ past) s.phase := by
  induction hrun with
  | start => exact List.not_mem_nil
  | next _ hstep ih => exact good_step ih hstep

/-- Neither await passes a cancellation on. -/
theorem step_requested {s s' : State α ε} {new : List (Event α ε)} {a : Action α ε}
    (h : s.requested = false) (hstep : step s a = some (s', new)) : s'.requested = false := by
  obtain ⟨task, requested, phase⟩ := s
  obtain rfl : requested = false := h
  cases a <;> rcases phase with _ | ⟨_ | _, _ | _, _⟩ | _ | _ <;> cases task <;> cases hstep <;>
    rfl

theorem requested_run {s : State α ε} {past : List (Event α ε)} (hrun : (machine α ε).Run s past) :
    s.requested = false := by
  induction hrun with
  | start => rfl
  | next _ hstep ih => exact step_requested ih hstep

/-- In every run a writer ends, and its mutation context is left, only after the task. A caller that
was not cancelled gets the end of the task, and a cancelled one the cancellation, unless the task
ended with a `BaseException` that is not an `Exception`. No cancellation reaches the task. -/
theorem writer_outlives_cancellation {s : State α ε} {past : List (Event α ε)}
    (hrun : (machine α ε).Run s past) :
    (∀ outcome, s.phase = .ended outcome ∨ s.phase = .left outcome →
      ∃ ending, s.task = some ending ∧ Fits (.cancelled ∈ past) ending outcome) ∧
    s.requested = false ∧ ∀ s' new, step s .cancel = some (s', new) → s'.task = s.task := by
  have hgood := good_run hrun
  refine ⟨fun outcome hphase => ?_, requested_run hrun, fun s' new hstep => ?_⟩
  · rcases hphase with hphase | hphase <;> rw [hphase] at hgood <;> exact hgood
  · obtain ⟨task, requested, phase⟩ := s
    rcases phase with _ | ⟨_ | _, _ | _, _⟩ | _ | _ <;> cases hstep <;> rfl

/-- The caller is cancelled, and the task fails while the loop waits for it again. -/
theorem run_cancelled_failed :
    (machine Unit Unit).Run ⟨some (.failed ()), false, .left .cancelled⟩
      [.finished (.failed ()), .cancelled] :=
  Machine.Run.start.drive (show (machine Unit Unit).drive
    [.enter, .cancel, .wake, .finish (.failed ()), .notify, .wake, .leave] _ [] = _ from rfl)

theorem cancelled_failed_outlives :
    ∃ ending, some (.failed ()) = some ending ∧
      Fits (.cancelled ∈ [Event.finished (.failed ()), (.cancelled : Event Unit Unit)]) ending
        (.cancelled : Ending Unit Unit) :=
  (writer_outlives_cancellation run_cancelled_failed).1 _ (.inr rfl)

/-- A task that fails with another `BaseException` there ends the loop with it. -/
theorem run_cancelled_escaped :
    (machine Unit Unit).Run ⟨some (.escaped ()), false, .left (.escaped ())⟩
      [.finished (.escaped ()), .cancelled] :=
  Machine.Run.start.drive (show (machine Unit Unit).drive
    [.enter, .cancel, .wake, .finish (.escaped ()), .notify, .wake, .leave] _ [] = _ from rfl)

end ExitLane.Control.Writer
