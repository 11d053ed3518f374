import ExitLane.Peers.Invariant

/-!
# `_change` under failures

A peer mutation writes its files one by one, synchronizes the runtime and commits.
Any of these steps may raise; `_change` then rolls the transaction back and
restores the old texts in a task of its own that the caller's cancellations do
not reach (`driveRollback_finish`).

`change_allOrNothing_iff` says exactly when a run is all-or-nothing. Two things
can go wrong. The old texts were read with newline translation, so a file that
held a carriage return is not restored to its bytes; and an error of the SQL
rollback is not turned into `wireguard_rollback_failed`, and skips the files.
-/

namespace ExitLane.Peers
open Python IpAddress
open Effect (bind_eq_ok forM_eq_ok)

/-! ## Failing steps -/

/-- How one file operation fails: instead of its effect, or after it (the `chmod`
that follows the replacement). -/
inductive Failure where
  | before (e : Raised)
  | after (e : Raised)

/-- What each step of one run of `_change` does. -/
structure Faults where
  /-- The calls of the operation itself: commands, SQL statements, reads. -/
  operation : Option Raised
  /-- The file operation at each position of `_new_files`. -/
  write : Nat → Option Failure
  sync : Option Raised
  /-- `connection.commit()`; a commit that raises has not happened. -/
  commit : Option Raised
  /-- `connection.rollback()` raises an `sqlite3.Error`. -/
  sqlRollback : Bool
  /-- The rollback of the connection's context manager raises one. -/
  exitRollback : Bool
  /-- The file operation at each position of `_old_files`. -/
  restore : Nat → Option Failure
  resync : Option Raised
  /-- The caller's cancellations and the task's steps, as they interleave. -/
  events : List Bool

/-- One replacement or removal, with the exception it raises. -/
def writeFile (files : Files) (name : Text) (content : Option Text) :
    Option Failure → Files × Option Raised
  | none => (setFile files name content, none)
  | some (.before e) => (files, some e)
  | some (.after e) => (setFile files name content, some e)

/-- The write loop: it stops at the first exception. -/
def writeFiles (fail : Nat → Option Failure) :
    Nat → Files → List (Text × Option Text) → Files × Option Raised
  | _, files, [] => (files, none)
  | k, files, (name, content) :: rest =>
    match writeFile files name content (fail k) with
    | (files, some e) => (files, some e)
    | (files, none) => writeFiles fail (k + 1) files rest

/-! ## The rollback task -/

/-- `restore_previous`, between two of its steps. -/
inductive Task where
  | restoring (k : Nat) (files : Files) (rest : List (Text × Option Text))
  | done (files : Files) (raised : Option Raised)

variable (f : Faults) (syncs : Bool)

/-- One step of the task; the runtime is synchronized after the last file. -/
def Task.step : Task → Task
  | .restoring k files ((name, content) :: rest) =>
    match writeFile files name content (f.restore k) with
    | (files, some e) => .done files (some e)
    | (files, none) => .restoring (k + 1) files rest
  | .restoring _ files [] => .done files (if syncs then f.resync else none)
  | .done files raised => .done files raised

/-- The task run to its end. -/
def Task.finish : Task → Files × Option Raised
  | .restoring k files rest =>
    match writeFiles f.restore k files rest with
    | (files, some e) => (files, some e)
    | (files, none) => (files, if syncs then f.resync else none)
  | .done files raised => (files, raised)

/-- The caller's loop around `asyncio.shield`. An event is a step of the task
(`true`) or a cancellation of the caller (`false`), after which it waits on. -/
def driveRollback : List Bool → Task → Task
  | [], task => task
  | true :: events, task => driveRollback events (task.step f syncs)
  | false :: events, task => driveRollback events task

theorem Task.finish_step (task : Task) :
    (task.step f syncs).finish f syncs = task.finish f syncs := by
  cases task with
  | done files raised => rfl
  | restoring k files rest =>
    cases rest with
    | nil => rfl
    | cons item rest =>
      obtain ⟨name, content⟩ := item
      simp only [Task.step, Task.finish, writeFiles]
      cases writeFile files name content (f.restore k) with
      | mk files raised =>
        cases raised with
        | none => rfl
        | some e => rfl

/-- Cancellations that arrive during the rollback change nothing about it. -/
theorem driveRollback_finish (events : List Bool) (task : Task) :
    (driveRollback f syncs events task).finish f syncs = task.finish f syncs := by
  induction events generalizing task with
  | nil => rfl
  | cons event events ih =>
    cases event with
    | false => exact ih task
    | true =>
      rw [driveRollback, ih, Task.finish_step]

/-! ## `_change` -/

/-- Which exceptions `except Exception` catches. -/
def Raised.isException : Raised → Bool
  | .peerError _ => true
  | .exception => true
  | .cancelled => false
  | .baseException => false

/-- What the caller sees of the exception that started the rollback. -/
def Raised.report : Raised → Raised
  | .exception => .peerError .mutationFailed
  | e => e

structure Outcome where
  result : Except Raised Change
  store : Store
  /-- Whether a rollback step raised. -/
  rollbackRaised : Bool

/-- The handler of `_change`. -/
def rollBack (s : Store) (c : Change) (files : Files) (e : Raised) : Outcome :=
  if f.sqlRollback then ⟨.error .exception, { s with files := files }, true⟩
  else
    match (driveRollback f syncs f.events (.restoring 0 files c.oldFiles)).finish f syncs with
    | (files, none) => ⟨.error e.report, { s with files := files }, false⟩
    | (files, some e') =>
      ⟨.error (if e'.isException then .peerError .rollbackFailed else e'),
        { s with files := files }, true⟩

/-- The body of `_change` once the operation has returned. -/
def publish (s : Store) (c : Change) : Outcome :=
  match writeFiles f.write 0 s.files c.newFiles with
  | (files, some e) => rollBack f syncs s c files e
  | (files, none) =>
    match (if syncs then f.sync else none) with
    | some e => rollBack f syncs s c files e
    | none =>
      match f.commit with
      | some e => rollBack f syncs s c files e
      | none => ⟨.ok c, { s with table := c.table, files := files }, false⟩

/-- `_path(interface) in new_files`. -/
def syncsFor (interface : Text) (c : Change) : Bool :=
  c.newFiles.any fun item => item.1 == interface

/-- Validation and operation, either of which may be cut short. -/
def operate (w : Platform) (interface : Text) (d : Draw) (op : Operation) (s : Store) :
    Except Raised Change :=
  match f.operation with
  | some e => .error e
  | none => plan w interface d s op

/-- `_change`. When the operation raises, only the connection's context manager rolls
back. -/
def change (w : Platform) (interface : Text) (d : Draw) (op : Operation) (s : Store) : Outcome :=
  match operate f w interface d op s with
  | .error e => ⟨.error (if f.exitRollback then .exception else e), s, f.exitRollback⟩
  | .ok c => publish f (syncsFor interface c) s c

/-- The operations that go through `_change`. -/
def Operation.changes : Operation → Bool
  | .create _ _ => true
  | .regenerate _ => true
  | .revoke _ => true
  | .update _ _ _ => false
  | .delete _ => false

/-! ## What the two loops write -/

/-- The exception that a write loop over the listed files raises. -/
def writeRaised (fail : Nat → Option Failure) : Nat → List (Text × Option Text) → Option Raised
  | _, [] => none
  | k, _ :: rest =>
    match fail k with
    | some (.before e) => some e
    | some (.after e) => some e
    | none => writeRaised fail (k + 1) rest

variable {f syncs}

theorem writeFiles_raised (fail : Nat → Option Failure) (items : List (Text × Option Text)) :
    ∀ k files, (writeFiles fail k files items).2 = writeRaised fail k items := by
  induction items with
  | nil => intro k files; rfl
  | cons item rest ih =>
    intro k files
    rw [writeFiles, writeRaised]
    cases hk : fail k with
    | none => exact ih _ _
    | some failure => cases failure <;> rfl

/-- Whatever fails, only listed files are touched. -/
theorem writeFiles_other (fail : Nat → Option Failure) (items : List (Text × Option Text))
    {n : Text} (hn : n ∉ items.map Prod.fst) :
    ∀ k files, (writeFiles fail k files items).1 n = files n := by
  induction items with
  | nil => intro k files; rfl
  | cons item rest ih =>
    intro k files
    rw [List.map_cons, List.mem_cons, not_or] at hn
    have hset (content : Option Text) : setFile files item.1 content n = files n := if_neg hn.1
    rw [writeFiles]
    cases hk : fail k with
    | none =>
      have := ih hn.2 (k + 1) (setFile files item.1 item.2)
      rw [hset] at this
      exact this
    | some failure =>
      cases failure with
      | before e => rfl
      | after e => exact hset _

/-- A loop without failure has published every listed file. -/
theorem writeFiles_done (fail : Nat → Option Failure) (items : List (Text × Option Text)) :
    ∀ k files, writeRaised fail k items = none →
      (writeFiles fail k files items).1 = setFiles files items := by
  induction items with
  | nil => intro k files _; rfl
  | cons item rest ih =>
    intro k files h
    rw [writeRaised] at h
    rw [writeFiles]
    cases hk : fail k with
    | none =>
      rw [hk] at h
      exact ih _ _ h
    | some failure =>
      rw [hk] at h
      cases failure <;> cases h

/-! ## What is restored -/

/-- The bytes of an entry, if it is a file. -/
def Entry.bytes : Entry → Option Text
  | .file content => some content.text
  | .other => none

/-- The rows and the bytes of every file are those of `s`. -/
structure SameData (s s' : Store) : Prop where
  table : s'.table = s.table
  profile : s'.profile = s.profile
  bytes : ∀ n, (s'.files n).map Entry.bytes = (s.files n).map Entry.bytes

/-- `_old_files` describes the files that `_new_files` replaces. -/
structure Snapshot (s : Store) (c : Change) : Prop where
  names : c.oldFiles.map Prod.fst = c.newFiles.map Prod.fst
  nodup : (c.newFiles.map Prod.fst).Nodup
  texts : ∀ item ∈ c.oldFiles, ∀ t, item.2 = some t → read (s.files item.1) = .ok t
  missing : ∀ item ∈ c.oldFiles, item.2 = none → s.files item.1 = none

theorem plan_snapshot {w : Platform} {interface : Text} {d : Draw} {s : Store} {c : Change}
    {op : Operation} (hop : op.changes = true) (hfresh : FreshId d s op)
    (hp : plan w interface d s op = .ok c) : Snapshot s c := by
  have hnodup := nodup_newFiles hp hfresh
  obtain ⟨v, -, hplan⟩ := plan_eq_ok hp
  cases hplan with
  | create hplan =>
    obtain ⟨content, hread, hold⟩ := hplan.serverContent
    refine ⟨by rw [hold, hplan.newFiles]; rfl, hnodup, by simp [hold, hread], ?_⟩
    simpa [hold] using show s.files d.configName = none from hfresh
  | regenerate hplan =>
    obtain ⟨content, client, hread, hclient, hold⟩ := hplan.oldFiles
    exact ⟨by rw [hold, hplan.newFiles]; rfl, hnodup, by simp [hold, hread, hclient],
      by simp [hold]⟩
  | revoke hplan =>
    obtain ⟨content, hread, hold⟩ := hplan.oldFiles
    exact ⟨by rw [hold, hplan.newFiles]; rfl, hnodup, by simp [hold, hread], by simp [hold]⟩
  | update _ => cases hop
  | delete _ => cases hop

/-- No file that the change replaces holds a carriage return. -/
def LineFeedsOnly (s : Store) (c : Change) : Prop :=
  ∀ item ∈ c.newFiles, ∀ file, s.files item.1 = some (.file file) → '\r' ∉ file.text

/-- A completed restore brings the bytes back exactly when newline translation lost
nothing. -/
theorem restored_iff {s : Store} {c : Change} (h : Snapshot s c) {files : Files}
    (hother : ∀ n, n ∉ c.newFiles.map Prod.fst → files n = s.files n) :
    SameData s { s with files := setFiles files c.oldFiles } ↔ LineFeedsOnly s c := by
  have hnd : (c.oldFiles.map Prod.fst).Nodup := by
    rw [h.names]
    exact h.nodup
  have hname (item : Text × Option Text) (hm : item ∈ c.newFiles) :
      ∃ old ∈ c.oldFiles, old.1 = item.1 := by
    have : item.1 ∈ c.oldFiles.map Prod.fst := by
      rw [h.names]
      exact List.mem_map.mpr ⟨item, hm, rfl⟩
    exact List.mem_map.mp this
  constructor
  · intro hsame item hm file hfile hcr
    obtain ⟨old, hold, hn⟩ := hname item hm
    have hbytes := hsame.bytes old.1
    simp only [setFiles_of_mem hnd hold] at hbytes
    rw [hn, hfile] at hbytes
    cases ht : old.2 with
    | none =>
      rw [ht] at hbytes
      simp at hbytes
    | some t =>
      have hread := h.texts old hold t ht
      obtain ⟨file', hfile', rfl⟩ := read_eq_ok hread
      rw [hn, hfile] at hfile'
      cases hfile'
      rw [ht] at hbytes
      simp only [Option.map_some, written, Entry.bytes, Option.some.injEq] at hbytes
      exact (universalNewlines_eq_self_iff _).mp hbytes hcr
  · intro hlf
    refine ⟨rfl, rfl, fun n => ?_⟩
    by_cases hn : n ∈ c.oldFiles.map Prod.fst
    · obtain ⟨old, hold, rfl⟩ := List.mem_map.mp hn
      simp only [setFiles_of_mem hnd hold]
      cases ht : old.2 with
      | none =>
        rw [h.missing old hold ht]
        rfl
      | some t =>
        obtain ⟨file, hfile, rfl⟩ := read_eq_ok (h.texts old hold t ht)
        have : old.1 ∈ c.newFiles.map Prod.fst := by rwa [← h.names]
        obtain ⟨item, hm, he⟩ := List.mem_map.mp this
        rw [hfile]
        simp only [Option.map_some, written, Entry.bytes,
          universalNewlines_of_not_mem (hlf item hm file (by rw [he]; exact hfile))]
    · simp only [setFiles_of_not_mem hn]
      rw [hother n (by rwa [← h.names])]

/-! ## All or nothing -/

/-- The exception that makes `_change` roll back, if any. -/
def forwardRaised (f : Faults) (syncs : Bool) (c : Change) : Option Raised :=
  match writeRaised f.write 0 c.newFiles with
  | some e => some e
  | none =>
    match (if syncs then f.sync else none) with
    | some e => some e
    | none => f.commit

/-- The exception that the rollback task raises, if any. -/
def restoreRaised (f : Faults) (syncs : Bool) (c : Change) : Option Raised :=
  match writeRaised f.restore 0 c.oldFiles with
  | some e => some e
  | none => if syncs then f.resync else none

/-- What the caller of a peer mutation may rely on: a result means that every step
succeeded and everything is published; an exception means that nothing changed,
or says that the rollback failed. -/
def AllOrNothing (f : Faults) (interface : Text) (s : Store) (o : Outcome) : Prop :=
  match o.result with
  | .ok c => forwardRaised f (syncsFor interface c) c = none ∧ o.store = s.apply c
  | .error e => if o.rollbackRaised then e = .peerError .rollbackFailed else SameData s o.store

/-- The exact condition: no SQL rollback raises; the rollback task raises, if at all,
an `Exception`; and a rollback that completes has only line feeds to restore. -/
def RollbackSound (f : Faults) (w : Platform) (interface : Text) (d : Draw) (op : Operation)
    (s : Store) : Prop :=
  match operate f w interface d op s with
  | .error _ => f.exitRollback = false
  | .ok c =>
    match forwardRaised f (syncsFor interface c) c with
    | none => True
    | some _ => f.sqlRollback = false ∧
      match restoreRaised f (syncsFor interface c) c with
      | some e => e.isException = true
      | none => LineFeedsOnly s c

/-- The handler, as a function of what its steps raise. -/
private theorem rollBack_eq (f : Faults) (syncs : Bool) (s : Store) (c : Change)
    (files : Files) (e : Raised) (hsql : f.sqlRollback = false) :
    ∃ files', (restoreRaised f syncs c = none → files' = setFiles files c.oldFiles) ∧
      rollBack f syncs s c files e =
        match restoreRaised f syncs c with
        | none => ⟨.error e.report, { s with files := files' }, false⟩
        | some e' => ⟨.error (if e'.isException then .peerError .rollbackFailed else e'),
            { s with files := files' }, true⟩ := by
  have hraised := writeFiles_raised f.restore c.oldFiles 0 files
  have hdone := writeFiles_done f.restore c.oldFiles 0 files
  refine ⟨(writeFiles f.restore 0 files c.oldFiles).1, ?_, ?_⟩
  · intro hnone
    apply hdone
    unfold restoreRaised at hnone
    split at hnone
    · cases hnone
    · assumption
  · rw [rollBack, hsql, driveRollback_finish, restoreRaised, ← hraised]
    simp only [Task.finish, Bool.false_eq_true, if_false]
    cases hw : writeFiles f.restore 0 files c.oldFiles with
    | mk files' raised =>
      cases raised with
      | some e' => rfl
      | none =>
        cases hs : (if syncs = true then f.resync else none) with
        | none => rfl
        | some e' => rfl

private theorem publish_eq (f : Faults) (syncs : Bool) (s : Store) (c : Change) :
    ∃ files, (∀ n, n ∉ c.newFiles.map Prod.fst → files n = s.files n) ∧
      publish f syncs s c =
        match forwardRaised f syncs c with
        | some e => rollBack f syncs s c files e
        | none => ⟨.ok c, s.apply c, false⟩ := by
  have hraised := writeFiles_raised f.write c.newFiles 0 s.files
  have hdone := writeFiles_done f.write c.newFiles 0 s.files
  refine ⟨(writeFiles f.write 0 s.files c.newFiles).1, fun n hn => writeFiles_other _ _ hn _ _, ?_⟩
  rw [publish, forwardRaised, ← hraised]
  cases hw : writeFiles f.write 0 s.files c.newFiles with
  | mk files raised =>
    rw [hw] at hraised hdone
    cases raised with
    | some e => rfl
    | none =>
      simp only at hraised hdone ⊢
      cases hs : (if syncs = true then f.sync else none) with
      | some e => rfl
      | none =>
        cases hcommit : f.commit with
        | some e => rfl
        | none => rw [Store.apply, ← hdone hraised.symm]

/-- **Exactness.** A mutation through `_change` is all-or-nothing precisely when the
run meets `RollbackSound`. -/
theorem change_allOrNothing_iff {w : Platform} {interface : Text} {d : Draw} {s : Store}
    {op : Operation} (hop : op.changes = true) (hfresh : FreshId d s op) (f : Faults) :
    AllOrNothing f interface s (change f w interface d op s) ↔
      RollbackSound f w interface d op s := by
  rw [change, RollbackSound]
  cases hop' : operate f w interface d op s with
  | error e =>
    cases hexit : f.exitRollback with
    | false => simp [AllOrNothing, SameData.mk]
    | true => simp [AllOrNothing]
  | ok c =>
    have hplan : plan w interface d s op = .ok c := by
      unfold operate at hop'
      split at hop'
      · cases hop'
      · exact hop'
    have hsnap := plan_snapshot hop hfresh hplan
    obtain ⟨files, hother, hpub⟩ := publish_eq f (syncsFor interface c) s c
    simp only [hpub]
    cases hfwd : forwardRaised f (syncsFor interface c) c with
    | none => simp [AllOrNothing, hfwd]
    | some e =>
      simp only
      cases hsql : f.sqlRollback with
      | true => simp [AllOrNothing, rollBack, hsql]
      | false =>
        obtain ⟨files', hfiles', hback⟩ := rollBack_eq f (syncsFor interface c) s c files e hsql
        rw [hback]
        cases hres : restoreRaised f (syncsFor interface c) c with
        | none =>
          rw [hfiles' hres]
          simpa [AllOrNothing] using restored_iff hsnap hother
        | some e' => cases e' <;> simp [AllOrNothing, Raised.isException]

/-! ## Two runs -/

/-- Every step succeeds. -/
def noFaults : Faults :=
  ⟨none, fun _ => none, none, none, false, false, fun _ => none, none, []⟩

/-- The runtime refuses the new configuration, and the caller is cancelled twice while
the rollback runs. -/
def syncFails : Faults := { noFaults with sync := some .exception, events := [false, true, false] }

/-- The commit fails, and so does the SQL rollback. -/
def commitFails : Faults := { noFaults with commit := some .exception, sqlRollback := true }

def demoCreate : Operation := .create "laptop".toList []

private theorem writeRaised_none (items : List (Text × Option Text)) :
    ∀ k, writeRaised (fun _ => none) k items = none := by
  induction items with
  | nil => intro k; rfl
  | cons item rest ih => intro k; exact ih (k + 1)

private theorem demo_fresh (raw : Text) : FreshId demoDraw (demoStore raw) demoCreate := by
  have hne : demoDraw.configName ≠ demoInterface := by decide
  simp [FreshId, demoCreate, demoStore, hne]

/-- Both runs publish their files and then roll back. -/
private theorem demo_change {raw : Text} (hraw : DemoFile raw "10.0.0.1/24".toList 0) (f : Faults)
    (hop : f.operation = none) (hwrite : f.write = fun _ => none)
    (hrestore : f.restore = fun _ => none) (hresync : f.resync = none) {e : Raised}
    (he : (match f.sync with | some e => some e | none => f.commit) = some e) :
    ∃ c, operate f demoPlatform demoInterface demoDraw demoCreate (demoStore raw) = .ok c ∧
      Snapshot (demoStore raw) c ∧ demoInterface ∈ c.newFiles.map Prod.fst ∧
      forwardRaised f (syncsFor demoInterface c) c = some e ∧
      restoreRaised f (syncsFor demoInterface c) c = none := by
  obtain ⟨c, hc, -, hnew⟩ := demo_plan demo24 hraw
  have hsyncs : syncsFor demoInterface c = true := by
    rw [syncsFor, hnew]
    simp
  refine ⟨c, ?_, plan_snapshot rfl (demo_fresh raw) hc, ?_, ?_, ?_⟩
  · rw [operate, hop]
    exact hc
  · rw [hnew]
    simp
  · rw [forwardRaised, hwrite, writeRaised_none, hsyncs]
    simp only [if_true]
    cases hs : f.sync <;> rw [hs] at he <;> exact he
  · rw [restoreRaised, hrestore, writeRaised_none, hsyncs, hresync]
    rfl

/-- With line feeds only, the failed `create` leaves no trace. -/
theorem change_allOrNothing_syncFails :
    AllOrNothing syncFails demoInterface (demoStore (demoServerText "10.0.0.1/24".toList 0))
      (change syncFails demoPlatform demoInterface demoDraw demoCreate
        (demoStore (demoServerText "10.0.0.1/24".toList 0))) := by
  have hraw := demo_lineFeeds (n := 0) demo24 (by decide)
  obtain ⟨c, hc, hsnap, -, hfwd, hres⟩ :=
    demo_change hraw syncFails rfl rfl rfl rfl (e := .exception) rfl
  refine (change_allOrNothing_iff rfl (demo_fresh _) syncFails).mpr ?_
  rw [RollbackSound, hc]
  simp only [hfwd, hres]
  refine ⟨rfl, fun item _ file hfile => ?_⟩
  simp only [demoStore] at hfile
  split at hfile
  · cases hfile
    decide
  · cases hfile

/-- The same server file, written on another system. -/
def crlfText : Text :=
  "[Interface]\r\nPrivateKey = server\r\nAddress = 10.0.0.1/24\r\n#".toList

/-- A failed synchronization rewrites a file with carriage returns, and a failed SQL
rollback leaves the new files and reports an error of its own. -/
theorem change_not_allOrNothing :
    Accepted demoPlatform demoInterface (demoStore crlfText) ∧
    ((change syncFails demoPlatform demoInterface demoDraw demoCreate (demoStore crlfText)).result =
        .error (.peerError .mutationFailed) ∧
      ¬ AllOrNothing syncFails demoInterface (demoStore crlfText)
        (change syncFails demoPlatform demoInterface demoDraw demoCreate (demoStore crlfText))) ∧
    ((change commitFails demoPlatform demoInterface demoDraw demoCreate
      (demoStore crlfText)).result =
        .error .exception ∧
      ¬ AllOrNothing commitFails demoInterface (demoStore crlfText)
        (change commitFails demoPlatform demoInterface demoDraw demoCreate
          (demoStore crlfText))) := by
  have hraw : DemoFile crlfText "10.0.0.1/24".toList 0 := ⟨by decide, by decide⟩
  refine ⟨accepted_iff.mpr ⟨_, _, demo_valid demo24 hraw⟩, ?_, ?_⟩
  · obtain ⟨c, hc, hsnap, hname, hfwd, hres⟩ :=
      demo_change hraw syncFails rfl rfl rfl rfl (e := .exception) rfl
    obtain ⟨files, hother, hpub⟩ :=
      publish_eq syncFails (syncsFor demoInterface c) (demoStore crlfText) c
    obtain ⟨files', hfiles', hback⟩ :=
      rollBack_eq syncFails (syncsFor demoInterface c) (demoStore crlfText) c files .exception rfl
    rw [hres] at hback
    rw [hfwd] at hpub
    simp only [change, hc, hpub, hback, hfiles' hres]
    refine ⟨rfl, fun hall => ?_⟩
    have hsame := (restored_iff hsnap hother).mp hall
    obtain ⟨item, hitem, hn⟩ := List.mem_map.mp hname
    refine hsame item hitem ⟨crlfText, 0o600, 1, true⟩ (by rw [hn]; rfl) (by decide)
  · obtain ⟨c, hc, -, -, hfwd, -⟩ :=
      demo_change hraw commitFails rfl rfl rfl rfl (e := .exception) rfl
    obtain ⟨files, -, hpub⟩ :=
      publish_eq commitFails (syncsFor demoInterface c) (demoStore crlfText) c
    rw [hfwd] at hpub
    simp only [change, hc, hpub]
    exact ⟨rfl, fun hall => by cases hall⟩

end ExitLane.Peers
