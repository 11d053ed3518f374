import ExitLane.Recovery.Files

/-!
# Restore of a native appliance

`restore_backup` from the forwarding guard on: it stops the service, keeps a copy of database,
master key and WireGuard files, replaces them and starts the service again; a handler puts the
copies back. The callbacks may be missing. A callback, like every step on files, may raise before or
after it has taken effect; the files change by the steps of the restore only.
-/

namespace ExitLane.Lifecycle

open Python Effect Recovery

/-- The codes of the errors; `other` is any other exception. -/
inductive Code where
  | restoreGuardRequired
  | requiredComponentMissing
  | restoredServiceUnhealthy
  | recoveryServiceUnhealthy
  | recoveryNetworkCleanupFailed
  | other
  deriving DecidableEq

/-- The three components; the master key and the directory may be missing. -/
structure Appliance where
  database : Content
  masterKey : Option Bytes
  wireguard : Option Dir

/-- The same tables, the same key and the same names and bytes in the directory. -/
def Appliance.Same (a b : Appliance) : Prop :=
  a.database = b.database ∧ a.masterKey = b.masterKey ∧
    a.wireguard.map Dir.contents = b.wireguard.map Dir.contents

/-- What the archive holds, once it has been accepted. -/
structure Archive where
  database : Content
  masterKey : Bytes
  wireguard : Dir

/-- The components after a restore without failures. -/
def Archive.installed (a : Archive) : Appliance :=
  ⟨a.database.revoke, some a.masterKey, some a.wireguard⟩

inductive Event where
  | started (files : Appliance)
  | healthy
  | released

/-- The appliance with the variables of one call. -/
structure Host where
  files : Appliance
  /-- The directory `.exitlane-prerestore-`. -/
  recovery : Appliance
  snapshotReady : Bool
  filesReplaced : Bool
  cleanupSnapshot : Bool
  cleanupFailed : Bool
  running : Bool
  guarded : Bool
  log : List Event

/-- The callbacks that are given. -/
structure Callbacks where
  serviceAction : Bool
  healthCheck : Bool
  forwardingGuard : Bool

/-- The reply of the health check. -/
inductive Health where
  | passed
  | failed
  deriving DecidableEq, Inhabited

abbrev Step := Proc Host Health Code

/-! ## Steps -/

/-- A step on files that matter to nobody: it can only fail. -/
def touch : Step Unit := .check fun _ => .ok ()

def stop : Step Unit := .atomic fun s => { s with running := false }

def resetEgress : Step Unit := .check fun _ => .ok ()

def start : Step Unit :=
  .atomic fun s => { s with running := true, log := .started s.files :: s.log }

def checkHealth (code : Code) : Step Unit :=
  .prim (fun reply s => match reply with
    | .passed => (.ok (), { s with log := .healthy :: s.log })
    | .failed => (.error code, s)) fun _ s => s

def enableGuard : Step Unit := .atomic fun s => { s with guarded := true }

def releaseGuard : Step Unit :=
  .atomic fun s => { s with guarded := false, log := .released :: s.log }

def setDatabase (f : Host → Content) : Step Unit :=
  .atomic fun s => { s with files := { s.files with database := f s } }

def setMasterKey (f : Host → Option Bytes) : Step Unit :=
  .atomic fun s => { s with files := { s.files with masterKey := f s } }

/-! ## The snapshot -/

def saveDatabase : Step Unit :=
  .atomic fun s => { s with recovery := { s.recovery with database := s.files.database } }

def saveMasterKey : Step Unit := do
  .check fun s => if s.files.masterKey.isSome then .ok () else .error .requiredComponentMissing
  .atomic fun s => { s with recovery := { s.recovery with masterKey := s.files.masterKey } }
  touch

/-- `shutil.copyfile` of one entry, with its mode. -/
def saveEntry (live : Dir) (name : Text) : Step Unit := do
  touch
  .atomic fun s => { s with
    recovery := { s.recovery with
      wireguard := s.recovery.wireguard.map fun d => d.put name (copyOf live name).2 } }
  touch

/-- `iterdir` of a directory that is not there raises. -/
def listing : Option Dir → Except Code Dir
  | some d => .ok d
  | none => .error .other

def saveWireguard : Step Unit := do
  .atomic fun s => { s with recovery := { s.recovery with wireguard := some .empty } }
  let live ← .check fun s => listing s.files.wireguard
  (live.entries.map Prod.fst).forM (saveEntry live)

/-! ## `_replace_wireguard` -/

def removeEntry (name : Text) : Step Unit := do
  touch
  .atomic fun s => { s with
    files := { s.files with wireguard := s.files.wireguard.map fun d => d.erase name } }

def Host.putEntry (name : Text) (f : File) (s : Host) : Host :=
  { s with files := { s.files with wireguard := s.files.wireguard.map fun d => d.put name f } }

/-- `shutil.copyfile` of one entry; a copy that is cut short has a prefix of the bytes. -/
def installEntry (source : Dir) (name : Text) : Step Unit := do
  .effect (Host.putEntry name (copyOf source name).2) fun k s =>
    if k = 0 then s
    else s.putEntry name ⟨((source.contents name).getD []).take (k - 1), defaultMode⟩
  touch

def replaceWireguard (source : Dir) : Step Unit := do
  .atomic fun s => { s with
    files := { s.files with wireguard := some (s.files.wireguard.getD .empty) } }
  let live ← .look fun s => s.files.wireguard.getD .empty
  (live.entries.map Prod.fst).forM removeEntry
  (source.entries.map Prod.fst).forM (installEntry source)

/-! ## `restore_backup` -/

variable (c : Callbacks)

/-- The service is started and checked before the guard goes; `code` is for a failed check. -/
def reopen (code : Code) : Step Unit := do
  .when c.serviceAction start
  .when c.healthCheck (checkHealth code)
  .when c.forwardingGuard releaseGuard
  .modify fun s => { s with cleanupSnapshot := true }

/-- The body of the `try` up to the complete snapshot. -/
def takeSnapshot : Step Unit := do
  .when c.serviceAction stop
  saveDatabase
  saveMasterKey
  saveWireguard
  .modify fun s => { s with snapshotReady := true }

/-- The body of the `try` from the complete snapshot on. -/
def install (a : Archive) : Step Unit := do
  .when c.serviceAction resetEgress
  setDatabase fun _ => a.database
  .modify fun s => { s with filesReplaced := true }
  touch
  setMasterKey fun _ => some a.masterKey
  touch
  replaceWireguard a.wireguard
  setDatabase fun s => s.files.database.revoke
  -- `_inspect_database`
  touch
  reopen c .restoredServiceUnhealthy

/-- The body of the `try`. -/
def attempt (a : Archive) : Step Unit := do
  takeSnapshot c
  install c a

/-- The handler, with the snapshot complete. -/
def recover : Step Unit := do
  .modify fun s => { s with cleanupFailed := false }
  .branch (·.filesReplaced)
    (.when c.serviceAction
      (resetEgress.handle fun _ => .modify fun s => { s with cleanupFailed := true }))
    (pure ())
  touch
  setDatabase fun s => s.recovery.database
  touch
  setMasterKey fun s => s.recovery.masterKey
  let saved ← .look fun s => s.recovery.wireguard.getD .empty
  replaceWireguard saved
  .branch (·.cleanupFailed) (.raise .recoveryNetworkCleanupFailed) (pure ())
  reopen c .recoveryServiceUnhealthy

/-- The handler up to its last `raise`. -/
def rollback : Step Unit := do
  .when c.serviceAction stop
  .branch (·.snapshotReady) (recover c) (pure ())

/-- The `finally` clause. -/
def tidy (s : Host) : Host :=
  if s.cleanupSnapshot || !s.snapshotReady then
    { s with recovery := { s.recovery with masterKey := none, wireguard := none } }
  else s

/-- What comes before the `try`: the archive is decrypted and checked, the guard is enabled and the
recovery directory made. -/
def enter (archive : Except Code Archive) : Step Archive := do
  .modify fun s => { s with
    snapshotReady := false
    filesReplaced := false
    cleanupSnapshot := false }
  let a ← .check fun _ => archive
  .demand (!(c.serviceAction && !c.forwardingGuard)) .restoreGuardRequired
  .when c.forwardingGuard enableGuard
  touch
  touch
  pure a

def restoreBackup (archive : Except Code Archive) : Step Unit := do
  let a ← enter c archive
  ((attempt c a).handle fun e => do
    rollback c
    .raise e).lastly tidy

end ExitLane.Lifecycle
