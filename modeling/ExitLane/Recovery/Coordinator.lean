import ExitLane.Recovery.Disk
import Mathlib.Data.List.Sort

/-!
# The recovery coordinator

`ContainerRecoveryCoordinator` as procedures over the durable state. Each system
call, each SQLite transaction and each hook is one primitive step, which can
raise or be the last one before the process dies. A cancellation passes the
handlers of the source as a crash does, so a crash stands for both.
-/

namespace ExitLane.Recovery
open Python Effect

/-! ## The machine -/

inductive Phase where
  | initPreparing | initReady | prepared | snapshotReady | publishing | installed | validated
  | committed | rollbackRequired
  deriving DecidableEq

/-- The receipt in `transaction.json`. -/
structure Journal where
  phase : Phase
  ingress : List IngressIdentity
  deriving DecidableEq

/-- The directory of a transaction below `recovery`. -/
structure Txn where
  archive : Option Layout
  candidate : Option Layout
  previous : Option Layout

/-- The two kinds of replacement that the properties of a run speak about. -/
inductive Event where
  | recorded (phase : Phase)
  | replaced (c : Component)
  deriving DecidableEq

/-- The disk, and of the process only what decides about files: whether a worker that writes to
the database runs, and the variable `journalled` of `restore`. `trace` is the history of the
replacements; the code does not read it. -/
structure Machine where
  live : Layout
  txn : Option Txn
  journal : Option Journal
  /-- The temporary of `_record`. -/
  journalNew : Bool
  worker : Bool
  journalled : Bool
  trace : List Event

inductive Place where
  | live | archive | candidate | previous
  deriving DecidableEq

structure Path where
  place : Place
  slot : Slot
  deriving DecidableEq

namespace Machine

def layout (m : Machine) : Place → Option Layout
  | .live => some m.live
  | .archive => m.txn.bind Txn.archive
  | .candidate => m.txn.bind Txn.candidate
  | .previous => m.txn.bind Txn.previous

/-- Replaces a whole tree of the transaction directory; the live root stays. -/
def setLayout (m : Machine) (place : Place) (l : Option Layout) : Machine :=
  match place with
  | .live => { m with live := l.getD m.live }
  | .archive => { m with txn := m.txn.map fun t => { t with archive := l } }
  | .candidate => { m with txn := m.txn.map fun t => { t with candidate := l } }
  | .previous => { m with txn := m.txn.map fun t => { t with previous := l } }

def onLayout (m : Machine) (place : Place) (f : Layout → Layout) : Machine :=
  m.setLayout place ((m.layout place).map f)

def get (m : Machine) (p : Path) : Option File := (m.layout p.place).bind fun l => l.get p.slot

def set (m : Machine) (p : Path) (f : Option File) : Machine :=
  m.onLayout p.place fun l => l.set p.slot f

/-- A writer dies in the middle of a transaction: the pages are torn, and the journal holds what
they were. -/
def tear (w : Platform) (m : Machine) : Machine :=
  match m.live.files .database, m.live.files .databaseJournal with
  | some f, none =>
    let hot := m.live.set (.file .databaseJournal) (some f)
    { m with live := hot.set (.file .database) (some { f with bytes := w.torn }) }
  | _, _ => m

/-- The worker is gone; `killed` says that it was writing. -/
def stopWorker (w : Platform) (killed : Bool) (m : Machine) : Machine :=
  { (if m.worker && killed then m.tear w else m) with worker := false }

/-- The next process finds the disk as the last one left it. -/
def reboot (w : Platform) (killed : Bool) (m : Machine) : Machine :=
  { m.stopWorker w killed with journalled := false }

end Machine

/-- What comes from outside with a step that goes through: the projections that a hook or the
worker has written, the answers of the `health` and `initial_setup` hooks, whether `quiesce` had
to kill a worker in the middle of a write, and the random bytes of a new key. -/
structure Reply where
  egress : Option { d : Dir // d.IsEgress }
  healthy : Bool
  pending : Bool
  killed : Bool
  token : { b : Bytes // b.length = 32 }

instance : Inhabited Reply := ⟨none, true, false, false, List.replicate 32 0, by simp⟩

abbrev Act := Proc Machine Reply Code

/-! ## File operations -/

/-- A creation that fails if its target exists. -/
def create (exists_ : Machine → Bool) (make : Machine → Machine) : Act Unit :=
  .prim (fun _ m => if exists_ m then (.error .other, m) else (.ok (), make m))
    fun k m => if k = 0 || exists_ m then m else make m

variable (place : Place)

def makeRoot : Act Unit :=
  create (fun m => (m.layout place).isSome) fun m => m.setLayout place (some .bare)

def makeFolder (folder : Folder) : Act Unit :=
  create (fun m => ((m.layout place).map fun l => l.folders folder).getD false)
    fun m => m.onLayout place (·.mkFolder folder)

def makeDir (d : Sub) : Act Unit :=
  create (fun m => ((m.layout place).bind fun l => l.dirs d).isSome)
    fun m => m.onLayout place (·.mkDir d)

/-- `_private` of a file. -/
def checkPrivate (p : Path) : Act Unit :=
  .check fun m => match m.get p with
    | none => .error .recoveryComponentMissing
    | some f => if f.isPrivate then .ok () else .error .recoveryComponentUnsafe

/-- `_private` of a directory, and its listing. -/
def listDir (d : Sub) : Act (List Text) :=
  .check fun m => match (m.layout place).bind fun l => l.dirs d with
    | none => .error .recoveryComponentMissing
    | some entries => .ok (entries.entries.map Prod.fst)

/-- `_sync`. -/
def sync : Act Unit := .check fun _ => .ok ()

def unlink (p : Path) : Act Unit := .atomic fun m => m.set p none

/-- A leftover temporary or sidecar is removed if it is private. -/
def removeStale (p : Path) : Act Unit :=
  .branch (fun m => (m.get p).isSome) (do checkPrivate p; unlink p) (pure ())

def chmod (p : Path) (mode : Nat) : Act Unit :=
  .atomic fun m => m.set p ((m.get p).map fun f => { f with mode := mode })

/-- `_copy_file`. -/
def copyFile (source destination : Path) : Act Unit := do
  checkPrivate source
  let bytes ← .check fun m => match m.get source with
    | none => .error .other
    | some f => .ok f.bytes
  create (fun m => (m.get destination).isSome) fun m => m.set destination (some ⟨[], privateMode⟩)
  .effect (fun m => m.set destination (some ⟨bytes, privateMode⟩))
    fun k m => m.set destination (some ⟨bytes.take k, privateMode⟩)

/-- `_copy_directory`. -/
def copyDirectory (source destination : Place) (d : Sub) : Act Unit := do
  let entries ← listDir source d
  makeDir destination d
  .demand (entries.length ≤ 256) .recoveryInventoryTooLarge
  (entries.insertionSort (· ≤ ·)).forM fun name =>
    copyFile ⟨source, .entry d name⟩ ⟨destination, .entry d name⟩
  sync

def isPrivateTree (l : Option Layout) : Bool :=
  (l.map fun l => l.listing.all File.isPrivate).getD true

/-- `_sync_tree` of one tree of the transaction. -/
def syncTree : Act Unit :=
  .check fun m => match m.layout place with
    | none => .error .recoveryComponentMissing
    | some l => if isPrivateTree (some l) then .ok () else .error .recoveryComponentUnsafe

/-- `_sync_tree` of the transaction directory. -/
def syncTransaction : Act Unit :=
  .check fun m => match m.txn with
    | none => .error .recoveryComponentMissing
    | some t =>
      if isPrivateTree t.archive && isPrivateTree t.candidate && isPrivateTree t.previous then
        .ok ()
      else .error .recoveryComponentUnsafe

/-- `shutil.rmtree` of one tree; it can stop after some of its files. -/
def removeTree : Act Unit :=
  .effect (fun m => m.setLayout place none) fun k m => m.onLayout place (·.removed k)

/-- `shutil.rmtree` of the transaction directory. -/
def removeTransaction : Act Unit :=
  .effect (fun m => { m with txn := none }) fun k m =>
    { m with txn := m.txn.map fun t =>
        ⟨none, t.candidate.map (·.removed k), t.previous.map (·.removed k)⟩ }

/-! ## Hooks -/

/-- Replaces the provider projections. -/
def Machine.project (m : Machine) (egress : Option { d : Dir // d.IsEgress }) : Machine :=
  match egress, m.live.dirs .providerEgress with
  | some d, some _ =>
    let dirs := Function.update m.live.dirs .providerEgress (some d.1)
    { m with live := { m.live with dirs := dirs } }
  | _, _ => m

/-- A hook may write projections, and can then still fail. -/
def hook : Act Unit := do
  .prim (fun r m => (.ok (), m.project r.egress)) fun _ m => m
  .check fun _ => .ok ()

section
variable (w : Platform)

def guard : Act Unit := hook
def resetEgress : Act Unit := hook
def reconcile : Act Unit := hook
def reopen : Act Unit := hook
def initialSetupComplete : Act Unit := hook

/-- `hooks.initial_setup()`: whether a first ingress was rolled back. -/
def initialSetup : Act Bool := .prim (fun r m => (.ok r.pending, m)) fun _ m => m

def quiesce : Act Unit := do
  hook
  .prim (fun r m => (.ok (), m.stopWorker w r.killed))
    fun k m => if k = 0 then m else m.stopWorker w (k == 1)

/-- `hooks.health()` starts the worker. -/
def health : Act Bool := do
  hook
  .prim (fun r m => (.ok r.healthy, { m with worker := true }))
    fun k m => if k = 0 then m else { m with worker := true }

/-- `_leased`. -/
def leased : Act Unit := .check fun _ => .ok ()

/-! ## Database operations -/

/-- `ContainerState(place).validate()`. -/
def validateAt (place : Place) : Act StateInventory :=
  .check fun m => match m.layout place with
    | none => .error .containerStateComponentMissing
    | some l => l.validate w

/-- `validate_pair` of the unpacked archive. -/
def validateArchive : Act StateInventory :=
  .check fun m => match m.layout .archive with
    | none => .error .containerStateComponentMissing
    | some l => l.validatePair w false

/-- The bytes that a read-only connection to the database of a tree reads. -/
def readDatabase (m : Machine) (place : Place) : Option Bytes :=
  match m.get ⟨place, .file .database⟩, m.get ⟨place, .file .databaseJournal⟩ with
  | some f, none => some f.bytes
  | _, _ => none

def ingressIdentities (place : Place) : Act (List IngressIdentity) :=
  .check fun m => match (readDatabase m place).bind w.decode with
    | none => .error .recoveryIngressInvalid
    | some content => w.ingress content

/-- `lifecycle._database_snapshot`. The destination has the default mode until the last step. -/
def databaseSnapshot (source destination : Place) : Act Unit := do
  let bytes ← .check fun m => match readDatabase m source with
    | none => .error .other
    | some bytes => .ok bytes
  let target : Path := ⟨destination, .file .database⟩
  .effect (fun m => m.set target (some ⟨w.backup bytes, defaultMode⟩)) fun k m =>
    match k with
    | 0 => m
    | 1 => m.set target (some ⟨w.torn, defaultMode⟩)
    | _ => m.set target (some ⟨w.backup bytes, defaultMode⟩)
  chmod target privateMode

/-- The transaction that empties the three tables of the live database. -/
def revokeSessions : Act Unit := do
  .check fun m => if (readDatabase m .live).isSome then .ok () else .error .other
  let commit (m : Machine) := m.set ⟨.live, .file .database⟩
    ((m.get ⟨.live, .file .database⟩).map fun f => { f with bytes := w.revoke f.bytes })
  .effect commit fun k m =>
    match k with
    | 0 => m
    | 1 => m.tear w
    | _ => commit m

/-- SQLite rolls back a hot journal on a writable connection. -/
def rollBackJournal (m : Machine) : Machine :=
  match m.live.files .databaseJournal with
  | none => m
  | some j => (m.set ⟨.live, .file .database⟩ (some j)).set ⟨.live, .file .databaseJournal⟩ none

/-- `ContainerState.recover_database`. -/
def recoverDatabase : Act StateInventory :=
  (validateAt w .live).handle fun e => do
    .demand (e == .containerStateSqliteRecoveryRequired) e
    .effect rollBackJournal fun k m =>
      match k with
      | 0 => m
      | 1 => match m.live.files .databaseJournal with
        | none => m
        | some j => m.set ⟨.live, .file .database⟩ (some { j with bytes := w.torn })
      | _ => rollBackJournal m
    .check fun m => if ((readDatabase m .live).bind w.decode).isSome then .ok ()
      else .error .containerStateInvalid
    validateAt w .live

/-- `write_manifest`; the temporary beside the manifest is always private. -/
def writeManifest (place : Place) : Act Unit := do
  let key ← .check fun m => do
    let key ← facts (m.get ⟨place, .file .masterKey⟩)
    require (key.bytes.length ≤ 32) .containerStateInvalid
    require (key.bytes.length == 32) .containerStateKeyInvalid
    return key.bytes
  .atomic fun m => m.set ⟨place, .file .manifest⟩
    (some ⟨w.dumpManifest (buildManifest w key), privateMode⟩)

/-- `stage_empty`. The new database has the default mode until it is changed. -/
def stageEmpty : Act Unit := do
  .check fun m =>
    require (m.layout .candidate).isNone .containerStateStagingNotEmpty
  makeRoot .candidate
  makeFolder .candidate .config
  makeFolder .candidate .state
  makeDir .candidate .wireguard
  makeDir .candidate .providerEgress
  makeFolder .candidate .recovery
  makeFolder .candidate .backups
  let key : Path := ⟨.candidate, .file .masterKey⟩
  let database : Path := ⟨.candidate, .file .database⟩
  create (fun m => (m.get key).isSome) fun m => m.set key (some ⟨[], privateMode⟩)
  .prim (fun r m => (.ok (), m.set key (some ⟨r.token.1, privateMode⟩))) fun _ m => m
  .effect (fun m => m.set database (some ⟨w.initial, defaultMode⟩)) fun k m =>
    match k with
    | 0 => m
    | 1 => m.set database (some ⟨w.torn, defaultMode⟩)
    | _ => m.set database (some ⟨w.initial, defaultMode⟩)
  chmod database privateMode
  writeManifest w .candidate
  let _ ← validateAt w .candidate

/-! ## The transaction -/

/-- `_record`. -/
def record (phase : Phase) (ingress : List IngressIdentity) : Act Unit := do
  leased
  .check fun m =>
    if m.live.folders .recovery then .ok () else .error .recoveryComponentMissing
  .branch Machine.journalNew (.atomic fun m => { m with journalNew := false }) (pure ())
  .atomic fun m => { m with journalNew := true }
  .atomic fun m => { m with
    journal := some ⟨phase, ingress⟩
    journalNew := false
    trace := m.trace ++ [.recorded phase] }
  sync

/-- `_read_journal`. The other checks hold of every receipt that `_record` writes. -/
def readJournal : Act Journal :=
  .check fun m => match m.journal with
    | none => .error .recoveryComponentMissing
    | some j => if j.ingress.length ≤ 32 then .ok j else .error .recoveryJournalInvalid

/-- `_snapshot` up to the copy of the WireGuard files. -/
def snapshotPair : Act Unit := do
  leased
  makeRoot .previous
  [Folder.config, .state, .recovery, .backups].forM (makeFolder .previous)
  databaseSnapshot w .live .previous
  copyFile ⟨.live, .file .masterKey⟩ ⟨.previous, .file .masterKey⟩
  copyFile ⟨.live, .file .manifest⟩ ⟨.previous, .file .manifest⟩
  copyDirectory .live .previous .wireguard

/-- `_snapshot`, to the place of the previous state. -/
def snapshot : Act Unit := do
  snapshotPair w
  copyDirectory .live .previous .providerEgress
  let _ ← validateAt w .previous
  syncTree .previous

/-- One round of the first loop of `_publish`. -/
def publishFile (source : Place) (c temporary : Component) : Act Unit := do
  .branch (fun m => (m.live.files c).isSome) (checkPrivate ⟨.live, .file c⟩) (pure ())
  removeStale ⟨.live, .file temporary⟩
  copyFile ⟨source, .file c⟩ ⟨.live, .file temporary⟩
  .atomic fun m =>
    let moved := m.live.set (.file c) (m.live.files temporary)
    { m with live := moved.set (.file temporary) none, trace := m.trace ++ [.replaced c] }
  sync

/-- One round of the second loop of `_publish`. -/
def publishDir (source : Place) (d : Sub) : Act Unit := do
  let old ← listDir .live d
  old.forM fun name => do
    checkPrivate ⟨.live, .entry d name⟩
    unlink ⟨.live, .entry d name⟩
  let new ← listDir source d
  new.forM fun name => copyFile ⟨source, .entry d name⟩ ⟨.live, .entry d name⟩
  sync

/-- `_publish`. -/
def publish (source : Place) : Act Unit := do
  leased
  let _ ← validateAt w source
  removeStale ⟨.live, .file .databaseJournal⟩
  publishFile source .database .databaseNew
  publishFile source .masterKey .masterKeyNew
  publishFile source .manifest .manifestNew
  publishDir source .wireguard
  publishDir source .providerEgress

def finalizeSetup (pending : Bool) : Act Unit := if pending then initialSetupComplete else pure ()

/-- `_resume`. -/
def resume (finalizeInitialSetup : Bool) : Act StateInventory := do
  let inventory ← validateAt w .live
  .demand (!inventory.recoveryRequired) .containerStateRecoveryRequired
  reconcile
  finalizeSetup finalizeInitialSetup
  let healthy ← health
  .demand healthy .recoveryHealthFailed
  reopen
  return inventory

/-- `_cleanup`. -/
def cleanup : Act Unit := do
  leased
  syncTransaction
  .atomic fun m => { m with journal := none }
  sync
  removeTransaction
  sync

/-! ## Startup -/

/-- The staged pair of a first initialization, and its receipt. -/
def stageInitial : Act Unit := do
  stageEmpty w
  syncTree .candidate
  record .initReady []

/-- An empty root gets its directories and the receipt of a first initialization. -/
def initializeRoot : Act Unit := do
  makeFolder .live .config
  makeFolder .live .state
  makeDir .live .wireguard
  makeDir .live .providerEgress
  makeFolder .live .recovery
  makeFolder .live .backups
  create (fun m => m.txn.isSome) fun m => { m with txn := some ⟨none, none, none⟩ }
  record .initPreparing []
  stageInitial w

/-- What startup does to the files for the phase of the receipt. -/
def repair : Phase → Act Unit
  | .initPreparing => do
    .branch (fun m => (m.layout .candidate).isSome)
      (do syncTree .candidate; removeTree .candidate) (pure ())
    stageInitial w
    publish w .candidate
  | .initReady => publish w .candidate
  | .committed => do let _ ← validateAt w .live
  | .prepared => pure ()
  | .snapshotReady | .publishing | .installed | .validated | .rollbackRequired =>
    publish w .previous

def recoverTransaction : Act StateInventory := do
  let receipt ← readJournal
  guard
  quiesce w
  resetEgress
  repair w receipt.phase
  let inventory ← resume w false
  cleanup
  return inventory

def startWithoutReceipt : Act StateInventory := do
  let pending ← initialSetup
  let _ ← (validateAt w .live).handle fun e => do
    .demand (e == .containerStateSqliteRecoveryRequired) e
    guard
    quiesce w
    leased
    recoverDatabase w
  let _ ← ingressIdentities w .live
  guard
  quiesce w
  resetEgress
  resume w pending

/-- `startup`; exceptions of hooks and of I/O do not leave it. -/
def startup : Act StateInventory :=
  Proc.handle
    (do
      leased
      .branch (fun m => m.live.isEmpty) (initializeRoot w) (pure ())
      .branch (fun m => m.journal.isSome) (recoverTransaction w) (startWithoutReceipt w))
    fun e => .raise (if e = .other then .recoveryRequired else e)

/-! ## Restore -/

/-- The parts of a backup that `prepare_restore` has decrypted and unpacked. -/
structure Backup where
  database : Bytes
  masterKey : Bytes
  wireguard : List (Text × Bytes)
  nodup : (wireguard.map Prod.fst).Nodup

def Backup.files (b : Backup) : Dir :=
  ⟨b.wireguard.map fun e => (e.1, ⟨e.2, privateMode⟩), by simpa [Function.comp_def] using b.nodup⟩

def Backup.unpacked (b : Backup) : Layout where
  folders _ := false
  files
    | .database => some ⟨b.database, privateMode⟩
    | .masterKey => some ⟨b.masterKey, privateMode⟩
    | _ => none
  dirs
    | .wireguard => some b.files
    | .providerEgress => none

def prepareRestore (b : Backup) : Act Unit :=
  .atomic fun m => m.setLayout .archive (some b.unpacked)

/-- The stage `stage_state`: the candidate is built from the archive. -/
def stageState : Act Unit := do
  makeRoot .candidate
  makeFolder .candidate .config
  makeFolder .candidate .state
  makeDir .candidate .providerEgress
  makeFolder .candidate .recovery
  makeFolder .candidate .backups
  copyFile ⟨.archive, .file .database⟩ ⟨.candidate, .file .database⟩
  copyFile ⟨.archive, .file .masterKey⟩ ⟨.candidate, .file .masterKey⟩
  copyDirectory .archive .candidate .wireguard
  writeManifest w .candidate
  syncTree .candidate

/-- The stages before the first receipt; the result is the ingress to be guarded. -/
def prepare (b : Backup) : Act (List IngressIdentity) := do
  prepareRestore b
  let inventory ← validateArchive w
  .demand (!inventory.recoveryRequired) .containerStateRecoveryRequired
  stageState w
  let current ← ingressIdentities w .live
  let staged ← ingressIdentities w .candidate
  return (current ++ staged).eraseDups

/-- The stages between the first receipt and the commit. -/
def install (ingress : List IngressIdentity) : Act Unit := do
  guard
  quiesce w
  snapshot w
  record .snapshotReady ingress
  resetEgress
  record .publishing ingress
  publish w .candidate
  record .installed ingress
  revokeSessions w
  sync
  sync
  leased
  let _ ← validateAt w .live
  reconcile
  let healthy ← health
  .demand healthy .recoveryHealthFailed
  record .validated ingress
  record .committed ingress
  reopen
  cleanup

/-- The `try` block of `restore`. -/
def restoreBody (b : Backup) : Act Unit := do
  let ingress ← prepare w b
  record .prepared ingress
  .modify fun m => { m with journalled := true }
  install w ingress

/-- The recovery inside `restore`. The receipt has the ingress that the block has computed. -/
def rollback : Act Unit := do
  let receipt ← readJournal
  guard
  quiesce w
  resetEgress
  .branch (fun m => (m.layout .previous).isSome)
    (do record .rollbackRequired receipt.ingress; publish w .previous) (pure ())
  let _ ← resume w false
  cleanup

/-- The handler of `restore`. -/
def restoreHandler (e : Code) : Act Unit :=
  .branch Machine.journalled
    (do
      (rollback w).handle fun _ => do
        Proc.handle (do let _ ← readJournal; guard) fun _ => pure ()
        (quiesce w).handle fun _ => pure ()
        .raise .recoveryRequired
      .raise .restoreFailedRolledBack)
    (do removeTransaction; .raise e)

/-- `restore` up to its `try`. -/
def openTransaction (confirmation : Text) : Act Unit := do
  leased
  .demand (confirmation == "RESTORE EXITLANE".toList) .confirmationRequired
  let _ ← validateAt w .live
  .check fun m => require m.journal.isNone .recoveryRequired
  create (fun m => m.txn.isSome) fun m => { m with txn := some ⟨none, none, none⟩ }
  makeRoot .archive
  .modify fun m => { m with journalled := false }

/-- `restore`. -/
def restore (b : Backup) (confirmation : Text) : Act Unit := do
  openTransaction w confirmation
  (restoreBody w b).handle (restoreHandler w)

end

end ExitLane.Recovery
