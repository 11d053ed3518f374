import ExitLane.Python.Text
import ExitLane.Effect.Basic
import Mathlib.Data.Char
import Mathlib.Data.List.Lex
import Mathlib.Data.List.Sort

/-!
# The backup archive

`create_backup` and `ContainerRecoveryCoordinator.backup` stage the database, the master key and the
WireGuard files, write a manifest beside them and pack everything. `_read_envelope`,
`_validated_payload` and `_validate_manifest` read the archive back, each with limits of its own.

Encryption, `gzip` and `tar` are lossless, so that an archive is the list of its members here; how
long it is in its three forms decides whether it is read. Contents are of any type with a size and a
digest.
-/

namespace ExitLane.Backup
open Python Effect

/-- The codes of the errors. -/
inductive Code where
  | tooManyFiles
  | recoveryInventoryTooLarge
  | unsafeComponent
  | backupTooLarge
  | payloadTooLarge
  | compressionRatioExceeded
  | invalidFileCount
  | unsafeArchiveEntry
  | fileTooLarge
  | manifestMissing
  | invalidManifest
  | checksumMismatch
  | unexpectedFile
  | requiredComponentMissing
  | invalidMasterKey
  | futureDatabaseSchema
  | futureApplicationVersion
  | invalidDatabase
  | backupSecretPairingInvalid
  | invalidWireguardConfig
  | wireguardConfigurationInvalid
  deriving DecidableEq

/-- The codes that refuse an archive for its size, its count or its ratio. -/
def Code.isLimit : Code → Bool
  | .backupTooLarge | .payloadTooLarge | .compressionRatioExceeded | .invalidFileCount
  | .fileTooLarge => true
  | _ => false

def require (b : Bool) (code : Code) : Except Code Unit := if b then .ok () else .error code

@[simp] theorem require_eq_ok {b : Bool} {code : Code} {u : Unit} :
    require b code = .ok u ↔ b = true := by
  cases b <;> simp [require]

/-! ## Limits -/

def maxBackupBytes : Nat := 512 * 1024 * 1024
def maxFiles : Nat := 256
def maxFileBytes : Nat := 128 * 1024 * 1024
def maxTotalBytes : Nat := 384 * 1024 * 1024
def maxTarStructuralOverhead : Nat := (maxFiles + 4) * 512 + 10 * 1024
def maxTarBytes : Nat := maxTotalBytes + 2 * 1024 * 1024
def maxCompressionRatio : Nat := 100

/-! ## The manifest -/

inductive Kind where
  | database
  | masterKey
  | wireguardConfig
  deriving DecidableEq

structure FileEntry where
  kind : Kind
  name : Text
  size : Nat
  sha256 : Text
  mode : Nat
  originalName : Option Text
  deriving DecidableEq

structure Manifest where
  backupId : Text
  createdAt : Text
  exitlaneVersion : Text
  databaseSchemaVersion : Nat
  files : List FileEntry
  deriving DecidableEq

/-- What the code takes from libraries, for contents of a type `β`. -/
structure Kit (β : Type) where
  size : β → Nat
  /-- `hashlib.sha256(content).hexdigest()`. -/
  digest : β → Text
  /-- The file that holds the manifest. -/
  dump : Manifest → β
  load : β → Option Manifest
  load_dump : ∀ m, load (dump m) = some m
  /-- The image that the backup API of SQLite writes. -/
  snapshot : β → β
  /-- The length of the compressed archive of these members. -/
  gzipSize : List (Text × β) → Nat
  /-- `__version__`, and whether a version is newer; `none` if it is not a version. -/
  version : Text
  isNewer : Text → Option Bool
  isNewer_version : isNewer version = some false

variable {β : Type} (K : Kit β)

/-! ## Writing -/

/-- `sorted` of the paths of one directory. -/
def sortedByName {γ : Type} (l : List (Text × γ)) : List (Text × γ) :=
  l.insertionSort fun a b => a.1 ≤ b.1

/-- `f"{index:03d}"`. -/
def pad3 (n : Nat) : Text := List.replicate (3 - (natText n).length) '0' ++ natText n

def databaseName : Text := "database.sqlite3".toList
def masterKeyName : Text := "master-key".toList
def manifestName : Text := "manifest.json".toList
def configName (index : Nat) : Text := "wireguard-".toList ++ pad3 index ++ ".conf".toList

/-- A file of the staging directory. -/
structure Staged (β : Type) where
  kind : Kind
  name : Text
  originalName : Option Text
  content : β

/-- The WireGuard files from an index on. -/
def stageConfigs : Nat → List (Text × β) → List (Staged β)
  | _, [] => []
  | index, (name, content) :: rest =>
    ⟨.wireguardConfig, configName index, some name, content⟩ :: stageConfigs (index + 1) rest

/-- The loop of `_collect_components`; `none` is a source that is not a plain file. -/
def collectConfigs : Nat → List (Text × Option β) → Except Code (List (Staged β))
  | _, [] => .ok []
  | _, (_, none) :: _ => .error .unsafeComponent
  | index, (name, some content) :: rest =>
    if maxFiles - 2 ≤ index then .error .tooManyFiles
    else do
      let staged ← collectConfigs (index + 1) rest
      return ⟨.wireguardConfig, configName index, some name, content⟩ :: staged

/-- The staged files in the order of the manifest. -/
def staging (database key : β) (configs : List (Staged β)) : List (Staged β) :=
  ⟨.database, databaseName, none, K.snapshot database⟩ ::
    ⟨.masterKey, masterKeyName, none, key⟩ :: configs

/-- `_inventory_entry`. -/
def inventoryEntry (s : Staged β) : FileEntry :=
  ⟨s.kind, s.name, K.size s.content, K.digest s.content, 0o600, s.originalName⟩

/-- The values of the manifest that do not come from the files. -/
structure Label where
  backupId : Text
  createdAt : Text
  schema : Nat

def manifestOf (label : Label) (staged : List (Staged β)) : Manifest :=
  ⟨label.backupId, label.createdAt, K.version, label.schema, staged.map (inventoryEntry K)⟩

/-- The members in the order in which `_make_payload` adds them. -/
def pack (label : Label) (staged : List (Staged β)) : List (Text × β) :=
  sortedByName ((manifestName, K.dump (manifestOf K label staged)) ::
    staged.map fun s => (s.name, s.content))

/-- `create_backup` of a database, a key and the entries of the WireGuard directory. -/
def createBackup (label : Label) (database key : β) (sources : List (Text × Option β)) :
    Except Code (List (Text × β)) := do
  let configs ← collectConfigs 0 (sortedByName sources)
  return pack K label (staging K database key configs)

/-- `ContainerRecoveryCoordinator.backup` of a state that `validate` has accepted. -/
def coordinatorBackup (label : Label) (database key : β) (sources : List (Text × β)) :
    Except Code (List (Text × β)) := do
  require (sources.length ≤ maxFiles - 2) .recoveryInventoryTooLarge
  return pack K { label with schema := 1 }
    (staging K database key (stageConfigs 0 (sortedByName sources)))

/-! ## Sizes -/

def roundUp (k n : Nat) : Nat := (n + k - 1) / k * k

/-- The length of an archive of `tarfile`: a header and whole blocks for each member, two empty
blocks, and whole records. -/
def tarSize (sizes : List Nat) : Nat :=
  roundUp 10240 ((sizes.map fun n => 512 + roundUp 512 n).sum + 1024)

def memberSizes (members : List (Text × β)) : List Nat := members.map fun m => K.size m.2

/-- The header of the envelope, without the salt and the nonce it is always the same text. -/
def headerSize : Nat := 187

/-- The magic, the length and the header, and the payload with its tag. -/
def backupSize (members : List (Text × β)) : Nat :=
  16 + 4 + headerSize + K.gzipSize members + 16

/-! ## Reading -/

/-- The loop that decompresses at most one byte more than is allowed. -/
def expandLoop (total compressionLimit expanded : Nat) : Except Code Nat :=
  let remaining := min maxTarBytes compressionLimit - expanded
  let chunk := min (min (1024 * 1024) (remaining + 1)) (total - expanded)
  if _ : chunk = 0 then .ok expanded
  else if maxTarBytes < expanded + chunk then .error .payloadTooLarge
  else if compressionLimit < expanded + chunk then .error .compressionRatioExceeded
  else expandLoop total compressionLimit (expanded + chunk)
termination_by total - expanded
decreasing_by omega

/-- The parts of `PurePosixPath(name)` and whether it is absolute. -/
def posixParts (name : Text) : List Text :=
  (name.splitOn '/').filter fun part => !(part.isEmpty || part == ".".toList)

def isSafeName (name : Text) : Bool :=
  name.head? != some '/' && !(posixParts name).contains "..".toList && (posixParts name).length == 1

/-- The loop over the members; `seen` and `total` are those of the members before. -/
def checkMembers : List Text → Nat → List (Text × Nat) → Except Code Unit
  | _, _, [] => .ok ()
  | seen, total, (name, size) :: rest =>
    if seen.contains name || !isSafeName name then .error .unsafeArchiveEntry
    else if maxFileBytes < size then .error .fileTooLarge
    else if maxTotalBytes < total + size then .error .payloadTooLarge
    else checkMembers (name :: seen) (total + size) rest

/-- The loop over the entries of the manifest; `names` are those of the entries before. -/
def checkEntries (members : List (Text × β)) : List Text → List FileEntry → Except Code Unit
  | _, [] => .ok ()
  | names, entry :: rest =>
    match members.lookup entry.name with
    | none => .error .invalidManifest
    | some content =>
      if names.contains entry.name || entry.mode != 0o600 then .error .invalidManifest
      else if K.size content != entry.size || K.digest content != entry.sha256 then
        .error .checksumMismatch
      else checkEntries members (entry.name :: names) rest

/-- `_validate_manifest`. -/
def validateManifest (members : List (Text × β)) (m : Manifest) : Except Code Unit := do
  checkEntries K members [] m.files
  require (members.all fun member => member.1 == manifestName ||
    (m.files.map FileEntry.name).contains member.1) .unexpectedFile
  require ((m.files.countP fun e => e.kind = .database) == 1 &&
    (m.files.countP fun e => e.kind = .masterKey) == 1) .requiredComponentMissing
  require ((m.files.find? fun e => e.kind = .masterKey).any fun e => e.size == 32) .invalidMasterKey
  require (m.databaseSchemaVersion ≤ 1) .futureDatabaseSchema
  match K.isNewer m.exitlaneVersion with
  | none => .error .invalidManifest
  | some newer => require (!newer) .futureApplicationVersion

/-- The end of `_validated_payload`: the manifest is read and checked. -/
def readManifest (members : List (Text × β)) : Except Code Manifest :=
  match members.lookup manifestName with
  | none => .error .manifestMissing
  | some content =>
    match K.load content with
    | none => .error .invalidManifest
    | some m => do
      validateManifest K members m
      return m

/-- `_validated_payload`. -/
def validatedPayload (members : List (Text × β)) : Except Code Manifest := do
  require (K.gzipSize members ≤ maxTotalBytes) .payloadTooLarge
  let _ ← expandLoop (tarSize (memberSizes K members))
    (max (K.gzipSize members) 1 * maxCompressionRatio + maxTarStructuralOverhead) 0
  require (!members.isEmpty && members.length ≤ maxFiles + 1) .invalidFileCount
  checkMembers [] 0 (members.map fun m => (m.1, K.size m.2))
  readManifest K members

/-- `_decrypt` with the right passphrase, and `_validated_payload`. -/
def readBackup (members : List (Text × β)) : Except Code Manifest := do
  require (backupSize K members ≤ maxBackupBytes) .backupTooLarge
  validatedPayload K members

end ExitLane.Backup
