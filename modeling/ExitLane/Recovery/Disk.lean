import ExitLane.Python.Text
import ExitLane.Effect.Basic
import Mathlib.Data.List.Nodup
import Mathlib.Logic.Function.Basic

/-!
# The durable state of the container

Files with their modes, the layout of one state root, the transaction directory
of a recovery and the journal receipt. `Layout.validate` is the strict check that
runs before networking; `validate_eq_ok` says what it accepts, and `logical` is
what a layout means: the content of the database as SQLite sees it, the master
key, the manifest and the WireGuard files.
-/

namespace ExitLane.Recovery
open Python Effect

abbrev Bytes := List UInt8

/-! ## Files -/

structure File where
  bytes : Bytes
  mode : Nat
  deriving DecidableEq

/-- Neither group nor others may touch the file. -/
def File.isPrivate (f : File) : Bool := f.mode &&& 0o077 == 0

/-- The mode of a file that was created without one. -/
def defaultMode : Nat := 0o644

def privateMode : Nat := 0o600

@[simp] theorem isPrivate_privateMode (b : Bytes) : File.isPrivate ⟨b, privateMode⟩ = true := by
  simp [File.isPrivate, privateMode]

/-- A directory of plain files; names are distinct. -/
structure Dir where
  entries : List (Text × File)
  nodup : (entries.map Prod.fst).Nodup

namespace Dir

def empty : Dir := ⟨[], List.nodup_nil⟩

def get (d : Dir) (name : Text) : Option File := d.entries.lookup name

/-- Replaces the entry, or adds it at the end. -/
def put (d : Dir) (name : Text) (f : File) : Dir :=
  if h : name ∈ d.entries.map Prod.fst then
    ⟨d.entries.map fun e => if e.1 = name then (name, f) else e, by
      have hnames : (d.entries.map fun e => if e.1 = name then (name, f) else e).map Prod.fst =
          d.entries.map Prod.fst := by
        rw [List.map_map]
        apply List.map_congr_left
        intro e _
        by_cases he : e.1 = name <;> simp [he]
      rw [hnames]
      exact d.nodup⟩
  else
    ⟨d.entries ++ [(name, f)], by
      rw [List.map_append, List.nodup_append]
      refine ⟨d.nodup, List.nodup_singleton _, ?_⟩
      rintro a ha b hb rfl
      rw [List.map_singleton, List.mem_singleton] at hb
      subst hb
      exact h ha⟩

def erase (d : Dir) (name : Text) : Dir :=
  ⟨d.entries.filter fun e => e.1 ≠ name,
    d.nodup.sublist (List.filter_sublist.map Prod.fst)⟩

def set (d : Dir) (name : Text) : Option File → Dir
  | some f => d.put name f
  | none => d.erase name

/-- The names and the bytes, without the modes. -/
def contents (d : Dir) (name : Text) : Option Bytes := (d.get name).map File.bytes

end Dir

/-! ## Layouts -/

/-- The directories of a layout that hold no listed files of their own. -/
inductive Folder where
  | config | state | recovery | backups
  deriving DecidableEq

/-- The single files of a layout; `databaseJournal` is the rollback journal of SQLite, and the
`New` ones are the temporaries beside the published files. -/
inductive Component where
  | database | databaseJournal | masterKey | manifest
  | databaseNew | masterKeyNew | manifestNew
  deriving DecidableEq

def Component.all : List Component :=
  [.database, .databaseJournal, .masterKey, .manifest, .databaseNew, .masterKeyNew, .manifestNew]

/-- The directories that are copied file by file. -/
inductive Sub where
  | wireguard | providerEgress
  deriving DecidableEq

/-- A state root, or a copy of one that is being built. -/
structure Layout where
  folders : Folder → Bool
  files : Component → Option File
  dirs : Sub → Option Dir

/-- Where a file is inside a layout. -/
inductive Slot where
  | file (c : Component)
  | entry (d : Sub) (name : Text)
  deriving DecidableEq

namespace Layout

def bare : Layout := ⟨fun _ => false, fun _ => none, fun _ => none⟩

def get (l : Layout) : Slot → Option File
  | .file c => l.files c
  | .entry d name => (l.dirs d).bind fun entries => entries.get name

def set (l : Layout) (slot : Slot) (f : Option File) : Layout :=
  match slot with
  | .file c => { l with files := Function.update l.files c f }
  | .entry d name =>
    { l with dirs := Function.update l.dirs d ((l.dirs d).map fun entries => entries.set name f) }

def mkFolder (folder : Folder) (l : Layout) : Layout :=
  { l with folders := Function.update l.folders folder true }

def mkDir (d : Sub) (l : Layout) : Layout :=
  { l with dirs := Function.update l.dirs d (some .empty) }

/-- Every file below the root. -/
def listing (l : Layout) : List File :=
  Component.all.filterMap l.files ++
    (((l.dirs .wireguard).map Dir.entries).getD []).map Prod.snd ++
    (((l.dirs .providerEgress).map Dir.entries).getD []).map Prod.snd

/-- `any(root.iterdir())`, negated. -/
def isEmpty (l : Layout) : Bool :=
  !(l.folders .config) && !(l.folders .state) && !(l.folders .recovery) &&
    !(l.folders .backups) && Component.all.all fun c => (l.files c).isNone

/-- What a removal of the tree has left after `k` files. -/
def removed (k : Nat) (l : Layout) : Layout :=
  { l with
    files := fun c => if c ∈ Component.all.take k then none else l.files c
    dirs := fun d => if k ≤ Component.all.length then l.dirs d else none }

end Layout

/-! ## What the state means -/

/-- The tables of the database; `other` are those that a restore leaves alone. -/
structure Content where
  sessions : List Text
  mfaChallenges : List Text
  mfaEnrollments : List Text
  other : List (Text × List Text)
  deriving DecidableEq

/-- `DELETE FROM` the three tables. -/
def Content.revoke (c : Content) : Content :=
  { c with sessions := [], mfaChallenges := [], mfaEnrollments := [] }

structure Manifest where
  layoutVersion : Nat
  schemaMin : Nat
  schemaMax : Nat
  masterKeySha256 : Text
  deriving DecidableEq

/-- What a layout is about: database content, key, manifest and WireGuard files. -/
structure State where
  content : Content
  key : Bytes
  manifest : Bytes
  wireguard : Text → Option Bytes

def State.revoke (st : State) : State := { st with content := st.content.revoke }

inductive IntentStatus where
  | active | pending | recoveryRequired
  deriving DecidableEq

structure ProviderIntent where
  providerId : Text
  status : IntentStatus
  generation : Option Text
  deriving DecidableEq

structure StateInventory where
  schema : Nat
  selectedProvider : Option Text
  intents : List ProviderIntent
  deriving DecidableEq

def StateInventory.recoveryRequired (i : StateInventory) : Bool :=
  i.intents.any fun item => item.status = .recoveryRequired

structure IngressIdentity where
  interface : Text
  subnet : Text
  deriving DecidableEq

/-- The codes of the errors; `other` is any exception of I/O, of SQLite or of a hook. -/
inductive Code where
  | recoveryExclusiveLeaseRequired
  | recoveryJournalInvalid
  | recoveryComponentMissing
  | recoveryComponentUnsafe
  | recoveryInventoryTooLarge
  | recoveryIngressInvalid
  | recoveryHealthFailed
  | recoveryRequired
  | confirmationRequired
  | restoreFailedRolledBack
  | containerStateRecoveryRequired
  | containerStateComponentMissing
  | containerStateComponentUnsafe
  | containerStatePermissionsInvalid
  | containerStateKeyInvalid
  | containerStateManifestInvalid
  | containerStateInventoryTooLarge
  | containerStateSqliteRecoveryRequired
  | containerStateStagingNotEmpty
  | containerStateInvalid
  | other
  deriving DecidableEq

/-- The libraries below the recovery code, and the checks of `validate_pair` on the values it has
read: the schema, the secrets, the provider states and the ingress settings. -/
structure Platform where
  sha256 : Bytes → Text
  /-- The logical content of a database image; `none` if it is not intact. -/
  decode : Bytes → Option Content
  /-- The image that the backup API writes. -/
  backup : Bytes → Bytes
  decode_backup : ∀ b, decode (backup b) = decode b
  /-- The image after the three `DELETE` statements. -/
  revoke : Bytes → Bytes
  decode_revoke : ∀ b, decode (revoke b) = (decode b).map Content.revoke
  /-- An image in the middle of a write. -/
  torn : Bytes
  /-- The image that `init_database` creates. -/
  initial : Bytes
  initialContent : Content
  decode_initial : decode initial = some initialContent
  dumpManifest : Manifest → Bytes
  loadManifest : Bytes → Option Manifest
  loadManifest_dump : ∀ key, loadManifest (dumpManifest ⟨1, 1, 1, sha256 key⟩) =
    some ⟨1, 1, 1, sha256 key⟩
  dumpManifest_length : ∀ key, (dumpManifest ⟨1, 1, 1, sha256 key⟩).length ≤ 4096
  inspect : Content → Bytes → (Text → Option Bytes) → Except Code StateInventory
  /-- The emptied tables hold nothing that the checks could refuse. -/
  inspect_revoke : ∀ c key wireguard i, inspect c key wireguard = .ok i →
    inspect c.revoke key wireguard = .ok i
  /-- `ingress_identities` of an intact database reads the settings. -/
  ingress : Content → Except Code (List IngressIdentity)
  ingress_revoke : ∀ c, ingress c.revoke = ingress c
  /-- The checks accept a new database with a new key and no WireGuard files. -/
  inspect_initial : ∀ key, key.length = 32 → ∃ i,
    inspect initialContent key (fun _ => none) = .ok i ∧ i.recoveryRequired = false
  ingress_initial : ingress initialContent = .ok []

/-- `build_manifest`, for a key of 32 bytes. -/
def buildManifest (w : Platform) (key : Bytes) : Manifest := ⟨1, 1, 1, w.sha256 key⟩

/-- The database image once SQLite has rolled back a hot journal. -/
def Layout.image (l : Layout) : Option Bytes :=
  match l.files .databaseJournal with
  | some j => some j.bytes
  | none => (l.files .database).map File.bytes

def logical (w : Platform) (l : Layout) : Option State := do
  let content ← l.image.bind w.decode
  let key ← l.files .masterKey
  let manifest ← l.files .manifest
  let wireguard ← l.dirs .wireguard
  some ⟨content, key.bytes, manifest.bytes, wireguard.contents⟩

theorem logical_eq_some_iff {w : Platform} {l : Layout} {st : State} :
    logical w l = some st ↔ l.image.bind w.decode = some st.content ∧
      (l.files .masterKey).map File.bytes = some st.key ∧
      (l.files .manifest).map File.bytes = some st.manifest ∧
      (l.dirs .wireguard).map Dir.contents = some st.wireguard := by
  simp only [logical, Option.bind_eq_bind, Option.bind_eq_some_iff, Option.map_eq_some_iff,
    Option.some.injEq]
  constructor
  · rintro ⟨c, hc, k, hk, f, hf, d, hd, rfl⟩
    exact ⟨hc, ⟨k, hk, rfl⟩, ⟨f, hf, rfl⟩, ⟨d, hd, rfl⟩⟩
  · rintro ⟨hc, ⟨k, hk, hk'⟩, ⟨f, hf, hf'⟩, ⟨d, hd, hd'⟩⟩
    exact ⟨_, hc, k, hk, f, hf, d, hd, by rw [hk', hf', hd']⟩

/-! ## Validation -/

def require (b : Bool) (code : Code) : Except Code Unit := if b then .ok () else .error code

@[simp] theorem require_eq_ok {b : Bool} {code : Code} {u : Unit} :
    require b code = .ok u ↔ b = true := by
  cases b <;> simp [require]

/-- A check under a condition. -/
def whenever (b : Bool) (x : Except Code Unit) : Except Code Unit := if b then x else .ok ()

@[simp] theorem whenever_eq_ok {b : Bool} {x : Except Code Unit} {u : Unit} :
    whenever b x = .ok u ↔ (b = true → x = .ok ()) := by
  cases b <;> simp [whenever]

/-- `_facts` of a file. -/
def facts (f : Option File) : Except Code File :=
  match f with
  | none => .error .containerStateComponentMissing
  | some f => if f.isPrivate then .ok f else .error .containerStatePermissionsInvalid

@[simp] theorem facts_eq_ok {f : Option File} {g : File} :
    facts f = .ok g ↔ f = some g ∧ g.isPrivate = true := by
  unfold facts
  split
  · simp
  · split
    · next h => simp only [Except.ok.injEq, Option.some.injEq]; grind
    · next h => simp only [reduceCtorEq, Option.some.injEq, false_iff]; grind

def present {α : Type} (o : Option α) (code : Code) : Except Code α :=
  match o with
  | some a => .ok a
  | none => .error code

@[simp] theorem present_eq_ok {α : Type} {o : Option α} {code : Code} {a : α} :
    present o code = .ok a ↔ o = some a := by
  cases o <;> simp [present]

/-- `wg-{provider}.conf` for the known providers. -/
def egressNames : List Text :=
  ["wg-mullvad.conf".toList, "wg-pia.conf".toList, "wg-proton.conf".toList]

/-- `_inspect_database`; a hot journal makes a read-only connection fail. -/
def inspectDatabase (w : Platform) (l : Layout) (database : File) : Except Code Content :=
  if (l.files .databaseJournal).isSome then .error .containerStateSqliteRecoveryRequired
  else present (w.decode database.bytes) .containerStateInvalid

/-- The manifest part of `validate_pair`. -/
def validateManifest (w : Platform) (l : Layout) (key : Bytes) : Except Code Unit := do
  let file ← facts (l.files .manifest)
  require (file.bytes.length ≤ 4096) .containerStateInvalid
  let metadata ← present (w.loadManifest file.bytes) .containerStateInvalid
  require (metadata == buildManifest w key) .containerStateManifestInvalid

def validateConfig (entry : Text × File) : Except Code Unit := do
  let file ← facts (some entry.2)
  require (file.bytes.length ≤ 256 * 1024) .containerStateComponentUnsafe

def Layout.validatePair (w : Platform) (l : Layout) (manifest : Bool) :
    Except Code StateInventory := do
  let database ← facts (l.files .database)
  let key ← facts (l.files .masterKey)
  require (key.bytes.length ≤ 32) .containerStateInvalid
  require (key.bytes.length == 32) .containerStateKeyInvalid
  let wireguard ← present (l.dirs .wireguard) .containerStateComponentMissing
  whenever manifest (validateManifest w l key.bytes)
  let content ← inspectDatabase w l database
  require (wireguard.entries.length ≤ 256) .containerStateInventoryTooLarge
  forM wireguard.entries validateConfig
  w.inspect content key.bytes wireguard.contents

def validateProjection (entry : Text × File) : Except Code Unit := do
  require (egressNames.contains entry.1) .containerStateInvalid
  let _ ← facts (some entry.2)

def Layout.validate (w : Platform) (l : Layout) : Except Code StateInventory := do
  forM [Folder.config, .state, .recovery, .backups] fun folder =>
    require (l.folders folder) .containerStateComponentMissing
  let _ ← present (l.dirs .wireguard) .containerStateComponentMissing
  let egress ← present (l.dirs .providerEgress) .containerStateComponentMissing
  whenever (l.files .databaseJournal).isSome ((facts (l.files .databaseJournal)).map fun _ => ())
  forM egress.entries validateProjection
  l.validatePair w true

/-- A provider projection directory that `validate` accepts. -/
def Dir.IsEgress (d : Dir) : Prop :=
  ∀ e ∈ d.entries, e.1 ∈ egressNames ∧ e.2.isPrivate = true

/-- The WireGuard files of a valid layout. -/
structure Dir.IsWireguard (d : Dir) : Prop where
  count : d.entries.length ≤ 256
  isPrivate : ∀ e ∈ d.entries, e.2.isPrivate = true
  size : ∀ e ∈ d.entries, e.2.bytes.length ≤ 256 * 1024

/-- Database, key and WireGuard files that `validate_pair` accepts, and what they mean. -/
structure ValidPair (w : Platform) (l : Layout) (content : Content) (key : Bytes)
    (wireguard : Text → Option Bytes) (inventory : StateInventory) : Prop where
  cold : l.files .databaseJournal = none
  database : ∃ f, l.files .database = some f ∧ f.isPrivate = true ∧
    w.decode f.bytes = some content
  masterKey : ∃ f, l.files .masterKey = some f ∧ f.isPrivate = true ∧ f.bytes = key
  keyLength : key.length = 32
  files : ∃ d, l.dirs .wireguard = some d ∧ d.IsWireguard ∧ d.contents = wireguard
  inspected : w.inspect content key wireguard = .ok inventory

/-- A layout that `validate` accepts, and what it means. -/
structure Valid (w : Platform) (l : Layout) (st : State) (inventory : StateInventory) : Prop where
  folders : ∀ folder, l.folders folder = true
  egress : ∃ d, l.dirs .providerEgress = some d ∧ d.IsEgress
  pair : ValidPair w l st.content st.key st.wireguard inventory
  manifest : ∃ f, l.files .manifest = some f ∧ f.isPrivate = true ∧ f.bytes = st.manifest
  manifestLength : st.manifest.length ≤ 4096
  manifestMatches : w.loadManifest st.manifest = some (buildManifest w st.key)

section
variable {w : Platform} {l : Layout} {inventory : StateInventory}

private theorem inspectDatabase_eq_ok {database : File} {content : Content} :
    inspectDatabase w l database = .ok content ↔
      l.files .databaseJournal = none ∧ w.decode database.bytes = some content := by
  unfold inspectDatabase
  split
  · next h => simp only [reduceCtorEq, false_iff]; rintro ⟨hn, -⟩; simp [hn] at h
  · next h => simpa using fun _ => h

private theorem validateConfig_eq_ok {e : Text × File} {u : Unit} :
    validateConfig e = .ok u ↔ e.2.isPrivate = true ∧ e.2.bytes.length ≤ 256 * 1024 := by
  simp only [validateConfig, bind_eq_ok, facts_eq_ok, require_eq_ok, decide_eq_true_eq,
    Option.some.injEq]
  constructor
  · rintro ⟨_, ⟨rfl, hp⟩, hs⟩
    exact ⟨hp, hs⟩
  · rintro ⟨hp, hs⟩
    exact ⟨_, ⟨rfl, hp⟩, hs⟩

private theorem validateManifest_eq_ok {key : Bytes} {u : Unit} :
    validateManifest w l key = .ok u ↔ ∃ f, l.files .manifest = some f ∧ f.isPrivate = true ∧
      f.bytes.length ≤ 4096 ∧ w.loadManifest f.bytes = some (buildManifest w key) := by
  simp only [validateManifest, bind_eq_ok, facts_eq_ok, require_eq_ok, present_eq_ok,
    decide_eq_true_eq, beq_iff_eq]
  constructor
  · rintro ⟨f, ⟨hf, hp⟩, -, hl, _, hm, rfl⟩
    exact ⟨f, hf, hp, hl, hm⟩
  · rintro ⟨f, hf, hp, hl, hm⟩
    exact ⟨f, ⟨hf, hp⟩, (), hl, _, hm, rfl⟩

private theorem validatePair_iff {manifest : Bool} : l.validatePair w manifest = .ok inventory ↔
    ∃ content key wireguard, ValidPair w l content key wireguard inventory ∧
      (manifest = true → validateManifest w l key = .ok ()) := by
  simp only [Layout.validatePair, bind_eq_ok, facts_eq_ok, require_eq_ok, present_eq_ok,
    inspectDatabase_eq_ok, validateConfig_eq_ok, whenever_eq_ok, forM_eq_ok, decide_eq_true_eq,
    beq_iff_eq]
  constructor
  · rintro ⟨database, ⟨hdb, hdbp⟩, key, ⟨hkey, hkeyp⟩, -, -, -, hlen, d, hd, -, hmanifest, content,
      ⟨hcold, hdec⟩, -, hcount, -, hentries, hinv⟩
    exact ⟨content, key.bytes, d.contents, ⟨hcold, ⟨_, hdb, hdbp, hdec⟩, ⟨_, hkey, hkeyp, rfl⟩,
      hlen, ⟨d, hd, ⟨hcount, fun e he => (hentries e he).1, fun e he => (hentries e he).2⟩, rfl⟩,
      hinv⟩, hmanifest⟩
  · rintro ⟨content, key, wireguard, ⟨hcold, ⟨db, hdb, hdbp, hdec⟩, ⟨k, hk, hkp, rfl⟩, hlen,
      ⟨d, hd, hwg, rfl⟩, hinv⟩, hmanifest⟩
    exact ⟨db, ⟨hdb, hdbp⟩, k, ⟨hk, hkp⟩, (), by omega, (), hlen, d, hd, (), hmanifest, content,
      ⟨hcold, hdec⟩, (), hwg.count, (), fun e he => ⟨hwg.isPrivate e he, hwg.size e he⟩, hinv⟩

theorem validatePair_eq_ok : l.validatePair w false = .ok inventory ↔
    ∃ content key wireguard, ValidPair w l content key wireguard inventory := by
  simp [validatePair_iff]

private theorem validateProjection_eq_ok {e : Text × File} {u : Unit} :
    validateProjection e = .ok u ↔ e.1 ∈ egressNames ∧ e.2.isPrivate = true := by
  simp only [validateProjection, bind_eq_ok, facts_eq_ok, require_eq_ok, List.contains_iff_mem,
    Option.some.injEq, pure, Except.pure]
  constructor
  · rintro ⟨-, hn, _, ⟨rfl, hp⟩, -⟩
    exact ⟨hn, hp⟩
  · rintro ⟨hn, hp⟩
    exact ⟨(), hn, _, ⟨rfl, hp⟩, trivial⟩

/-- What the strict check has established when it returns. -/
theorem validate_eq_ok : l.validate w = .ok inventory ↔ ∃ st, Valid w l st inventory := by
  simp only [Layout.validate, bind_eq_ok, require_eq_ok, present_eq_ok, forM_eq_ok,
    validateProjection_eq_ok, validatePair_iff, validateManifest_eq_ok, whenever_eq_ok,
    forall_const]
  constructor
  · rintro ⟨-, hfolders, _, hwg, egress, hegress, -, -, -, hprojections, content, key, wireguard,
      hpair, f, hf, hp, hl, hm⟩
    refine ⟨⟨content, key, f.bytes, wireguard⟩, ?_, ⟨_, hegress, hprojections⟩, hpair,
      ⟨f, hf, hp, rfl⟩, hl, hm⟩
    intro folder
    exact hfolders folder (by cases folder <;> simp)
  · rintro ⟨st, hfolders, ⟨egress, hegress, hprojections⟩, hpair, ⟨f, hf, hp, hbytes⟩, hl, hm⟩
    obtain ⟨d, hd, -⟩ := hpair.files
    rw [← hbytes] at hl hm
    exact ⟨(), fun folder _ => hfolders folder, d, hd, egress, hegress, (),
      by simp [hpair.cold], (), hprojections, _, _, _, hpair, f, hf, hp, hl, hm⟩

/-- With a hot journal the strict check gets as far as the database, and no further. -/
theorem validate_hot {l' : Layout} {st : State} (h : Valid w l' st inventory)
    (hfolders : l.folders = l'.folders) (hdirs : l.dirs = l'.dirs)
    (hkey : l.files .masterKey = l'.files .masterKey)
    (hmanifest : l.files .manifest = l'.files .manifest)
    (hdatabase : ∃ f, l.files .database = some f ∧ f.isPrivate = true)
    (hjournal : ∃ j, l.files .databaseJournal = some j ∧ j.isPrivate = true) :
    l.validate w = .error .containerStateSqliteRecoveryRequired := by
  obtain ⟨k, hk, hkp, hkb⟩ := h.pair.masterKey
  obtain ⟨f, hf, hfp, hfb⟩ := h.manifest
  obtain ⟨d, hd, -, -⟩ := h.pair.files
  obtain ⟨egress, hegress, hisegress⟩ := h.egress
  obtain ⟨db, hdb, hdbp⟩ := hdatabase
  obtain ⟨j, hj, hjp⟩ := hjournal
  have hlength : k.bytes.length = 32 := by rw [hkb]; exact h.pair.keyLength
  have hfolder : (forM [Folder.config, .state, .recovery, .backups] fun folder =>
      require (l.folders folder) .containerStateComponentMissing) = .ok () := by
    rw [forM_eq_ok]
    intro folder _
    rw [require_eq_ok, hfolders]
    exact h.folders folder
  have hwireguard : present (l.dirs .wireguard) .containerStateComponentMissing = .ok d := by
    rw [present_eq_ok, hdirs, hd]
  have hprojections : forM egress.entries validateProjection = .ok () := by
    rw [forM_eq_ok]
    exact fun e he => validateProjection_eq_ok.mpr (hisegress e he)
  have hmetadata : validateManifest w l k.bytes = .ok () := by
    refine validateManifest_eq_ok.mpr ⟨f, by rw [hmanifest, hf], hfp, ?_, ?_⟩
    · rw [hfb]
      exact h.manifestLength
    · rw [hfb, hkb]
      exact h.manifestMatches
  have hpair : l.validatePair w true = .error .containerStateSqliteRecoveryRequired := by
    rw [Layout.validatePair, facts_eq_ok.mpr ⟨hdb, hdbp⟩,
      facts_eq_ok.mpr ⟨hkey.trans hk, hkp⟩, hwireguard]
    simp [require, whenever, inspectDatabase, hj, hlength, hmetadata, bind, Except.bind]
  rw [Layout.validate, hfolder, hwireguard, present_eq_ok.mpr (hdirs ▸ hegress), hpair,
    facts_eq_ok.mpr ⟨hj, hjp⟩]
  simp [whenever, hj, hprojections, bind, Except.bind, Except.map]

theorem Valid.logical {st : State} (h : Valid w l st inventory) : logical w l = some st := by
  obtain ⟨db, hdb, -, hdec⟩ := h.pair.database
  obtain ⟨k, hk, -, hkey⟩ := h.pair.masterKey
  obtain ⟨f, hf, -, hmanifest⟩ := h.manifest
  obtain ⟨d, hd, -, hcontents⟩ := h.pair.files
  rw [logical_eq_some_iff]
  refine ⟨?_, by rw [hk, Option.map_some, hkey], by rw [hf, Option.map_some, hmanifest],
    by rw [hd, Option.map_some, hcontents]⟩
  rw [Layout.image, h.pair.cold, hdb]
  exact hdec

end

end ExitLane.Recovery
