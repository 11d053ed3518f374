import ExitLane.Backup.Restore
import ExitLane.State.Reachable
import Mathlib.Algebra.Order.BigOperators.Group.List

/-!
# What a backup brings back

A backup of any state that a first setup and peer operations can reach is read back unchanged.

* `validateStagedState_of_valid`: `validate_staged_state` accepts what `_validate_state` accepts;
* `length_entries_le`: a reachable directory has at most 254 files;
* `backup_round_trip`: `prepare_restore` gives back the database, the key and the files of
  `create_backup`.
-/

namespace ExitLane.Backup
open Python IpAddress Peers Ingress State

/-! ## The staged validator and the one of the operations -/

theorem forM_eq_some {α : Type} {l : List α} {f : α → Option Unit} (h : ∀ a ∈ l, f a = some ()) :
    l.forM f = some () := by
  induction l with
  | nil => rfl
  | cons a l ih =>
    rw [List.forall_mem_cons] at h
    rw [List.forM, h.1]
    exact ih h.2

section Staged
variable {w : Platform} {interface : Text} {s : Store} {srv : Server} {profile : Profile}
  {publicKeyLocal : Text → Option Text} {files : Files}
  (hlocal : ∀ p k, w.pubkey p = some k → publicKeyLocal p = some k)
include hlocal

theorem stagedRow_of_rowValid {address : Interface} {serverPublic : Text} {row : Row}
    (h : RowValid w files address serverPublic row) :
    stagedRow publicKeyLocal files address serverPublic row = some () := by
  obtain ⟨client, hread, ⟨t, ip, ht, hip, hlength, hn, hass⟩, ⟨p, hp, hp0, hk⟩, hremote⟩ := h.client
  simp only [stagedRow, Option.bind_eq_bind, Option.bind_eq_some_iff, guard_eq_some]
  refine ⟨(), h.configName, client, by rw [hread]; rfl, ip, by rw [ht]; exact hip, p,
    nonEmpty_eq_some.mpr ⟨hp, hp0⟩, row.publicKey, hlocal _ _ hk, hlength,
    (parseIPv4_eq_some hn).1.symm, hass, rfl, hremote⟩

/-- `validate_staged_state` accepts what `_validate_state` accepts. -/
theorem validateStagedState_of_valid {δ : Type} {db : Database δ}
    (h : Valid w interface s srv profile) (hfiles : ∀ n, s.files n ≠ none → files n = s.files n)
    (hname : isIngressName interface = true) {client : Text} (hclient : isConfigName client = true)
    (hconfigured : db.configured = true) (hinterface : db.interface = some interface)
    (hclientName : db.client = some client) (hpeers : db.peers = some s.table)
    (hprofile : db.profile = some s.profile) :
    validateStagedState publicKeyLocal files db = some () := by
  obtain ⟨content, hread, hsrv⟩ := h.content
  have hserver : read (files interface) = .ok content := by
    rw [hfiles, hread]
    intro hnone
    rw [hnone] at hread
    cases hread
  obtain ⟨hsome, -⟩ := validateProfile_eq_ok h.profileRow
  have hitems : dictEq (blockItems srv.peers) (activeItems s.table.sorted) = true := by
    rw [dictEq_iff (nodup_blockItems (server_eq_some_iff.mp hsrv).2.2) nodup_activeItems]
    rintro ⟨k, a⟩
    rw [h.items, mem_activeItems, mem_activeItems]
    simp only [Table.mem_sorted]
  have hrows : s.table.sorted.forM (stagedRow publicKeyLocal files srv.address
      profile.serverPublicKey) = some () := by
    refine forM_eq_some fun r hr => stagedRow_of_rowValid hlocal ?_
    have hrow := h.rows r (Table.mem_sorted.mp hr)
    refine hrow.congr (hfiles _ fun hnone => ?_)
    obtain ⟨client, hclient, -⟩ := hrow.client
    rw [hnone] at hclient
    cases hclient
  have hprofileRow : validateProfile (some profile) = .ok profile := hsome ▸ h.profileRow
  simp only [validateStagedState, hconfigured, if_true, hinterface, hclientName, hname, hclient,
    hserver, hprofile, hsome, hpeers, Option.join_some, Option.bind_eq_bind, Option.bind_some,
    Except.toOption, hsrv, hlocal _ _ h.serverPublic, hprofileRow, hitems, guard, pure, and_self]
  exact hrows

end Staged

/-! ## The directory of a reachable state -/

/-- The directory holds the configurations of a store and nothing else. -/
structure Holds (d : Directory) (files : Files) : Prop where
  represents : d.Represents files
  names : ∀ e ∈ d.entries, ∃ stem, stem ≠ [] ∧ e.1 = confName stem

variable {stem : Text}

section Directory
variable {w : Platform} {interface : Text} {s : Store} {d : Directory} {head : Head}
  {peers : List PeerBlock}

/-- Every entry is the file of a name that the store has. -/
theorem Holds.entry {files : Files} (h : Holds d files) {name : Text} {e : Entry}
    (he : (name, e) ∈ d.entries) : ∃ stem, name = confName stem ∧ files stem = some e := by
  obtain ⟨stem, hne, hname⟩ := h.names _ he
  refine ⟨stem, hname, ?_⟩
  rw [← h.represents stem hne, ← hname]
  exact Directory.get_eq_some_iff.mpr he

/-- One file for the server and one for each row. -/
theorem length_entries_le (h : Holds d s.files) (htidy : Tidy interface s) :
    d.entries.length ≤ s.table.rows.length + 1 := by
  have hsubset : d.entries.map Prod.fst ⊆
      (interface :: s.table.rows.map Row.configName).map confName := by
    intro name hname
    obtain ⟨e, he, rfl⟩ := List.mem_map.mp hname
    obtain ⟨stem, hstem, hfile⟩ := h.entry he
    rw [hstem]
    refine List.mem_map_of_mem ?_
    rcases (htidy.names stem).mp (by simp [hfile]) with rfl | ⟨r, hr, rfl⟩
    · exact List.mem_cons_self
    · exact List.mem_cons_of_mem _ (List.mem_map_of_mem hr)
  have hlength := (List.subperm_of_subset d.nodup hsubset).length_le
  simpa using hlength

theorem isFileName_of {name : Text} (hslash : '/' ∉ name) (hlength : 2 < name.length) :
    isFileName name = true := by
  have hne : name ≠ [] := List.ne_nil_of_length_pos (by omega)
  have hdot : name ≠ ".".toList := fun heq => absurd hlength (by rw [heq]; decide)
  have hdots : name ≠ "..".toList := fun heq => absurd hlength (by rw [heq]; decide)
  rw [isFileName, posixParts_of hslash hne hdot, List.isEmpty_eq_false_iff.mpr hne,
    bne_iff_ne.mpr hdot, bne_iff_ne.mpr hdots]
  simp

theorem slash_not_mem_confName (h : isConfigName stem = true) : '/' ∉ confName stem := by
  simp only [isConfigName, Bool.and_eq_true, List.all_eq_true] at h
  intro hmem
  rcases List.mem_append.mp hmem with hmem | hmem
  · exact absurd (h.2 _ hmem) (by decide)
  · exact absurd hmem (by decide +kernel)

theorem isFileName_confName (h : isConfigName stem = true) : isFileName (confName stem) = true := by
  refine isFileName_of (slash_not_mem_confName h) ?_
  rw [confName, List.length_append, show ".conf".toList.length = 5 from rfl]
  omega

/-- What a file of a reachable directory is. -/
structure Portable (files : Files) (stem t : Text) : Prop where
  name : isConfigName stem = true
  file : files stem = some (written t)
  hooks : validatedWireguardHooks stem ".conf".toList t = true

theorem Portable.ne_nil {files : Files} {stem t : Text} (h : Portable files stem t) :
    stem ≠ [] := by
  rintro rfl
  exact absurd h.name (by decide)

/-- Every file of a reachable directory passes the checks of the restore. -/
theorem portable_of_reachable (hhead : head.WellFormed) (hname : head.interface = interface)
    (hserved : Served w interface head s peers) (htidy : Tidy interface s)
    {srv : Server} {profile : Profile} (hvalid : Valid w interface s srv profile)
    (hreadable : Readable s) (hsome : s.files stem ≠ none) : ∃ t, Portable s.files stem t := by
  rcases (htidy.names stem).mp hsome with rfl | ⟨r, hr, rfl⟩
  · refine ⟨serverText head peers, hvalid.interfaceName, hserved.file, ?_⟩
    rw [← hname]
    exact validated_serverText hhead hserved.plain hserved.length_le
  · obtain ⟨p, privateKey, tunnelIp, hplain, hfile⟩ := htidy.clients r hr
    have hsize := Nat.le_trans (hreadable _ _ hfile) (show 65536 ≤ 256 * 1024 by decide)
    exact ⟨_, (hvalid.rows r hr).configName, hfile, validated_of_no_hooks _ _ hsize
      (plain_clientText hplain) (hooks_clientText hplain)⟩

end Directory

/-! ## The archive of a reachable state -/

section RoundTrip
variable {β δ : Type} (K : RestoreKit β δ)

/-- `_safe_regular_file` and the copy of one entry. -/
def copyOf : Entry → Option β
  | .file f => if f.links = 1 then some (K.encode f.text) else none
  | .other => none

/-- The entries of the WireGuard directory. -/
def sources (d : Directory) : List (Text × Option β) := d.entries.map fun e => (e.1, copyOf K e.2)

def contents : Entry → Text
  | .file f => f.text
  | .other => []

/-- The copies of plain files, in the order in which they are made. -/
def copies (d : Directory) : List (Text × β) :=
  (sortedByName d.entries).map fun e => (e.1, K.encode (contents e.2))

theorem collectConfigs_eq {files : List (Text × β)} {index : Nat}
    (h : index + files.length ≤ maxFiles - 2) :
    collectConfigs index (files.map fun f => (f.1, some f.2)) = .ok (stageConfigs index files) := by
  induction files generalizing index with
  | nil => rfl
  | cons f files ih =>
    rw [List.length_cons] at h
    rw [List.map_cons, collectConfigs, if_neg (by omega), ih (by omega)]
    rfl

variable {K} {d : Directory} {files : Files}
  (hportable : ∀ stem, files stem ≠ none → ∃ t, Portable files stem t)

include hportable in
/-- The entries of a portable directory, one by one. -/
theorem Holds.portable (h : Holds d files) {name : Text} {e : Entry}
    (he : (name, e) ∈ d.entries) :
    ∃ stem t, name = confName stem ∧ e = written t ∧ Portable files stem t := by
  obtain ⟨stem, hname, hfile⟩ := h.entry he
  obtain ⟨t, ht⟩ := hportable stem (by simp [hfile])
  exact ⟨stem, t, hname, Option.some.inj (hfile.symm.trans ht.file), ht⟩

theorem perm_copies (K : RestoreKit β δ) (d : Directory) :
    (copies K d).Perm (d.entries.map fun e => (e.1, K.encode (contents e.2))) :=
  (perm_sortedByName d.entries).map _

theorem nodup_copies (K : RestoreKit β δ) (d : Directory) : ((copies K d).map Prod.fst).Nodup := by
  have hperm := (perm_copies K d).map Prod.fst
  rw [List.map_map] at hperm
  exact hperm.nodup_iff.mpr d.nodup

include hportable in
/-- Every copy is the text of one portable file. -/
theorem Holds.copy (h : Holds d files) {f : Text × β} (hf : f ∈ copies K d) :
    ∃ stem t, f = (confName stem, K.encode t) ∧ Portable files stem t := by
  obtain ⟨⟨name, e⟩, he, rfl⟩ := List.mem_map.mp ((perm_copies K d).mem_iff.mp hf)
  obtain ⟨stem, t, rfl, rfl, ht⟩ := h.portable hportable he
  exact ⟨stem, t, rfl, ht⟩

/-- The sources in the order of the backup, if all are plain files. -/
theorem sorted_sources (hplain : ∀ e ∈ d.entries, copyOf K e.2 = some (K.encode (contents e.2))) :
    sortedByName (sources K d) = (copies K d).map fun f => (f.1, some f.2) := by
  have hmap := List.map_insertionSort (fun a b : Text × Entry => a.1 ≤ b.1)
    (fun a b : Text × Option β => a.1 ≤ b.1) (fun e => (e.1, copyOf K e.2)) d.entries
    (fun _ _ _ _ => Iff.rfl)
  rw [sortedByName, sources, ← hmap, copies, List.map_map]
  refine List.map_congr_left fun e he => ?_
  rw [hplain e ((perm_sortedByName d.entries).mem_iff.mp he)]
  rfl

/-- `create_backup` of a directory of plain files, if there is room. -/
theorem createBackup_eq (hplain : ∀ e ∈ d.entries, copyOf K e.2 = some (K.encode (contents e.2)))
    (hcount : d.entries.length ≤ maxFiles - 2) (label : Label) (image key : β) :
    createBackup K.toKit label image key (sources K d) =
      .ok (pack K.toKit label (stagedState image key (copies K d) K.toKit)) := by
  have hlength := (perm_copies K d).length_eq
  rw [List.length_map] at hlength
  rw [createBackup, sorted_sources hplain, collectConfigs_eq (by omega)]
  rfl

include hportable in
theorem Holds.plain (h : Holds d files) :
    ∀ e ∈ d.entries, copyOf K e.2 = some (K.encode (contents e.2)) := by
  rintro ⟨name, e⟩ he
  obtain ⟨stem, t, rfl, rfl, -⟩ := h.portable hportable he
  rfl

include hportable in
/-- What the restore reads back is what the store held. -/
theorem Holds.restoredFiles_eq (h : Holds d files) (hsome : files stem ≠ none) :
    restoredFiles K (copies K d) stem = files stem := by
  obtain ⟨t, ht⟩ := hportable stem hsome
  have hentry : (confName stem, written t) ∈ d.entries := by
    rw [← Directory.get_eq_some_iff, h.represents stem ht.ne_nil]
    exact ht.file
  have hlookup : (copies K d).lookup (confName stem) = some (K.encode t) :=
    (lookup_eq_some_iff_mem (nodup_copies K d)).mpr
      ((perm_copies K d).mem_iff.mpr (List.mem_map.mpr ⟨_, hentry, rfl⟩))
  rw [restoredFiles, hlookup, Option.bind_some, K.decode_encode, ht.file]
  rfl

include hportable in
theorem Holds.hooksAccepted (h : Holds d files) : (copies K d).all (hooksAccepted K) = true := by
  rw [List.all_eq_true]
  intro f hf
  obtain ⟨stem, t, rfl, ht⟩ := h.copy hportable hf
  simp only [Backup.hooksAccepted, K.decode_encode, Option.any_some, pathParts_confName ht.ne_nil]
  exact ht.hooks

/-- The database of an appliance whose first setup was `req`, with the peers of `s`. -/
structure Stores (db : Database δ) (req : SetupRequest) (s : Store) : Prop where
  schema : db.schema ≤ 1
  configured : db.configured = true
  interface : db.interface = some req.interface
  client : db.client = some req.client
  peers : db.peers = some s.table
  profile : db.profile = some s.profile

/-- What the restore asks beside the contents of the WireGuard files: a database of this version, a
key that decrypts its secrets, and peers that agree with the files. -/
structure Restorable (K : RestoreKit β δ) (d : Directory) (image key : β) (label : Label)
    (db : Database δ) : Prop where
  content : K.content image = some db
  schema : db.schema ≤ 1 ∧ label.schema ≤ 1
  key : K.size key = 32 ∧ K.decrypts db key = true
  names : ∀ e ∈ d.entries, isFileName e.1 = true
  peers : validateStagedState K.publicKeyLocal (restoredFiles K (copies K d)) db = some ()

theorem all_copies (K : RestoreKit β δ) (d : Directory) :
    (copies K d).all (hooksAccepted K) = true ↔ ∀ e ∈ d.entries,
      validatedWireguardHooks (pathParts e.1).1 (pathParts e.1).2 (contents e.2) = true := by
  rw [(perm_copies K d).all_eq, List.all_map, List.all_eq_true]
  refine forall₂_congr fun e _ => ?_
  rw [Function.comp_apply, hooksAccepted, K.decode_encode, Option.any_some]

/-- The archive of a restorable state comes back if every file passes the hook check. -/
theorem Restorable.restore {image key : β} {label : Label} {db : Database δ}
    (h : Restorable K d image key label db) (hcount : d.entries.length ≤ maxFiles - 2)
    (hwithin : WithinLimits K.toKit
      (pack K.toKit label (stagedState image key (copies K d) K.toKit))) :
    prepareRestore K (pack K.toKit label (stagedState image key (copies K d) K.toKit)) = (do
      require ((copies K d).all (hooksAccepted K)) .invalidWireguardConfig
      return ⟨manifestOf K.toKit label (stagedState image key (copies K d) K.toKit),
        K.snapshot image, key, copies K d⟩) := by
  have hcopies : (copies K d).length ≤ maxFiles - 2 := by
    rw [(perm_copies K d).length_eq, List.length_map]
    exact hcount
  have hnames : ∀ f ∈ copies K d, isFileName f.1 = true := by
    intro f hf
    obtain ⟨e, he, rfl⟩ := List.mem_map.mp ((perm_copies K d).mem_iff.mp hf)
    exact h.names e he
  rw [prepareRestore_pack K label image key (copies K d) hcopies hwithin h.key.1 h.schema.2 hnames
    (nodup_copies K d) h.content h.schema.1 h.key.2, h.peers]
  rfl

section Reachable
variable {w : Platform} (hw : WireGuardKeys w) {req : SetupRequest} {created : Created}
  {first s : Store} (hsetup : FirstSetup w req created first) (hallowed : Printable req.allowedIps)
  (hempty : ∀ name, first.files name ≠ none → name = req.interface ∨ name = req.client)
  (hrun : Relation.ReflTransGen (Step w req.interface) first s) (hreadable : Readable s)
include hw hsetup hallowed hempty hrun hreadable

theorem portable_of_run (hsome : s.files stem ≠ none) : ∃ t, Portable s.files stem t := by
  have hkeys : ∀ p k, w.pubkey p = some k → isWord k = true :=
    fun p k h => isWord_of_isWireGuardKey (hw p k h).2
  have hprivate := isWord_of_firstSetup hw hsetup
  obtain ⟨hhead, hfirst⟩ := hsetup.served hkeys hprivate
  obtain ⟨peers, hserved⟩ := run_served hkeys hhead hfirst hrun
  have htidy := run_tidy hw (tidy_of_firstSetup hw hsetup hallowed hempty) hrun
  obtain ⟨srv, profile, hvalid⟩ := valid_of_run (hsetup.valid hkeys hprivate) hrun hreadable
  exact portable_of_reachable hhead hsetup.interface_eq hserved htidy hvalid hreadable hsome

omit hreadable in
/-- No reachable number of peers is too large for a backup. -/
theorem length_entries_of_run (hholds : Holds d s.files) : d.entries.length ≤ maxFiles - 2 := by
  have hkeys : ∀ p k, w.pubkey p = some k → isWord k = true :=
    fun p k h => isWord_of_isWireGuardKey (hw p k h).2
  obtain ⟨hhead, hfirst⟩ := hsetup.served hkeys (isWord_of_firstSetup hw hsetup)
  obtain ⟨peers, hserved⟩ := run_served hkeys hhead hfirst hrun
  have htidy := run_tidy hw (tidy_of_firstSetup hw hsetup hallowed hempty) hrun
  have hlength := length_entries_le hholds htidy
  have hrows := hserved.count
  unfold maxFiles
  omega

/-- A reachable state is restorable. -/
theorem restorable_of_run (hlocal : ∀ p k, w.pubkey p = some k → K.publicKeyLocal p = some k)
    (hholds : Holds d s.files) {db : Database δ} (hstores : Stores db req s) {image key : β}
    (hcontent : K.content image = some db) (hkey : K.size key = 32)
    (hdecrypts : K.decrypts db key = true) {label : Label} (hlabel : label.schema = db.schema) :
    Restorable K d image key label db := by
  have hportable : ∀ stem, s.files stem ≠ none → ∃ t, Portable s.files stem t :=
    fun stem => portable_of_run hw hsetup hallowed hempty hrun hreadable
  obtain ⟨srv, profile, hvalid⟩ := valid_of_run
    (hsetup.valid (fun p k h => isWord_of_isWireGuardKey (hw p k h).2)
      (isWord_of_firstSetup hw hsetup)) hrun hreadable
  obtain ⟨server, client, hfiles⟩ := hsetup.files
  obtain ⟨network, clientHost, clientPublic, hfacts⟩ := create_eq_some hfiles
  refine ⟨hcontent, ⟨hstores.schema, hlabel ▸ hstores.schema⟩, ⟨hkey, hdecrypts⟩, ?_, ?_⟩
  · rintro ⟨name, e⟩ he
    obtain ⟨stem, t, rfl, -, ht⟩ := hholds.portable hportable he
    exact isFileName_confName ht.name
  · exact validateStagedState_of_valid hlocal hvalid
      (fun n hn => hholds.restoredFiles_eq hportable hn) hfacts.interfaceName.1 hfacts.clientName.1
      hstores.configured hstores.interface hstores.client hstores.peers hstores.profile

/-- **Round trip.** After a first setup in an empty directory and any peer operations,
`create_backup` returns an archive within the limits on the number of members, and if the archive is
within the other limits, `prepare_restore` gives back the database, the key and exactly the
WireGuard files. -/
theorem backup_round_trip (hlocal : ∀ p k, w.pubkey p = some k → K.publicKeyLocal p = some k)
    (hholds : Holds d s.files) {db : Database δ} (hstores : Stores db req s) (image key : β)
    (hcontent : K.content image = some db) (hkey : K.size key = 32)
    (hdecrypts : K.decrypts db key = true) (label : Label) (hlabel : label.schema = db.schema) :
    ∃ members, createBackup K.toKit label image key (sources K d) = .ok members ∧
      members.length ≤ maxFiles + 1 ∧
      (WithinLimits K.toKit members → ∃ r, prepareRestore K members = .ok r ∧
        K.content r.database = some db ∧ r.masterKey = key ∧
        (r.wireguard.map fun f => (f.1, some f.2)).Perm (sources K d)) := by
  have hportable : ∀ stem, s.files stem ≠ none → ∃ t, Portable s.files stem t :=
    fun stem => portable_of_run hw hsetup hallowed hempty hrun hreadable
  have hcount := length_entries_of_run hw hsetup hallowed hempty hrun hholds
  have hrestorable := restorable_of_run hw hsetup hallowed hempty hrun hreadable hlocal hholds
    hstores hcontent hkey hdecrypts hlabel
  have hcopies : (copies K d).length ≤ maxFiles - 2 := by
    rw [(perm_copies K d).length_eq, List.length_map]
    exact hcount
  refine ⟨_, createBackup_eq (hholds.plain hportable) hcount label image key,
    (wellFormed_pack K.toKit label image key hcopies).count, fun hwithin => ?_⟩
  have hrestore := hrestorable.restore hcount hwithin
  rw [hholds.hooksAccepted hportable] at hrestore
  refine ⟨_, hrestore, ?_, rfl, ?_⟩
  · rw [K.content_snapshot, hcontent]
  · rw [← sorted_sources (hholds.plain hportable)]
    exact perm_sortedByName _

end Reachable

end RoundTrip

theorem content_stageConfigs {β : Type} {files : List (Text × β)} {index : Nat} {s : Staged β}
    (h : s ∈ stageConfigs index files) : ∃ name, (name, s.content) ∈ files := by
  induction files generalizing index with
  | nil => cases h
  | cons f files ih =>
    rcases List.mem_cons.mp h with rfl | h
    · exact ⟨f.1, List.mem_cons_self⟩
    · obtain ⟨name, hmem⟩ := ih h
      exact ⟨name, List.mem_cons_of_mem _ hmem⟩

/-! ## One setup -/

/-- The contents of an archive. -/
inductive Item where
  | text (t : Text)
  | manifest (m : Manifest)
  | image (db : Database Unit)
  | key

/-- Nothing is compressed. -/
def itemKit : RestoreKit Item Unit where
  size
    | .text t => utf8Length t
    | .manifest _ => 4096
    | .image _ => 40960
    | .key => 32
  digest _ := []
  dump := .manifest
  load
    | .manifest m => some m
    | _ => none
  load_dump _ := rfl
  snapshot := id
  gzipSize members := (members.map fun m => match m.2 with
    | .text t => utf8Length t
    | .manifest _ => 4096
    | .image _ => 40960
    | .key => 32).sum
  version := "1.0".toList
  isNewer _ := some false
  isNewer_version := blobKit.isNewer_version
  encode := .text
  decode
    | .text t => some t
    | _ => none
  decode_encode _ := rfl
  content
    | .image db => some db
    | _ => none
  content_snapshot _ := rfl
  decrypts _ _ := true
  publicKeyLocal := keyPlatform.pubkey

theorem small_sizes {sizes : List Nat} (hcount : sizes.length ≤ maxFiles + 1)
    (hsizes : ∀ n ∈ sizes, n ≤ 65536) (hleast : 40960 ∈ sizes) :
    sizes.sum ≤ maxTotalBytes ∧
      tarSize sizes ≤ sizes.sum * maxCompressionRatio + maxTarStructuralOverhead := by
  have hbound (b : Nat) (h : ∀ n ∈ sizes, n ≤ b) : sizes.sum ≤ sizes.length * b := by
    simpa using List.sum_le_card_nsmul sizes b h
  have hsum := hbound _ hsizes
  have hone := List.single_le_sum (fun _ _ => Nat.zero_le _) _ hleast
  have htar := tarSize_le sizes
  have hlength : sizes.length ≤ 257 := hcount
  constructor
  · show sizes.sum ≤ 402653184
    omega
  · show tarSize sizes ≤ sizes.sum * 100 + 143360
    omega

/-- An archive of small files that are not compressed is within the limits. -/
theorem withinLimits_of_small {members : List (Text × Item)}
    (hcount : members.length ≤ maxFiles + 1)
    (hsize : ∀ m ∈ members, itemKit.size m.2 ≤ 65536) {db : Database Unit}
    (himage : (databaseName, Item.image db) ∈ members) : WithinLimits itemKit.toKit members := by
  have hsizes : ∀ n ∈ memberSizes itemKit.toKit members, n ≤ 65536 := List.forall_mem_map.mpr hsize
  have hlength : (memberSizes itemKit.toKit members).length = members.length := List.length_map _
  obtain ⟨hsum, htar⟩ := small_sizes (hlength ▸ hcount) hsizes (List.mem_map.mpr ⟨_, himage, rfl⟩)
  refine ⟨fun n hn => Nat.le_trans (hsizes n hn) (by decide), hsum, hsum, Nat.le_trans htar ?_⟩
  exact Nat.add_le_add_right (Nat.mul_le_mul_right _ (Nat.le_max_left ..)) _

/-- The members of a backup come from the state. -/
theorem mem_createBackup {β : Type} {K : Kit β} {label : Label} {database key : β}
    {sources : List (Text × Option β)} {members : List (Text × β)}
    (h : createBackup K label database key sources = .ok members) :
    (databaseName, K.snapshot database) ∈ members ∧ ∀ m ∈ members, (∃ x, m.2 = K.dump x) ∨
      m.2 = K.snapshot database ∨ m.2 = key ∨ ∃ name, (name, some m.2) ∈ sources := by
  obtain ⟨staged, hstaged, h⟩ := Effect.bind_eq_ok.mp h
  cases h
  obtain ⟨files, hfiles, rfl, -⟩ := collectConfigs_eq_ok (by decide) hstaged
  refine ⟨mem_pack.mpr (.inr ⟨_, List.mem_cons_self, rfl⟩), fun m hm => ?_⟩
  rcases mem_pack.mp hm with rfl | ⟨s, hs, rfl⟩
  · exact .inl ⟨_, rfl⟩
  · simp only [staging, List.mem_cons] at hs
    rcases hs with rfl | rfl | hs
    · exact .inr (.inl rfl)
    · exact .inr (.inr (.inl rfl))
    · obtain ⟨name, hmem⟩ := content_stageConfigs hs
      refine .inr (.inr (.inr ⟨name, (perm_sortedByName sources).mem_iff.mp ?_⟩))
      rw [hfiles]
      exact List.mem_map_of_mem hmem

/-- The database after a first setup. -/
def setupDatabase (req : SetupRequest) (s : Store) : Database Unit :=
  ⟨1, true, some req.interface, some req.client, some s.table, some s.profile, ()⟩

theorem stores_setupDatabase (req : SetupRequest) (s : Store) :
    Stores (setupDatabase req s) req s :=
  ⟨Nat.le_refl 1, rfl, rfl, rfl, rfl, rfl⟩

/-- What one setup in an empty directory leaves. -/
structure DemoSetup (created : Created) (s : Store) : Prop where
  setup : FirstSetup keyPlatform demoRequest created s
  empty : ∀ name, s.files name ≠ none → name = demoRequest.interface ∨ name = demoRequest.client
  sizes : utf8Length (serverText created.head [created.peer]) ≤ 65536 ∧
    utf8Length created.client ≤ 65536
  readable : Readable s
  holds : Holds (setupVolume demoRequest created demoRequest_ne).wireguard s.files
  valid : (setupVolume demoRequest created demoRequest_ne).validate = true

theorem printable_demoRequest : Printable demoRequest.allowedIps :=
  printable_of_isWord (by decide +kernel)

theorem exists_demoSetup : ∃ created s, DemoSetup created s := by
  obtain ⟨created, s, hsetup, -, haddress, hfiles⟩ := exists_firstSetup
    (show setupRuns demoRequest 0x0a080001 = true by decide +kernel)
  have hcompleted := completed_setupVolume hsetup (by decide +kernel) hfiles (by decide +kernel)
  have hserver : utf8Length (serverText created.head [created.peer]) ≤ 65536 := by
    obtain ⟨hhead, hserved⟩ := hsetup.served
      (fun p k h => isWord_of_isWireGuardKey (keyPlatform_keys p k h).2)
      (isWord_of_firstSetup keyPlatform_keys hsetup)
    have hread := (hserved.server hhead).1
    rw [hserved.file] at hread
    exact size_of_read hread
  refine ⟨created, s, hsetup, fun name hsome => ?_, ⟨hserver, hsetup.clientFile.2⟩,
    fun name f hfile => ?_, ⟨hcompleted.directory, fun e he => ?_⟩, ?_⟩
  · by_contra hnot
    rw [not_or] at hnot
    rw [hfiles, setFiles_two, if_neg hnot.2, if_neg hnot.1] at hsome
    exact hsome rfl
  · rw [hfiles, setFiles_two] at hfile
    split at hfile
    · cases hfile
      exact hsetup.clientFile.2
    · split at hfile
      · cases hfile
        exact hserver
      · cases hfile
  · simp only [setupVolume, List.mem_cons, List.not_mem_nil, or_false] at he
    rcases he with rfl | rfl
    · exact ⟨demoRequest.interface, by decide +kernel, rfl⟩
    · exact ⟨demoRequest.client, by decide +kernel, rfl⟩
  · have hnetwork : created.head.address.network.text = demoRequest.subnet := by
      have hparse := hcompleted.parseNetwork_subnet
      rw [show parseNetwork demoRequest.subnet = some ⟨0x0a080000, 24, by decide, by decide⟩ by
        decide +kernel] at hparse
      rw [← Option.some.inj hparse]
      decide +kernel
    have hpair := (hcompleted.validatePair_iff keyPlatform_keys printable_demoRequest).mpr
      ⟨hnetwork, by rw [haddress]; decide, by decide +kernel⟩
    rw [Volume.validate, hpair]
    rfl

/-- The peer of that setup can be renamed, which changes no file. -/
theorem DemoSetup.exists_renamed {created : Created} {s : Store} (h : DemoSetup created s) :
    ∃ s', Step keyPlatform demoRequest.interface s s' ∧ s'.files = s.files := by
  obtain ⟨_, _, hvalid, row, hrow, -⟩ :=
    accepted_of_firstSetup h.setup (isWord_of_firstSetup keyPlatform_keys h.setup)
  obtain ⟨c, hc, hfiles⟩ := hvalid.exists_update (keyDraw 'C' isWord_clientKey) hrow
    (show validateName keyPlatform "tablet".toList false = .ok "tablet".toList from rfl)
    (show validateName keyPlatform [] true = .ok [] from rfl)
  refine ⟨s.apply c, ⟨_, _, c, hc, trivial, rfl⟩, ?_⟩
  funext n
  rw [Store.apply_files, hfiles]
  rfl

/-- The backup of a first setup whose peer was renamed comes back. -/
theorem backup_round_trip_first_setup : ∃ created s s' members r, DemoSetup created s ∧
    Step keyPlatform demoRequest.interface s s' ∧
    createBackup itemKit.toKit ⟨[], [], 1⟩ (.image (setupDatabase demoRequest s')) .key
      (sources itemKit (setupVolume demoRequest created demoRequest_ne).wireguard) =
        .ok members ∧ prepareRestore itemKit members = .ok r := by
  obtain ⟨created, s, hdemo⟩ := exists_demoSetup
  obtain ⟨s', hstep, hfiles⟩ := hdemo.exists_renamed
  obtain ⟨members, hmembers, hcount, hrestore⟩ := backup_round_trip (K := itemKit) keyPlatform_keys
    hdemo.setup printable_demoRequest hdemo.empty (.single hstep)
    (fun name f hf => hdemo.readable name f (hfiles ▸ hf)) (fun _ _ h => h) (hfiles ▸ hdemo.holds)
    (stores_setupDatabase demoRequest s') (.image (setupDatabase demoRequest s')) .key rfl rfl rfl
    ⟨[], [], 1⟩ rfl
  obtain ⟨himage, hall⟩ := mem_createBackup hmembers
  have hsmall : ∀ m ∈ members, itemKit.size m.2 ≤ 65536 := by
    intro m hm
    rcases hall m hm with ⟨x, hx⟩ | hx | hx | ⟨name, hmem⟩
    · rw [hx]
      exact (by decide : 4096 ≤ 65536)
    · rw [hx]
      exact (by decide : 40960 ≤ 65536)
    · rw [hx]
      exact (by decide : 32 ≤ 65536)
    · simp only [sources, setupVolume, List.map_cons, List.map_nil, List.mem_cons, List.not_mem_nil,
        or_false, Prod.mk.injEq] at hmem
      rcases hmem with ⟨-, hmem⟩ | ⟨-, hmem⟩
      · rw [Option.some.inj hmem]
        exact hdemo.sizes.1
      · rw [Option.some.inj hmem]
        exact hdemo.sizes.2
  obtain ⟨r, hr, -⟩ := hrestore (withinLimits_of_small hcount hsmall himage)
  exact ⟨created, s, s', members, r, hdemo, hstep, hmembers, hr⟩

end ExitLane.Backup
