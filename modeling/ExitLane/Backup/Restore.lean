import ExitLane.Backup.Limits
import ExitLane.State.Volume

/-!
# Restoring a backup

`prepare_restore` reads an archive, checks its manifest, its database, its key and every WireGuard
file, puts the files back under their names and compares them with the rows of the database
(`validate_staged_state`).

* `readManifest_pack`: the manifest of a packed archive passes its own checks;
* `restoreConfigs_stageConfigs`: the files come back under their names;
* `prepareRestore_pack`: a packed state comes back unchanged if the last two validators accept it.
-/

namespace ExitLane.Backup
open Python IpAddress Peers Ingress State
open Effect (bind_eq_ok)

/-! ## `validate_staged_state` -/

/-- What the restore reads of a database, with the defaults of the settings; `other` is the rest. -/
structure Database (δ : Type) where
  schema : Nat
  configured : Bool
  /-- `none` if the value is not a text. -/
  interface : Option Text
  client : Option Text
  /-- `none` if the database has no such table. -/
  peers : Option Table
  profile : Option (Option Profile)
  other : δ

section Staged
variable (publicKeyLocal : Text → Option Text) (files : Files)

/-- The loop over the rows. -/
def stagedRow (address : Interface) (serverPublic : Text) (row : Row) : Option Unit := do
  guard (isConfigName row.configName = true)
  let client ← (read (files row.configName)).toOption
  let tunnel ← parseInterface ((value client addressKey interfaceSection).getD [])
  let privateKey ← nonEmpty (value client privateKeyKey interfaceSection)
  let derived ← publicKeyLocal privateKey
  guard (tunnel.prefixLength = 32 ∧ ipv4Text tunnel.ip = row.tunnelIp ∧
    assignable address tunnel.ip = true ∧ derived = row.publicKey ∧
    value client publicKeyKey peerSection = some serverPublic)

/-- A configuration that no operation has adopted yet: one block and the client of the settings. -/
def stagedLegacy (address : Interface) (serverPublic clientName : Text) :
    List PeerBlock → Option Unit
  | [peer] => do
    let client ← (read (files clientName)).toOption
    let tunnel ← parseInterface ((value client addressKey interfaceSection).getD [])
    let privateKey ← nonEmpty (value client privateKeyKey interfaceSection)
    let derived ← publicKeyLocal privateKey
    guard (tunnel.prefixLength = 32 ∧ assignable address tunnel.ip = true ∧
      peer.allowedIPs = hostText (ipv4Text tunnel.ip) ∧ derived = peer.publicKey ∧
      value client publicKeyKey peerSection = some serverPublic)
  | _ => none

/-- `validate_staged_state`; its only error is `wireguard_configuration_invalid`. -/
def validateStagedState {δ : Type} (db : Database δ) : Option Unit :=
  if db.configured then do
    let interface ← db.interface
    let clientName ← db.client
    guard (isIngressName interface = true ∧ isConfigName clientName = true)
    let content ← (read (files interface)).toOption
    let srv ← server content
    let serverPublic ← publicKeyLocal srv.privateKey
    match db.profile.join with
    | some given => do
      let table ← db.peers
      let profile ← (validateProfile (some given)).toOption
      guard (profile.serverPublicKey = serverPublic)
      guard (dictEq (blockItems srv.peers) (activeItems table.sorted) = true)
      table.sorted.forM (stagedRow publicKeyLocal files srv.address serverPublic)
    | none => do
      guard (db.peers.all (fun table => table.rows.isEmpty) = true)
      stagedLegacy publicKeyLocal files srv.address serverPublic clientName srv.peers
  else
    guard (db.peers.all (fun table => table.rows.isEmpty) = true ∧
      db.profile.all Option.isNone = true)

end Staged

/-! ## `prepare_restore` -/

/-- What the restore takes from libraries, beyond the archive itself. -/
structure RestoreKit (β δ : Type) extends Kit β where
  /-- The bytes of a text file. -/
  encode : Text → β
  decode : β → Option Text
  decode_encode : ∀ t, decode (encode t) = some t
  /-- What SQLite reads from an image that passes `integrity_check`. -/
  content : β → Option (Database δ)
  content_snapshot : ∀ b, content (snapshot b) = content b
  /-- The key decrypts every secret of the database. -/
  decrypts : Database δ → β → Bool
  /-- `_public_key_local`. -/
  publicKeyLocal : Text → Option Text

/-- `PreparedRestore`, with the contents instead of their paths. -/
structure PreparedRestore (β : Type) where
  manifest : Manifest
  database : β
  masterKey : β
  wireguard : List (Text × β)

section Restore
variable {β δ : Type} (K : RestoreKit β δ)

def contentOf (members : List (Text × β)) (m : Manifest) (kind : Kind) : Option β :=
  (m.files.find? fun e => e.kind = kind).bind fun e => members.lookup e.name

/-- What the restore asks of `original_name`. -/
def isFileName (name : Text) : Bool :=
  !name.isEmpty && name != ".".toList && name != "..".toList &&
    (posixParts name).getLast? == some name

/-- The loop over the entries; `restored` are the files moved so far. -/
def restoreConfigs (members : List (Text × β)) :
    List (Text × β) → List FileEntry → Except Code (List (Text × β))
  | restored, [] => .ok restored
  | restored, e :: rest =>
    if e.kind = .wireguardConfig then
      match e.originalName, members.lookup e.name with
      | some name, some content =>
        if isFileName name && !(restored.map Prod.fst).contains name then
          restoreConfigs members (restored ++ [(name, content)]) rest
        else .error .invalidManifest
      | _, _ => .error .invalidManifest
    else restoreConfigs members restored rest

/-- `_validated_wireguard_hooks` of one restored file. -/
def hooksAccepted (f : Text × β) : Bool :=
  (K.decode f.2).any fun t => validatedWireguardHooks (pathParts f.1).1 (pathParts f.1).2 t

/-- The restored directory as the peer code reads it; its files are private. -/
def restoredFiles (files : List (Text × β)) : Files := fun stem =>
  ((files.lookup (confName stem)).bind K.decode).map written

/-- `_inspect_database`. -/
def inspectDatabase (image : β) : Except Code (Database δ) :=
  match K.content image with
  | some db => if db.schema ≤ 1 then .ok db else .error .invalidDatabase
  | none => .error .invalidDatabase

def prepareRestore (members : List (Text × β)) : Except Code (PreparedRestore β) := do
  let m ← readBackup K.toKit members
  match contentOf members m .database, contentOf members m .masterKey with
  | some database, some key => do
    let db ← inspectDatabase K database
    require (K.size key == 32 && K.decrypts db key) .backupSecretPairingInvalid
    let files ← restoreConfigs members [] m.files
    require (files.all (hooksAccepted K)) .invalidWireguardConfig
    require (validateStagedState K.publicKeyLocal (restoredFiles K files) db).isSome
      .wireguardConfigurationInvalid
    return ⟨m, database, key, files⟩
  -- the manifest has an entry of either kind, and its member exists
  | _, _ => .error .requiredComponentMissing

/-! ## A packed archive -/

theorem kind_stageConfigs {files : List (Text × β)} {index : Nat} {s : Staged β}
    (h : s ∈ stageConfigs index files) : s.kind = .wireguardConfig := by
  induction files generalizing index with
  | nil => cases h
  | cons f files ih =>
    rcases List.mem_cons.mp h with rfl | h
    · rfl
    · exact ih h

theorem mem_pack {K : Kit β} {label : Label} {staged : List (Staged β)} {m : Text × β} :
    m ∈ pack K label staged ↔ m = (manifestName, K.dump (manifestOf K label staged)) ∨
      ∃ s ∈ staged, (s.name, s.content) = m := by
  rw [pack, (perm_sortedByName _).mem_iff, List.mem_cons, List.mem_map]

theorem checkEntries_staged {K : Kit β} {members : List (Text × β)} {staged : List (Staged β)}
    {names : List Text} (hlookup : ∀ s ∈ staged, members.lookup s.name = some s.content)
    (hnodup : (staged.map Staged.name ++ names).Nodup) :
    checkEntries K members names (staged.map (inventoryEntry K)) = .ok () := by
  induction staged generalizing names with
  | nil => rfl
  | cons s staged ih =>
    rw [List.forall_mem_cons] at hlookup
    rw [List.map_cons, List.cons_append, List.nodup_cons, List.mem_append, not_or] at hnodup
    have hrest : (staged.map Staged.name ++ s.name :: names).Nodup := by
      rw [List.nodup_middle, List.nodup_cons, List.mem_append, not_or]
      exact hnodup
    have hfresh : names.contains s.name = false := by simpa using hnodup.1.2
    rw [List.map_cons, checkEntries]
    simp only [inventoryEntry, hlookup.1, hfresh, bne_self_eq_false, Bool.or_self,
      Bool.false_eq_true, if_false]
    exact ih hlookup.2 hrest

theorem countP_stageConfigs (K : Kit β) (files : List (Text × β)) {kind : Kind}
    (h : kind ≠ .wireguardConfig) :
    ((stageConfigs 0 files).map (inventoryEntry K)).countP (fun e => e.kind = kind) = 0 := by
  rw [List.countP_eq_zero]
  intro e he
  obtain ⟨s, hs, rfl⟩ := List.mem_map.mp he
  simp only [inventoryEntry, kind_stageConfigs hs, decide_eq_true_eq]
  exact Ne.symm h

/-- The loop gives the files back in their order, under the names that they had. -/
theorem restoreConfigs_stageConfigs {K : Kit β} {members : List (Text × β)}
    {files restored : List (Text × β)} {index : Nat}
    (hlookup : ∀ s ∈ stageConfigs index files, members.lookup s.name = some s.content)
    (hnames : ∀ f ∈ files, isFileName f.1 = true)
    (hnodup : (restored.map Prod.fst ++ files.map Prod.fst).Nodup) :
    restoreConfigs members restored ((stageConfigs index files).map (inventoryEntry K)) =
      .ok (restored ++ files) := by
  induction files generalizing restored index with
  | nil => simp [stageConfigs, restoreConfigs]
  | cons f files ih =>
    obtain ⟨name, content⟩ := f
    rw [stageConfigs, List.forall_mem_cons] at hlookup
    rw [List.forall_mem_cons] at hnames
    have hfresh : (restored.map Prod.fst).contains name = false := by
      have hmiddle := List.nodup_middle.mp hnodup
      rw [List.nodup_cons, List.mem_append, not_or] at hmiddle
      simpa using hmiddle.1.1
    have hrest : ((restored ++ [(name, content)]).map Prod.fst ++ files.map Prod.fst).Nodup := by
      rw [List.map_append, List.append_assoc]
      exact hnodup
    rw [stageConfigs, List.map_cons, restoreConfigs]
    simp only [inventoryEntry, if_true, hlookup.1, hnames.1, hfresh, Bool.not_false, Bool.and_self]
    rw [ih hlookup.2 hnames.2 hrest, List.append_assoc]
    rfl

section Pack
variable (label : Label) (database key : β) (files : List (Text × β))

/-- The staging directory of a state. -/
def stagedState (K : Kit β) : List (Staged β) := staging K database key (stageConfigs 0 files)

theorem nodup_names_stagedState (K : Kit β) :
    ((stagedState database key files K).map Staged.name).Nodup := by
  have hnodup := nodup_memberNames files
  rw [memberNames, List.nodup_cons] at hnodup
  exact hnodup.2

/-- The members by their names. -/
theorem lookup_pack (K : Kit β) :
    (pack K label (stagedState database key files K)).lookup manifestName =
        some (K.dump (manifestOf K label (stagedState database key files K))) ∧
      ∀ s ∈ stagedState database key files K,
        (pack K label (stagedState database key files K)).lookup s.name = some s.content := by
  have hnodup := (names_pack K label database key files).nodup_iff.mpr (nodup_memberNames files)
  constructor
  · exact (lookup_eq_some_iff_mem hnodup).mpr (mem_pack.mpr (.inl rfl))
  · intro s hs
    exact (lookup_eq_some_iff_mem hnodup).mpr (mem_pack.mpr (.inr ⟨s, hs, rfl⟩))

theorem unexpected_pack (K : Kit β) :
    (pack K label (stagedState database key files K)).all (fun member =>
      member.1 == manifestName || ((manifestOf K label (stagedState database key files K)).files.map
        FileEntry.name).contains member.1) = true := by
  rw [List.all_eq_true]
  intro m hm
  rw [Bool.or_eq_true, beq_iff_eq, List.contains_iff_mem]
  rcases mem_pack.mp hm with rfl | ⟨s, hs, rfl⟩
  · exact .inl rfl
  · exact .inr (List.mem_map.mpr ⟨_, List.mem_map_of_mem hs, rfl⟩)

theorem required_pack (K : Kit β) :
    ((manifestOf K label (stagedState database key files K)).files.countP fun e =>
        e.kind = .database) = 1 ∧
      ((manifestOf K label (stagedState database key files K)).files.countP fun e =>
        e.kind = .masterKey) = 1 := by
  have hdatabase := countP_stageConfigs K files (show Kind.database ≠ _ by decide)
  have hmasterKey := countP_stageConfigs K files (show Kind.masterKey ≠ _ by decide)
  simp [manifestOf, stagedState, staging, inventoryEntry, hdatabase, hmasterKey]

/-- The manifest of a packed archive passes its own checks. -/
theorem readManifest_pack (K : Kit β) (hkey : K.size key = 32) (hschema : label.schema ≤ 1) :
    readManifest K (pack K label (stagedState database key files K)) =
      .ok (manifestOf K label (stagedState database key files K)) := by
  obtain ⟨hmanifest, hstaged⟩ := lookup_pack label database key files K
  have hentries : checkEntries K (pack K label (stagedState database key files K)) []
      (manifestOf K label (stagedState database key files K)).files = .ok () :=
    checkEntries_staged hstaged
      (by rw [List.append_nil]; exact nodup_names_stagedState database key files K)
  obtain ⟨hdatabase, hmasterKey⟩ := required_pack label database key files K
  have hsize : ((manifestOf K label (stagedState database key files K)).files.find? fun e =>
      e.kind = .masterKey).any (fun e => e.size == 32) = true := by
    simp [manifestOf, stagedState, staging, inventoryEntry, hkey]
  have hvalid : validateManifest K (pack K label (stagedState database key files K))
      (manifestOf K label (stagedState database key files K)) = .ok () := by
    rw [validateManifest, hentries, unexpected_pack, hdatabase, hmasterKey, hsize]
    simp only [manifestOf, hschema, K.isNewer_version, decide_true]
    rfl
  rw [readManifest, hmanifest]
  simp only [K.load_dump, hvalid]
  rfl

theorem contentOf_pack (K : Kit β) :
    contentOf (pack K label (stagedState database key files K))
        (manifestOf K label (stagedState database key files K)) .database =
        some (K.snapshot database) ∧
      contentOf (pack K label (stagedState database key files K))
        (manifestOf K label (stagedState database key files K)) .masterKey = some key := by
  obtain ⟨-, hstaged⟩ := lookup_pack label database key files K
  have hdatabase := hstaged ⟨.database, databaseName, none, K.snapshot database⟩
    List.mem_cons_self
  have hkey := hstaged ⟨.masterKey, masterKeyName, none, key⟩
    (List.mem_cons_of_mem _ List.mem_cons_self)
  exact ⟨hdatabase, hkey⟩

theorem restoreConfigs_pack (K : Kit β) (hnames : ∀ f ∈ files, isFileName f.1 = true)
    (hnodup : (files.map Prod.fst).Nodup) :
    restoreConfigs (pack K label (stagedState database key files K)) []
      (manifestOf K label (stagedState database key files K)).files = .ok files := by
  obtain ⟨-, hstaged⟩ := lookup_pack label database key files K
  -- the entries of the database and of the key are skipped
  exact restoreConfigs_stageConfigs (fun s hs => hstaged s (List.mem_cons_of_mem _
    (List.mem_cons_of_mem _ hs))) hnames hnodup

/-- A packed state comes back if the last two validators accept it. -/
theorem prepareRestore_pack (hcount : files.length ≤ maxFiles - 2)
    (hwithin : WithinLimits K.toKit (pack K.toKit label (stagedState database key files K.toKit)))
    (hkey : K.size key = 32) (hschema : label.schema ≤ 1)
    (hnames : ∀ f ∈ files, isFileName f.1 = true) (hnodup : (files.map Prod.fst).Nodup)
    {db : Database δ} (hcontent : K.content database = some db) (hversion : db.schema ≤ 1)
    (hpaired : K.decrypts db key = true) :
    prepareRestore K (pack K.toKit label (stagedState database key files K.toKit)) = (do
      require (files.all (hooksAccepted K)) .invalidWireguardConfig
      require (validateStagedState K.publicKeyLocal (restoredFiles K files) db).isSome
        .wireguardConfigurationInvalid
      return ⟨manifestOf K.toKit label (stagedState database key files K.toKit),
        K.snapshot database, key, files⟩) := by
  obtain ⟨hdatabase, hmasterKey⟩ := contentOf_pack label database key files K.toKit
  have hwellFormed : WellFormed (pack K.toKit label (stagedState database key files K.toKit)) :=
    wellFormed_pack K.toKit label database key hcount
  have hread : readBackup K.toKit (pack K.toKit label (stagedState database key files K.toKit)) =
      .ok (manifestOf K.toKit label (stagedState database key files K.toKit)) := by
    rw [hwellFormed.readBackup_eq _ hwithin]
    exact readManifest_pack label database key files K.toKit hkey hschema
  have hinspect : inspectDatabase K (K.snapshot database) = .ok db := by
    rw [inspectDatabase, K.content_snapshot, hcontent]
    exact if_pos hversion
  rw [prepareRestore, hread]
  simp only [hdatabase, hmasterKey, hinspect, hkey, hpaired, bind, Except.bind,
    restoreConfigs_pack label database key files K.toKit hnames hnodup]
  rfl

end Pack

end Restore

end ExitLane.Backup
