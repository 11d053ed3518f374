import ExitLane.Peers.Store

/-!
# Peer operations

`create`, `update`, `regenerate`, `revoke` and `delete`. Each validates the store,
computes its new rows and the texts of the files it will replace, and only then
begins to write. `plan` is everything before the first write; its result, a
`Change`, also holds the old texts that a rollback puts back.
-/

namespace ExitLane.Peers
open Python IpAddress
open Effect (bind_eq_ok forM_eq_ok)

/-- What the host hands to one operation: `wg genkey`, `uuid4().hex`, the clock. -/
structure Draw where
  privateKey : Text
  privateKey_ne_nil : privateKey ≠ []
  privateKey_noSpace : ∀ c ∈ privateKey, isSpace c = false
  peerId : Text
  peerId_length : peerId.length = 32
  peerId_alphanum : ∀ c ∈ peerId, c.isAlphanum = true
  now : Text

/-- `f"peer-{peer_id}"`. -/
def Draw.configName (d : Draw) : Text := "peer-".toList ++ d.peerId

/-- `MAX_FILES` of the backup format. -/
def maxFiles : Nat := 256

def refuse (b : Bool) (code : ErrorCode) : Except Raised Unit :=
  if b then .error (.peerError code) else .ok ()

@[simp] theorem refuse_eq_ok {b : Bool} {code : ErrorCode} {u : Unit} :
    refuse b code = .ok u ↔ b = false := by
  cases b <;> simp [refuse]

/-- `validate_name`. -/
def validateName (w : Platform) (value : Text) (description : Bool) : Except Raised Text := do
  let code := if description then ErrorCode.invalidDescription else .invalidName
  refuse ((if description then 240 else 80) < value.length) code
  refuse (value.any fun c => w.isOther c || c == '\\' || c == '/') code
  refuse (!description && (strip value).isEmpty) .invalidName
  refuse (!description && (strip value == ".".toList || strip value == "..".toList)) .invalidName
  return strip value

/-- `keypair`; a failing command raises a `RuntimeError`. -/
def keypair (w : Platform) (d : Draw) : Except Raised (Text × Text) :=
  (publicKey w d.privateKey).map fun k => (d.privateKey, k)

@[simp] theorem keypair_eq_ok {w : Platform} {d : Draw} {p k : Text} :
    keypair w d = .ok (p, k) ↔ p = d.privateKey ∧ w.pubkey d.privateKey = some k := by
  cases h : w.pubkey d.privateKey with
  | none => simp [keypair, publicKey, h, Except.map]
  | some k' => simp [keypair, publicKey, h, Except.map, eq_comm]

def usedAddresses (rows : List Row) : Except Raised (List Nat) :=
  match rows.mapM fun r => parseIPv4 r.tunnelIp with
  | some used => .ok used
  | none => .error .exception

/-- `_allocate`: the first host of the network that no row and not the server has. -/
def allocate (address : Interface) (rows : List Row) : Except Raised Text := do
  let used ← usedAddresses rows
  match address.hosts.find? fun c => !(c == address.ip || used.contains c) with
  | some candidate => .ok (ipv4Text candidate)
  | none => .error (.peerError .addressPoolExhausted)

/-- `_new_client`. -/
def newClient (profile : Profile) (privateKey tunnelIp : Text) : Except Raised Text := do
  require (!profile.dns.isEmpty && !profile.serverPublicKey.isEmpty &&
    !profile.endpoint.isEmpty && !profile.allowedIps.isEmpty)
  return clientText profile privateKey tunnelIp

/-- The rows and files that an operation is about to publish. -/
structure Change where
  table : Table
  peer : Row
  configuration : Option Text
  /-- `_old_files`; `none` stands for a file to remove. -/
  oldFiles : List (Text × Option Text)
  /-- `_new_files`, in the order in which they are written. -/
  newFiles : List (Text × Option Text)

/-- `_profile(connection)`, subscripted. -/
def Store.getProfile (s : Store) : Except Raised Profile :=
  match s.profile with
  | some profile => .ok profile
  | none => .error .exception

@[simp] theorem Store.getProfile_eq_ok {s : Store} {profile : Profile} :
    s.getProfile = .ok profile ↔ s.profile = some profile := by
  unfold Store.getProfile
  split <;> simp_all

/-- The row that `create` inserts. -/
def newRow (d : Draw) (name description key tunnelIp : Text) : Row :=
  ⟨d.peerId, name, description, key, tunnelIp, d.configName, .active, false, d.now, d.now, none⟩

def createOperation (w : Platform) (interface name description : Text) (d : Draw) (s : Store)
    (v : Validated) : Except Raised Change := do
  refuse (maxFiles - 3 ≤ v.rows.length) .peerLimitReached
  let tunnelIp ← allocate v.address v.rows
  let (privateKey, key) ← keypair w d
  refuse (v.rows.any fun row => row.publicKey == key) .duplicateKey
  let profile ← s.getProfile
  let config ← newClient profile privateKey tunnelIp
  let table ← s.table.insert (newRow d name description key tunnelIp)
  let serverPath ← path interface
  let clientPath ← path d.configName
  let nextPeers := v.peers ++ [⟨key, hostText tunnelIp, some (intText profile.serverKeepalive)⟩]
  let peer ← table.get d.peerId
  let serverContent ← read (s.files serverPath)
  return ⟨table, peer, some config, [(serverPath, some serverContent), (clientPath, none)],
    [(serverPath, some (render v.pre nextPeers)), (clientPath, some config)]⟩

/-- The block that `regenerate` writes: the old block's keepalive, or the profile's. -/
def replacementFor (v : Validated) (profile : Profile) (row : Row) (key : Text) : PeerBlock :=
  let oldPeer := v.peers.find? fun peer => peer.publicKey == row.publicKey
  let keepalive :=
    (oldPeer.bind PeerBlock.persistentKeepalive).getD (intText profile.serverKeepalive)
  ⟨key, hostText row.tunnelIp, some keepalive⟩

/-- The block takes its old place, or a revoked peer's comes last. -/
def regeneratedPeers (v : Validated) (row : Row) (replacement : PeerBlock) : List PeerBlock :=
  let replaced := v.peers.map fun peer =>
    if peer.publicKey = row.publicKey then replacement else peer
  if row.status = .revoked then replaced ++ [replacement] else replaced

/-- The row after `regenerate`. -/
def regeneratedRow (d : Draw) (key : Text) (r : Row) : Row :=
  { r with publicKey := key, status := .active, updatedAt := d.now, revokedAt := none }

def regenerateOperation (w : Platform) (interface peerId : Text) (d : Draw) (s : Store)
    (v : Validated) : Except Raised Change := do
  let row ← s.table.get peerId
  let (privateKey, key) ← keypair w d
  refuse (v.rows.any fun item => item.publicKey == key) .duplicateKey
  let clientPath ← path row.configName
  let serverPath ← path interface
  let profile ← s.getProfile
  let config ← newClient profile privateKey row.tunnelIp
  let nextPeers := regeneratedPeers v row (replacementFor v profile row key)
  let table ← s.table.update peerId (regeneratedRow d key)
  let peer ← table.get peerId
  let serverContent ← read (s.files serverPath)
  let clientContent ← read (s.files clientPath)
  return ⟨table, peer, some config,
    [(serverPath, some serverContent), (clientPath, some clientContent)],
    [(serverPath, some (render v.pre nextPeers)), (clientPath, some config)]⟩

/-- The row after `revoke`. -/
def revokedRow (d : Draw) (r : Row) : Row :=
  { r with status := .revoked, updatedAt := d.now, revokedAt := some d.now }

def revokeOperation (interface peerId : Text) (d : Draw) (s : Store) (v : Validated) :
    Except Raised Change := do
  let row ← s.table.get peerId
  refuse (row.status == .revoked) .alreadyRevoked
  let nextPeers := v.peers.filter fun peer => peer.publicKey ≠ row.publicKey
  let table ← s.table.update peerId (revokedRow d)
  let serverPath ← path interface
  let peer ← table.get peerId
  let serverContent ← read (s.files serverPath)
  return ⟨table, peer, none, [(serverPath, some serverContent)],
    [(serverPath, some (render v.pre nextPeers))]⟩

/-- The row after `update`. -/
def renamedRow (d : Draw) (name description : Text) (r : Row) : Row :=
  { r with name := name, description := description, updatedAt := d.now }

def updateOperation (peerId name description : Text) (d : Draw) (s : Store) :
    Except Raised Change := do
  let _ ← s.table.get peerId
  let table ← s.table.update peerId (renamedRow d name description)
  let peer ← table.get peerId
  return ⟨table, peer, none, [], []⟩

def deleteOperation (peerId : Text) (s : Store) : Except Raised Change := do
  let row ← s.table.get peerId
  refuse (row.status != .revoked) .mustRevokeFirst
  let clientPath ← path row.configName
  let original ← read (s.files clientPath)
  return ⟨s.table.delete peerId, row, none, [(clientPath, some original)], [(clientPath, none)]⟩

inductive Operation where
  | create (name description : Text)
  | update (peerId name description : Text)
  | regenerate (peerId : Text)
  | revoke (peerId : Text)
  | delete (peerId : Text)

/-- Everything an operation does before its first write. -/
def plan (w : Platform) (interface : Text) (d : Draw) (s : Store) :
    Operation → Except Raised Change
  | .create name description => do
    let name ← validateName w name false
    let description ← validateName w description true
    let v ← validateState w interface s
    createOperation w interface name description d s v
  | .update peerId name description => do
    let name ← validateName w name false
    let description ← validateName w description true
    let _ ← validateState w interface s
    updateOperation peerId name description d s
  | .regenerate peerId => do
    let v ← validateState w interface s
    regenerateOperation w interface peerId d s v
  | .revoke peerId => do
    let v ← validateState w interface s
    revokeOperation interface peerId d s v
  | .delete peerId => do
    let _ ← validateState w interface s
    deleteOperation peerId s

/-- One atomic replacement or removal. -/
def setFile (files : Files) (name : Text) (content : Option Text) : Files :=
  fun n => if n = name then content.map written else files n

def setFiles (files : Files) (news : List (Text × Option Text)) : Files :=
  news.foldl (fun files item => setFile files item.1 item.2) files

theorem setFiles_one (files : Files) (a : Text) (x : Option Text) (n : Text) :
    setFiles files [(a, x)] n = if n = a then x.map written else files n := rfl

theorem setFiles_two (files : Files) (a b : Text) (x y : Option Text) (n : Text) :
    setFiles files [(a, x), (b, y)] n =
      if n = b then y.map written else if n = a then x.map written else files n := rfl

theorem setFiles_of_not_mem {files : Files} {news : List (Text × Option Text)} {n : Text}
    (h : n ∉ news.map Prod.fst) : setFiles files news n = files n := by
  induction news generalizing files with
  | nil => rfl
  | cons item news ih =>
    rw [List.map_cons, List.mem_cons, not_or] at h
    exact (ih h.2).trans (if_neg h.1)

/-- Where each file is written once, it holds what was written. -/
theorem setFiles_of_mem {files : Files} {news : List (Text × Option Text)} {n : Text}
    {x : Option Text} (hnodup : (news.map Prod.fst).Nodup) (h : (n, x) ∈ news) :
    setFiles files news n = x.map written := by
  induction news generalizing files with
  | nil => cases h
  | cons item news ih =>
    rw [List.map_cons, List.nodup_cons] at hnodup
    rcases List.mem_cons.mp h with rfl | h
    · exact (setFiles_of_not_mem hnodup.1).trans (if_pos rfl)
    · exact ih hnodup.2 h

/-- The store once a change is fully published. -/
def Store.apply (s : Store) (c : Change) : Store :=
  { s with table := c.table, files := setFiles s.files c.newFiles }

theorem Store.apply_files (s : Store) (c : Change) (n : Text) :
    (s.apply c).files n = setFiles s.files c.newFiles n := rfl

/-! ## Adoption of a first configuration -/

/-- `int(text)` within the bounds of a keepalive. -/
def parseKeepalive (t : Text) : Option Int := (parseInt t).filter isKeepalive

/-- The client checks of `migrate_legacy`: the tunnel address. -/
def legacyTunnel (address : Interface) (peer : PeerBlock) (client : Text) : Except Raised Nat := do
  let tunnel ← invalid (parseInterface ((value client addressKey interfaceSection).getD []))
  require (tunnel.prefixLength == 32 && address.contains tunnel.ip && assignable address tunnel.ip)
  let allowed ← invalid (parseNetwork peer.allowedIPs)
  require (allowed.prefixLength == 32 && allowed.ip == tunnel.ip)
  return tunnel.ip

/-- The profile that `migrate_legacy` reads off the two files. -/
def legacyProfile (peer : PeerBlock) (client serverPublic : Text) : Except Raised Profile := do
  let endpoint ← invalid (nonEmpty (value client "Endpoint".toList peerSection))
  let dns ← invalid (nonEmpty (value client "DNS".toList interfaceSection))
  let allowed ← invalid (nonEmpty (value client allowedIPsKey peerSection))
  let keepalive ← invalid (parseKeepalive
    ((nonEmpty (value client persistentKeepaliveKey peerSection)).getD "25".toList))
  let serverKeepalive ← invalid (parseKeepalive peer.keepalive)
  validateProfile (some ⟨endpoint, dns, allowed, keepalive, serverKeepalive, serverPublic⟩)

/-- `migrate_legacy`. A store that has a profile is only validated. -/
def migrateLegacy (w : Platform) (interface client : Text) (d : Draw) (s : Store) :
    Except Raised (Bool × Store) := do
  if s.profile.isSome then
    let _ ← validateState w interface s
    return (false, s)
  let serverPath ← path interface
  let clientPath ← path client
  if s.files serverPath = none ∧ s.files clientPath = none then return (false, s)
  require ((s.files serverPath).isSome && (s.files clientPath).isSome)
  let serverContent ← read (s.files serverPath)
  let clientContent ← read (s.files clientPath)
  let srv ← invalid (server serverContent)
  match srv.peers with
  | [peer] =>
    let ip ← legacyTunnel srv.address peer clientContent
    let privateKey ← invalid (nonEmpty (value clientContent privateKeyKey interfaceSection))
    let derived ← publicKey w privateKey
    require (derived == peer.publicKey)
    let serverPublic ← publicKey w srv.privateKey
    require (value clientContent publicKeyKey peerSection == some serverPublic)
    let profile ← legacyProfile peer clientContent serverPublic
    let name ← validateName w client false
    let table ← s.table.insert ⟨d.peerId, name, [], peer.publicKey, ipv4Text ip, client, .active,
      true, d.now, d.now, none⟩
    return (true, ⟨table, some profile, s.files⟩)
  | _ => .error (.peerError .configurationInvalid)

/-! ## What each operation plans -/

variable {w : Platform} {interface : Text} {d : Draw} {s : Store} {v : Validated} {c : Change}

theorem allocate_eq_ok {address : Interface} {rows : List Row} {t : Text}
    (h : allocate address rows = .ok t) :
    ∃ ip ∈ address.hosts, t = ipv4Text ip ∧ ip ≠ address.ip := by
  simp only [allocate, bind_eq_ok] at h
  obtain ⟨used, -, h⟩ := h
  split at h
  · next candidate hf =>
    cases h
    have := List.find?_some hf
    simp only [Bool.not_eq_true', Bool.or_eq_false_iff, beq_eq_false_iff_ne] at this
    exact ⟨candidate, List.mem_of_find?_eq_some hf, rfl, this.1⟩
  · cases h

theorem newClient_eq_ok {profile : Profile} {privateKey tunnelIp config : Text}
    (h : newClient profile privateKey tunnelIp = .ok config) :
    config = clientText profile privateKey tunnelIp := by
  simp only [newClient, bind_eq_ok, pure, Except.pure, Except.ok.injEq] at h
  obtain ⟨-, -, h⟩ := h
  exact h.symm

/-- What a planned `create` consists of. -/
structure CreatePlan (w : Platform) (interface name description : Text) (d : Draw) (s : Store)
    (v : Validated) (c : Change) (ip : Nat) (key : Text) (profile : Profile) : Prop where
  count : v.rows.length < maxFiles - 3
  host : ip ∈ v.address.hosts ∧ ip ≠ v.address.ip
  derived : w.pubkey d.privateKey = some key
  fresh : ∀ r ∈ v.rows, r.publicKey ≠ key
  profileRow : s.profile = some profile
  configName : isConfigName d.configName = true
  rows : c.table.rows = s.table.rows ++ [newRow d name description key (ipv4Text ip)]
  serverContent : ∃ content, read (s.files interface) = .ok content ∧
    c.oldFiles = [(interface, some content), (d.configName, none)]
  newFiles : c.newFiles = [(interface, some (render v.pre (v.peers ++
      [⟨key, hostText (ipv4Text ip), some (intText profile.serverKeepalive)⟩]))),
    (d.configName, some (clientText profile d.privateKey (ipv4Text ip)))]

theorem createOperation_eq_ok {name description : Text}
    (h : createOperation w interface name description d s v = .ok c) :
    ∃ ip key profile, CreatePlan w interface name description d s v c ip key profile := by
  simp only [createOperation, bind_eq_ok, refuse_eq_ok, path_eq_ok, Store.getProfile_eq_ok,
    pure, Except.pure, Except.ok.injEq, Prod.exists, keypair_eq_ok] at h
  obtain ⟨-, hcount, tunnelIp, halloc, privateKey, key, ⟨rfl, hkey⟩, -, hfresh, profile, hprofile,
    config, hconfig, table, htable, _, ⟨-, rfl⟩, _, ⟨hname, rfl⟩, peer, -, content, hread, rfl⟩ := h
  obtain ⟨ip, hhost, rfl, hne⟩ := allocate_eq_ok halloc
  obtain rfl := newClient_eq_ok hconfig
  exact ⟨ip, key, profile, Nat.lt_of_not_le (by simpa using hcount), ⟨hhost, hne⟩, hkey,
    by simpa using hfresh, hprofile, hname, Table.ofRows_eq_ok htable, ⟨content, hread, rfl⟩, rfl⟩

structure RegeneratePlan (w : Platform) (interface peerId : Text) (d : Draw) (s : Store)
    (v : Validated) (c : Change) (row : Row) (key : Text) (profile : Profile) : Prop where
  found : row ∈ s.table.rows ∧ row.peerId = peerId
  derived : w.pubkey d.privateKey = some key
  fresh : ∀ r ∈ v.rows, r.publicKey ≠ key
  profileRow : s.profile = some profile
  rows : c.table.rows = s.table.rows.map fun r =>
    if r.peerId = peerId then regeneratedRow d key r else r
  oldFiles : ∃ content client, read (s.files interface) = .ok content ∧
    read (s.files row.configName) = .ok client ∧
    c.oldFiles = [(interface, some content), (row.configName, some client)]
  newFiles : c.newFiles =
    [(interface, some (render v.pre (regeneratedPeers v row (replacementFor v profile row key)))),
      (row.configName, some (clientText profile d.privateKey row.tunnelIp))]

theorem regenerateOperation_eq_ok {peerId : Text}
    (h : regenerateOperation w interface peerId d s v = .ok c) :
    ∃ row key profile, RegeneratePlan w interface peerId d s v c row key profile := by
  simp only [regenerateOperation, bind_eq_ok, refuse_eq_ok, path_eq_ok, Store.getProfile_eq_ok,
    pure, Except.pure, Except.ok.injEq, Prod.exists, keypair_eq_ok] at h
  obtain ⟨row, hrow, privateKey, key, ⟨rfl, hkey⟩, -, hfresh, _, ⟨hname, rfl⟩, _, ⟨-, rfl⟩, profile,
    hprofile, config, hconfig, table, htable, peer, -, content, hread, client, hclient, rfl⟩ := h
  obtain rfl := newClient_eq_ok hconfig
  exact ⟨row, key, profile, Table.get_eq_ok hrow, hkey, by simpa using hfresh, hprofile,
    Table.ofRows_eq_ok htable, ⟨content, client, hread, hclient, rfl⟩, rfl⟩

structure RevokePlan (interface peerId : Text) (d : Draw) (s : Store) (v : Validated) (c : Change)
    (row : Row) : Prop where
  found : row ∈ s.table.rows ∧ row.peerId = peerId
  active : row.status = .active
  rows : c.table.rows = s.table.rows.map fun r => if r.peerId = peerId then revokedRow d r else r
  oldFiles : ∃ content, read (s.files interface) = .ok content ∧
    c.oldFiles = [(interface, some content)]
  newFiles : c.newFiles = [(interface, some (render v.pre
    (v.peers.filter fun peer => peer.publicKey ≠ row.publicKey)))]

theorem revokeOperation_eq_ok {peerId : Text}
    (h : revokeOperation interface peerId d s v = .ok c) :
    ∃ row, RevokePlan interface peerId d s v c row := by
  simp only [revokeOperation, bind_eq_ok, refuse_eq_ok, path_eq_ok, pure, Except.pure,
    Except.ok.injEq] at h
  obtain ⟨row, hrow, -, hactive, table, htable, _, ⟨-, rfl⟩, peer, -, content, hread, rfl⟩ := h
  refine ⟨row, Table.get_eq_ok hrow, ?_, Table.ofRows_eq_ok htable, ⟨content, hread, rfl⟩, rfl⟩
  cases hs : row.status with
  | active => rfl
  | revoked => simp [hs] at hactive

structure DeletePlan (peerId : Text) (s : Store) (c : Change) (row : Row) : Prop where
  found : row ∈ s.table.rows ∧ row.peerId = peerId
  revoked : row.status = .revoked
  table : c.table = s.table.delete peerId
  oldFiles : ∃ original, read (s.files row.configName) = .ok original ∧
    c.oldFiles = [(row.configName, some original)]
  newFiles : c.newFiles = [(row.configName, none)]

theorem deleteOperation_eq_ok {peerId : Text} (h : deleteOperation peerId s = .ok c) :
    ∃ row, DeletePlan peerId s c row := by
  simp only [deleteOperation, bind_eq_ok, refuse_eq_ok, path_eq_ok, pure, Except.pure,
    Except.ok.injEq] at h
  obtain ⟨row, hrow, -, hrevoked, _, ⟨-, rfl⟩, original, hread, rfl⟩ := h
  exact ⟨row, Table.get_eq_ok hrow, by simpa using hrevoked, rfl, ⟨original, hread, rfl⟩, rfl⟩

theorem updateOperation_eq_ok {peerId name description : Text}
    (h : updateOperation peerId name description d s = .ok c) :
    c.oldFiles = [] ∧ c.newFiles = [] ∧ c.table.rows = s.table.rows.map fun r =>
      if r.peerId = peerId then renamedRow d name description r else r := by
  simp only [updateOperation, bind_eq_ok, pure, Except.pure, Except.ok.injEq] at h
  obtain ⟨-, -, table, htable, peer, -, rfl⟩ := h
  exact ⟨rfl, rfl, Table.ofRows_eq_ok htable⟩

/-- What each operation has planned once it returns. -/
inductive Planned (w : Platform) (interface : Text) (d : Draw) (s : Store) (v : Validated)
    (c : Change) : Operation → Prop
  | create {given givenDescription name description key : Text} {ip : Nat} {profile : Profile}
      (h : CreatePlan w interface name description d s v c ip key profile) :
      Planned w interface d s v c (.create given givenDescription)
  | update {peerId given givenDescription name description : Text}
      (h : updateOperation peerId name description d s = .ok c) :
      Planned w interface d s v c (.update peerId given givenDescription)
  | regenerate {peerId key : Text} {row : Row} {profile : Profile}
      (h : RegeneratePlan w interface peerId d s v c row key profile) :
      Planned w interface d s v c (.regenerate peerId)
  | revoke {peerId : Text} {row : Row} (h : RevokePlan interface peerId d s v c row) :
      Planned w interface d s v c (.revoke peerId)
  | delete {peerId : Text} {row : Row} (h : DeletePlan peerId s c row) :
      Planned w interface d s v c (.delete peerId)

theorem plan_eq_ok {op : Operation} (h : plan w interface d s op = .ok c) :
    ∃ v, validateState w interface s = .ok v ∧ Planned w interface d s v c op := by
  cases op with
  | create given givenDescription =>
    simp only [plan, bind_eq_ok] at h
    obtain ⟨name, -, description, -, v, hv, hc⟩ := h
    obtain ⟨ip, key, profile, hplan⟩ := createOperation_eq_ok hc
    exact ⟨v, hv, .create hplan⟩
  | update peerId given givenDescription =>
    simp only [plan, bind_eq_ok] at h
    obtain ⟨name, -, description, -, v, hv, hc⟩ := h
    exact ⟨v, hv, .update hc⟩
  | regenerate peerId =>
    simp only [plan, bind_eq_ok] at h
    obtain ⟨v, hv, hc⟩ := h
    obtain ⟨row, key, profile, hplan⟩ := regenerateOperation_eq_ok hc
    exact ⟨v, hv, .regenerate hplan⟩
  | revoke peerId =>
    simp only [plan, bind_eq_ok] at h
    obtain ⟨v, hv, hc⟩ := h
    obtain ⟨row, hplan⟩ := revokeOperation_eq_ok hc
    exact ⟨v, hv, .revoke hplan⟩
  | delete peerId =>
    simp only [plan, bind_eq_ok] at h
    obtain ⟨v, hv, hc⟩ := h
    obtain ⟨row, hplan⟩ := deleteOperation_eq_ok hc
    exact ⟨v, hv, .delete hplan⟩

end ExitLane.Peers
