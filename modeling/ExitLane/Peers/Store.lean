import ExitLane.Effect.Basic
import ExitLane.Peers.Config
import Mathlib.Data.List.Nodup

/-!
# The peer store and its validator

The durable state that peer operations work on: the rows of `wireguard_peers`
with the constraints of their schema, the ingress profile, and the configuration
files. `_validate_state` reads all of it back from text; `validateState_eq_ok`
says in one structure, `Valid`, what it has established when it returns.
-/

namespace ExitLane.Peers
open Python IpAddress
open Effect (bind_eq_ok forM_eq_ok)

/-! ## Errors -/

inductive ErrorCode where
  | configurationInvalid
  | peerNotFound
  | peerLimitReached
  | addressPoolExhausted
  | duplicateKey
  | alreadyRevoked
  | mustRevokeFirst
  | invalidName
  | invalidDescription
  | mutationFailed
  | rollbackFailed
deriving DecidableEq, Repr

/-- What a step may raise, as far as the handlers tell exceptions apart. -/
inductive Raised where
  | peerError (code : ErrorCode)
  | cancelled
  /-- Any other `Exception`: an `OSError`, an `IntegrityError`, a failed command. -/
  | exception
  /-- Any other `BaseException`. -/
  | baseException
deriving DecidableEq, Repr

def invalid {α : Type} : Option α → Except Raised α
  | some a => .ok a
  | none => .error (.peerError .configurationInvalid)

def require (b : Bool) : Except Raised Unit :=
  if b then .ok () else .error (.peerError .configurationInvalid)

@[simp] theorem invalid_eq_ok {α : Type} {o : Option α} {a : α} :
    invalid o = .ok a ↔ o = some a := by
  cases o with
  | none => simp [invalid]
  | some b => simp [invalid]

variable {u : Unit} {rows : List Row} {t : Table} {r : Row} {content : Text} {w : Platform}
  {address : Interface}

@[simp] theorem require_eq_ok {b : Bool} : require b = .ok u ↔ b = true := by
  cases b <;> simp [require]

/-! ## The database -/

inductive Status where
  | active
  | revoked
deriving DecidableEq, Repr

/-- A row of `wireguard_peers`. -/
structure Row where
  peerId : Text
  name : Text
  description : Text
  publicKey : Text
  tunnelIp : Text
  configName : Text
  status : Status
  isDefault : Bool
  createdAt : Text
  updatedAt : Text
  revokedAt : Option Text
deriving DecidableEq

/-- The PRIMARY KEY and UNIQUE constraints of the table and its partial index. -/
structure Constraints (rows : List Row) : Prop where
  peerId : (rows.map Row.peerId).Nodup
  publicKey : (rows.map Row.publicKey).Nodup
  tunnelIp : (rows.map Row.tunnelIp).Nodup
  configName : (rows.map Row.configName).Nodup
  isDefault : (rows.filter Row.isDefault).length ≤ 1

instance (rows : List Row) : Decidable (Constraints rows) :=
  decidable_of_iff ((rows.map Row.peerId).Nodup ∧ (rows.map Row.publicKey).Nodup ∧
      (rows.map Row.tunnelIp).Nodup ∧ (rows.map Row.configName).Nodup ∧
      (rows.filter Row.isDefault).length ≤ 1)
    ⟨fun ⟨a, b, c, d, e⟩ => ⟨a, b, c, d, e⟩, fun ⟨a, b, c, d, e⟩ => ⟨a, b, c, d, e⟩⟩

/-- The table: a list of rows that meets its constraints. -/
structure Table where
  rows : List Row
  constraints : Constraints rows

theorem constraints_nil : Constraints [] := by decide

/-- A statement's outcome; an `IntegrityError` when a constraint would break. -/
def Table.ofRows (rows : List Row) : Except Raised Table :=
  if h : Constraints rows then .ok ⟨rows, h⟩ else .error .exception

def Table.insert (t : Table) (row : Row) : Except Raised Table := Table.ofRows (t.rows ++ [row])

/-- `UPDATE wireguard_peers SET … WHERE peer_id=?`. -/
def Table.update (t : Table) (peerId : Text) (f : Row → Row) : Except Raised Table :=
  Table.ofRows (t.rows.map fun r => if r.peerId = peerId then f r else r)

theorem Constraints.sublist {rows' : List Row} (h : Constraints rows) (hs : rows'.Sublist rows) :
    Constraints rows' where
  peerId := h.peerId.sublist (hs.map _)
  publicKey := h.publicKey.sublist (hs.map _)
  tunnelIp := h.tunnelIp.sublist (hs.map _)
  configName := h.configName.sublist (hs.map _)
  isDefault := Nat.le_trans (hs.filter _).length_le h.isDefault

/-- `DELETE FROM wireguard_peers WHERE peer_id=?`. -/
def Table.delete (t : Table) (peerId : Text) : Table :=
  ⟨t.rows.filter fun r => r.peerId ≠ peerId, t.constraints.sublist List.filter_sublist⟩

/-- `_rows`: `ORDER BY created_at, peer_id`. -/
def Table.sorted (t : Table) : List Row :=
  t.rows.mergeSort fun a b => decide (a.createdAt < b.createdAt) ||
    (a.createdAt == b.createdAt && decide (a.peerId ≤ b.peerId))

@[simp] theorem Table.mem_sorted : r ∈ t.sorted ↔ r ∈ t.rows :=
  (List.mergeSort_perm ..).mem_iff

theorem Table.ofRows_eq_ok (h : Table.ofRows rows = .ok t) : t.rows = rows := by
  unfold Table.ofRows at h
  split at h
  · cases h
    rfl
  · cases h

/-- `_get`. -/
def Table.get (t : Table) (peerId : Text) : Except Raised Row :=
  match t.sorted.find? fun r => r.peerId == peerId with
  | some r => .ok r
  | none => .error (.peerError .peerNotFound)

theorem Table.get_eq_ok {peerId : Text} (h : t.get peerId = .ok r) :
    r ∈ t.rows ∧ r.peerId = peerId := by
  unfold Table.get at h
  split at h
  · next r' hf =>
    cases h
    exact ⟨Table.mem_sorted.mp (List.mem_of_find?_eq_some hf), by simpa using List.find?_some hf⟩
  · cases h

/-- Rows are told apart by any of the unique columns. -/
theorem eq_of_column {f : Row → Text} (hnd : (rows.map f).Nodup) {r' : Row} (hr : r ∈ rows)
    (hr' : r' ∈ rows) (h : f r = f r') : r = r' :=
  List.inj_on_of_nodup_map hnd hr hr' h

/-! ## Files -/

/-- A regular file whose bytes are UTF-8, with the facts that `_read` looks at. -/
structure File where
  text : Text
  mode : Nat
  links : Nat
  owned : Bool
deriving DecidableEq

inductive Entry where
  | file (f : File)
  /-- A directory, a device, a file that does not decode. -/
  | other
deriving DecidableEq

/-- The configuration directory by file stem. -/
abbrev Files := Text → Option Entry

/-- `_read`. -/
def read : Option Entry → Except Raised Text
  | some (.file f) =>
    if f.links = 1 ∧ f.owned = true ∧ f.mode &&& 0o77 = 0 ∧ utf8Length f.text ≤ 65536 then
      .ok (universalNewlines f.text)
    else .error (.peerError .configurationInvalid)
  | _ => .error (.peerError .configurationInvalid)

theorem read_eq_ok {e : Option Entry} {t : Text} (h : read e = .ok t) :
    ∃ f, e = some (.file f) ∧ t = universalNewlines f.text := by
  unfold read at h
  split at h
  · next f =>
    split at h
    · cases h
      exact ⟨f, rfl, rfl⟩
    · cases h
  · cases h

/-- What `_atomic_write` leaves behind. -/
def written (content : Text) : Entry := .file ⟨content, 0o600, 1, true⟩

theorem read_written (h : utf8Length content ≤ 65536) :
    read (some (written content)) = .ok (universalNewlines content) := by
  simp [read, written, h]

theorem size_of_read {t : Text} (h : read (some (written content)) = .ok t) :
    utf8Length content ≤ 65536 := by
  by_contra hsize
  simp [read, written, hsize] at h

theorem read_oversized (h : 65536 < utf8Length content) :
    read (some (written content)) = .error (.peerError .configurationInvalid) := by
  have hnot : ¬ utf8Length content ≤ 65536 := by omega
  simp [read, written, hnot]

/-- `re.fullmatch(r"[A-Za-z0-9_-]{1,64}", name)`. -/
def isConfigName (name : Text) : Bool :=
  1 ≤ name.length && name.length ≤ 64 && name.all fun c => c.isAlphanum || c == '_' || c == '-'

/-- `_path`. -/
def path (name : Text) : Except Raised Text := (require (isConfigName name)).map fun _ => name

@[simp] theorem path_eq_ok {name p : Text} : path name = .ok p ↔
    isConfigName name = true ∧ p = name := by
  cases h : isConfigName name with
  | false => simp [path, require, h, Except.map]
  | true => simp [path, require, h, Except.map, eq_comm]

/-- The state that outlives a process. -/
structure Store where
  table : Table
  profile : Option Profile
  files : Files

/-! ## The profile -/

/-- `_safe_ascii_value`. -/
def safeAsciiValue (v : Text) : Bool :=
  strip v == v && v.all fun c => 32 ≤ c.toNat && c.toNat ≤ 126 && !isSpace c

def isHostnameLabel (t : Text) : Bool :=
  1 ≤ t.length && t.length ≤ 63 && t.all (fun c => c.isAlphanum || c == '-') &&
    t.head? != some '-' && t.getLast? != some '-'

/-- `ENDPOINT_HOSTNAME.fullmatch`. -/
def isEndpointHostname (t : Text) : Bool :=
  1 ≤ t.length && t.length ≤ 253 && (t.splitOn '.').all isHostnameLabel

/-- An address without an IPv6 scope. -/
def isUnscoped : Address → Bool
  | .v4 _ => true
  | .v6 a => a.scopeId.isNone

/-- Whether `_validated_endpoint` returns. -/
def validatedEndpoint (endpoint : Text) : Bool :=
  safeAsciiValue endpoint &&
    let host := if isSectionLine endpoint then endpoint.tail.dropLast else endpoint
    match parseAddress host with
    | some a => isUnscoped a
    | none => isEndpointHostname host

/-- Whether `_validated_dns_address` returns. -/
def validatedDnsAddress (dns : Text) : Bool :=
  safeAsciiValue dns && (parseAddress dns).any isUnscoped

def isKeepalive (k : Int) : Bool := 0 ≤ k && k ≤ 65535

def isPort (t : Text) : Bool := (parseInt t).any fun n => 1 ≤ n && n ≤ 65535

/-- `_validate_profile`. -/
def validateProfile : Option Profile → Except Raised Profile
  | none => .error (.peerError .configurationInvalid)
  | some profile => do
    let (host, port) ← invalid (rpartition ':' profile.endpoint)
    require (isPort port)
    require (validatedEndpoint host)
    require (validatedDnsAddress profile.dns)
    let parts := (profile.allowedIps.splitOn ',').map strip
    require (parts.all fun part => !part.isEmpty)
    require (parts.all isNetwork)
    require (isKeepalive profile.clientKeepalive)
    require (isKeepalive profile.serverKeepalive)
    return profile

theorem validateProfile_eq_ok {o : Option Profile} {profile : Profile}
    (h : validateProfile o = .ok profile) :
    o = some profile ∧ validatedDnsAddress profile.dns = true := by
  cases o with
  | none => cases h
  | some p =>
    simp only [validateProfile, bind_eq_ok, require_eq_ok, pure, Except.pure] at h
    obtain ⟨-, -, -, -, -, -, -, hdns, -, -, -, -, -, -, -, -, he⟩ := h
    cases he
    exact ⟨rfl, hdns⟩

theorem serverKeepalive_of_validateProfile {o : Option Profile} {profile : Profile}
    (h : validateProfile o = .ok profile) : isKeepalive profile.serverKeepalive = true := by
  cases o with
  | none => cases h
  | some p =>
    simp only [validateProfile, bind_eq_ok, require_eq_ok, pure, Except.pure] at h
    obtain ⟨-, -, -, -, -, -, -, -, -, -, -, -, -, -, -, hkeepalive, he⟩ := h
    cases he
    exact hkeepalive

/-! ## The server configuration -/

/-- `_assignable`. -/
def assignable (server : Interface) (candidate : Nat) : Bool :=
  server.contains candidate && candidate != server.ip &&
    (31 ≤ server.prefixLength ||
      (candidate != server.networkAddress && candidate != server.broadcastAddress))

/-- What `_server` returns. -/
structure Server where
  pre : Text
  peers : List PeerBlock
  address : Interface
  privateKey : Text

/-- `not value` holds for `None` and for the empty text. -/
def nonEmpty (o : Option Text) : Option Text := o.filter fun v => !v.isEmpty

/-- The checks of `_server` on the address of one block. -/
def isPeerAddress (address item : Interface) : Bool :=
  item.prefixLength == 32 && address.contains item.networkAddress &&
    assignable address item.networkAddress

/-- `_server`; its only error is `wireguard_configuration_invalid`. -/
def server (content : Text) : Option Server := do
  let (pre, peers) ← sections content
  let addressText ← nonEmpty (value pre addressKey interfaceSection)
  let privateKey ← nonEmpty (value pre privateKeyKey interfaceSection)
  let address ← parseInterface addressText
  guard (address.prefixLength ≤ 31)
  let addresses ← peers.mapM fun p => parseNetwork p.allowedIPs
  guard (addresses.all (isPeerAddress address) = true)
  guard (addresses.Nodup ∧ (peers.map PeerBlock.publicKey).Nodup)
  return ⟨pre, peers, address, privateKey⟩

@[simp] theorem nonEmpty_eq_some {o : Option Text} {v : Text} :
    nonEmpty o = some v ↔ o = some v ∧ v ≠ [] := by
  simp [nonEmpty, Option.filter_eq_some_iff]

/-- What `_server` has checked about the interface part. -/
structure InterfacePart (pre : Text) (address : Interface) (privateKey : Text) : Prop where
  addressLine : ∃ t, value pre addressKey interfaceSection = some t ∧ t ≠ [] ∧
    parseInterface t = some address
  privateKeyLine : value pre privateKeyKey interfaceSection = some privateKey ∧ privateKey ≠ []
  prefixLength_le : address.prefixLength ≤ 31

/-- What `_server` has checked about the blocks. -/
structure BlocksPart (address : Interface) (peers : List PeerBlock) : Prop where
  addresses : ∃ items, peers.mapM (fun p => parseNetwork p.allowedIPs) = some items ∧
    items.all (isPeerAddress address) = true ∧ items.Nodup
  publicKeys : (peers.map PeerBlock.publicKey).Nodup

theorem guard_eq_some {p : Prop} [Decidable p] : (guard p : Option Unit) = some u ↔ p := by
  by_cases h : p <;> simp [guard, h, failure, pure]

theorem server_eq_some_iff {srv : Server} :
    server content = some srv ↔ sections content = some (srv.pre, srv.peers) ∧
      InterfacePart srv.pre srv.address srv.privateKey ∧ BlocksPart srv.address srv.peers := by
  constructor
  · intro h
    simp only [server, Option.bind_eq_bind, Option.bind_eq_some_iff, nonEmpty_eq_some,
      guard_eq_some, Option.pure_def, Option.some.injEq] at h
    obtain ⟨⟨pre, peers⟩, hsec, t, ⟨ht, ht0⟩, k, ⟨hk, hk0⟩, address, ha, -, hlen, items, hitems, -,
      hall, -, ⟨hnd, hkeys⟩, rfl⟩ := h
    exact ⟨hsec, ⟨⟨t, ht, ht0, ha⟩, ⟨hk, hk0⟩, hlen⟩, ⟨⟨items, hitems, hall, hnd⟩, hkeys⟩⟩
  · rintro ⟨hsec, hif, hblocks⟩
    obtain ⟨t, ht, ht0, ha⟩ := hif.addressLine
    obtain ⟨items, hitems, hall, hnd⟩ := hblocks.addresses
    simp only [server, Option.bind_eq_bind, Option.bind_eq_some_iff, nonEmpty_eq_some,
      guard_eq_some, Option.pure_def, Option.some.injEq]
    exact ⟨(srv.pre, srv.peers), hsec, t, ⟨ht, ht0⟩, srv.privateKey, hif.privateKeyLine,
      srv.address, ha, (), hif.prefixLength_le, items, hitems, (), hall, (),
      ⟨hnd, hblocks.publicKeys⟩, rfl⟩

/-! ## `_validate_state` -/

/-- The parts of the host that the validator and the operations call. -/
structure Platform where
  /-- `wg pubkey`; `none` when the command fails or prints nothing. -/
  pubkey : Text → Option Text
  pubkey_ne_nil : ∀ p, pubkey p ≠ some []
  /-- Keys are printed in base64, on one line. -/
  pubkey_noSpace : ∀ p k, pubkey p = some k → ∀ c ∈ k, isSpace c = false
  /-- `unicodedata.category(char).startswith("C")`. -/
  isOther : Char → Bool

/-- `_public_key`, whose error is not a `PeerError`. -/
def publicKey (w : Platform) (privateKey : Text) : Except Raised Text :=
  match w.pubkey privateKey with
  | some k => .ok k
  | none => .error .exception

@[simp] theorem publicKey_eq_ok {p k : Text} : publicKey w p = .ok k ↔ w.pubkey p = some k := by
  unfold publicKey
  split <;> simp_all

/-- The body of the validator's loop over rows. -/
def validateRow (w : Platform) (files : Files) (address : Interface) (serverPublic : Text)
    (row : Row) : Except Raised Unit := do
  let name ← path row.configName
  let client ← read (files name)
  let clientIp ← invalid (parseInterface ((value client addressKey interfaceSection).getD []))
  let tunnelIp ← invalid (parseIPv4 row.tunnelIp)
  require (clientIp.ip == tunnelIp && clientIp.prefixLength == 32 &&
    assignable address clientIp.ip)
  let privateKey ← invalid (nonEmpty (value client privateKeyKey interfaceSection))
  let derived ← publicKey w privateKey
  require (derived == row.publicKey && value client publicKeyKey peerSection == some serverPublic)

/-- `{p["PublicKey"]: p["AllowedIPs"] for p in server_peers}`. -/
def blockItems (peers : List PeerBlock) : List (Text × Text) :=
  peers.map fun p => (p.publicKey, p.allowedIPs)

/-- `{row["public_key"]: f"{row['tunnel_ip']}/32" for row in active}`. -/
def activeItems (rows : List Row) : List (Text × Text) :=
  (rows.filter fun r => r.status == .active).map fun r => (r.publicKey, hostText r.tunnelIp)

structure Validated where
  pre : Text
  peers : List PeerBlock
  address : Interface
  rows : List Row

def validateState (w : Platform) (interface : Text) (s : Store) : Except Raised Validated := do
  let name ← path interface
  let content ← read (s.files name)
  let srv ← invalid (server content)
  let profile ← validateProfile s.profile
  require (dictEq (blockItems srv.peers) (activeItems s.table.sorted))
  let serverPublic ← publicKey w srv.privateKey
  require (profile.serverPublicKey == serverPublic)
  forM s.table.sorted (validateRow w s.files srv.address serverPublic)
  return ⟨srv.pre, srv.peers, srv.address, s.table.sorted⟩

/-- What the validator has established about one row. -/
structure RowValid (w : Platform) (files : Files) (address : Interface) (serverPublic : Text)
    (row : Row) : Prop where
  configName : isConfigName row.configName = true
  client : ∃ client, read (files row.configName) = .ok client ∧
    (∃ t ip, value client addressKey interfaceSection = some t ∧
      parseInterface t = some ip ∧ ip.prefixLength = 32 ∧ parseIPv4 row.tunnelIp = some ip.ip ∧
      assignable address ip.ip = true) ∧
    (∃ p, value client privateKeyKey interfaceSection = some p ∧ p ≠ [] ∧
      w.pubkey p = some row.publicKey) ∧
    value client publicKeyKey peerSection = some serverPublic

private theorem parseInterface_nil : parseInterface [] = none := by decide

theorem validateRow_eq_ok {files : Files} {serverPublic : Text} {row : Row} :
    validateRow w files address serverPublic row = .ok u ↔
      RowValid w files address serverPublic row := by
  simp only [validateRow, bind_eq_ok, path_eq_ok, invalid_eq_ok, require_eq_ok, publicKey_eq_ok,
    nonEmpty_eq_some, Bool.and_eq_true, beq_iff_eq]
  constructor
  · rintro ⟨_, ⟨hname, rfl⟩, client, hread, ip, hip, n, hn, -, ⟨⟨rfl, hlen⟩, ha⟩, p, ⟨hp, hp0⟩, k,
      hk, rfl, hremote⟩
    refine ⟨hname, client, hread, ?_, ⟨p, hp, hp0, hk⟩, hremote⟩
    cases hv : value client addressKey interfaceSection with
    | none => rw [hv, Option.getD_none, parseInterface_nil] at hip; cases hip
    | some t =>
      rw [hv, Option.getD_some] at hip
      exact ⟨t, ip, rfl, hip, hlen, hn, ha⟩
  · rintro ⟨hname, client, hread, ⟨t, ip, ht, hip, hlen, hn, ha⟩, ⟨p, hp, hp0, hk⟩, hremote⟩
    exact ⟨_, ⟨hname, rfl⟩, client, hread, ip, by rw [ht]; exact hip, ip.ip, hn, (),
      ⟨⟨rfl, hlen⟩, ha⟩, p, ⟨hp, hp0⟩, _, hk, rfl, hremote⟩

/-- A row is judged by its own client file. -/
theorem RowValid.congr {files files' : Files} {serverPublic : Text} {row : Row}
    (h : RowValid w files address serverPublic row)
    (hf : files' row.configName = files row.configName) :
    RowValid w files' address serverPublic row :=
  ⟨h.configName, by rw [hf]; exact h.client⟩

/-- What the validator has established about the whole store. -/
structure Valid (w : Platform) (interface : Text) (s : Store) (srv : Server)
    (profile : Profile) : Prop where
  interfaceName : isConfigName interface = true
  content : ∃ content, read (s.files interface) = .ok content ∧ server content = some srv
  profileRow : validateProfile s.profile = .ok profile
  items : ∀ item, item ∈ blockItems srv.peers ↔ item ∈ activeItems s.table.rows
  serverPublic : w.pubkey srv.privateKey = some profile.serverPublicKey
  rows : ∀ r ∈ s.table.rows, RowValid w s.files srv.address profile.serverPublicKey r

theorem mem_activeItems {k a : Text} : (k, a) ∈ activeItems rows ↔
    ∃ r ∈ rows, r.status = .active ∧ r.publicKey = k ∧ hostText r.tunnelIp = a := by
  simp [activeItems, and_assoc]

theorem nodup_activeItems : ((activeItems t.sorted).map Prod.fst).Nodup := by
  have hkeys : (t.sorted.map Row.publicKey).Nodup :=
    ((List.mergeSort_perm ..).map _).nodup_iff.mpr t.constraints.publicKey
  rw [activeItems, List.map_map]
  exact hkeys.sublist (List.filter_sublist.map _)

theorem nodup_blockItems {peers : List PeerBlock} (h : BlocksPart address peers) :
    ((blockItems peers).map Prod.fst).Nodup := by
  rw [blockItems, List.map_map]
  exact h.publicKeys

/-- **The validator, read off.** -/
theorem validateState_eq_ok {interface : Text} {s : Store} {v : Validated} :
    validateState w interface s = .ok v ↔ ∃ srv profile, Valid w interface s srv profile ∧
      v = ⟨srv.pre, srv.peers, srv.address, s.table.sorted⟩ := by
  have sameItems (item : Text × Text) :
      item ∈ activeItems s.table.sorted ↔ item ∈ activeItems s.table.rows := by
    rw [mem_activeItems, mem_activeItems]
    simp only [Table.mem_sorted]
  simp only [validateState, bind_eq_ok, path_eq_ok, invalid_eq_ok, require_eq_ok, publicKey_eq_ok,
    beq_iff_eq, forM_eq_ok, validateRow_eq_ok, Table.mem_sorted, pure, Except.pure,
    Except.ok.injEq]
  constructor
  · rintro ⟨_, ⟨hname, rfl⟩, content, hread, srv, hsrv, profile, hprofile, -, hdict, key, hkey, -,
      rfl, -, hrows, rfl⟩
    have hblocks := (server_eq_some_iff.mp hsrv).2.2
    rw [dictEq_iff (nodup_blockItems hblocks) nodup_activeItems] at hdict
    exact ⟨srv, profile, ⟨hname, ⟨content, hread, hsrv⟩, hprofile,
      fun item => (hdict item).trans (sameItems item), hkey, hrows⟩, rfl⟩
  · rintro ⟨srv, profile, h, rfl⟩
    obtain ⟨content, hread, hsrv⟩ := h.content
    have hblocks := (server_eq_some_iff.mp hsrv).2.2
    refine ⟨_, ⟨h.interfaceName, rfl⟩, content, hread, srv, hsrv, profile, h.profileRow, (), ?_, _,
      h.serverPublic, (), rfl, (), h.rows, rfl⟩
    rw [dictEq_iff (nodup_blockItems hblocks) nodup_activeItems]
    exact fun item => (h.items item).trans (sameItems item).symm

/-- A state that `_validate_state` accepts. -/
def Accepted (w : Platform) (interface : Text) (s : Store) : Prop :=
  ∃ v, validateState w interface s = .ok v

theorem accepted_iff {interface : Text} {s : Store} :
    Accepted w interface s ↔ ∃ srv profile, Valid w interface s srv profile := by
  simp only [Accepted, validateState_eq_ok]
  constructor
  · rintro ⟨v, srv, profile, h, -⟩
    exact ⟨srv, profile, h⟩
  · rintro ⟨srv, profile, h⟩
    exact ⟨_, srv, profile, h, rfl⟩

end ExitLane.Peers
