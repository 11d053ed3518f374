import ExitLane.Peers.ServerText
import ExitLane.Python.IpNetwork

/-!
# The first configuration

`wireguard.create` writes the first server and client configuration, `migrate_legacy` adopts them
into the database, and every later peer operation rewrites the server file.

* `FirstSetup.served`: the first setup leaves a server file with one block and one active row;
* `Served.plan`: each peer operation keeps the form of the server file;
* `run_served`: the server file has the form after every sequence of peer operations.
-/

namespace ExitLane.Peers
open Python IpAddress
open Effect (bind_eq_ok)
open Egress (isInterface)

/-! ## `wireguard.create` -/

/-- The arguments of `create`. -/
structure SetupRequest where
  endpoint : Text
  subnet : Text
  dns : Text
  port : Int
  interface : Text
  client : Text
  vpnInterface : Option Text
  allowedIps : Text
  keepalive : Int

/-- `str` of an address; none for one with a scope. -/
def unscopedText : Address → Option Text
  | .v4 n => some (ipv4Text n)
  | .v6 a => if a.scopeId.isNone then some (ipv6Text a.ip) else none

/-- `_validated_endpoint`, with the brackets that `create` puts around an IPv6 address. -/
def renderedEndpoint (endpoint : Text) : Option Text :=
  if safeAsciiValue endpoint then
    let host := if isSectionLine endpoint then endpoint.tail.dropLast else endpoint
    let validated := match parseAddress host with
      | some a => unscopedText a
      | none => if isEndpointHostname host then some (host.map Char.toLower) else none
    validated.map fun t => if ':' ∈ t then '[' :: t ++ [']'] else t
  else none

/-- `_validated_dns_address`. -/
def renderedDns (dns : Text) : Option Text :=
  if safeAsciiValue dns then (parseAddress dns).bind unscopedText else none

/-- The interfaces of the direct egress providers. -/
def providerInterfaces : List Text :=
  ["wg-mullvad".toList, "wg-pia".toList, "wg-proton".toList]

/-- `_validated_ingress_network`. -/
def validatedIngressNetwork (subnet : Text) : Option Interface :=
  (parseNetwork subnet).filter fun n => n.prefixLength ≤ 31

/-- The first two hosts, the first with the prefix of the network. -/
def firstHosts (n : Interface) : Option (Interface × Nat) :=
  match h : n.hosts with
  | server :: client :: _ =>
    some (⟨server, n.prefixLength,
      Interface.lt_of_contains (Interface.mem_hosts.mp (h ▸ List.mem_cons_self)).1,
      n.prefixLength_le⟩, client)
  | _ => none

/-- What `create` writes: the server file is `serverText head [peer]`. -/
structure Created where
  head : Head
  peer : PeerBlock
  client : Text

def create (w : Platform) (req : SetupRequest) (server client : Draw) : Option Created := do
  let network ← validatedIngressNetwork req.subnet
  guard (isIngressName req.interface = true ∧ req.interface ∉ providerInterfaces)
  guard (isConfigName req.client = true ∧ req.client ≠ req.interface)
  let endpoint ← renderedEndpoint req.endpoint
  guard (req.vpnInterface.all isInterface = true)
  let dns ← renderedDns req.dns
  guard (1 ≤ req.port ∧ req.port ≤ 65535)
  guard (isKeepalive req.keepalive = true)
  let (address, clientHost) ← firstHosts network
  let serverPublic ← w.pubkey server.privateKey
  let clientPublic ← w.pubkey client.privateKey
  return {
    head := ⟨req.interface, address, req.port.toNat, server.privateKey, req.vpnInterface⟩
    peer := ⟨clientPublic, hostText (ipv4Text clientHost), some (intText req.keepalive)⟩
    client := clientText ⟨endpoint ++ ':' :: intText req.port, dns, req.allowedIps, req.keepalive,
      req.keepalive, serverPublic⟩ client.privateKey (ipv4Text clientHost) }

/-- The state after a first setup: `create` has written its two files into a store without peers,
and `migrate_legacy` has adopted them. -/
structure FirstSetup (w : Platform) (req : SetupRequest) (created : Created) (s : Store) :
    Prop where
  files : ∃ server client, create w req server client = some created
  adopted : ∃ d before, migrateLegacy w req.interface req.client d ⟨⟨[], constraints_nil⟩, none,
    setFiles before [(req.interface, some (serverText created.head [created.peer])),
      (req.client, some created.client)]⟩ = .ok (true, s)

theorem clientHost_lt {n a : Interface} {c : Nat} (h : firstHosts n = some (a, c)) :
    c < 2 ^ 32 ∧ a.prefixLength = n.prefixLength := by
  unfold firstHosts at h
  split at h
  · next server client rest hhosts =>
    cases h
    have hmem : c ∈ n.hosts := by simp [hhosts]
    exact ⟨Interface.lt_of_contains (Interface.mem_hosts.mp hmem).1, rfl⟩
  · cases h

/-- What a returned `create` has checked and written. -/
structure CreateFacts (w : Platform) (req : SetupRequest) (server client : Draw) (c : Created)
    (network : Interface) (clientHost : Nat) (clientPublic : Text) : Prop where
  subnet : validatedIngressNetwork req.subnet = some network
  interfaceName : isIngressName req.interface = true ∧ req.interface ∉ providerInterfaces
  clientName : isConfigName req.client = true ∧ req.client ≠ req.interface
  vpnInterface : ∀ v ∈ req.vpnInterface, isInterface v = true
  port : 1 ≤ req.port ∧ req.port ≤ 65535
  keepalive : isKeepalive req.keepalive = true
  hosts : firstHosts network = some (c.head.address, clientHost)
  derived : w.pubkey client.privateKey = some clientPublic
  head : c.head = ⟨req.interface, c.head.address, req.port.toNat, server.privateKey,
    req.vpnInterface⟩
  peer : c.peer = ⟨clientPublic, hostText (ipv4Text clientHost), some (intText req.keepalive)⟩
  client : ∃ endpoint dns serverPublic, renderedEndpoint req.endpoint = some endpoint ∧
    renderedDns req.dns = some dns ∧ w.pubkey server.privateKey = some serverPublic ∧
    c.client = clientText ⟨endpoint ++ ':' :: intText req.port, dns, req.allowedIps, req.keepalive,
      req.keepalive, serverPublic⟩ client.privateKey (ipv4Text clientHost)

variable {req : SetupRequest} {w : Platform} {s : Store}

theorem create_eq_some {server client : Draw} {c : Created}
    (h : create w req server client = some c) : ∃ network clientHost clientPublic,
      CreateFacts w req server client c network clientHost clientPublic := by
  simp only [create, Option.bind_eq_bind, Option.bind_eq_some_iff, guard_eq_some,
    Option.pure_def, Option.some.injEq, Prod.exists] at h
  obtain ⟨network, hnetwork, -, hinterface, -, hclient, endpoint, hendpoint, -, hvpn, dns, hdns, -,
    hport, -, hkeepalive, address, clientHost, hhosts, serverPublic, hserver, clientPublic,
    hderived, rfl⟩ := h
  refine ⟨network, clientHost, clientPublic, hnetwork, hinterface, hclient, ?_, hport, hkeepalive,
    hhosts, hderived, rfl, rfl, endpoint, dns, serverPublic, hendpoint, hdns, hserver, rfl⟩
  intro v hv
  rw [Option.mem_def.mp hv] at hvpn
  exact hvpn

theorem intText_of_isKeepalive {k : Int} (h : isKeepalive k = true) :
    k.toNat ≤ 65535 ∧ intText k = natText k.toNat := by
  simp only [isKeepalive, Bool.and_eq_true, decide_eq_true_eq] at h
  refine ⟨by omega, ?_⟩
  rw [intText, if_neg (by omega)]
  congr 1
  omega

theorem FirstSetup.facts {created : Created}
    (h : FirstSetup w req created s) : ∃ server client network clientHost clientPublic,
      CreateFacts w req server client created network clientHost clientPublic := by
  obtain ⟨server, client, hcreate⟩ := h.files
  exact ⟨server, client, create_eq_some hcreate⟩

theorem CreateFacts.wellFormed {server client : Draw} {c : Created}
    {network : Interface} {clientHost : Nat} {clientPublic : Text}
    (h : CreateFacts w req server client c network clientHost clientPublic)
    (hprivate : isWord c.head.privateKey = true) : c.head.WellFormed := by
  have hlength : network.prefixLength ≤ 31 := by
    simpa using (Option.filter_eq_some_iff.mp h.subnet).2
  have hport := h.port
  refine ⟨?_, ?_, ?_, hprivate, ?_⟩
  · rw [h.head]
    exact h.interfaceName.1
  · rw [(clientHost_lt h.hosts).2]
    exact hlength
  · rw [h.head]
    simp only
    omega
  · rw [h.head]
    exact h.vpnInterface

theorem CreateFacts.plain {server client : Draw} {c : Created} {network : Interface}
    {clientHost : Nat} {clientPublic : Text}
    (h : CreateFacts w req server client c network clientHost clientPublic)
    (hkey : isWord clientPublic = true) : c.peer.Plain := by
  obtain ⟨hle, htext⟩ := intText_of_isKeepalive h.keepalive
  rw [h.peer, htext]
  exact ⟨hkey, ⟨clientHost, (clientHost_lt h.hosts).1, rfl⟩, ⟨_, hle, rfl⟩⟩

/-! ## The server file of a store -/

/-- What every row keeps: a key that was derived and an address of the network. -/
structure Kept (w : Platform) (address : Interface) (r : Row) : Prop where
  derived : ∃ privateKey, w.pubkey privateKey = some r.publicKey
  tunnelIp : ∃ ip, r.tunnelIp = ipv4Text ip ∧ ip < 2 ^ 32 ∧ assignable address ip = true

theorem RowValid.kept {files : Files} {address : Interface} {serverPublic : Text}
    {r : Row} (h : RowValid w files address serverPublic r) : Kept w address r := by
  obtain ⟨-, -, -, ⟨p, -, -, hp⟩, -⟩ := h.client
  exact ⟨⟨p, hp⟩, h.address⟩

/-- The server file is of the form of `head`, with one block for each active row. -/
structure Served (w : Platform) (interface : Text) (head : Head) (s : Store)
    (peers : List PeerBlock) : Prop where
  file : s.files interface = some (written (serverText head peers))
  plain : ∀ p ∈ peers, p.Plain
  publicKeys : (peers.map PeerBlock.publicKey).Nodup
  items : ∀ item, item ∈ blockItems peers ↔ item ∈ activeItems s.table.rows
  rows : ∀ r ∈ s.table.rows, Kept w head.address r
  count : s.table.rows.length ≤ 253

section Served
variable {w : Platform} {interface : Text} {h : Head} {s : Store} {peers : List PeerBlock}
  {ip : Nat} {peer : PeerBlock} {files : Files} {req : SetupRequest} {created : Created}

theorem nodup_activeRows (t : Table) :
    ((t.rows.filter fun r => r.status == .active).map Row.publicKey).Nodup :=
  t.constraints.publicKey.sublist (List.filter_sublist.map _)

/-- There are as many blocks as active rows. -/
theorem Served.length_eq (hs : Served w interface h s peers) :
    peers.length = (s.table.rows.filter fun r => r.status == .active).length := by
  have hblocks : (blockItems peers).Nodup := by
    refine List.Nodup.of_map Prod.fst ?_
    rw [blockItems, List.map_map]
    exact hs.publicKeys
  have hactive : (activeItems s.table.rows).Nodup := by
    refine List.Nodup.of_map Prod.fst ?_
    rw [activeItems, List.map_map]
    exact nodup_activeRows s.table
  have hperm := (List.perm_ext_iff_of_nodup hblocks hactive).mpr hs.items
  have hlength := hperm.length_eq
  rwa [blockItems, activeItems, List.length_map, List.length_map] at hlength

theorem Served.length_le (hs : Served w interface h s peers) : peers.length ≤ 253 := by
  rw [hs.length_eq]
  exact Nat.le_trans (List.length_filter_le ..) hs.count

theorem Served.server (hh : h.WellFormed) (hs : Served w interface h s peers) :
    read (s.files interface) = .ok (serverText h peers) ∧
      ∃ pre, server (serverText h peers) = some ⟨pre, peers, h.address, h.privateKey⟩ ∧
        rstrip pre = rstrip (unlines h.lines) := by
  refine ⟨?_, server_serverText hh (fun p hp => (hs.plain p hp).wellFormed)
    (fun p hp => (hs.plain p hp).complete) ?_⟩
  · rw [hs.file]
    exact read_serverText hh hs.plain hs.length_le
  · exact blocksPart_of_items hs.publicKeys (fun item hi => (hs.items item).mp hi)
      fun r hr => (hs.rows r hr).tunnelIp

/-! ### One operation -/

variable (hkeys : ∀ p k, w.pubkey p = some k → isWord k = true) (hh : h.WellFormed) {d : Draw}
  {c : Change} {profile : Profile} {pre : Text}
include hkeys hh

section
variable (hs : Served w interface h s peers)
include hs

section
variable (hvalid : Valid w interface s ⟨pre, peers, h.address, h.privateKey⟩ profile)
include hvalid

section
variable (hpre : rstrip pre = rstrip (unlines h.lines))
include hpre

theorem Served.create {name description key : Text} {profile' : Profile}
    (hp : CreatePlan w interface name description d s
      ⟨pre, peers, h.address, s.table.sorted⟩ c ip key profile')
    (hfresh : s.files d.configName = none) :
    ∃ peers', Served w interface h (s.apply c) peers' := by
  obtain rfl := hvalid.profile_eq hp.profileRow
  have hkey : ∀ r ∈ s.table.rows, r.publicKey ≠ key :=
    fun r hr => hp.fresh r (Table.mem_sorted.mpr hr)
  obtain ⟨hlt, hass⟩ := assignable_of_host hp.host.1 hp.host.2
  obtain ⟨hle, htext⟩ := intText_of_isKeepalive
    (serverKeepalive_of_validateProfile hvalid.profileRow)
  have hne := (hvalid.ne_unused hfresh).1
  have hcount := hp.count
  rw [show (s.table.sorted).length = s.table.rows.length from (List.mergeSort_perm ..).length_eq]
    at hcount
  refine ⟨peers ++ [⟨key, hostText (ipv4Text ip), some (intText profile'.serverKeepalive)⟩],
    ⟨?_, ?_, createdPeers_nodup hvalid hkey _ _, ?_, ?_, ?_⟩⟩
  · rw [Store.apply_files, hp.newFiles, setFiles_two, if_neg hne, if_pos rfl,
      render_lines hh hpre]
    rfl
  · rw [List.forall_mem_append]
    refine ⟨hs.plain, fun p hp' => ?_⟩
    rw [List.mem_singleton.mp hp', htext]
    exact ⟨hkeys _ _ hp.derived, ⟨ip, hlt, rfl⟩, ⟨_, hle, rfl⟩⟩
  · rintro ⟨k, a⟩
    rw [Store.apply, hp.rows]
    exact mem_blockItems_created hvalid ..
  · rw [Store.apply, hp.rows, List.forall_mem_append]
    refine ⟨hs.rows, fun r hr => ?_⟩
    rw [List.mem_singleton.mp hr]
    exact ⟨⟨d.privateKey, hp.derived⟩, ⟨ip, rfl, hlt, hass⟩⟩
  · rw [Store.apply, hp.rows, List.length_append, List.length_singleton]
    simp only [maxFiles] at hcount
    omega

theorem Served.regenerate {peerId key : Text} {row : Row} {profile' : Profile}
    (hp : RegeneratePlan w interface peerId d s
      ⟨pre, peers, h.address, s.table.sorted⟩ c row key profile') :
    ∃ peers', Served w interface h (s.apply c) peers' := by
  obtain rfl := hvalid.profile_eq hp.profileRow
  obtain ⟨hrow, rfl⟩ := hp.found
  have hfresh := hvalid.fresh_key fun r hr => hp.fresh r (Table.mem_sorted.mpr hr)
  obtain ⟨ip, hip, hlt, hass⟩ := (hs.rows row hrow).tunnelIp
  obtain ⟨hle, htext⟩ := intText_of_isKeepalive
    (serverKeepalive_of_validateProfile hvalid.profileRow)
  have hne : interface ≠ row.configName := (hvalid.configName_ne hrow).symm
  have hreplacement : (replacementFor ⟨pre, peers, h.address, s.table.sorted⟩ profile' row
      key).Plain := by
    refine ⟨hkeys _ _ hp.derived, ⟨ip, hlt, by rw [replacementFor, hip]⟩, ?_⟩
    cases hfind : peers.find? fun peer => peer.publicKey == row.publicKey with
    | none => exact ⟨_, hle, by simp only [replacementFor, hfind, Option.bind_none,
        Option.getD_none, htext]⟩
    | some q =>
      obtain ⟨k, hk, heq⟩ := (hs.plain q (List.mem_of_find?_eq_some hfind)).persistentKeepalive
      exact ⟨k, hk, by simp only [replacementFor, hfind, Option.bind_some, heq, Option.getD_some]⟩
  refine ⟨regeneratedPeers ⟨pre, peers, h.address, s.table.sorted⟩ row
      (replacementFor ⟨pre, peers, h.address, s.table.sorted⟩ profile' row key),
    ⟨?_, ?_, regeneratedPeers_nodup hvalid rfl hrow hfresh, ?_, ?_, ?_⟩⟩
  · rw [Store.apply_files, hp.newFiles, setFiles_two, if_neg hne, if_pos rfl,
      render_lines hh hpre]
    rfl
  · intro p hmem
    rcases mem_regeneratedPeers hmem with rfl | ⟨hmem, -⟩
    · exact hreplacement
    · exact hs.plain p hmem
  · rintro ⟨k, a⟩
    rw [Store.apply, hp.rows]
    exact regeneratedItems hvalid rfl hrow k a
  · intro r hr
    rw [Store.apply, hp.rows] at hr
    rcases mem_update hrow hr with rfl | ⟨hr, -⟩
    · exact ⟨⟨d.privateKey, hp.derived⟩, ⟨ip, hip, hlt, hass⟩⟩
    · exact hs.rows r hr
  · rw [Store.apply, hp.rows, List.length_map]
    exact hs.count

omit hkeys in
theorem Served.revoke {peerId : Text} {row : Row}
    (hp : RevokePlan interface peerId d s ⟨pre, peers, h.address, s.table.sorted⟩ c row) :
    ∃ peers', Served w interface h (s.apply c) peers' := by
  obtain ⟨hrow, rfl⟩ := hp.found
  refine ⟨peers.filter fun peer => peer.publicKey ≠ row.publicKey,
    ⟨?_, fun p hmem => hs.plain p (List.mem_filter.mp hmem).1,
    hs.publicKeys.sublist (List.filter_sublist.map _), ?_, ?_, ?_⟩⟩
  · rw [Store.apply_files, hp.newFiles, setFiles_one, if_pos rfl, render_lines hh hpre]
    rfl
  · rintro ⟨k, a⟩
    rw [Store.apply, hp.rows]
    exact revokedItems hvalid hrow k a
  · intro r hr
    rw [Store.apply, hp.rows] at hr
    rcases mem_update hrow hr with rfl | ⟨hr, -⟩
    · exact ⟨(hs.rows row hrow).derived, (hs.rows row hrow).tunnelIp⟩
    · exact hs.rows r hr
  · rw [Store.apply, hp.rows, List.length_map]
    exact hs.count

end

end

omit hkeys hh in
/-- An operation that leaves the server file alone. -/
theorem Served.keep {s' : Store}
    (hvalid : Valid w interface s' ⟨pre, peers, h.address, h.privateKey⟩ profile)
    (hfile : s'.files interface = s.files interface)
    (hcount : s'.table.rows.length ≤ s.table.rows.length) : Served w interface h s' peers where
  file := hfile.trans hs.file
  plain := hs.plain
  publicKeys := hs.publicKeys
  items := hvalid.items
  rows r hr := (hvalid.rows r hr).kept
  count := Nat.le_trans hcount hs.count

theorem Served.plan {op : Operation}
    (hp : plan w interface d s op = .ok c) (hfresh : FreshId d s op) :
    ∃ peers', Served w interface h (s.apply c) peers' := by
  obtain ⟨v, hv, hplan⟩ := plan_eq_ok hp
  obtain ⟨srv, profile, hvalid, rfl⟩ := validateState_eq_ok.mp hv
  obtain ⟨hread, pre, hsrv, hpre⟩ := hs.server hh
  obtain rfl : srv = ⟨pre, peers, h.address, h.privateKey⟩ := by
    obtain ⟨content, hcontent, hserver⟩ := hvalid.content
    rw [hread] at hcontent
    cases hcontent
    rw [hsrv] at hserver
    exact (Option.some.inj hserver).symm
  cases hplan with
  | create hplan => exact hs.create hkeys hh hvalid hpre hplan hfresh
  | regenerate hplan => exact hs.regenerate hkeys hh hvalid hpre hplan
  | revoke hplan => exact hs.revoke hh hvalid hpre hplan
  | update hplan =>
    obtain ⟨-, hnew, hrows⟩ := updateOperation_eq_ok hplan
    refine ⟨peers, hs.keep (update_valid hvalid hplan) ?_ ?_⟩
    · rw [Store.apply_files, hnew]
      rfl
    · rw [Store.apply, hrows, List.length_map]
  | delete hplan =>
    obtain ⟨hrow, rfl⟩ := hplan.found
    refine ⟨peers, hs.keep (delete_valid hvalid hplan) ?_ ?_⟩
    · rw [Store.apply_files, hplan.newFiles, setFiles_one,
        if_neg (hvalid.configName_ne hrow).symm]
    · rw [Store.apply, hplan.table]
      exact List.length_filter_le ..

end

omit hkeys hh in
/-- What `migrate_legacy` has read and adopted: the one block of the server file, with the client
file that goes with it. -/
structure Adopted (w : Platform) (interface client : Text) (d : Draw) (files : Files) (s : Store)
    (content clientContent : Text) (srv : Server) (peer : PeerBlock) (ip : Nat)
    (profile : Profile) : Prop where
  names : isConfigName interface = true ∧ isConfigName client = true
  serverFile : read (files interface) = .ok content
  clientFile : read (files client) = .ok clientContent
  server : server content = some srv
  peers : srv.peers = [peer]
  allowed : (parseNetwork peer.allowedIPs).map Interface.ip = some ip
  tunnel : ∃ t tunnel, value clientContent addressKey interfaceSection = some t ∧
    parseInterface t = some tunnel ∧ tunnel.prefixLength = 32 ∧ tunnel.ip = ip
  assignable : assignable srv.address ip = true
  derived : ∃ p, value clientContent privateKeyKey interfaceSection = some p ∧ p ≠ [] ∧
    w.pubkey p = some peer.publicKey
  serverPublic : w.pubkey srv.privateKey = some profile.serverPublicKey
  remote : value clientContent publicKeyKey peerSection = some profile.serverPublicKey
  legacy : legacyProfile peer clientContent profile.serverPublicKey = .ok profile
  rows : ∃ name, s.table.rows = [⟨d.peerId, name, [], peer.publicKey, ipv4Text ip, client, .active,
    true, d.now, d.now, none⟩]
  files : s.files = files
  profile : s.profile = some profile

omit hkeys hh in
/-- What the profile of an adopted client file was read from. -/
theorem legacyProfile_eq_ok {client serverPublic : Text}
    (h : legacyProfile peer client serverPublic = .ok profile) :
    value client "Endpoint".toList peerSection = some profile.endpoint ∧
      value client "DNS".toList interfaceSection = some profile.dns ∧
      value client allowedIPsKey peerSection = some profile.allowedIps ∧
      profile.serverPublicKey = serverPublic ∧ validateProfile (some profile) = .ok profile := by
  simp only [legacyProfile, bind_eq_ok, invalid_eq_ok, nonEmpty_eq_some] at h
  obtain ⟨endpoint, ⟨hendpoint, -⟩, dns, ⟨hdns, -⟩, allowed, ⟨hallowed, -⟩, keepalive, -,
    serverKeepalive, -, hvalid⟩ := h
  obtain ⟨heq, -⟩ := validateProfile_eq_ok hvalid
  cases heq
  exact ⟨hendpoint, hdns, hallowed, rfl, hvalid⟩

omit hkeys hh in
theorem migrateLegacy_eq_ok {client : Text}
    (h : migrateLegacy w interface client d ⟨⟨[], constraints_nil⟩, none, files⟩ = .ok (true, s)) :
    ∃ content clientContent srv peer ip profile,
      Adopted w interface client d files s content clientContent srv peer ip profile := by
  simp only [migrateLegacy, Option.isSome_none, Bool.false_eq_true, if_false, bind_eq_ok,
    path_eq_ok] at h
  obtain ⟨_, ⟨hinterface, rfl⟩, clientPath, ⟨hclientName, rfl⟩, h⟩ := h
  split at h
  · cases h
  simp only [bind_eq_ok, require_eq_ok, invalid_eq_ok] at h
  obtain ⟨-, -, content, hread, clientContent, hclient, srv, hsrv, h⟩ := h
  split at h
  · next peer hpeers =>
    simp only [bind_eq_ok, require_eq_ok, invalid_eq_ok, publicKey_eq_ok, nonEmpty_eq_some,
      beq_iff_eq, pure, Except.pure, Except.ok.injEq, Prod.mk.injEq, true_and] at h
    obtain ⟨ip, htunnel, privateKey, ⟨hprivate, hprivate0⟩, derived, hderived, -, rfl, serverPublic,
      hserverPublic, -, hremote, profile, hlegacy, name, -, table, htable, rfl⟩ := h
    simp only [legacyTunnel, bind_eq_ok, invalid_eq_ok, require_eq_ok, Bool.and_eq_true,
      beq_iff_eq, pure, Except.pure, Except.ok.injEq] at htunnel
    obtain ⟨tunnel, haddress, -, ⟨⟨hlength, -⟩, hass⟩, allowed, hallowed, -, ⟨-, heq⟩, rfl⟩ :=
      htunnel
    obtain ⟨-, -, -, rfl, -⟩ := legacyProfile_eq_ok hlegacy
    refine ⟨content, clientContent, srv, peer, tunnel.ip, profile, ⟨hinterface, hclientName⟩, hread,
      hclient, hsrv, hpeers, by rw [hallowed, Option.map_some, heq], ?_, hass,
      ⟨privateKey, hprivate, hprivate0, hderived⟩, hserverPublic, hremote, hlegacy,
      ⟨name, Table.ofRows_eq_ok htable⟩, rfl, rfl⟩
    cases hv : value clientContent addressKey interfaceSection with
    | none =>
      rw [hv, Option.getD_none, show parseInterface [] = none by decide] at haddress
      cases haddress
    | some t =>
      rw [hv, Option.getD_some] at haddress
      exact ⟨t, tunnel, rfl, haddress, hlength, rfl⟩
  · cases h

omit hkeys hh in
/-- An adopted store is accepted if the block spells its address as the row's does. -/
theorem Adopted.valid {client : Text} {content clientContent : Text} {srv : Server}
    {profile : Profile}
    (had : Adopted w interface client d files s content clientContent srv peer ip profile)
    (hspelled : peer.allowedIPs = hostText (ipv4Text ip)) : Valid w interface s srv profile := by
  obtain ⟨name, hrows⟩ := had.rows
  obtain ⟨-, -, -, -, hprofile⟩ := legacyProfile_eq_ok had.legacy
  refine ⟨had.names.1, ⟨content, had.files ▸ had.serverFile, had.server⟩, had.profile ▸ hprofile,
    ?_, had.serverPublic, ?_⟩
  · rintro ⟨k, a⟩
    rw [hrows, had.peers, mem_blockItems, mem_activeItems]
    simp only [List.mem_singleton, exists_eq_left, hspelled, true_and]
  · rw [hrows]
    intro r hr
    rw [List.mem_singleton.mp hr]
    obtain ⟨t, tunnel, ht, htunnel, hlength, rfl⟩ := had.tunnel
    have hlt : tunnel.ip < 2 ^ 32 := tunnel.ip_lt
    refine ⟨had.names.2, clientContent, had.files ▸ had.clientFile, ?_, had.derived, had.remote⟩
    exact ⟨t, tunnel, ht, htunnel, hlength, parseIPv4_text hlt, had.assignable⟩

omit hkeys in
/-- Adopting a server file with one block gives it one active row. -/
theorem Adopted.served {client : Text} {content clientContent : Text} {srv : Server}
    {block : PeerBlock} {profile : Profile} (hplain : block.Plain)
    (hfile : files interface = some (written (serverText h [block])))
    (had : Adopted w interface client d files s content clientContent srv peer ip profile) :
    Served w interface h s [block] := by
  have hall : ∀ p ∈ [block], p.Plain := fun p hp => List.mem_singleton.mp hp ▸ hplain
  obtain ⟨name, hrows⟩ := had.rows
  -- the file reads back as written, so what was adopted is its block
  have hread := had.serverFile
  rw [hfile, read_serverText hh hall (by simp)] at hread
  cases hread
  obtain ⟨pre, hsec, hif, -⟩ := sections_serverText hh
    (fun p hp => (hall p hp).wellFormed) (fun p hp => (hall p hp).complete)
  obtain ⟨hsec', hif', -⟩ := server_eq_some_iff.mp had.server
  rw [hsec, had.peers] at hsec'
  cases hsec'
  have haddress : srv.address = h.address := hif'.address_eq hif
  have hip := had.allowed
  obtain ⟨n, hlt, hallowed⟩ := hplain.allowedIPs
  rw [hallowed, parseNetwork_hostText hlt] at hip
  cases hip
  refine ⟨had.files ▸ hfile, hall, by simp, ?_, ?_, ?_⟩
  · rintro ⟨k, a⟩
    rw [hrows, mem_blockItems, mem_activeItems]
    simp only [List.mem_singleton, exists_eq_left, hallowed, true_and, hostInterface]
  · rw [hrows]
    intro r hr
    rw [List.mem_singleton.mp hr]
    obtain ⟨p, -, -, hderived⟩ := had.derived
    exact ⟨⟨p, hderived⟩, ⟨n, rfl, hlt, haddress ▸ had.assignable⟩⟩
  · rw [hrows]
    simp

omit hh in
/-- A first setup leaves a server file of the form of its head, with one block. -/
theorem FirstSetup.served (hprivate : isWord created.head.privateKey = true)
    (hs : FirstSetup w req created s) :
    created.head.WellFormed ∧ Served w req.interface created.head s [created.peer] := by
  obtain ⟨_, _, network, clientHost, clientPublic, hfacts⟩ := hs.facts
  obtain ⟨d, before, hadopted⟩ := hs.adopted
  have hh := hfacts.wellFormed hprivate
  obtain ⟨content, clientContent, srv, peer, ip, profile, had⟩ := migrateLegacy_eq_ok hadopted
  refine ⟨hh, had.served hh (hfacts.plain (hkeys _ _ hfacts.derived)) ?_⟩
  rw [setFiles_two, if_neg (Ne.symm hfacts.clientName.2), if_pos rfl]
  rfl

omit hkeys hh in
/-- The client file of a first setup, which `migrate_legacy` could read. -/
theorem FirstSetup.clientFile (hs : FirstSetup w req created s) :
    s.files req.client = some (written created.client) ∧ utf8Length created.client ≤ 65536 := by
  obtain ⟨d, before, hadopted⟩ := hs.adopted
  obtain ⟨content, clientContent, srv, peer, ip, profile, had⟩ := migrateLegacy_eq_ok hadopted
  have hfile : s.files req.client = some (written created.client) := by
    rw [had.files, setFiles_two, if_pos rfl]
    rfl
  have hclient := had.clientFile
  rw [← had.files, hfile] at hclient
  exact ⟨hfile, size_of_read hclient⟩

omit hkeys hh in
theorem FirstSetup.interface_eq (hs : FirstSetup w req created s) :
    created.head.interface = req.interface := by
  obtain ⟨_, _, network, clientHost, clientPublic, hfacts⟩ := hs.facts
  rw [hfacts.head]

omit hh in
/-- The adopted state is one that `_validate_state` accepts. -/
theorem FirstSetup.valid (hprivate : isWord created.head.privateKey = true)
    (hs : FirstSetup w req created s) : ∃ srv profile, Valid w req.interface s srv profile := by
  obtain ⟨hh, hserved⟩ := hs.served hkeys hprivate
  obtain ⟨d, before, hadopted⟩ := hs.adopted
  obtain ⟨content, clientContent, srv, peer, ip, profile, had⟩ := migrateLegacy_eq_ok hadopted
  obtain ⟨hread, pre, hsrv, -⟩ := hserved.server hh
  have hserver := had.serverFile
  rw [← had.files, hread] at hserver
  cases hserver
  have hpeers : srv.peers = [created.peer] := by
    have hsame := had.server
    rw [hsrv] at hsame
    cases hsame
    rfl
  have hpeer := had.peers
  rw [hpeers] at hpeer
  cases hpeer
  obtain ⟨n, hlt, hallowed⟩ := (hserved.plain created.peer (List.mem_singleton_self _)).allowedIPs
  have hip := had.allowed
  rw [hallowed, parseNetwork_hostText hlt] at hip
  cases hip
  exact ⟨srv, profile, had.valid hallowed⟩

/-- **Run lemma.** After a first setup and any peer operations, the server file is of the form that
the setup wrote, with one block for each active row. -/
theorem run_served (hs : Served w interface h s peers) {s' : Store}
    (hrun : Relation.ReflTransGen (Step w interface) s s') :
    ∃ peers', Served w interface h s' peers' := by
  induction hrun with
  | refl => exact ⟨peers, hs⟩
  | tail _ hstep ih =>
    obtain ⟨now, hnow⟩ := ih
    obtain ⟨op, d, c, hp, hfresh, rfl⟩ := hstep
    exact hnow.plan hkeys hh hp hfresh

end Served

end ExitLane.Peers
