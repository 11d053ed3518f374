import ExitLane.Backup.RoundTrip
import ExitLane.Peers.Frame

/-!
# What `migrate_legacy` leaves behind

`migrate_legacy` adopts a server file with one block and the client file that goes with it. It
compares the block's `AllowedIPs` with the tunnel address as networks, while `_validate_state` and
`validate_staged_state` compare the texts: `10.8.0.2` is adopted and refused ever after. It also
takes any interface name that `_path` allows, and `validate_staged_state` takes fewer.

* `Adopted.accepted_iff`: an adopted store is accepted exactly when the block spells its address
  `a.b.c.d/32`;
* `adoption_usable_iff`: what is left of the promise that adoption yields a usable store.
-/

namespace ExitLane.Backup
open Python IpAddress Peers
open Effect (bind_eq_ok)

variable {w : Platform} {interface client : Text} {d : Draw} {files : Files} {s : Store}

/-! ## Acceptance -/

/-- The one block of the server file writes its network as `str` would write the host. -/
def SpelledOut (files : Files) (interface : Text) : Prop :=
  ∃ content srv peer network, read (files interface) = .ok content ∧ server content = some srv ∧
    srv.peers = [peer] ∧ parseNetwork peer.allowedIPs = some network ∧
    peer.allowedIPs = hostText (ipv4Text network.ip)

section Adopted
variable {content clientContent : Text} {srv : Server} {peer : PeerBlock} {ip : Nat}
  {profile : Profile}
  (had : Adopted w interface client d files s content clientContent srv peer ip profile)
include had

theorem Adopted.spelledOut_iff :
    SpelledOut files interface ↔ peer.allowedIPs = hostText (ipv4Text ip) := by
  obtain ⟨network, hnetwork, hip⟩ := Option.map_eq_some_iff.mp had.allowed
  constructor
  · rintro ⟨content', srv', peer', network', hread, hserver, hpeers, hparse, hspelled⟩
    rw [had.serverFile] at hread
    cases hread
    rw [had.server] at hserver
    cases hserver
    rw [had.peers] at hpeers
    cases hpeers
    rw [hnetwork] at hparse
    cases hparse
    rw [← hip]
    exact hspelled
  · intro hspelled
    exact ⟨content, srv, peer, network, had.serverFile, had.server, had.peers, hnetwork,
      by rw [hip]; exact hspelled⟩

/-- An adopted store is accepted exactly when its block is spelled out. -/
theorem Adopted.accepted_iff : Accepted w interface s ↔ SpelledOut files interface := by
  rw [Adopted.spelledOut_iff had, Peers.accepted_iff]
  constructor
  · rintro ⟨srv', profile', h⟩
    obtain ⟨content', hread, hserver⟩ := h.content
    rw [had.files, had.serverFile] at hread
    cases hread
    rw [had.server] at hserver
    cases hserver
    obtain ⟨name, hrows⟩ := had.rows
    have hitem := (h.items (peer.publicKey, peer.allowedIPs)).mp
      (mem_blockItems.mpr ⟨peer, by rw [had.peers]; exact List.mem_singleton_self _, rfl, rfl⟩)
    rw [hrows, mem_activeItems] at hitem
    obtain ⟨r, hr, -, -, hallowed⟩ := hitem
    rw [List.mem_singleton.mp hr] at hallowed
    exact hallowed.symm
  · intro hspelled
    exact ⟨srv, profile, had.valid hspelled⟩

end Adopted

/-- A store with a profile is only validated again. -/
theorem migrateLegacy_again {profile : Profile} (hprofile : s.profile = some profile) (d : Draw) :
    migrateLegacy w interface client d s = .ok (false, s) ↔ Accepted w interface s := by
  simp only [migrateLegacy, hprofile, Option.isSome_some, if_true, bind_eq_ok, pure, Except.pure,
    and_true, Accepted]

/-! ## A usable store -/

/-- The database of the store, once the settings name the two files. -/
def namedDatabase {δ : Type} (interface client : Text) (s : Store) (other : δ) : Database δ where
  schema := 1
  configured := true
  interface := some interface
  client := some client
  peers := some s.table
  profile := some s.profile
  other := other

/-- What the staged validator asks first. -/
theorem isIngressName_of_staged {δ : Type} {publicKeyLocal : Text → Option Text} {other : δ}
    (h : validateStagedState publicKeyLocal files (namedDatabase interface client s other) =
      some ()) : isIngressName interface = true := by
  simp only [validateStagedState, namedDatabase, if_true, Option.bind_eq_bind, Option.bind_some,
    Option.bind_eq_some_iff, guard_eq_some] at h
  obtain ⟨-, hnames, -⟩ := h
  exact hnames.1

/-- What adoption promises: the files as they were, one default row, and a store that all three
readers take from then on. -/
structure Usable (w : Platform) (interface client : Text) (files : Files) (s : Store) : Prop where
  files : s.files = files
  row : ∃ r, s.table.rows = [r] ∧ r.isDefault = true ∧ r.status = .active
  accepted : Accepted w interface s
  staged : ∀ {δ : Type} (other : δ),
    validateStagedState w.pubkey s.files (namedDatabase interface client s other) = some ()
  again : ∀ d, migrateLegacy w interface client d s = .ok (false, s)

/-! ## Two spellings of one network -/

/-- When adoption succeeds. -/
theorem migrateLegacy_of {content clientContent privateKey serverPublic name : Text} {srv : Server}
    {peer : PeerBlock} {ip : Nat} {profile : Profile}
    (hnames : isConfigName interface = true ∧ isConfigName client = true)
    (hread : read (files interface) = .ok content)
    (hclient : read (files client) = .ok clientContent) (hserver : server content = some srv)
    (hpeers : srv.peers = [peer]) (htunnel : legacyTunnel srv.address peer clientContent = .ok ip)
    (hprivate : nonEmpty (value clientContent privateKeyKey interfaceSection) = some privateKey)
    (hderived : w.pubkey privateKey = some peer.publicKey)
    (hpublic : w.pubkey srv.privateKey = some serverPublic)
    (hremote : value clientContent publicKeyKey peerSection = some serverPublic)
    (hprofile : legacyProfile peer clientContent serverPublic = .ok profile)
    (hname : validateName w client false = .ok name) :
    ∃ s, migrateLegacy w interface client d ⟨⟨[], constraints_nil⟩, none, files⟩ =
      .ok (true, s) := by
  have hsome {n t : Text} (h : read (files n) = .ok t) : files n ≠ none := by
    intro hnone
    rw [hnone] at h
    cases h
  have hconstraints :
      Constraints [⟨d.peerId, name, [], peer.publicKey, ipv4Text ip, client, .active,
        true, d.now, d.now, none⟩] := by
    constructor <;> simp
  refine ⟨⟨⟨_, hconstraints⟩, some profile, files⟩, ?_⟩
  simp only [migrateLegacy, Option.isSome_none, Bool.false_eq_true, if_false, bind_eq_ok,
    path_eq_ok]
  refine ⟨interface, ⟨hnames.1, rfl⟩, client, ⟨hnames.2, rfl⟩, ?_⟩
  rw [if_neg fun hnone => hsome hread hnone.1]
  simp only [bind_eq_ok, Peers.require_eq_ok, invalid_eq_ok, Bool.and_eq_true,
    Option.isSome_iff_ne_none]
  refine ⟨(), ⟨hsome hread, hsome hclient⟩, content, hread, clientContent, hclient, srv,
    hserver, ?_⟩
  simp only [hpeers, bind_eq_ok, Peers.require_eq_ok, invalid_eq_ok, publicKey_eq_ok, beq_iff_eq]
  exact ⟨ip, htunnel, privateKey, hprivate, _, hderived, (), rfl, serverPublic, hpublic, (),
    hremote, profile, hprofile, name, hname, ⟨_, hconstraints⟩,
    by rw [Table.insert, List.nil_append, Table.ofRows, dif_pos hconstraints], rfl⟩

section Legacy

/-- A server file with one block, of the given `AllowedIPs`. -/
def legacyServer (allowed : Text) : Text :=
  unlines (pairHead ++ ["[Peer]".toList, "PublicKey = Pclient".toList,
    "AllowedIPs = ".toList ++ allowed])

def legacyClient : Text := clientText demoProfile "client".toList "10.0.0.2".toList

def legacyFiles (interface allowed : Text) : Files := fun name =>
  if name = interface then some (written (legacyServer allowed))
  else if name = "router".toList then some (written legacyClient)
  else none

/-- The facts that adoption evaluates about the server file. -/
structure LegacyServer (allowed : Text) : Prop where
  read : read (some (written (legacyServer allowed))) = .ok (legacyServer allowed)
  server : server (legacyServer allowed) = some ⟨unlines pairHead,
    [⟨"Pclient".toList, allowed, none⟩], (pairServer none).address, "server".toList⟩
  parsed : parseNetwork allowed = some ⟨167772162, 32, by decide, by decide⟩

theorem legacyClient_read : read (some (written legacyClient)) = .ok legacyClient := by
  rw [read_written (by decide +kernel), universalNewlines_of_not_mem (by decide +kernel)]

theorem legacyServer_read {allowed : Text} (hcr : '\r' ∉ legacyServer allowed)
    (hsize : utf8Length (legacyServer allowed) ≤ 65536) :
    Peers.read (some (written (legacyServer allowed))) = .ok (legacyServer allowed) := by
  rw [read_written hsize, universalNewlines_of_not_mem hcr]

theorem legacyServer_spelled : LegacyServer "10.0.0.2/32".toList where
  read := legacyServer_read (by decide +kernel) (by decide +kernel)
  server := by decide +kernel
  parsed := by decide +kernel

/-- `ip_network` takes an address without a prefix length as a host. -/
theorem legacyServer_bare : LegacyServer "10.0.0.2".toList where
  read := legacyServer_read (by decide +kernel) (by decide +kernel)
  server := by decide +kernel
  parsed := by decide +kernel

theorem legacy_adopted {allowed : Text} (h : LegacyServer allowed) (interface : Text)
    (hname : isConfigName interface = true) (hne : "router".toList ≠ interface) :
    ∃ s, migrateLegacy demoPlatform interface "router".toList demoDraw
      ⟨⟨[], constraints_nil⟩, none, legacyFiles interface allowed⟩ = .ok (true, s) := by
  have hclient : Peers.read (legacyFiles interface allowed "router".toList) = .ok legacyClient := by
    rw [legacyFiles, if_neg hne, if_pos rfl]
    exact legacyClient_read
  have hserver : Peers.read (legacyFiles interface allowed interface) =
      .ok (legacyServer allowed) := by
    rw [legacyFiles, if_pos rfl]
    exact h.read
  have htunnel : legacyTunnel (pairServer none).address ⟨"Pclient".toList, allowed, none⟩
      legacyClient = .ok 167772162 := by
    simp only [legacyTunnel, h.parsed, bind_eq_ok, invalid_eq_ok, Peers.require_eq_ok]
    exact ⟨⟨167772162, 32, by decide, by decide⟩, by decide +kernel, (), by decide +kernel, _,
      rfl, (), by decide +kernel, rfl⟩
  have hprofile : legacyProfile ⟨"Pclient".toList, allowed, none⟩ legacyClient
      "Pserver".toList = .ok demoProfile := by
    have hkeepalive : PeerBlock.keepalive ⟨"Pclient".toList, allowed, none⟩ = "25".toList := rfl
    simp only [legacyProfile, hkeepalive, bind_eq_ok, invalid_eq_ok]
    exact ⟨demoProfile.endpoint, by decide +kernel, demoProfile.dns, by decide +kernel,
      demoProfile.allowedIps, by decide +kernel, 25, by decide +kernel, 25, by decide +kernel, rfl⟩
  have hprivate : nonEmpty (value legacyClient privateKeyKey interfaceSection) =
      some "client".toList := by
    decide +kernel
  have hremote : value legacyClient publicKeyKey peerSection = some "Pserver".toList := by
    decide +kernel
  have hrouter : validateName demoPlatform "router".toList false = .ok "router".toList := rfl
  exact migrateLegacy_of ⟨hname, by decide⟩ hserver hclient h.server rfl htunnel hprivate rfl rfl
    hremote hprofile hrouter

/-- `AllowedIPs = 10.0.0.2` is adopted, and the adopted store is refused by `_validate_state`, by
the staged validator and by the next `migrate_legacy`; and an interface name with an underscore is
adopted and refused by the staged validator. -/
theorem adoption_not_usable :
    (∃ s, migrateLegacy demoPlatform demoInterface "router".toList demoDraw
        ⟨⟨[], constraints_nil⟩, none, legacyFiles demoInterface "10.0.0.2".toList⟩ = .ok (true, s) ∧
      ¬ Accepted demoPlatform demoInterface s ∧
      ∀ d, migrateLegacy demoPlatform demoInterface "router".toList d s ≠ .ok (false, s)) ∧
    ∃ s, migrateLegacy demoPlatform "wg_0".toList "router".toList demoDraw
        ⟨⟨[], constraints_nil⟩, none, legacyFiles "wg_0".toList "10.0.0.2/32".toList⟩ =
          .ok (true, s) ∧
      validateStagedState demoPlatform.pubkey s.files
        (namedDatabase "wg_0".toList "router".toList s ()) ≠ some () := by
  constructor
  · obtain ⟨s, hs⟩ := legacy_adopted legacyServer_bare demoInterface (by decide) (by decide)
    obtain ⟨content, clientContent, srv, peer, ip, profile, had⟩ := migrateLegacy_eq_ok hs
    have hrefused : ¬ Accepted demoPlatform demoInterface s := by
      rw [Adopted.accepted_iff had]
      rintro ⟨content', srv', peer', network, hread, hserver, hpeers, -, hspelled⟩
      rw [legacyFiles, if_pos rfl, legacyServer_bare.read] at hread
      cases hread
      rw [legacyServer_bare.server] at hserver
      cases hserver
      cases hpeers
      have hslash : '/' ∈ hostText (ipv4Text network.ip) :=
        List.mem_append_right _ (List.mem_cons_self ..)
      rw [← hspelled] at hslash
      exact absurd hslash (by decide +kernel)
    refine ⟨s, hs, hrefused, fun d hagain => hrefused ?_⟩
    exact (migrateLegacy_again had.profile d).mp hagain
  · obtain ⟨s, hs⟩ := legacy_adopted legacyServer_spelled "wg_0".toList (by decide) (by decide)
    refine ⟨s, hs, fun hstaged => ?_⟩
    exact absurd (isIngressName_of_staged hstaged) (by decide)

end Legacy

/-- **Adoption.** A store that `migrate_legacy` has adopted is usable exactly when the block is
spelled out and the interface name is one that the staged validator takes. -/
theorem adoption_usable_iff {before : Store} (hpeers : before.table.rows = [])
    (hprofile : before.profile = none)
    (h : migrateLegacy w interface client d before = .ok (true, s)) :
    Usable w interface client before.files s ↔
      SpelledOut before.files interface ∧ isIngressName interface = true := by
  obtain ⟨⟨rows, hconstraints⟩, profile, files⟩ := before
  cases hpeers
  cases hprofile
  obtain ⟨content, clientContent, srv, peer, ip, profile, had⟩ := migrateLegacy_eq_ok h
  constructor
  · intro husable
    exact ⟨(Adopted.accepted_iff had).mp husable.accepted,
      isIngressName_of_staged (husable.staged ())⟩
  · rintro ⟨hspelled, hname⟩
    have haccepted := (Adopted.accepted_iff had).mpr hspelled
    have hvalid := had.valid ((Adopted.spelledOut_iff had).mp hspelled)
    obtain ⟨name, hrows⟩ := had.rows
    refine ⟨had.files, ⟨_, hrows, rfl, rfl⟩, haccepted, fun other => ?_, fun d => ?_⟩
    · exact validateStagedState_of_valid (fun _ _ => id) hvalid (fun _ _ => rfl) hname had.names.2
        rfl rfl rfl rfl rfl
    · exact (migrateLegacy_again had.profile d).mpr haccepted

/-- The promise at work: a spelled-out block on `wg0`. -/
theorem spelled_adoption_usable :
    ∃ s, migrateLegacy demoPlatform demoInterface "router".toList demoDraw
        ⟨⟨[], constraints_nil⟩, none, legacyFiles demoInterface "10.0.0.2/32".toList⟩ =
          .ok (true, s) ∧
      Usable demoPlatform demoInterface "router".toList
        (legacyFiles demoInterface "10.0.0.2/32".toList) s := by
  obtain ⟨s, hs⟩ := legacy_adopted legacyServer_spelled demoInterface (by decide) (by decide)
  refine ⟨s, hs, (adoption_usable_iff rfl rfl hs).mpr ⟨?_, by decide⟩⟩
  exact ⟨_, _, _, _, legacyServer_spelled.read, legacyServer_spelled.server, rfl,
    legacyServer_spelled.parsed, by decide +kernel⟩

end ExitLane.Backup
