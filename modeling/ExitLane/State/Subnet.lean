import ExitLane.Ingress.Journal
import ExitLane.State.Volume

/-!
# The subnet of the first setup

`wireguard._validated_ingress_network` decides which subnet a first setup accepts, and the text is
stored as it was given. Five readers look at it later, each with bounds of its own:
`configured_protected_destinations`, `ingress_identities`, `IngressIdentity`, the reader of the
recovery journal and `validate_pair`.

* `network_firstHosts`: the server address lies in the network of the request;
* `subnet_usable_iff`: all five accept the state of a first setup exactly if the stored text is
  canonical and leaves room for two hosts, and the container can read the server file.
-/

namespace ExitLane.State
open Python IpAddress Peers Ingress Effect
open Egress (isInterface)

/-! ## The client file of a setup -/

/-- `wg` reads and prints keys of 44 characters of base64. -/
def WireGuardKeys (w : Platform) : Prop :=
  ∀ p k, w.pubkey p = some k → isWireGuardKey p = true ∧ isWireGuardKey k = true

variable {t : Text} {network : Interface} {req : SetupRequest} {created : Created}

theorem printable_of_isWireGuardKey (h : isWireGuardKey t = true) : Printable t :=
  printable_of_isWord (isWord_of_isWireGuardKey h)

theorem printable_hostText (n : Nat) : Printable (hostText (ipv4Text n)) := by
  intro c hc
  rcases List.mem_append.mp hc with hc | hc
  · rcases mem_ipv4Text hc with hdigit | rfl
    · have := toNat_of_isAlphanum (c := c) (by simp [Char.isAlphanum, hdigit])
      omega
    · decide
  · exact printable_of_isWord (t := "/32".toList) (by decide +kernel) c hc

theorem printable_unscopedText {a : Address} (h : unscopedText a = some t) : Printable t := by
  intro c hc
  cases a with
  | v4 n =>
    cases h
    exact printable_hostText n c (List.mem_append_left _ hc)
  | v6 a =>
    simp only [unscopedText] at h
    split at h
    · cases h
      rcases mem_ipv6Text hc with hhex | rfl | rfl
      · obtain ⟨d, hd⟩ := Option.isSome_iff_exists.mp hhex
        unfold hexDigit at hd
        repeat' split at hd
        all_goals first
          | omega
          | cases hd
      · decide
      · decide
    · cases h

theorem printable_of_safeAsciiValue (h : safeAsciiValue t = true) : Printable t := by
  simp only [safeAsciiValue, Bool.and_eq_true, List.all_eq_true, decide_eq_true_eq] at h
  exact fun c hc => (h.2 c hc).1

theorem printable_toLower (h : Printable t) : Printable (t.map Char.toLower) := by
  have hall : ∀ n : Fin 127, 32 ≤ n.val →
      32 ≤ (Char.ofNat n.val).toLower.toNat ∧ (Char.ofNat n.val).toLower.toNat ≤ 126 := by decide
  intro c hc
  obtain ⟨d, hd, rfl⟩ := List.mem_map.mp hc
  have hrange := h d hd
  have hlower := hall ⟨d.toNat, by omega⟩ hrange.1
  rwa [Char.ofNat_toNat] at hlower

theorem printable_renderedEndpoint {endpoint : Text} (h : renderedEndpoint endpoint = some t) :
    Printable t := by
  unfold renderedEndpoint at h
  split at h
  · next hsafe =>
    have hprintable := printable_of_safeAsciiValue hsafe
    have hhost :
        Printable (if isSectionLine endpoint then endpoint.tail.dropLast else endpoint) := by
      split
      · exact fun c hc => hprintable c (List.mem_of_mem_tail (List.mem_of_mem_dropLast hc))
      · exact hprintable
    simp only [Option.map_eq_some_iff] at h
    obtain ⟨v, hv, rfl⟩ := h
    generalize (if isSectionLine endpoint then endpoint.tail.dropLast else endpoint) = host
      at hv hhost
    have hvalue : Printable v := by
      split at hv
      · exact printable_unscopedText hv
      · split at hv
        · cases hv
          exact printable_toLower hhost
        · cases hv
    split
    · have hopen : Printable ['['] := printable_of_isWord (by decide +kernel)
      have hclose : Printable [']'] := printable_of_isWord (by decide +kernel)
      exact (hopen.append hvalue).append hclose
    · exact hvalue
  · cases h

theorem printable_renderedDns {dns : Text} (h : renderedDns dns = some t) : Printable t := by
  unfold renderedDns at h
  split at h
  · obtain ⟨a, -, ha⟩ := Option.bind_eq_some_iff.mp h
    exact printable_unscopedText ha
  · cases h

/-- The client file of a setup is printable. -/
theorem plainClient_of_create {w : Platform} (hw : WireGuardKeys w)
    {server client : Draw} {clientHost : Nat} {clientPublic : Text}
    (h : CreateFacts w req server client created network clientHost clientPublic)
    (hallowed : Printable req.allowedIps) : ∃ profile, PlainClient profile client.privateKey
      (ipv4Text clientHost) ∧
      created.client = clientText profile client.privateKey (ipv4Text clientHost) := by
  obtain ⟨endpoint, dns, serverPublic, hendpoint, hdns, hserver, heq⟩ := h.client
  have hcolon : Printable [':'] := printable_of_isWord (by decide +kernel)
  refine ⟨_, ⟨?_, printable_hostText _, printable_renderedDns hdns, ?_, ?_, hallowed⟩, heq⟩
  · exact printable_of_isWireGuardKey (hw _ _ h.derived).1
  · exact printable_of_isWireGuardKey (hw _ _ hserver).2
  · exact (printable_renderedEndpoint hendpoint).append (hcolon.append (printable_intText _))

/-! ## The network of the request -/

theorem network_firstHosts {n a : Interface} {c : Nat} (hn : n.ip = n.networkAddress)
    (h : firstHosts n = some (a, c)) : a.network = n := by
  unfold firstHosts at h
  split at h
  · next server client rest hhosts =>
    cases h
    have hmem := (Interface.mem_hosts.mp (hhosts ▸ List.mem_cons_self : server ∈ n.hosts)).1
    rw [Interface.contains, beq_iff_eq] at hmem
    cases n with
    | mk ip length ip_lt length_le =>
      simp only [Interface.network, Interface.networkAddress, Interface.mk.injEq, and_true]
      rw [show (Interface.mk server length _ length_le).size =
        (Interface.mk ip length ip_lt length_le).size from rfl, hmem]
      exact hn.symm
  · cases h

theorem network_of_create {w : Platform} {server client : Draw}
    {clientHost : Nat} {clientPublic : Text}
    (h : CreateFacts w req server client created network clientHost clientPublic) :
    created.head.address.network = network ∧ parseNetwork req.subnet = some network := by
  have hparse := (Option.filter_eq_some_iff.mp h.subnet).1
  exact ⟨network_firstHosts (networkAddress_of_parseNetwork hparse) h.hosts, hparse⟩

/-! ## The readers -/

/-- `configured_protected_destinations`; none is its only error. -/
def configuredProtectedDestinations (s : Settings) : Option (List (Interface × Text)) :=
  if s.configured then do
    let subnet ← s.subnet
    let interface ← s.interface
    let network ← parseNetwork subnet
    if network.prefixLength = 0 ∨ isIngressName interface = false then none
    else some [(network, interface)]
  else some []

/-- The settings that a first setup has stored; `routed` is the ingress list of the killswitch. -/
def storedSettings (req : SetupRequest) (routed : List (Option Text)) : Settings :=
  ⟨true, some req.interface, some req.subnet, routed⟩

/-- A first setup that has returned, on a state whose other parts are acceptable. -/
structure Completed (w : Platform) (req : SetupRequest) (created : Created)
    (routed : List (Option Text)) (s : Store) (v : Volume) : Prop where
  setup : FirstSetup w req created s
  /-- `_reconcile_management_routes_or_503` has read the protected destinations. -/
  reconciled : (configuredProtectedDestinations (storedSettings req routed)).isSome = true
  directory : v.wireguard.Represents s.files
  settings : v.configured = some true ∧ v.interface = some req.interface ∧
    v.subnet = some req.subnet
  others : ∀ e ∈ v.wireguard.entries, e.1 ≠ confName req.interface → e.1 ≠ confName req.client →
    wireguardAccepted e.1 e.2 = true
  room : v.wireguard.entries.length ≤ maxFiles
  rest : v.rest = true
  routed : routed.length ≤ 31 ∧ ∀ i ∈ routed, ∃ t, i = some t ∧ isInterface t = true

/-- Every reader of the stored subnet accepts the state. -/
structure Usable (req : SetupRequest) (routed : List (Option Text)) (v : Volume) : Prop where
  protectedDestinations :
    (configuredProtectedDestinations (storedSettings req routed)).isSome = true
  identities : ∃ l, ingressIdentities (storedSettings req routed) = .ok l
  identity : ∃ i, IngressIdentity.of req.interface req.subnet = .ok i
  journal : isEntry (req.interface, req.subnet) = true
  pair : v.validatePair = true

/-! ### Identities -/

theorem isInterface_of_isIngressName (h : isIngressName t = true) : isInterface t = true := by
  simp only [isIngressName, isInterface, Bool.and_eq_true, decide_eq_true_eq, List.all_eq_true,
    Bool.or_eq_true, beq_iff_eq] at h ⊢
  refine ⟨h.1, fun c hc => ?_⟩
  rcases h.2 c hc with hc | rfl
  · exact Or.inl (Or.inl (Or.inl hc))
  · exact Or.inr rfl

theorem identity_of {interface : Text} (hname : isInterface interface = true)
    (hip : network.ip = network.networkAddress) (hlength : network.prefixLength ≤ 31) :
    IngressIdentity.of interface network.text = .ok ⟨interface, network, hname, hip, hlength⟩ :=
  IngressIdentity.of_eq_ok_iff.mpr ⟨rfl, rfl⟩

theorem mapM_ok {α β ε : Type} {f : α → Except ε β} {l : List α} (h : ∀ a ∈ l, ∃ b, f a = .ok b) :
    ∃ r, l.mapM f = .ok r := by
  induction l with
  | nil => exact ⟨[], rfl⟩
  | cons a l ih =>
    rw [List.forall_mem_cons] at h
    obtain ⟨b, hb⟩ := h.1
    obtain ⟨r, hr⟩ := ih h.2
    exact ⟨b :: r, by rw [List.mapM_cons, hb, hr]; rfl⟩

theorem identities_of {routed : List (Option Text)}
    (hname : isInterface req.interface = true) (hsubnet : parseNetwork req.subnet = some network)
    (hlength : network.prefixLength ≤ 30) (hcount : routed.length ≤ 31)
    (hrouted : ∀ i ∈ routed, ∃ t, i = some t ∧ isInterface t = true) :
    ∃ l, ingressIdentities (storedSettings req routed) = .ok l := by
  obtain ⟨names, hnames⟩ : ∃ names, ((some req.interface :: routed).mapM fun i =>
      i.filter isInterface) = some names ∧ ∀ t ∈ names, isInterface t = true := by
    have hall : ∀ i ∈ some req.interface :: routed, ∃ t, i = some t ∧ isInterface t = true :=
      List.forall_mem_cons.mpr ⟨⟨_, rfl, hname⟩, hrouted⟩
    refine ⟨(some req.interface :: routed).map fun i => i.getD [], ?_, ?_⟩
    · rw [mapM_eq_some_iff, List.map_map]
      refine List.map_congr_left fun i hi => ?_
      obtain ⟨t, rfl, ht⟩ := hall i hi
      simp [Option.filter_some, ht]
    · intro t ht
      obtain ⟨i, hi, rfl⟩ := List.mem_map.mp ht
      obtain ⟨t, rfl, hname⟩ := hall i hi
      exact hname
  obtain ⟨r, hr⟩ := mapM_ok (l := names.eraseDups) (f := fun i => IngressIdentity.of i network.text)
    fun i hi => ⟨_, identity_of (hnames.2 i (List.mem_eraseDups.mp hi))
      (networkAddress_of_parseNetwork hsubnet) (by omega)⟩
  refine ⟨r, ?_⟩
  have hroom : ¬ 32 < (some req.interface :: routed).length := by
    rw [List.length_cons]
    omega
  simp only [ingressIdentities, storedSettings, Option.bind_some, hsubnet, if_true,
    if_neg (show ¬ 30 < network.prefixLength by omega), if_neg hroom, hnames.1]
  exact hr

/-! ### The pair -/

section Pair
variable {w : Platform} (hw : WireGuardKeys w) {req : SetupRequest} {created : Created}
  {routed : List (Option Text)} {s : Store} {v : Volume}
  (h : Completed w req created routed s v)
include hw h

theorem Completed.served : created.head.WellFormed ∧
    isWireGuardKey created.head.privateKey = true ∧
    Served w req.interface created.head s [created.peer] := by
  obtain ⟨_, _, network, clientHost, clientPublic, hfacts⟩ := h.setup.facts
  obtain ⟨-, -, serverPublic, -, -, hserver, -⟩ := hfacts.client
  have hprivate : isWireGuardKey created.head.privateKey = true := by
    rw [hfacts.head]
    exact (hw _ _ hserver).1
  obtain ⟨hh, hserved⟩ := h.setup.served (fun p k hk => isWord_of_isWireGuardKey (hw p k hk).2)
    (isWord_of_isWireGuardKey hprivate)
  exact ⟨hh, hprivate, hserved⟩

theorem Completed.serverEntry :
    v.wireguard.get (confName req.interface) =
      some (written (serverText created.head [created.peer])) := by
  obtain ⟨hh, -, hserved⟩ := h.served hw
  have hne : req.interface ≠ [] := by
    rw [← h.setup.interface_eq]
    exact (isWord_iff.mp (isWord_of_isIngressName hh.interface)).1
  rw [h.directory _ hne, hserved.file]

omit hw in
theorem Completed.parseNetwork_subnet :
    parseNetwork req.subnet = some created.head.address.network := by
  obtain ⟨_, _, network, clientHost, clientPublic, hfacts⟩ := h.setup.facts
  obtain ⟨hnetwork, hparse⟩ := network_of_create hfacts
  rw [hnetwork, hparse]

omit hw in
theorem Completed.clientEntry :
    v.wireguard.get (confName req.client) = some (written created.client) := by
  obtain ⟨_, _, network, clientHost, clientPublic, hfacts⟩ := h.setup.facts
  have hname := hfacts.clientName.1
  have hne : req.client ≠ [] := by
    intro h0
    rw [h0] at hname
    exact absurd hname (by decide)
  rw [h.directory _ hne, h.setup.clientFile.1]

/-- The files that the setup has written are accepted one by one. -/
theorem Completed.entriesAccepted (hallowed : Printable req.allowedIps) :
    v.wireguard.entries.all (fun e => wireguardAccepted e.1 e.2) = true := by
  obtain ⟨hh, -, hserved⟩ := h.served hw
  obtain ⟨_, _, network, clientHost, clientPublic, hfacts⟩ := h.setup.facts
  have hinterface := h.setup.interface_eq
  have hlength := length_serverText_le hh hserved.plain
  rw [List.all_eq_true]
  rintro ⟨name, e⟩ he
  have hget := Directory.get_eq_some_iff.mpr he
  by_cases hserver : name = confName req.interface
  · rw [hserver, h.serverEntry hw] at hget
    cases hget
    have hne : req.interface ≠ [] :=
      hinterface ▸ (isWord_iff.mp (isWord_of_isIngressName hh.interface)).1
    have hparts := pathParts_confName hne
    have hvalid := validated_serverText hh hserved.plain hserved.length_le
    have hsize : utf8Length (serverText created.head [created.peer]) ≤ 256 * 1024 := by
      rw [utf8Length_serverText hh hserved.plain]
      simp only [List.length_singleton] at hlength
      omega
    rw [hinterface] at hvalid
    simp only [wireguardAccepted, written, factsHold, hserver, hparts, hvalid, hsize]
    decide
  · by_cases hclient : name = confName req.client
    · rw [hclient, h.clientEntry] at hget
      cases hget
      obtain ⟨profile, hplain, heq⟩ := plainClient_of_create hw hfacts hallowed
      have hsize : utf8Length created.client ≤ 256 * 1024 :=
        Nat.le_trans h.setup.clientFile.2 (by decide)
      have hvalid := validated_of_no_hooks (pathParts name).1 (pathParts name).2
        (heq ▸ hsize) (plain_clientText hplain) (hooks_clientText hplain)
      rw [← heq] at hvalid
      simp only [wireguardAccepted, written, factsHold, hvalid, hsize]
      decide
    · exact h.others _ he hserver hclient

/-- What `validated` asks of the file beyond what the setup has checked. -/
theorem Completed.validated_iff : (configFor created.head [created.peer]).validated = true ↔
    isSpecial created.head.address.ip = false ∧ req.interface ∉ reservedInterfaces := by
  obtain ⟨hh, hprivate, hserved⟩ := h.served hw
  have hinterface := h.setup.interface_eq
  obtain ⟨-, pre, hserver, -⟩ := hserved.server hh
  have hblocks : BlocksPart created.head.address [created.peer] :=
    (server_eq_some_iff.mp hserver).2.2
  have hkeys : ∀ p ∈ [created.peer], isWireGuardKey p.publicKey = true := by
    obtain ⟨_, _, network, clientHost, clientPublic, hfacts⟩ := h.setup.facts
    intro p hp
    rw [List.mem_singleton.mp hp, hfacts.peer]
    exact (hw _ _ hfacts.derived).2
  constructor
  · intro hvalid
    simp only [IngressConfig.validated, Bool.and_eq_true, decide_eq_true_eq] at hvalid
    obtain ⟨⟨⟨⟨⟨-, hreserved⟩, hany⟩, -⟩, -⟩, -⟩ := hvalid
    rw [show parseInterface (configFor created.head [created.peer]).address =
      some created.head.address from parseInterface_text _] at hany
    simp only [Option.any_some, Bool.and_eq_true, Bool.not_eq_true'] at hany
    exact ⟨hany.2, hinterface ▸ hreserved⟩
  · rintro ⟨hspecial, hreserved⟩
    exact validated_configFor hserved.plain hh (hinterface ▸ hreserved) hprivate hspecial hkeys
      hblocks

theorem Completed.fromFile_eq : fromFile req.interface ".conf".toList
    (v.wireguard.get (confName req.interface)) =
      if (configFor created.head [created.peer]).validated then
        some (configFor created.head [created.peer]) else none := by
  obtain ⟨hh, -, hserved⟩ := h.served hw
  have hfile := fromFile_serverText hserved.plain hh hserved.length_le
  rwa [h.setup.interface_eq, ← h.serverEntry hw] at hfile

/-- The server file and the stored subnet agree. -/
theorem Completed.ingressAccepted_iff : v.ingressAccepted req.interface req.subnet = true ↔
    created.head.address.network.text = req.subnet ∧
      isSpecial created.head.address.ip = false ∧ req.interface ∉ reservedInterfaces := by
  obtain ⟨hh, -, hserved⟩ := h.served hw
  have hname : isIngressName req.interface = true := h.setup.interface_eq ▸ hh.interface
  have hlength := length_serverText_le hh hserved.plain
  have hsize : utf8Length (serverText created.head [created.peer]) ≤ maxStateBytes := by
    rw [utf8Length_serverText hh hserved.plain, maxStateBytes]
    simp only [List.length_singleton] at hlength
    omega
  have hfacts : factsHold maxStateBytes (written (serverText created.head [created.peer])) =
      true := by
    simp only [factsHold, written, hsize]
    decide
  have hfile := h.fromFile_eq hw
  rw [h.serverEntry hw] at hfile
  rw [Volume.ingressAccepted, hname, h.serverEntry hw, Option.any_some, hfacts, hfile,
    Bool.true_and, Bool.true_and, ← h.validated_iff hw]
  by_cases hvalid : (configFor created.head [created.peer]).validated = true
  · have haddress : parseInterface (configFor created.head [created.peer]).address =
        some created.head.address := parseInterface_text _
    rw [if_pos hvalid, Option.any_some, haddress, Option.any_some, beq_iff_eq]
    exact ⟨fun heq => ⟨heq, hvalid⟩, fun hand => hand.1⟩
  · rw [if_neg hvalid]
    constructor
    · intro hfalse
      cases hfalse
    · intro hand
      exact absurd hand.2 hvalid

theorem Completed.validatePair_iff (hallowed : Printable req.allowedIps) :
    v.validatePair = true ↔ created.head.address.network.text = req.subnet ∧
      isSpecial created.head.address.ip = false ∧ req.interface ∉ reservedInterfaces := by
  obtain ⟨hconfigured, hinterface, hsubnet⟩ := h.settings
  rw [← h.ingressAccepted_iff hw, Volume.validatePair, h.rest, h.entriesAccepted hw hallowed,
    decide_eq_true h.room, hconfigured, hinterface, hsubnet]
  rfl

/-- **The stored subnet.** The readers accept what a first setup leaves exactly if the stored text
is the canonical one of a network with room for two hosts, and the container can read the server
file: its address is not loopback, multicast or unspecified, and its name is not reserved. -/
theorem subnet_usable_iff (hallowed : Printable req.allowedIps) : Usable req routed v ↔
    ∃ network, parseNetwork req.subnet = some network ∧ network.text = req.subnet ∧
      network.prefixLength ≤ 30 ∧ isSpecial created.head.address.ip = false ∧
      req.interface ∉ reservedInterfaces := by
  obtain ⟨_, _, network, clientHost, clientPublic, hfacts⟩ := h.setup.facts
  obtain ⟨hnetwork, hparse⟩ := network_of_create hfacts
  have hname := isInterface_of_isIngressName hfacts.interfaceName.1
  have hpair := h.validatePair_iff hw hallowed
  rw [hnetwork] at hpair
  constructor
  · intro husable
    have hjournal := husable.journal
    simp only [isEntry, hparse, Bool.and_eq_true, decide_eq_true_eq] at hjournal
    obtain ⟨htext, hspecial, hreserved⟩ := hpair.mp husable.pair
    exact ⟨network, hparse, htext, hjournal.2, hspecial, hreserved⟩
  · rintro ⟨n, hn, htext, hlength, hspecial, hreserved⟩
    rw [hparse] at hn
    cases hn
    refine ⟨h.reconciled, identities_of hname hparse hlength h.routed.1 h.routed.2, ?_, ?_,
      hpair.mpr ⟨htext, hspecial, hreserved⟩⟩
    · rw [← htext]
      exact ⟨_, identity_of hname (networkAddress_of_parseNetwork hparse) (by omega)⟩
    · simp only [isEntry, hparse, hname, Bool.true_and, decide_eq_true_eq]
      exact hlength

end Pair

/-! ### Three setups -/

/-- The state after a setup in an empty directory. -/
def setupVolume (req : SetupRequest) (created : Created) (hne : req.client ≠ req.interface) :
    Volume where
  wireguard := ⟨[(confName req.interface, written (serverText created.head [created.peer])),
    (confName req.client, written created.client)], by
      simpa using fun heq => hne (confName_inj heq).symm⟩
  providerEgress := ⟨[], List.nodup_nil⟩
  configured := some true
  interface := some req.interface
  subnet := some req.subnet
  rest := true

theorem completed_setupVolume {w : Platform} {s : Store}
    (hsetup : FirstSetup w req created s) (hne : req.client ≠ req.interface)
    (hfiles : s.files = setFiles (fun _ => none)
      [(req.interface, some (serverText created.head [created.peer])),
        (req.client, some created.client)])
    (hreconciled : (configuredProtectedDestinations (storedSettings req [])).isSome = true) :
    Completed w req created [] s (setupVolume req created hne) where
  setup := hsetup
  reconciled := hreconciled
  directory stem hstem := by
    rw [hfiles, setFiles_two]
    simp only [Directory.get, setupVolume, List.lookup_cons, List.lookup_nil]
    by_cases h1 : stem = req.client
    · have hinterface : (confName stem == confName req.interface) = false :=
        beq_false_of_ne fun heq => hne (h1 ▸ confName_inj heq)
      rw [hinterface, h1, beq_self_eq_true, if_pos rfl]
      rfl
    · have hclient : (confName stem == confName req.client) = false :=
        beq_false_of_ne fun heq => h1 (confName_inj heq)
      rw [if_neg h1, hclient]
      by_cases h2 : stem = req.interface
      · rw [h2, beq_self_eq_true, if_pos rfl]
        rfl
      · rw [beq_false_of_ne fun heq => h2 (confName_inj heq), if_neg h2]
  settings := ⟨rfl, rfl, rfl⟩
  others e he h1 h2 := by
    simp only [setupVolume, List.mem_cons, List.not_mem_nil, or_false] at he
    rcases he with rfl | rfl
    · exact absurd rfl h1
    · exact absurd rfl h2
  room := by simp [setupVolume, maxFiles]
  rest := rfl
  routed := ⟨by simp, by simp⟩

/-- The subnet of the default is usable. -/
theorem usable_slash_24 : ∃ created s, FirstSetup keyPlatform demoRequest created s ∧
    Usable demoRequest [] (setupVolume demoRequest created demoRequest_ne) := by
  obtain ⟨created, s, hsetup, -, haddress, hfiles⟩ := exists_firstSetup
    (show setupRuns demoRequest 0x0a080001 = true by decide +kernel)
  have hcompleted := completed_setupVolume hsetup (by decide +kernel) hfiles (by decide +kernel)
  have hparse : parseNetwork demoRequest.subnet = some ⟨0x0a080000, 24, by decide, by decide⟩ := by
    decide +kernel
  refine ⟨created, s, hsetup, (subnet_usable_iff keyPlatform_keys hcompleted
    (printable_of_isWord (by decide +kernel))).mpr
      ⟨_, hparse, by decide +kernel, by decide, ?_, by decide +kernel⟩⟩
  rw [haddress]
  decide

/-- A network of two addresses, and a text with a netmask. -/
def slash31Request : SetupRequest := { demoRequest with subnet := "10.8.0.0/31".toList }
def netmaskRequest : SetupRequest := { demoRequest with subnet := "10.8.0.0/255.255.255.0".toList }

/-- Both are set up and read by the container, and neither is usable: `ingress_identities` refuses
the first, `validate_pair` the second. -/
theorem setups_not_usable :
    (∃ created s v, Completed keyPlatform slash31Request created [] s v ∧
      v.validatePair = true ∧
      ingressIdentities (storedSettings slash31Request []) = .error .recoveryIngressInvalid ∧
      ¬ Usable slash31Request [] v) ∧
    (∃ created s v, Completed keyPlatform netmaskRequest created [] s v ∧
      (fromFile netmaskRequest.interface ".conf".toList
        (v.wireguard.get (confName netmaskRequest.interface))).isSome = true ∧
      v.validatePair = false ∧ ¬ Usable netmaskRequest [] v) := by
  have hallowed : Printable demoRequest.allowedIps := printable_of_isWord (by decide +kernel)
  constructor
  · obtain ⟨created, s, hsetup, -, haddress, hfiles⟩ := exists_firstSetup
      (show setupRuns slash31Request 0x0a080000 = true by decide +kernel)
    have hcompleted := completed_setupVolume hsetup (by decide +kernel) hfiles (by decide +kernel)
    have hparse : parseNetwork slash31Request.subnet =
        some ⟨0x0a080000, 31, by decide, by decide⟩ := by decide +kernel
    rw [hcompleted.parseNetwork_subnet, Option.some.injEq] at hparse
    have hrefused : ingressIdentities (storedSettings slash31Request []) =
        .error .recoveryIngressInvalid := by decide +kernel
    refine ⟨created, s, _, hcompleted,
      (hcompleted.validatePair_iff keyPlatform_keys hallowed).mpr ⟨?_, ?_, by decide +kernel⟩,
      hrefused, ?_⟩
    · rw [hparse]
      decide +kernel
    · rw [haddress]
      decide
    · intro husable
      obtain ⟨l, hl⟩ := husable.identities
      rw [hrefused] at hl
      cases hl
  · obtain ⟨created, s, hsetup, -, haddress, hfiles⟩ := exists_firstSetup
      (show setupRuns netmaskRequest 0x0a080001 = true by decide +kernel)
    have hcompleted := completed_setupVolume hsetup (by decide +kernel) hfiles (by decide +kernel)
    have hparse : parseNetwork netmaskRequest.subnet =
        some ⟨0x0a080000, 24, by decide, by decide⟩ := by decide +kernel
    rw [hcompleted.parseNetwork_subnet, Option.some.injEq] at hparse
    have hpair : (setupVolume netmaskRequest created (by decide +kernel)).validatePair = false := by
      rw [Bool.eq_false_iff, ne_eq, hcompleted.validatePair_iff keyPlatform_keys hallowed, hparse]
      exact fun hand => absurd hand.1 (by decide +kernel)
    refine ⟨created, s, _, hcompleted, ?_, hpair, fun husable => ?_⟩
    · have hvalid := (hcompleted.validated_iff keyPlatform_keys).mpr
        ⟨by rw [haddress]; decide, by decide +kernel⟩
      rw [hcompleted.fromFile_eq keyPlatform_keys, if_pos hvalid]
      rfl
    · have := husable.pair
      rw [hpair] at this
      cases this

end ExitLane.State
