import ExitLane.Ingress.Hooks
import ExitLane.Peers.Frame

/-!
# The ingress configuration of the container

`IngressConfig.from_file` reads the server file a second time, with a strict line machine in place
of the sections and first matches of `wireguard_peers._server`.

* `Reading.block_lines`, `Reading.blocks`: what the machine has read after one block and after all;
* `fromFile_serverText`: a server file of the form that `create` wrote is read completely, and
  `validated_configFor`: what was read passes;
* `parsers_agree`: after a first setup and any peer operations both parsers read the same.
-/

namespace ExitLane.Ingress
open Python IpAddress Peers
open Egress (isInterface)

/-! ## `IngressConfig` -/

/-- `key`: 44 characters of base64 for 32 bytes. -/
def isWireGuardKey (t : Text) : Bool :=
  t.length == 44 && t.getLast? == some '=' &&
    t.dropLast.all fun c => c.isAlphanum || c == '+' || c == '/'

/-- The names that `validated` refuses. -/
def reservedInterfaces : List Text :=
  ["eth0".toList, "lo".toList, "wg-mullvad".toList, "wg-pia".toList, "wg-proton".toList]

/-- `is_loopback`, `is_multicast` or `is_unspecified` of an IPv4 address. -/
def isSpecial (ip : Nat) : Bool := ip / 2 ^ 24 == 127 || ip / 2 ^ 28 == 14 || ip == 0

/-- A public key, an allowed network and a keepalive. -/
abbrev Peer := Text × Text × Int

structure IngressConfig where
  interface : Text
  address : Text
  privateKey : Text
  publicKey : Text
  allowedIps : Text
  listenPort : Int
  keepalive : Int
  extraPeers : List Peer
  deriving DecidableEq

namespace IngressConfig

/-- The peers that `validated` looks at. -/
def peers (c : IngressConfig) : List Peer :=
  (if c.publicKey = [] ∧ c.allowedIps = [] then []
    else [(c.publicKey, c.allowedIps, c.keepalive)]) ++ c.extraPeers

/-- What `validated` asks of one peer. -/
def peerAllowed (address : Interface) (peer : Peer) : Bool :=
  ((parseNetwork peer.2.1).any fun n =>
    n.prefixLength == 32 && address.contains n.ip && n.ip != address.ip) &&
  isKeepalive peer.2.2 && isWireGuardKey peer.1

/-- Whether `validated` returns. -/
def validated (c : IngressConfig) : Bool :=
  isIngressName c.interface && decide (c.interface ∉ reservedInterfaces) &&
    (parseInterface c.address).any (fun address =>
      address.prefixLength ≤ 31 && decide (c.peers.map Prod.fst).Nodup &&
        c.peers.all (peerAllowed address) &&
        decide (c.peers.map fun p => parseNetwork p.2.1).Nodup && !isSpecial address.ip) &&
    isWireGuardKey c.privateKey && (1 ≤ c.listenPort && c.listenPort ≤ 65535) &&
    isKeepalive c.keepalive

/-- The lines of `wireguard_payload` for one peer. -/
def peerLines (peer : Peer) : List Text :=
  ["[Peer]".toList, entry publicKeyKey peer.1, entry allowedIPsKey peer.2.1,
    entry persistentKeepaliveKey (intText peer.2.2)]

def payloadHead (c : IngressConfig) : List Text :=
  ["[Interface]".toList, entry privateKeyKey c.privateKey,
    entry listenPortKey (intText c.listenPort)]

def wireguardPayload (c : IngressConfig) : Option Text :=
  if c.validated then
    some (unlines (c.payloadHead ++
      ((if c.publicKey = [] then [] else [(c.publicKey, c.allowedIps, c.keepalive)]) ++
        c.extraPeers).flatMap peerLines))
  else none

end IngressConfig

/-! ## The line machine -/

inductive Part where
  | start
  | interface
  | peer
  deriving DecidableEq

abbrev Dict := List (Text × Text)

/-- The variables of the loop of `from_file`. -/
structure Reading where
  values : Dict
  interfaceValues : Dict
  peerValues : List Dict
  part : Part
  seenInterface : Bool
  deriving DecidableEq

namespace Reading

def initial : Reading := ⟨[], [], [], .start, false⟩

/-- `if section == "Peer": peer_values.append(values)`. -/
def closed (r : Reading) : List Dict :=
  if r.part = .peer then r.peerValues ++ [r.values] else r.peerValues

def hookKeys : List Text := [postUpKey, postDownKey, "PreUp".toList, "PreDown".toList]

def allowedKeys : Part → List Text
  | .interface => [addressKey, privateKeyKey, listenPortKey]
  | _ => [publicKeyKey, allowedIPsKey, persistentKeepaliveKey]

/-- `values[name] = value`, refused for a repeated or an unknown name. -/
def put (r : Reading) (name value : Text) : Option Reading :=
  if name ∈ allowedKeys r.part ∧ r.values.lookup name = none then
    some { r with
      values := r.values ++ [(name, value)]
      interfaceValues :=
        if r.part = .interface then r.values ++ [(name, value)] else r.interfaceValues }
  else none

/-- One line that is not blank. -/
def step (r : Reading) (line : Text) : Option Reading :=
  if line.head? = some '#' then some r
  else if line = "[Interface]".toList then
    if r.seenInterface = false ∧ r.closed = [] then
      some { r with peerValues := r.closed, part := .interface, seenInterface := true }
    else none
  else if line = "[Peer]".toList then
    if r.seenInterface then
      some { r with peerValues := r.closed, part := .peer, values := [] }
    else none
  else if r.part = .start then none
  else (partition '=' line).bind fun item =>
    if strip item.1 ∈ hookKeys then if r.part = .interface then some r else none
    else r.put (strip item.1) (strip item.2)

end Reading

/-- `(p["PublicKey"], p["AllowedIPs"], int(p.get("PersistentKeepalive", "25")))`. -/
def peerOf (values : Dict) : Option Peer := do
  let publicKey ← values.lookup publicKeyKey
  let allowed ← values.lookup allowedIPsKey
  let keepalive ← parseInt ((values.lookup persistentKeepaliveKey).getD "25".toList)
  return (publicKey, allowed, keepalive)

/-- The end of `from_file`, once every line has been read. -/
def configOf (stem : Text) (r : Reading) : Option IngressConfig := do
  let peers ← r.closed.mapM peerOf
  let first := peers.head?.getD ([], [], 25)
  let address ← r.interfaceValues.lookup addressKey
  let privateKey ← r.interfaceValues.lookup privateKeyKey
  let port ← (r.interfaceValues.lookup listenPortKey).bind parseInt
  let config : IngressConfig :=
    ⟨stem, address, privateKey, first.1, first.2.1, port, first.2.2, peers.tail⟩
  if config.validated then some config else none

/-- `IngressConfig.from_file` of the file `stem ++ suffix`. -/
def fromFile (stem suffix : Text) : Option Entry → Option IngressConfig
  | some (.file f) =>
    if utf8Length f.text ≤ 65536 ∧ f.owned = true ∧ f.mode &&& 0o77 = 0 ∧
        validatedWireguardHooks stem suffix f.text = true then
      ((contentLines f.text).foldlM Reading.step Reading.initial).bind (configOf stem)
    else none
  | _ => none

/-! ## What the machine reads -/

namespace Reading

variable {r : Reading}

theorem step_entry {key v : Text} (hk : IsKey key) (hv : IsValue v) (hpart : r.part ≠ .start) :
    r.step (strip (entry key v)) =
      if key ∈ hookKeys then if r.part = .interface then some r else none else r.put key v := by
  obtain ⟨a, b, hp, ha, hb⟩ := entry_partition hk hv
  obtain ⟨c, l, hl, hc, hc'⟩ := entry_head hk hv
  have hcomment : (strip (entry key v)).head? ≠ some '#' := by simp [hl, hc']
  have hheader : strip (entry key v) ≠ "[Interface]".toList := by
    rw [hl]
    intro heq
    exact hc (List.cons.inj heq).1
  have hheader' : strip (entry key v) ≠ "[Peer]".toList := by
    rw [hl]
    intro heq
    exact hc (List.cons.inj heq).1
  rw [step, if_neg hcomment, if_neg hheader, if_neg hheader', if_neg hpart, hp, Option.bind_some,
    ha, hb]

/-- Hooks are passed over in the interface part. -/
theorem hook_lines {items : List (Text × List Text)} (hitems : ∀ item ∈ items, IsItem item)
    (hnames : ∀ item ∈ items, item.1 ∈ hookKeys) (hpart : r.part = .interface) :
    (items.map fun item => strip (entry item.1 (sentence item.2))).foldlM step r = some r := by
  induction items with
  | nil => rfl
  | cons item items ih =>
    rw [List.forall_mem_cons] at hitems hnames
    rw [List.map_cons, List.foldlM_cons, step_entry hitems.1.key hitems.1.isValue (by simp [hpart]),
      if_pos hnames.1, if_pos hpart]
    exact ih hitems.2 hnames.2

/-- Other entries that may stand in the part are put into its dictionary. -/
theorem entry_lines {items : Dict} (hitems : ∀ item ∈ items, IsKey item.1 ∧ IsValue item.2)
    (hnames : ∀ name ∈ items.map Prod.fst, name ∉ hookKeys ∧ name ∈ allowedKeys r.part)
    (hnodup : ((r.values ++ items).map Prod.fst).Nodup) (hpart : r.part ≠ .start)
    (hvalues : r.part = .interface → r.interfaceValues = r.values) :
    (items.map fun item => strip (entry item.1 item.2)).foldlM step r = some { r with
      values := r.values ++ items
      interfaceValues :=
        if r.part = .interface then r.values ++ items else r.interfaceValues } := by
  induction items generalizing r with
  | nil =>
    have hkeep : (if r.part = .interface then r.values else r.interfaceValues) =
        r.interfaceValues := by
      rw [ite_eq_right_iff]
      exact fun hinterface => (hvalues hinterface).symm
    rw [List.append_nil, hkeep]
    rfl
  | cons item items ih =>
    rw [List.forall_mem_cons] at hitems
    rw [List.map_cons, List.forall_mem_cons] at hnames
    have hnew : r.values.lookup item.1 = none := by
      rw [List.map_append, List.nodup_append] at hnodup
      simpa using fun x hx => (hnodup.2.2 x (List.mem_map.mpr hx) item.1 (by simp)).symm
    rw [List.map_cons, List.foldlM_cons, step_entry hitems.1.1 hitems.1.2 hpart, if_neg hnames.1.1,
      put, if_pos ⟨hnames.1.2, hnew⟩]
    refine Eq.trans (ih (r := { r with values := _, interfaceValues := _ }) hitems.2 hnames.2
      (by simpa using hnodup) hpart fun hinterface => if_pos hinterface) ?_
    by_cases hinterface : r.part = .interface
    · simp [hinterface]
    · simp [hinterface]

/-- The dictionary of the interface part. -/
def headValues (h : Head) : Dict :=
  [(addressKey, h.address.text), (listenPortKey, natText h.port), (privateKeyKey, h.privateKey)]

theorem head_lines {h : Head} (hh : h.WellFormed) :
    (contentLines (unlines h.lines)).foldlM step initial =
      some ⟨headValues h, headValues h, [], .interface, true⟩ := by
  have hhooks : ∀ item ∈ h.hooks, item.1 ∈ hookKeys := by
    intro item hitem
    rcases name_of_mem_hooks hitem with hname | hname
    · simp [hname, hookKeys]
    · simp [hname, hookKeys]
  have hheader : step initial "[Interface]".toList = some ⟨[], [], [], .interface, true⟩ := by
    decide +kernel
  have hport := hh.port
  have hitems : ∀ item ∈ headValues h, IsKey item.1 ∧ IsValue item.2 := by
    simp [headValues, isKey_address, isKey_listenPort, isKey_privateKey, isValue_of_isWord,
      isWord_text, isWord_natText (show h.port < 10 ^ 5 by omega), hh.privateKey]
  have hnames : ∀ name ∈ [addressKey, listenPortKey, privateKeyKey],
      name ∉ hookKeys ∧ name ∈ allowedKeys .interface := by decide +kernel
  have hnodup : [addressKey, listenPortKey, privateKeyKey].Nodup := by decide +kernel
  have hentries := entry_lines (r := ⟨[], [], [], .interface, true⟩) hitems hnames hnodup (by simp)
    fun _ => rfl
  have hlines : (h.values.map fun item => strip (entry item.1 (sentence item.2))) =
      ((headValues h).map fun item => strip (entry item.1 item.2)) ++
        h.hooks.map fun item => strip (entry item.1 (sentence item.2)) := by
    simp [Head.values, headValues, sentence_singleton]
  rw [hh.contentLines_lines, List.foldlM_cons, hheader, Option.bind_eq_bind, Option.bind_some,
    hlines, List.foldlM_append, hentries]
  exact hook_lines hh.hooks hhooks rfl

/-- The dictionary of a block. -/
def blockValues (p : PeerBlock) : Dict :=
  [(publicKeyKey, p.publicKey), (allowedIPsKey, p.allowedIPs),
    (persistentKeepaliveKey, p.keepalive)]

/-- One block closes the one before it. -/
theorem block_lines {p : PeerBlock} (hp : p.Plain) (hseen : r.seenInterface = true) :
    (contentLines (unlines (serverBlock p))).foldlM step r =
      some ⟨blockValues p, r.interfaceValues, r.closed, .peer, true⟩ := by
  have hwf := hp.wellFormed
  have hlines : contentLines (unlines (serverBlock p)) = "[Peer]".toList ::
      (blockValues p).map fun item => strip (entry item.1 item.2) := by
    have hheader : contentLines "[Peer]".toList = ["[Peer]".toList] := by decide
    rw [contentLines_unlines, serverBlock, List.flatMap_cons, List.flatMap_cons, List.flatMap_cons,
      List.flatMap_cons, List.flatMap_cons, List.flatMap_nil, contentLines_nil, hheader,
      contentLines_entry isKey_publicKey hwf.publicKey,
      contentLines_entry isKey_allowedIPs hwf.allowedIPs,
      contentLines_entry isKey_persistentKeepalive hwf.keepalive]
    rfl
  have hheader : r.step "[Peer]".toList =
      some ⟨[], r.interfaceValues, r.closed, .peer, true⟩ := by
    have hcomment : "[Peer]".toList.head? ≠ some '#' := by decide +kernel
    have hne : "[Peer]".toList ≠ "[Interface]".toList := by decide +kernel
    rw [step, if_neg hcomment, if_neg hne, if_pos rfl, if_pos hseen, hseen]
  have hitems : ∀ item ∈ blockValues p, IsKey item.1 ∧ IsValue item.2 := by
    simp [blockValues, isKey_publicKey, isKey_allowedIPs, isKey_persistentKeepalive, hwf.publicKey,
      hwf.allowedIPs, hwf.keepalive]
  have hnames : ∀ name ∈ [publicKeyKey, allowedIPsKey, persistentKeepaliveKey],
      name ∉ hookKeys ∧ name ∈ allowedKeys .peer := by decide +kernel
  have hnodup : [publicKeyKey, allowedIPsKey, persistentKeepaliveKey].Nodup := by decide +kernel
  rw [hlines, List.foldlM_cons, hheader]
  exact entry_lines hitems hnames hnodup (by simp) (by simp)

/-- After all blocks, the dictionaries of the blocks stand in their order. -/
theorem blocks {peers : List PeerBlock} (hp : ∀ p ∈ peers, p.Plain)
    (hseen : r.seenInterface = true) :
    ∃ r', (contentLines (unlines (peers.flatMap serverBlock))).foldlM step r = some r' ∧
        r'.interfaceValues = r.interfaceValues ∧ r'.closed = r.closed ++ peers.map blockValues := by
  induction peers generalizing r with
  | nil => exact ⟨r, rfl, rfl, by simp⟩
  | cons p peers ih =>
    rw [List.forall_mem_cons] at hp
    obtain ⟨r', hrun, hvalues, hclosed⟩ := ih hp.2
      (r := ⟨blockValues p, r.interfaceValues, r.closed, .peer, true⟩) rfl
    refine ⟨r', ?_, hvalues, ?_⟩
    · rw [contentLines_unlines, List.flatMap_cons, List.flatMap_append, ← contentLines_unlines,
        ← contentLines_unlines, List.foldlM_append, block_lines hp.1 hseen]
      exact hrun
    · rw [hclosed]
      simp [closed]

end Reading

/-! ## The server file of a head -/

/-- A block as the machine returns it. -/
def ofBlock (p : PeerBlock) : Peer := (p.publicKey, p.allowedIPs, (parseInt p.keepalive).getD 25)

/-- The configuration of a server file. -/
def configFor (h : Head) (peers : List PeerBlock) : IngressConfig :=
  let first := (peers.map ofBlock).head?.getD ([], [], 25)
  ⟨h.interface, h.address.text, h.privateKey, first.1, first.2.1, h.port, first.2.2,
    (peers.map ofBlock).tail⟩

theorem parseInt_port {n : Nat} (h : n ≤ 65535) : parseInt (natText n) = some (n : Int) := by
  have hlength : (natText n).length ≤ 5 := Nat.toDigits_length 10 n 5 (by decide) (by omega)
  exact parseInt_natText (by omega)

variable {p : PeerBlock}

theorem parseInt_keepalive (hp : p.Plain) :
    ∃ k : Nat, k ≤ 65535 ∧ p.keepalive = natText k ∧ parseInt p.keepalive = some (k : Int) := by
  obtain ⟨k, hk, heq⟩ := hp.persistentKeepalive
  have hkeepalive : p.keepalive = natText k := by rw [PeerBlock.keepalive, heq, Option.getD_some]
  exact ⟨k, hk, hkeepalive, hkeepalive ▸ parseInt_port hk⟩

theorem peerOf_blockValues (hp : p.Plain) : peerOf (Reading.blockValues p) = some (ofBlock p) := by
  obtain ⟨k, -, -, hparse⟩ := parseInt_keepalive hp
  have hips : (allowedIPsKey == publicKeyKey) = false := by decide +kernel
  have hkeep : (persistentKeepaliveKey == publicKeyKey) = false := by decide +kernel
  have hkeep' : (persistentKeepaliveKey == allowedIPsKey) = false := by decide +kernel
  simp [peerOf, Reading.blockValues, List.lookup_cons, hips, hkeep, hkeep', hparse, ofBlock]

section ServerText
variable {h : Head} {peers : List PeerBlock} (hp : ∀ p ∈ peers, p.Plain)
include hp

theorem configFor_peers : (configFor h peers).peers = peers.map ofBlock := by
  cases peers with
  | nil => rfl
  | cons p peers =>
    have hne : p.publicKey ≠ [] := (isWord_iff.mp (hp p List.mem_cons_self).publicKey).1
    simp [IngressConfig.peers, configFor, ofBlock, hne]

variable (hh : h.WellFormed) (hname : h.interface ∉ reservedInterfaces)
  (hprivate : isWireGuardKey h.privateKey = true) (hspecial : isSpecial h.address.ip = false)
  (hkeys : ∀ p ∈ peers, isWireGuardKey p.publicKey = true) (hblocks : BlocksPart h.address peers)
include hh hname hprivate hspecial hkeys hblocks

theorem validated_configFor : (configFor h peers).validated = true := by
  have hport := hh.port
  obtain ⟨items, hitems, hallowed, hnodup⟩ := hblocks.addresses
  have hmap := mapM_eq_some_iff.mp hitems
  have hall : (configFor h peers).peers.all (IngressConfig.peerAllowed h.address) = true := by
    rw [configFor_peers hp, List.all_map, List.all_eq_true]
    intro p hmem
    obtain ⟨k, hk, -, hparse⟩ := parseInt_keepalive (hp p hmem)
    obtain ⟨ip, hlt, hip⟩ := (hp p hmem).allowedIPs
    obtain ⟨n, hn, hpn⟩ := exists_of_mapM_eq_some hitems p hmem
    have hpeer := List.all_eq_true.mp hallowed n hn
    rw [hip, parseNetwork_hostText hlt] at hpn
    cases hpn
    have hnetwork : (hostInterface ip hlt).networkAddress = ip := by
      simp [hostInterface, Interface.networkAddress, Interface.size]
    simp only [isPeerAddress, assignable, hnetwork, Bool.and_eq_true] at hpeer
    have hkeepalive : isKeepalive (k : Int) = true := by
      simp [isKeepalive]
      omega
    have hip' : (hostInterface ip hlt).ip = ip := rfl
    simp only [Function.comp, IngressConfig.peerAllowed, ofBlock, hip, parseNetwork_hostText hlt,
      Option.any_some, hparse, Option.getD_some, hkeepalive, hkeys p hmem, hip', hpeer.1.2,
      hpeer.2.1.2, hpeer.1.1, Bool.and_true]
  have hdistinct : ((configFor h peers).peers.map fun p => parseNetwork p.2.1).Nodup := by
    rw [configFor_peers hp, List.map_map]
    exact hmap ▸ hnodup.map (Option.some_injective _)
  have hpublic : ((configFor h peers).peers.map Prod.fst).Nodup := by
    rw [configFor_peers hp, List.map_map]
    exact hblocks.publicKeys
  have hfirst : isKeepalive (configFor h peers).keepalive = true := by
    cases peers with
    | nil => rfl
    | cons p peers =>
      obtain ⟨k, hk, -, hparse⟩ := parseInt_keepalive (hp p List.mem_cons_self)
      simp only [configFor, List.map_cons, List.head?_cons, Option.getD_some, ofBlock, hparse,
        isKeepalive, Bool.and_eq_true, decide_eq_true_eq]
      omega
  have haddress : parseInterface (configFor h peers).address = some h.address :=
    parseInterface_text _
  have hlisten : (1 ≤ (h.port : Int)) ∧ (h.port : Int) ≤ 65535 := by omega
  rw [IngressConfig.validated, haddress, Option.any_some, hall, hfirst, decide_eq_true hdistinct,
    decide_eq_true hpublic, hspecial, decide_eq_true hh.prefixLength_le]
  simp [configFor, hh.interface, hname, hprivate, hlisten]

omit hname hprivate hspecial hkeys hblocks in
/-- What is left to decide about a server file of the form that `create` wrote. -/
theorem fromFile_serverText (hcount : peers.length ≤ 253) :
    fromFile h.interface ".conf".toList (some (written (serverText h peers))) =
      if (configFor h peers).validated then some (configFor h peers) else none := by
  have hport := hh.port
  have hlength := length_serverText_le hh hp
  have hsize : utf8Length (serverText h peers) ≤ 65536 := by
    rw [utf8Length_serverText hh hp]
    omega
  obtain ⟨r, hrun, hvalues, hclosed⟩ := Reading.blocks hp
    (r := ⟨Reading.headValues h, Reading.headValues h, [], .interface, true⟩) rfl
  have hread : (contentLines (serverText h peers)).foldlM Reading.step Reading.initial =
      some r := by
    rw [serverText, contentLines_unlines, List.flatMap_append, ← contentLines_unlines,
      ← contentLines_unlines, List.foldlM_append, Reading.head_lines hh]
    exact hrun
  have hpeers : r.closed.mapM peerOf = some (peers.map ofBlock) := by
    rw [hclosed, mapM_eq_some_iff]
    simp only [Reading.closed, reduceCtorEq, if_false, List.nil_append, List.map_map]
    exact List.map_congr_left fun p hmem => peerOf_blockValues (hp p hmem)
  have hlisten : (listenPortKey == addressKey) = false := by decide +kernel
  have hkey : (privateKeyKey == addressKey) = false := by decide +kernel
  have hkey' : (privateKeyKey == listenPortKey) = false := by decide +kernel
  have hconfig : configOf h.interface r =
      if (configFor h peers).validated then some (configFor h peers) else none := by
    simp only [configOf, hpeers, hvalues, Reading.headValues, List.lookup_cons, beq_self_eq_true,
      hlisten, hkey, hkey', Option.bind_eq_bind, Option.bind_some, parseInt_port hport.2]
    rfl
  have hmode : 0o600 &&& 0o77 = 0 := by decide
  simp only [fromFile, written, hsize, hmode, validated_serverText hh hp hcount, hread,
    Option.bind_some, hconfig, and_self, if_true]

end ServerText

/-! ## The payload -/

theorem entry_inj {key key' v v' : Text} (hk : IsKey key) (hk' : IsKey key') (hv : IsValue v)
    (hv' : IsValue v') (h : entry key v = entry key' v') : key = key' ∧ v = v' := by
  obtain ⟨a, b, hp, ha, hb⟩ := entry_partition hk hv
  obtain ⟨a', b', hp', ha', hb'⟩ := entry_partition hk' hv'
  rw [h, hp'] at hp
  cases hp
  exact ⟨ha.symm.trans ha', hb.symm.trans hb'⟩

theorem entry_ne_header {key v : Text} (hk : IsKey key) : entry key v ≠ "[Peer]".toList := by
  obtain ⟨c, rest, rfl, hc, -⟩ := hk.head
  intro heq
  exact hc (List.cons.inj heq).1

/-- The texts of a peer fit on their lines. -/
structure IsPeer (p : Peer) : Prop where
  publicKey : IsValue p.1
  allowedIps : IsValue p.2.1

theorem isPeer_ofBlock (hp : p.Plain) : IsPeer (ofBlock p) :=
  ⟨hp.wellFormed.publicKey, hp.wellFormed.allowedIPs⟩

namespace IngressConfig

theorem count_header (ps : List Peer) :
    (ps.flatMap peerLines).count "[Peer]".toList = ps.length := by
  induction ps with
  | nil => rfl
  | cons p ps ih =>
    rw [List.flatMap_cons, List.count_append, ih, peerLines, List.count_cons_self,
      List.count_cons_of_ne (entry_ne_header isKey_publicKey),
      List.count_cons_of_ne (entry_ne_header isKey_allowedIPs),
      List.count_cons_of_ne (entry_ne_header isKey_persistentKeepalive), List.count_nil,
      List.length_cons]
    omega

theorem count_publicKey {ps : List Peer} (hps : ∀ p ∈ ps, IsPeer p) {key : Text}
    (hkey : IsValue key) : (ps.flatMap peerLines).count (entry publicKeyKey key) =
      (ps.map Prod.fst).count key := by
  have hips : allowedIPsKey ≠ publicKeyKey := by decide +kernel
  have hkeepalive : persistentKeepaliveKey ≠ publicKeyKey := by decide +kernel
  induction ps with
  | nil => rfl
  | cons p ps ih =>
    rw [List.forall_mem_cons] at hps
    have hline : (entry publicKeyKey p.1 == entry publicKeyKey key) = (p.1 == key) := by
      rw [Bool.eq_iff_iff, beq_iff_eq, beq_iff_eq]
      exact ⟨fun heq => (entry_inj isKey_publicKey isKey_publicKey hps.1.publicKey hkey heq).2,
        fun heq => heq ▸ rfl⟩
    rw [List.flatMap_cons, List.count_append, ih hps.2, peerLines,
      List.count_cons_of_ne (entry_ne_header isKey_publicKey).symm, List.count_cons, hline,
      List.count_cons_of_ne fun heq => hips
        (entry_inj isKey_allowedIPs isKey_publicKey hps.1.allowedIps hkey heq).1,
      List.count_cons_of_ne fun heq => hkeepalive (entry_inj isKey_persistentKeepalive
        isKey_publicKey (isValue_intText _) hkey heq).1, List.count_nil, List.map_cons,
      List.count_cons]
    omega

theorem peerLines_infix {ps : List Peer} {p : Peer} (hp : p ∈ ps) :
    peerLines p <:+: ps.flatMap peerLines := by
  obtain ⟨before, after, rfl⟩ := List.append_of_mem hp
  rw [List.flatMap_append, List.flatMap_cons]
  exact ⟨before.flatMap peerLines, after.flatMap peerLines, by simp⟩

end IngressConfig

section Payload
variable {h : Head} {peers : List PeerBlock} (hh : h.WellFormed) (hp : ∀ p ∈ peers, p.Plain)
include hp

theorem wireguardPayload_configFor (hvalid : (configFor h peers).validated = true) :
    (configFor h peers).wireguardPayload = some (unlines ((configFor h peers).payloadHead ++
      (peers.map ofBlock).flatMap IngressConfig.peerLines)) := by
  have hps : (if (configFor h peers).publicKey = [] then [] else [((configFor h peers).publicKey,
      (configFor h peers).allowedIps, (configFor h peers).keepalive)]) ++
        (configFor h peers).extraPeers = peers.map ofBlock := by
    cases peers with
    | nil => rfl
    | cons p peers =>
      have hne : p.publicKey ≠ [] := (isWord_iff.mp (hp p List.mem_cons_self).publicKey).1
      simp [configFor, ofBlock, hne]
  rw [IngressConfig.wireguardPayload, if_pos hvalid, hps]

include hh

theorem lf_not_mem_payload : ∀ l ∈ (configFor h peers).payloadHead ++
    (peers.map ofBlock).flatMap IngressConfig.peerLines, '\n' ∉ l := by
  rw [List.forall_mem_append]
  constructor
  · rw [IngressConfig.payloadHead, List.forall_mem_cons, List.forall_mem_cons,
      List.forall_mem_singleton]
    exact ⟨by decide +kernel, lf_not_mem_entry isKey_privateKey (isValue_of_isWord hh.privateKey),
      lf_not_mem_entry isKey_listenPort (isValue_intText _)⟩
  · have hpeer : ∀ p ∈ peers, ∀ l ∈ IngressConfig.peerLines (ofBlock p), '\n' ∉ l := by
      intro p hmem
      have hpeer := isPeer_ofBlock (hp p hmem)
      rw [IngressConfig.peerLines, List.forall_mem_cons, List.forall_mem_cons, List.forall_mem_cons,
        List.forall_mem_singleton]
      exact ⟨by decide +kernel, lf_not_mem_entry isKey_publicKey hpeer.publicKey,
        lf_not_mem_entry isKey_allowedIPs hpeer.allowedIps,
        lf_not_mem_entry isKey_persistentKeepalive (isValue_intText _)⟩
    intro l hl
    obtain ⟨q, hq, hl⟩ := List.mem_flatMap.mp hl
    obtain ⟨p, hmem, rfl⟩ := List.mem_map.mp hq
    exact hpeer p hmem l hl

theorem splitOn_payload : (unlines ((configFor h peers).payloadHead ++
    (peers.map ofBlock).flatMap IngressConfig.peerLines)).splitOn '\n' =
      (configFor h peers).payloadHead ++
        ((peers.map ofBlock).flatMap IngressConfig.peerLines ++ [[]]) := by
  rw [splitOn_unlines (lf_not_mem_payload hh hp), List.append_assoc]

omit hh hp in
/-- There is one `[Peer]` line for each block. -/
theorem count_header_payload : ((configFor h peers).payloadHead ++
    ((peers.map ofBlock).flatMap IngressConfig.peerLines ++ [[]])).count "[Peer]".toList =
      peers.length := by
  have hhead : (configFor h peers).payloadHead.count "[Peer]".toList = 0 := by
    have hinterface : "[Interface]".toList ≠ "[Peer]".toList := by decide +kernel
    rw [IngressConfig.payloadHead, List.count_cons_of_ne hinterface,
      List.count_cons_of_ne (entry_ne_header isKey_privateKey),
      List.count_cons_of_ne (entry_ne_header isKey_listenPort), List.count_nil]
  have hblank : ([] : Text) ≠ "[Peer]".toList := by decide +kernel
  rw [List.count_append, List.count_append, hhead, IngressConfig.count_header, List.length_map,
    List.count_cons_of_ne hblank, List.count_nil, Nat.zero_add, Nat.add_zero]

/-- There is one line for the key of each block. -/
theorem count_publicKey_payload (hnodup : (peers.map PeerBlock.publicKey).Nodup) {p : PeerBlock}
    (hmem : p ∈ peers) : ((configFor h peers).payloadHead ++
      ((peers.map ofBlock).flatMap IngressConfig.peerLines ++ [[]])).count
        (entry publicKeyKey p.publicKey) = 1 := by
  have hvalue := (hp p hmem).wellFormed.publicKey
  have hhead : (configFor h peers).payloadHead.count (entry publicKeyKey p.publicKey) = 0 := by
    have hprivate : privateKeyKey ≠ publicKeyKey := by decide +kernel
    have hport : listenPortKey ≠ publicKeyKey := by decide +kernel
    have hheader : "[Interface]".toList ≠ entry publicKeyKey p.publicKey := fun heq =>
      absurd (List.cons.inj heq).1 (by decide)
    have hkeyLine : entry privateKeyKey (configFor h peers).privateKey ≠
        entry publicKeyKey p.publicKey := fun heq => hprivate (entry_inj isKey_privateKey
      isKey_publicKey (isValue_of_isWord hh.privateKey) hvalue heq).1
    rw [IngressConfig.payloadHead, List.count_cons_of_ne hheader, List.count_cons_of_ne hkeyLine,
      List.count_cons_of_ne fun heq => hport (entry_inj isKey_listenPort isKey_publicKey
        (isValue_intText _) hvalue heq).1, List.count_nil]
  have hblank : ([] : Text) ≠ entry publicKeyKey p.publicKey := List.cons_ne_nil _ _ |>.symm
  have hone : ((peers.map ofBlock).map Prod.fst).count p.publicKey = 1 := by
    rw [List.map_map]
    exact List.count_eq_one_of_mem hnodup (List.mem_map_of_mem hmem)
  rw [List.count_append, List.count_append, hhead,
    IngressConfig.count_publicKey (fun q hq => ?_) hvalue, hone, List.count_cons_of_ne hblank,
    List.count_nil]
  obtain ⟨b, hb, rfl⟩ := List.mem_map.mp hq
  exact isPeer_ofBlock (hp b hb)

end Payload

theorem isWord_of_isWireGuardKey {t : Text} (h : isWireGuardKey t = true) : isWord t = true := by
  simp only [isWireGuardKey, Bool.and_eq_true, beq_iff_eq, List.all_eq_true, Bool.or_eq_true] at h
  obtain ⟨⟨hlength, hlast⟩, hall⟩ := h
  have hne : t ≠ [] := by
    rintro rfl
    simp at hlength
  refine isWord_iff.mpr ⟨hne, by omega, fun c hc => ?_⟩
  rw [List.getLast?_eq_some_getLast hne, Option.some.injEq] at hlast
  rw [← List.dropLast_append_getLast hne, List.mem_append, List.mem_singleton, hlast] at hc
  rcases hc with hc | rfl
  · rcases hall c hc with (halnum | rfl) | rfl
    · have := toNat_of_isAlphanum halnum
      omega
    · decide
    · decide
  · decide

/-! ## The two parsers -/

/-- **The parsers agree.** After a first setup and any peer operations, `from_file` accepts the
server file and reads what `_server` reads: the address, the private key, and the same peers in the
same order. The payload has one section for each active row. -/
theorem parsers_agree {w : Platform} {req : SetupRequest} {created : Created} {s0 s : Store}
    (hkeys : ∀ p k, w.pubkey p = some k → isWireGuardKey k = true)
    (hsetup : FirstSetup w req created s0)
    (hprivate : isWireGuardKey created.head.privateKey = true)
    (hname : req.interface ∉ reservedInterfaces)
    (hspecial : isSpecial created.head.address.ip = false)
    (hrun : Relation.ReflTransGen (Step w req.interface) s0 s) :
    ∃ content srv config payload, read (s.files req.interface) = .ok content ∧
      server content = some srv ∧
      fromFile req.interface ".conf".toList (s.files req.interface) = some config ∧
      parseInterface config.address = some srv.address ∧ config.privateKey = srv.privateKey ∧
      (config.peers.map fun p => (p.1, p.2.1, some p.2.2)) =
        srv.peers.map (fun p => (p.publicKey, p.allowedIPs, parseInt p.keepalive)) ∧
      (∀ p ∈ config.peers, ∃ ip, ∃ h : ip < 2 ^ 32,
        parseNetwork p.2.1 = some (hostInterface ip h)) ∧
      config.wireguardPayload = some payload ∧
      (payload.splitOn '\n').count "[Peer]".toList =
        (s.table.rows.filter fun r => r.status == .active).length ∧
      ∀ r ∈ s.table.rows, r.status = .active →
        (payload.splitOn '\n').count (entry publicKeyKey r.publicKey) = 1 ∧
        ∃ k, IngressConfig.peerLines (r.publicKey, hostText r.tunnelIp, k) <:+:
          payload.splitOn '\n' := by
  have hwords : ∀ p k, w.pubkey p = some k → isWord k = true :=
    fun p k hk => isWord_of_isWireGuardKey (hkeys p k hk)
  obtain ⟨hh, hserved⟩ := hsetup.served hwords (isWord_of_isWireGuardKey hprivate)
  obtain ⟨peers, hs⟩ := run_served hwords hh hserved hrun
  obtain ⟨hread, pre, hserver, -⟩ := hs.server hh
  have hinterface : created.head.interface = req.interface := hsetup.interface_eq
  have hblocks : BlocksPart created.head.address peers := (server_eq_some_iff.mp hserver).2.2
  -- the key of a block is that of a row, and was derived
  have hblockKeys : ∀ p ∈ peers, isWireGuardKey p.publicKey = true := by
    intro p hmem
    have hitem := (hs.items (p.publicKey, p.allowedIPs)).mp
      (mem_blockItems.mpr ⟨p, hmem, rfl, rfl⟩)
    obtain ⟨r, hr, -, hkey, -⟩ := mem_activeItems.mp hitem
    obtain ⟨privateKey, hderived⟩ := (hs.rows r hr).derived
    exact hkeys _ _ (hkey ▸ hderived)
  have hvalid := validated_configFor hs.plain hh (hinterface ▸ hname) hprivate hspecial hblockKeys
    hblocks
  have hfile := fromFile_serverText hs.plain hh hs.length_le
  rw [hinterface, if_pos hvalid] at hfile
  refine ⟨_, _, _, _, hread, hserver, hs.file ▸ hfile, parseInterface_text _, rfl, ?_, ?_,
    wireguardPayload_configFor hs.plain hvalid, ?_, ?_⟩
  · rw [configFor_peers hs.plain, List.map_map]
    refine List.map_congr_left fun p hmem => ?_
    obtain ⟨k, -, -, hparse⟩ := parseInt_keepalive (hs.plain p hmem)
    simp [ofBlock, hparse]
  · rw [configFor_peers hs.plain]
    intro q hq
    obtain ⟨p, hmem, rfl⟩ := List.mem_map.mp hq
    obtain ⟨ip, hlt, hip⟩ := (hs.plain p hmem).allowedIPs
    exact ⟨ip, hlt, by rw [ofBlock, hip, parseNetwork_hostText hlt]⟩
  · rw [splitOn_payload hh hs.plain, ← hs.length_eq]
    exact count_header_payload
  · intro r hr hactive
    have hitem := (hs.items (r.publicKey, hostText r.tunnelIp)).mpr
      (mem_activeItems.mpr ⟨r, hr, hactive, rfl, rfl⟩)
    obtain ⟨p, hmem, hkey, hip⟩ := mem_blockItems.mp hitem
    rw [splitOn_payload hh hs.plain, ← hkey, ← hip]
    refine ⟨count_publicKey_payload hh hs.plain hs.publicKeys hmem, (ofBlock p).2.2, ?_⟩
    have hin := IngressConfig.peerLines_infix (List.mem_map_of_mem (f := ofBlock) hmem)
    exact hin.trans ⟨_, [[]], by rw [List.append_assoc]⟩

/-! ### A first setup -/

/-- A key of base64 characters that ends in `c=`. -/
def demoKey (c : Char) : Text := List.replicate 42 'A' ++ [c, '=']

/-- A platform whose public keys are the private ones with another first character. -/
def keyPlatform : Platform where
  pubkey p :=
    if isWireGuardKey p && isWireGuardKey ('P' :: p.tail) then some ('P' :: p.tail) else none
  pubkey_ne_nil p := by split <;> simp
  pubkey_noSpace p k h := by
    split at h
    · next hkey =>
      rw [Bool.and_eq_true] at hkey
      cases h
      exact fun c hc => isSpace_of_isWord (isWord_of_isWireGuardKey hkey.2) hc
    · cases h
  isOther _ := false

theorem isWord_serverKey : isWord (demoKey 'S') = true := by decide +kernel

theorem isWord_clientKey : isWord (demoKey 'C') = true := by decide +kernel

theorem keyPlatform_keys (p k : Text) (h : keyPlatform.pubkey p = some k) :
    isWireGuardKey p = true ∧ isWireGuardKey k = true := by
  simp only [keyPlatform] at h
  split at h
  · next hkey =>
    rw [Bool.and_eq_true] at hkey
    cases h
    exact hkey
  · cases h

def keyDraw (c : Char) (h : isWord (demoKey c) = true) : Draw where
  privateKey := demoKey c
  privateKey_ne_nil := (isWord_iff.mp h).1
  privateKey_noSpace _ hc := isSpace_of_isWord h hc
  peerId := List.replicate 32 'a'
  peerId_length := length_demoId
  peerId_alphanum := isAlphanum_demoId
  now := []

def demoRequest : SetupRequest where
  endpoint := "vpn.example.org".toList
  subnet := "10.8.0.0/24".toList
  dns := "10.8.0.1".toList
  port := 51820
  interface := "wg0".toList
  client := "phone".toList
  vpnInterface := none
  allowedIps := "0.0.0.0/0".toList
  keepalive := 25

theorem demoRequest_ne : demoRequest.client ≠ demoRequest.interface := by decide +kernel

/-- Whether `create` and `migrate_legacy` accept a request in an empty directory, and give the
server this address. -/
def setupRuns (req : SetupRequest) (ip : Nat) : Bool :=
  (create keyPlatform req (keyDraw 'S' isWord_serverKey) (keyDraw 'C' isWord_clientKey)).any
    fun created => (isWireGuardKey created.head.privateKey && created.head.address.ip == ip) &&
      match migrateLegacy keyPlatform req.interface req.client (keyDraw 'C' isWord_clientKey)
          ⟨⟨[], constraints_nil⟩, none, setFiles (fun _ => none)
            [(req.interface, some (serverText created.head [created.peer])),
              (req.client, some created.client)]⟩ with
      | .ok (true, _) => true
      | _ => false

theorem exists_firstSetup {req : SetupRequest} {ip : Nat} (h : setupRuns req ip = true) :
    ∃ created s, FirstSetup keyPlatform req created s ∧
      isWireGuardKey created.head.privateKey = true ∧ created.head.address.ip = ip ∧
      s.files = setFiles (fun _ => none)
        [(req.interface, some (serverText created.head [created.peer])),
          (req.client, some created.client)] := by
  obtain ⟨created, hcreate, hall⟩ := (Option.any_eq_true ..).mp h
  rw [Bool.and_eq_true, Bool.and_eq_true, beq_iff_eq] at hall
  obtain ⟨⟨hkey, haddress⟩, hadopted⟩ := hall
  split at hadopted
  · next s hs =>
    obtain ⟨_, _, _, _, _, _, had⟩ := migrateLegacy_eq_ok hs
    exact ⟨created, s, ⟨⟨_, _, hcreate⟩, ⟨_, _, hs⟩⟩, hkey, haddress, had.files⟩
  · cases hadopted

/-- A first setup leaves a state that is accepted, with one active peer. -/
theorem accepted_of_firstSetup {req : SetupRequest} {created : Created} {s : Store}
    (hsetup : FirstSetup keyPlatform req created s)
    (hprivate : isWord created.head.privateKey = true) :
    ∃ srv profile, Valid keyPlatform req.interface s srv profile ∧
      ∃ row ∈ s.table.rows, row.status = .active := by
  obtain ⟨srv, profile, hvalid⟩ := hsetup.valid
    (fun p k hk => isWord_of_isWireGuardKey (keyPlatform_keys p k hk).2) hprivate
  obtain ⟨d, before, hadopted⟩ := hsetup.adopted
  obtain ⟨_, _, _, _, _, _, had⟩ := migrateLegacy_eq_ok hadopted
  obtain ⟨name, hrows⟩ := had.rows
  exact ⟨srv, profile, hvalid, _, hrows ▸ List.mem_singleton_self _, rfl⟩

/-- The parsers agree on the file of one first setup whose peer was revoked. -/
theorem parsers_agree_first_setup : ∃ created s s' content srv config,
    FirstSetup keyPlatform demoRequest created s ∧ Step keyPlatform demoRequest.interface s s' ∧
    read (s'.files demoRequest.interface) = .ok content ∧ server content = some srv ∧
    fromFile demoRequest.interface ".conf".toList (s'.files demoRequest.interface) = some config ∧
    config.privateKey = srv.privateKey := by
  obtain ⟨created, s, hsetup, hprivate, haddress, -⟩ := exists_firstSetup
    (show setupRuns demoRequest 0x0a080001 = true by decide +kernel)
  have hspecial : isSpecial created.head.address.ip = false := by
    rw [haddress]
    decide
  obtain ⟨_, _, hvalid, row, hrow, hactive⟩ :=
    accepted_of_firstSetup hsetup (isWord_of_isWireGuardKey hprivate)
  obtain ⟨c, hc⟩ := hvalid.exists_revoke (keyDraw 'C' isWord_clientKey) hrow hactive
  have hstep : Step keyPlatform demoRequest.interface s (s.apply c) := ⟨_, _, c, hc, trivial, rfl⟩
  obtain ⟨content, srv, config, -, hread, hserver, hfile, -, hkey, -⟩ :=
    parsers_agree (fun p k hk => (keyPlatform_keys p k hk).2) hsetup hprivate (by decide +kernel)
      hspecial (.single hstep)
  exact ⟨created, s, _, content, srv, config, hsetup, hstep, hread, hserver, hfile, hkey⟩

end ExitLane.Ingress
