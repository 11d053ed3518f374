import ExitLane.Peers.Setup

/-!
# The hooks of a WireGuard file

`lifecycle._validated_wireguard_hooks` reads any file of the configuration directory. A file without
hook lines passes as it is; one with hook lines must be named like an interface, and its hooks must
be exactly those that `wireguard.create` writes for the address of the file.

* `hooks_unlines`: the hooks of a text are those of its lines;
* `validated_serverText`: a server file of the form that `create` wrote passes.
-/

namespace ExitLane.Ingress
open Python IpAddress Peers
open Egress (isInterface)

/-! ## The validator -/

/-- The names of `WIREGUARD_HOOK`, which are matched without regard to case. -/
def hookNames : List Text :=
  ["preup".toList, "postup".toList, "predown".toList, "postdown".toList]

def isHookName (name : Text) : Bool := hookNames.contains (name.map Char.toLower)

/-- `WIREGUARD_HOOK.fullmatch(line)`: its two groups. -/
def hookOf (line : Text) : Option (Text × Text) :=
  (partition '=' line).bind fun item =>
    if isHookName (strip item.1) then some (strip item.1, strip item.2) else none

def hooks (content : Text) : List (Text × Text) := (content.splitOn '\n').filterMap hookOf

/-- The loop that collects the addresses; `current` is the section of the lines read so far. -/
def addressesIn : Text → List Text → List Text
  | _, [] => []
  | current, line :: rest =>
    if isSectionLine line then addressesIn line.tail.dropLast rest
    else if current = interfaceSection then
      match partition '=' line with
      | some (name, value) =>
        if strip name = addressKey then strip value :: addressesIn current rest
        else addressesIn current rest
      | none => addressesIn current rest
    else addressesIn current rest

/-- The words of the first forwarding rule towards a named egress. -/
def forwardWords (interface egress : Text) : List Text :=
  ["iptables".toList, "-A".toList, "FORWARD".toList, "-i".toList, interface, "-o".toList, egress,
    "-j".toList, "ACCEPT".toList]

/-- The egress that the first forwarding rule names. -/
def firstForward (interface value : Text) : Option Text :=
  ((value.splitOn ' ')[6]?).filter fun egress =>
    isInterface egress && value == sentence (forwardWords interface egress)

/-- The hooks that `create` writes. -/
def expectedHooks (interface subnet : Text) (egress : Option Text) : List (Text × Text) :=
  ((postUpKey, sysctlWords) :: forwardingRules interface subnet egress).map fun item =>
    (item.1, sentence item.2)

def egressCandidates (interface : Text) (found : List (Text × Text)) : List (Option Text) :=
  none :: ((firstForward interface ((found[1]?.map Prod.snd).getD [])).toList.map some)

/-- Tab, line feed and the printable characters. -/
def isPlainByte (c : Char) : Bool :=
  c.toNat == 9 || c.toNat == 10 || (32 ≤ c.toNat && c.toNat ≤ 126)

/-- Whether `_validated_wireguard_hooks` returns for a file of this name and content. -/
def validatedWireguardHooks (stem suffix content : Text) : Bool :=
  utf8Length content ≤ 256 * 1024 && content.all isPlainByte &&
    ((hooks content).isEmpty ||
      (suffix == ".conf".toList && isIngressName stem &&
        match addressesIn [] ((content.splitOn '\n').map strip) with
        | [t] =>
          match (parseInterface t).filter fun a => a.prefixLength ≤ 31 with
          | some address => (egressCandidates stem (hooks content)).any fun egress =>
              hooks content == expectedHooks stem address.network.text egress
          | none => false
        | _ => false))

/-! ## Line by line -/

theorem hooks_unlines {ls : List Text} (h : ∀ l ∈ ls, '\n' ∉ l) :
    hooks (unlines ls) = ls.filterMap hookOf := by
  rw [hooks, splitOn_unlines h, List.filterMap_append]
  simp [hookOf, partition]

variable {key v : Text}

theorem partition_entry (hk : IsKey key) :
    partition '=' (entry key v) = some (key ++ [' '], ' ' :: v) := by
  have hne : '=' ∉ key ++ [' '] := by simp [hk.noEquals]
  rw [← partition_append _ _ hne]
  simp [entry]

theorem strip_blank_right (hk : IsKey key) : strip (key ++ [' ']) = key := by
  rw [strip_append_space key (by simp [AllSpace, isSpace]), hk.stripped]

theorem hookOf_entry (hk : IsKey key) (hv : IsValue v) :
    hookOf (entry key v) = if isHookName key then some (key, v) else none := by
  have hvalue : strip (' ' :: v) = v := by
    rw [strip, lstrip, List.dropWhile_cons_of_pos (by rfl)]
    exact hv.stripped
  rw [hookOf, partition_entry hk, Option.bind_some, strip_blank_right hk, hvalue]

/-- The name decides whether a line is a hook, whatever its value. -/
theorem hookOf_entry_of_not (hk : IsKey key) (hname : isHookName key = false) :
    hookOf (entry key v) = none := by
  rw [hookOf, partition_entry hk, Option.bind_some, strip_blank_right hk, hname]
  rfl

theorem addressesIn_entry (hk : IsKey key) (hv : IsValue v) (current : Text) (rest : List Text) :
    addressesIn current (strip (entry key v) :: rest) =
      if current = interfaceSection ∧ key = addressKey then v :: addressesIn current rest
      else addressesIn current rest := by
  obtain ⟨a, b, hp, ha, hb⟩ := entry_partition hk hv
  obtain ⟨c, l, hl, hc, -⟩ := entry_head hk hv
  have hsec : isSectionLine (strip (entry key v)) = false := by
    simp [isSectionLine, hl, hc]
  rw [addressesIn, hsec, hp]
  simp only [Bool.false_eq_true, if_false, ha, hb]
  by_cases h1 : current = interfaceSection
  · by_cases h2 : key = addressKey
    · simp [h1, h2]
    · simp [h1, h2]
  · simp [h1]

theorem firstForward_sentence {interface egress : Text} (hinterface : isWord interface = true)
    (hegress : isInterface egress = true) :
    firstForward interface (sentence (forwardWords interface egress)) = some egress := by
  have hwords : ∀ t ∈ forwardWords interface egress, ' ' ∉ t := by
    have hblank {t : Text} (ht : isWord t = true) : ' ' ∉ t := fun hmem =>
      absurd (isSpace_of_isWord ht hmem) (by decide)
    simp only [forwardWords, List.forall_mem_cons, List.not_mem_nil, false_implies, implies_true,
      and_true, hblank hinterface, hblank (isWord_of_isInterface hegress), true_and,
      not_false_eq_true]
    decide +kernel
  have hsplit : (sentence (forwardWords interface egress)).splitOn ' ' =
      forwardWords interface egress :=
    List.splitOn_intercalate ' ' hwords (by simp [forwardWords])
  rw [firstForward, hsplit]
  simp [forwardWords, hegress]

/-- The egress of the hooks that `create` writes is a candidate. -/
theorem mem_egressCandidates {interface : Text} {egress : Option Text}
    (hinterface : isIngressName interface = true) (hegress : ∀ v ∈ egress, isInterface v = true)
    (subnet : Text) :
    egress ∈ egressCandidates interface (expectedHooks interface subnet egress) := by
  cases egress with
  | none => exact List.mem_cons_self
  | some v =>
    have hfirst := firstForward_sentence (isWord_of_isIngressName hinterface) (hegress v rfl)
    refine List.mem_cons_of_mem _ (List.mem_map_of_mem ?_)
    rw [Option.mem_toList]
    exact hfirst

/-- A file without hooks needs no particular name. -/
theorem validated_of_no_hooks {content : Text} (stem suffix : Text)
    (hsize : utf8Length content ≤ 256 * 1024) (hplain : content.all isPlainByte = true)
    (hhooks : hooks content = []) : validatedWireguardHooks stem suffix content = true := by
  simp [validatedWireguardHooks, hsize, hplain, hhooks]

theorem plain_unlines {ls : List Text} (h : ∀ l ∈ ls, Printable l) :
    (unlines ls).all isPlainByte = true := by
  rw [List.all_eq_true]
  intro c hc
  obtain ⟨l, hl, hc⟩ := List.mem_flatMap.mp hc
  rcases List.mem_append.mp hc with hc | hc
  · simp [isPlainByte, h l hl c hc]
  · rw [List.mem_singleton.mp hc]
    decide

/-! ## A server file -/

section ServerText
variable {h : Head} {peers : List PeerBlock}

theorem filterMap_hookOf_entries {items : List (Text × List Text)}
    (hitems : ∀ item ∈ items, IsItem item) :
    (items.map fun item => entry item.1 (sentence item.2)).filterMap hookOf =
      (items.filter fun item => isHookName item.1).map fun item => (item.1, sentence item.2) := by
  induction items with
  | nil => rfl
  | cons item items ih =>
    rw [List.forall_mem_cons] at hitems
    rw [List.map_cons, List.filterMap_cons, hookOf_entry hitems.1.key hitems.1.isValue, ih hitems.2,
      List.filter_cons]
    by_cases hname : isHookName item.1 = true
    · simp [hname]
    · simp [hname]

theorem name_of_mem_hooks {h : Head} {item : Text × List Text} (hitem : item ∈ h.hooks) :
    item.1 = postUpKey ∨ item.1 = postDownKey := by
  rw [Head.hooks, forwardingRules, List.mem_cons, List.mem_append, List.mem_map, List.mem_map]
    at hitem
  rcases hitem with rfl | ⟨ws, -, rfl⟩ | ⟨ws, -, rfl⟩
  · exact Or.inl rfl
  · exact Or.inl rfl
  · exact Or.inr rfl

theorem filter_isHookName_values (h : Head) :
    h.values.filter (fun item => isHookName item.1) = h.hooks := by
  have haddress : isHookName addressKey = false := by decide +kernel
  have hport : isHookName listenPortKey = false := by decide +kernel
  have hprivate : isHookName privateKeyKey = false := by decide +kernel
  have hhooks : h.hooks.filter (fun item => isHookName item.1) = h.hooks := by
    rw [List.filter_eq_self]
    intro item hitem
    rcases name_of_mem_hooks hitem with hname | hname
    · rw [hname]
      decide +kernel
    · rw [hname]
      decide +kernel
  rw [Head.values, List.filter_append, hhooks]
  simp [haddress, hport, hprivate]

theorem filterMap_hookOf_serverBlock {p : PeerBlock} (hp : p.Plain) :
    (serverBlock p).filterMap hookOf = [] := by
  have hkey : isHookName publicKeyKey = false := by decide +kernel
  have hips : isHookName allowedIPsKey = false := by decide +kernel
  have hkeepalive : isHookName persistentKeepaliveKey = false := by decide +kernel
  have hheader : hookOf "[Peer]".toList = none := by decide +kernel
  have hblank : hookOf [] = none := rfl
  have hwf := hp.wellFormed
  simp only [serverBlock, List.filterMap_cons, List.filterMap_nil, hblank, hheader,
    hookOf_entry isKey_publicKey hwf.publicKey, hookOf_entry isKey_allowedIPs hwf.allowedIPs,
    hookOf_entry isKey_persistentKeepalive hwf.keepalive, hkey, hips, hkeepalive,
    Bool.false_eq_true, if_false]

theorem addressesIn_entries {items : List (Text × List Text)}
    (hitems : ∀ item ∈ items, IsItem item) (hne : ∀ item ∈ items, item.1 ≠ addressKey)
    (current : Text) (rest : List Text) :
    addressesIn current ((items.map fun item => entry item.1 (sentence item.2)).map strip ++ rest) =
      addressesIn current rest := by
  induction items with
  | nil => rfl
  | cons item items ih =>
    rw [List.forall_mem_cons] at hitems hne
    rw [List.map_cons, List.map_cons, List.cons_append,
      addressesIn_entry hitems.1.key hitems.1.isValue, if_neg fun hand => hne.1 hand.2,
      ih hitems.2 hne.2]

variable (hh : h.WellFormed) (hp : ∀ p ∈ peers, p.Plain)
include hh hp

theorem lf_not_mem_serverLines : ∀ l ∈ h.lines ++ peers.flatMap serverBlock, '\n' ∉ l := by
  intro l hl hmem
  have hle := (printable_serverLines hh hp l hl '\n' hmem).1
  exact absurd hle (by decide)

/-- The hooks of a server file are those of its interface part. -/
theorem hooks_serverText : hooks (serverText h peers) =
    expectedHooks h.interface h.address.network.text h.vpnInterface := by
  have hheader : hookOf "[Interface]".toList = none := by decide +kernel
  have hblocks : (peers.flatMap serverBlock).filterMap hookOf = [] := by
    rw [List.filterMap_flatMap, List.flatMap_eq_nil_iff]
    exact fun p hmem => filterMap_hookOf_serverBlock (hp p hmem)
  rw [serverText, hooks_unlines (lf_not_mem_serverLines hh hp), List.filterMap_append, hblocks,
    List.append_nil, Head.lines, List.filterMap_cons, hheader, filterMap_hookOf_entries hh.values,
    filter_isHookName_values]
  rfl

omit hh in
/-- The blocks hold no address of the interface. -/
theorem addressesIn_blocks (current : Text) :
    addressesIn current ((peers.flatMap serverBlock).map strip ++ [[]]) = [] := by
  induction peers generalizing current with
  | nil => simp [addressesIn, isSectionLine, partition]
  | cons p peers ih =>
    rw [List.forall_mem_cons] at hp
    have hwf := hp.1.wellFormed
    have hne : peerSection ≠ interfaceSection := by decide +kernel
    have hblank (rest : List Text) : addressesIn current ([] :: rest) =
        addressesIn current rest := by
      simp [addressesIn, isSectionLine, partition]
    have hheader (rest : List Text) : addressesIn current ("[Peer]".toList :: rest) =
        addressesIn peerSection rest := by
      rw [addressesIn, if_pos (by decide +kernel)]
      congr 1
    have hstrip : strip "[Peer]".toList = "[Peer]".toList := by decide +kernel
    rw [List.flatMap_cons, List.map_append, List.append_assoc, serverBlock, List.map_cons,
      List.map_cons, hstrip, List.cons_append, List.cons_append, show strip [] = [] from rfl,
      hblank, hheader, List.map_cons, List.cons_append,
      addressesIn_entry isKey_publicKey hwf.publicKey,
      if_neg fun hand => hne hand.1, List.map_cons, List.cons_append,
      addressesIn_entry isKey_allowedIPs hwf.allowedIPs, if_neg fun hand => hne hand.1,
      List.map_cons, List.cons_append,
      addressesIn_entry isKey_persistentKeepalive hwf.keepalive, if_neg fun hand => hne hand.1]
    exact ih hp.2 peerSection

/-- The interface part holds one address. -/
theorem addressesIn_serverText :
    addressesIn [] (((serverText h peers).splitOn '\n').map strip) = [h.address.text] := by
  have hheader (rest : List Text) : addressesIn [] ("[Interface]".toList :: rest) =
      addressesIn interfaceSection rest := by
    rw [addressesIn, if_pos (by decide +kernel)]
    congr 1
  have hstrip : strip "[Interface]".toList = "[Interface]".toList := by decide +kernel
  have hone := hh.values (addressKey, [h.address.text]) (by simp [Head.values])
  have hvalues : h.values = (addressKey, [h.address.text]) :: ((listenPortKey, [natText h.port]) ::
      (privateKeyKey, [h.privateKey]) :: h.hooks) := rfl
  have hne : ∀ item ∈ (listenPortKey, [natText h.port]) :: (privateKeyKey, [h.privateKey]) ::
      h.hooks, item.1 ≠ addressKey := by
    rw [List.forall_mem_cons, List.forall_mem_cons]
    refine ⟨show listenPortKey ≠ addressKey by decide +kernel,
      show privateKeyKey ≠ addressKey by decide +kernel, fun item hitem => ?_⟩
    rcases name_of_mem_hooks hitem with hname | hname
    · rw [hname]
      decide +kernel
    · rw [hname]
      decide +kernel
  have hitems := hh.values
  rw [hvalues, List.forall_mem_cons] at hitems
  rw [serverText, splitOn_unlines (lf_not_mem_serverLines hh hp), List.map_append, List.map_append,
    List.append_assoc, Head.lines, List.map_cons, hstrip, List.cons_append, hheader, hvalues,
    List.map_cons, List.map_cons, List.cons_append, addressesIn_entry hone.key hone.isValue,
    if_pos ⟨rfl, rfl⟩, addressesIn_entries hitems.2 hne, sentence_singleton,
    show [[]].map strip = [([] : Text)] from rfl, addressesIn_blocks hp]

/-- A server file of the form that `create` wrote passes, whatever blocks it has. -/
theorem validated_serverText (hcount : peers.length ≤ 253) :
    validatedWireguardHooks h.interface ".conf".toList (serverText h peers) = true := by
  have hlength := length_serverText_le hh hp
  have hplain : (serverText h peers).all isPlainByte = true :=
    plain_unlines (printable_serverLines hh hp)
  have hcandidate := mem_egressCandidates hh.interface hh.vpnInterface h.address.network.text
  rw [validatedWireguardHooks, hplain, addressesIn_serverText hh hp, hooks_serverText hh hp,
    hh.interface, utf8Length_serverText hh hp]
  have hmatch : (egressCandidates h.interface
      (expectedHooks h.interface h.address.network.text h.vpnInterface)).any (fun egress =>
        expectedHooks h.interface h.address.network.text h.vpnInterface ==
          expectedHooks h.interface h.address.network.text egress) = true :=
    List.any_eq_true.mpr ⟨_, hcandidate, beq_self_eq_true _⟩
  have hsize : (serverText h peers).length ≤ 256 * 1024 := by omega
  have hsome : (parseInterface h.address.text).filter (fun a => decide (a.prefixLength ≤ 31)) =
      some h.address := by
    rw [parseInterface_text, Option.filter_some, if_pos (decide_eq_true hh.prefixLength_le)]
  simp only [hsome, hmatch, hsize, decide_true, beq_self_eq_true, Bool.and_true, Bool.or_true]

end ServerText

/-! ## A client file -/

def clientLines (profile : Profile) (privateKey tunnelIp : Text) : List Text :=
  ["[Interface]".toList, entry privateKeyKey privateKey, entry addressKey (hostText tunnelIp),
    entry "DNS".toList profile.dns, [], "[Peer]".toList, entry publicKeyKey profile.serverPublicKey,
    entry "Endpoint".toList profile.endpoint, entry allowedIPsKey profile.allowedIps,
    entry persistentKeepaliveKey (intText profile.clientKeepalive)]

theorem clientText_eq (profile : Profile) (privateKey tunnelIp : Text) :
    clientText profile privateKey tunnelIp = unlines (clientLines profile privateKey tunnelIp) := by
  unfold clientText clientLines unlines
  generalize entry privateKeyKey privateKey = e1
  generalize entry addressKey (hostText tunnelIp) = e2
  generalize entry "DNS".toList profile.dns = e3
  generalize entry publicKeyKey profile.serverPublicKey = e4
  generalize entry "Endpoint".toList profile.endpoint = e5
  generalize entry allowedIPsKey profile.allowedIps = e6
  generalize entry persistentKeepaliveKey (intText profile.clientKeepalive) = e7
  simp

theorem isKey_endpoint : IsKey "Endpoint".toList :=
  ⟨by decide +kernel, by decide +kernel, forall_mem_of_all (by decide +kernel), 'E', _, rfl,
    by decide, by decide⟩

/-- The values of a client file are printable. -/
structure PlainClient (profile : Profile) (privateKey tunnelIp : Text) : Prop where
  privateKey : Printable privateKey
  tunnelIp : Printable (hostText tunnelIp)
  dns : Printable profile.dns
  serverPublicKey : Printable profile.serverPublicKey
  endpoint : Printable profile.endpoint
  allowedIps : Printable profile.allowedIps

theorem printable_intText (i : Int) : Printable (intText i) := by
  have hdigits (n : Nat) : Printable (natText n) := fun c hc => by
    have := toNat_of_mem_natText hc
    omega
  unfold intText
  split
  · intro c hc
    rcases List.mem_cons.mp hc with rfl | hc
    · decide
    · exact hdigits _ c hc
  · exact hdigits _

section ClientText
variable {profile : Profile} {privateKey tunnelIp : Text}
  (h : PlainClient profile privateKey tunnelIp)
include h

theorem printable_clientLines : ∀ l ∈ clientLines profile privateKey tunnelIp, Printable l := by
  have hnil : Printable [] := fun _ hc => absurd hc List.not_mem_nil
  have hheader : Printable "[Interface]".toList := printable_of_isWord (by decide +kernel)
  have hpeer : Printable "[Peer]".toList := printable_of_isWord (by decide +kernel)
  simp only [clientLines, List.forall_mem_cons]
  exact ⟨hheader, printable_entry (by decide +kernel) h.privateKey,
    printable_entry (by decide +kernel) h.tunnelIp, printable_entry (by decide +kernel) h.dns,
    hnil, hpeer, printable_entry (by decide +kernel) h.serverPublicKey,
    printable_entry (by decide +kernel) h.endpoint,
    printable_entry (by decide +kernel) h.allowedIps,
    printable_entry (by decide +kernel) (printable_intText _),
    fun _ hl => absurd hl List.not_mem_nil⟩

/-- A client file has no hooks. -/
theorem hooks_clientText : hooks (clientText profile privateKey tunnelIp) = [] := by
  have hlf : ∀ l ∈ clientLines profile privateKey tunnelIp, '\n' ∉ l := fun l hl hmem =>
    absurd (printable_clientLines h l hl '\n' hmem).1 (by decide)
  have hheader : hookOf "[Interface]".toList = none := by decide +kernel
  have hpeer : hookOf "[Peer]".toList = none := by decide +kernel
  have hblank : hookOf [] = none := rfl
  rw [clientText_eq, hooks_unlines hlf]
  simp only [clientLines, List.filterMap_cons, List.filterMap_nil, hheader, hpeer, hblank,
    hookOf_entry_of_not isKey_privateKey (by decide +kernel),
    hookOf_entry_of_not isKey_address (by decide +kernel),
    hookOf_entry_of_not isKey_dns (by decide +kernel),
    hookOf_entry_of_not isKey_publicKey (by decide +kernel),
    hookOf_entry_of_not isKey_endpoint (by decide +kernel),
    hookOf_entry_of_not isKey_allowedIPs (by decide +kernel),
    hookOf_entry_of_not isKey_persistentKeepalive (by decide +kernel)]

theorem plain_clientText : (clientText profile privateKey tunnelIp).all isPlainByte = true := by
  rw [clientText_eq]
  exact plain_unlines (printable_clientLines h)

end ClientText

end ExitLane.Ingress
