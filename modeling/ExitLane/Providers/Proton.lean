import ExitLane.Providers.Direct
import ExitLane.Providers.ProtonProfile

/-!
# Proton

`proton.py` over the lifecycle of a direct provider. There is no account: an administrator imports
profiles, and a generation is one of them together with the address its endpoint resolved to.
-/

namespace ExitLane.Providers.Proton

open Effect Egress Net Python Vpn

/-! ## Data -/

def interface : Iface := "wg-proton".toList
def maxProfiles : Nat := 32

/-- An imported profile under its key in the dictionary. -/
structure Item where
  key : Text
  id : Text
  name : Text
  countryCode : Option Text
  importedAt : Nat
  config : Profile
  deriving DecidableEq

/-- The dictionary of profiles, and the one that was used last. -/
structure Account where
  profiles : List Item
  lastProfileId : Option Text
  distinct : (profiles.map Item.key).Nodup
  keyed : ∀ item ∈ profiles, item.key = item.id
  deriving DecidableEq

structure Generation where
  generation : Text
  profileId : Text
  endpointAddress : Bits
  address : Bits
  deriving DecidableEq

abbrev State := Record Account Generation

/-- The state when nothing is stored. -/
def initial : State := ⟨1, ⟨[], none, List.nodup_nil, nofun⟩, none, none, false⟩

/-- `_state`. -/
def loadState : Act State State := load >>= fun s => pure (s.getD initial)

namespace Account

def find (a : Account) (id : Text) : Option Item := a.profiles.find? (·.key == id)

/-- `del profiles[id]`. -/
def remove (a : Account) (id : Text) : Account where
  profiles := a.profiles.filter (·.key != id)
  lastProfileId := a.lastProfileId
  distinct := (List.filter_sublist.map Item.key).nodup a.distinct
  keyed item h := a.keyed item (List.mem_of_mem_filter h)

/-- `profiles[key] = item`. -/
def put (a : Account) (item : Item) (hitem : item.key = item.id) : Account where
  profiles := (a.remove item.key).profiles ++ [item]
  lastProfileId := a.lastProfileId
  distinct := by
    rw [List.map_append, List.nodup_append]
    refine ⟨(a.remove item.key).distinct, List.pairwise_singleton _ _, fun id hid id' hid' => ?_⟩
    obtain ⟨other, hother, rfl⟩ := List.mem_map.mp hid
    rw [List.mem_singleton.mp hid']
    simpa using (List.mem_filter.mp hother).2
  keyed other h := by
    rcases List.mem_append.mp h with h | h
    · exact (a.remove item.key).keyed other h
    · rwa [List.mem_singleton.mp h]

/-- `profiles[id]["name"] = name`. -/
def rename (a : Account) (id name : Text) : Account where
  profiles := a.profiles.map fun item => if item.key = id then { item with name := name } else item
  lastProfileId := a.lastProfileId
  distinct := by
    rw [List.map_map]
    refine (List.map_congr_left fun item _ => ?_) ▸ a.distinct
    simp only [Function.comp]
    split <;> rfl
  keyed other h := by
    obtain ⟨item, hitem, rfl⟩ := List.mem_map.mp h
    split <;> exact a.keyed item hitem

end Account

/-- What a run of `connect` gets from outside. -/
structure Outside where
  /-- `secrets.randbelow`. -/
  pick : Nat
  /-- The first address that the resolver gives for the endpoint. -/
  resolved : Option Bits
  token : Token
  /-- How often the probe loop comes round before its deadline. -/
  attempts : Nat

/-! ## Selection and configuration -/

def isCountryCode (t : Text) : Bool := t.length == 2 && t.all Char.isAlpha

/-- The profiles that a target can mean, other than the one it names. -/
def candidates (s : State) : Option Text → List Item
  | none =>
    let remembered := (s.active.bind (·.generation)).map (·.profileId)
    match (remembered.or s.account.lastProfileId).bind s.account.find with
    | some item => [item]
    | none => s.account.profiles
  | some target =>
    if isCountryCode target then
      s.account.profiles.filter (·.countryCode == some (target.map Char.toUpper))
    else []

/-- The profile of `connect`. -/
def choose (o : Outside) (s : State) (target : Option Text) : Option Item :=
  match target.bind s.account.find with
  | some item => some item
  | none => (candidates s target)[o.pick % (candidates s target).length]?

/-- The address of a host: the one it spells, or what the resolver says. -/
def lookUp (o : Outside) (host : Text) : Act State (Option Bits) :=
  match IpAddress.parseIPv4 host with
  | some n => pure (some (bits n))
  | none => (call o.resolved).handle fun
    | .os => pure none
    | e => .raise e

variable (w : Platform)

/-- `_endpoint`. -/
def endpoint (o : Outside) (host : Text) : Act State Bits :=
  lookUp o host >>= fun
    | none => .raise (.api "proton_endpoint_unavailable".toList)
    | some a =>
      .demand (w.isGlobal a) (.api "proton_endpoint_invalid".toList) >>= fun _ => pure a

def egressConfig (p : Profile) (g : Generation) : EgressConfig where
  providerId := "proton".toList
  generation := g.generation
  interface := interface
  privateKey := p.privateKey
  address := bits p.address
  peerPublicKey := p.peerPublicKey
  endpointAddress := g.endpointAddress
  dnsAddress := bits p.dnsAddress
  endpointPort := p.endpointPort
  mtu := p.mtu
  dnsProbeHostname := "protonvpn.com".toList
  presharedKey := p.presharedKey

/-- `_config`. -/
def config (p : Profile) (g : Generation) : Except Raised EgressConfig :=
  if (egressConfig p g).isValid w then .ok (egressConfig p g)
  else .error (.egress .configurationInvalid)

/-- `_config` of the generation in an entry; its profile may be gone. -/
def configOf (s : State) : Entry Generation → Except Raised EgressConfig
  | .of g _ => match s.account.find g.profileId with
    | some item => config w item.config g
    | none => .error .value
  | .bare _ => .error .value

/-! ## Status -/

variable (T : Tunnel)

/-- Whether the active generation is seen to be connected. -/
def connectedNow (s : State) : Act State Bool :=
  match s.active with
  | none => pure false
  | some entry =>
    (liftExcept (configOf w s entry) >>= fun c => onHost (T.observe c)).handle fun e =>
      if isBroken e then pure false else .raise e

/-- `status`. -/
def status : Act State Status := do
  let s ← loadState
  let connected ← connectedNow w T s
  let installed ← inquire
  let configured := !s.account.profiles.isEmpty
  pure {
    installed := some installed
    available := some installed
    daemonActive := some installed
    authenticated := some configured
    connected := connected
    countryCode := (((s.active.bind (·.generation)).bind fun g => s.account.find g.profileId).bind
      (·.countryCode))
    errorCode := if installed then none else some "provider_wireguard_tools_unavailable".toList
    installation := some (if installed then .available else .notInstalled)
    authentication := some (if configured then .configured else .unconfigured) }

/-- `network_facts`. -/
def networkFacts : Act State TunnelFacts :=
  status w T >>= fun s => pure (tunnelFacts interface s.connected)

/-! ## Connect -/

/-- The generation that a run of `connect` makes. -/
def made (o : Outside) (item : Item) (address : Bits) : Generation :=
  ⟨o.token.text, item.id, address, bits item.config.address⟩

/-- An entry becomes the active one. -/
def settle (entry : Entry Generation) (_ : Observation) (s : State) : State :=
  { s with active := some entry, pending := none }

/-- The candidate becomes the active one, and its profile the last that was used. -/
def settleNew (o : Outside) (item : Item) (address : Bits) (_ : Observation) (s : State) : State :=
  { s with
    active := some (.of (made o item address) none)
    pending := none
    account := { s.account with lastProfileId := some item.id } }

/-- The body of the `try` in `connect`. -/
def attempt (owns : Bool) (o : Outside) (item : Item) :
    Act State Result := do
  let address ← endpoint w o item.config.endpointHost
  let c ← liftExcept (config w item.config (made o item address))
  mutate fun m => { m with pending := some (.of (made o item address) none) }
  save
  launch T (networkFacts w T) owns c o.attempts (fun _ => "vpn_connect_timeout".toList)
    (settleNew o item address)

/-- The previous generation is started again; false if that is not possible. -/
def restorePrevious (previous : Entry Generation) : Act State Bool :=
  (restart T
    (do
      let s ← .look (·.vault.memory)
      .demand (previous.generation.any fun g => (s.account.find g.profileId).isSome) .value
      let ingress ← onFirewall Killswitch.configuredIngress
      let c ← liftExcept (configOf w s previous)
      pure (c, ingress))
    (settle previous)).handle fun e => if isBroken e then pure false else .raise e

/-- `except (OSError, ProviderWireGuardError)`. -/
def isLocal : Raised → Bool
  | .egress _ | .os => true
  | _ => false

/-- The local part of a rollback that restores nothing. -/
def dismantle (disarms : Bool) : Act State Bool :=
  tearDown isLocal do
    onHost (T.stopInterface interface)
    onHost (T.removeConfig interface)
    .when disarms (onFirewall Killswitch.configuredIngress >>= fun ingress =>
      onHost (T.disarm ingress interface))

/-- What stays in the record when nothing was restored. -/
def leftover (previous candidate : Option (Entry Generation)) (toreDown : Bool) (s : State) :
    State :=
  if toreDown then { s with pending := previous.or s.pending, teardownFailed := false }
  else { s with
    pending := some ((previous.or candidate).getD (.bare .failedConnect))
    teardownFailed := true }

/-- The end of `_restore`. -/
def abandon (previous candidate : Option (Entry Generation)) : Act State Bool := do
  let toreDown ← dismantle T (previous.isNone && candidate.isSome)
  mutate (leftover previous candidate toreDown)
  save
  pure false

/-- The branch of `_restore` with a previous generation. -/
def restoreTo (previous : Entry Generation)
    (candidate : Option (Entry Generation)) : Act State Bool := do
  mutate fun m => { m with pending := some previous }
  save
  let restored ← restorePrevious w T previous
  if restored then pure true else abandon T (some previous) candidate

/-- `_restore`. -/
def restore (previous : Option (Entry Generation)) :
    Act State Bool := do
  let candidate ← .look (·.vault.memory.pending)
  mutate fun m => { m with active := none, pending := none }
  match previous with
  | some p => restoreTo w T p candidate
  | none => abandon T none candidate

/-- `connect` up to its `try`: the record in memory and the profile, or the code of a refusal. -/
def enter (owns : Bool) (o : Outside) (target : Option Text) :
    Act State (Except String (State × Item)) :=
  loadState >>= fun s =>
    if s.account.profiles.isEmpty then pure (.error "proton_profile_required")
    else match choose o s target with
      | none => pure (.error "proton_profile_not_found")
      | some item =>
        armed owns >>= fun ok =>
          if ok then mutate (fun _ => s) >>= fun _ => pure (.ok (s, item))
          else pure (.error "firewall_apply_failed")

/-- `connect`. -/
def connect (owns : Bool) (o : Outside) (target : Option Text) : Act State Result :=
  enter owns o target >>= fun
    | .error code => pure (.failure code)
    | .ok (s, item) => (attempt w T owns o item).handle
        (connectHandler T (networkFacts w T) owns (restore w T s.active))

/-! ## Disconnect -/

/-- The generations are forgotten. -/
def cleared (s : State) : State := { s with active := none, pending := none }

/-- The source guard for the address of an active generation. -/
def guardSource : Option (Entry Generation) → Act State Unit
  | none => pure ()
  | some (.of g _) => onHost (T.armSource interface g.address)
  | some (.bare _) => .raise .value

/-- The body of the `try` in `disconnect`. -/
def release (owns : Bool) : Act State Result := do
  .when owns (onFirewall Killswitch.arm)
  let s ← loadState
  let ingress ← onFirewall Killswitch.configuredIngress
  guardSource T s.active
  onHost (T.stopInterface interface)
  onHost (T.disarm ingress interface)
  onHost (T.removeConfig interface)
  mutate fun _ => cleared s
  save
  .when owns completeClosed
  pure .success

/-- `disconnect`. -/
def disconnect (owns : Bool) : Act State Result :=
  (release T owns).handle fun
    | .value | .os | .egress _ | .secret | .killswitch =>
      pure (.failure "provider_disconnect_failed")
    | e => .raise e

/-! ## Profiles -/

/-- `DISPLAY_NAME`. -/
def isDisplayName (t : Text) : Bool :=
  t.length ≤ 80 && t.head?.any Char.isAlphanum &&
    t.all fun c => c.isAlphanum || " ._()-".toList.contains c

/-- What a run of `import_profile` gets from outside: the identifier and the time. -/
structure Import where
  identifier : Text
  importedAt : Nat

/-- The profile as it is stored. -/
def item (o : Import) (name : Text) (country : Option Text) (parsed : Profile) : Item :=
  ⟨o.identifier, o.identifier, strip name, country.map (·.map Char.toUpper), o.importedAt, parsed⟩

/-- The profile is added to the state that is stored. -/
def addProfile (o : Import) (name : Text) (country : Option Text) (parsed : Profile) :
    Act State Result :=
  loadState >>= fun s =>
    if maxProfiles ≤ s.account.profiles.length then pure (.failure "proton_profile_limit")
    else if s.account.profiles.any (·.config == parsed) then
      pure (.failure "proton_profile_duplicate")
    else do
      mutate fun _ => { s with account := s.account.put (item o name country parsed) rfl }
      save
      pure .success

/-- `import_profile`. -/
def importProfile (v : Ipv6) (o : Import) (content name : Text)
    (country : Option Text) : Act State Result :=
  if isDisplayName (strip name) && country.all isCountryCode then
    match parseProfile w v content with
    | none => pure (.failure "invalid_proton_profile")
    | some parsed => (addProfile o name country parsed).handle fun
      | .secret => pure ⟨false, some (errorCode .secret)⟩
      | e => .raise e
  else pure (.failure "invalid_proton_profile_metadata")

/-- `rename_profile`. -/
def renameProfile (identifier name : Text) : Act State Result :=
  if isDisplayName (strip name) then
    loadState >>= fun s =>
      if (s.account.find identifier).isNone then pure (.failure "proton_profile_not_found")
      else do
        mutate fun _ => { s with account := s.account.rename identifier (strip name) }
        save
        pure .success
  else pure (.failure "invalid_proton_profile_metadata")

/-- Whether a generation of the state uses the profile. -/
def isUsed (s : State) (identifier : Text) : Bool :=
  [s.active, s.pending].any fun entry =>
    (entry.bind (·.generation)).any (·.profileId == identifier)

/-- The state without a profile. -/
def without (s : State) (identifier : Text) : State :=
  { s with account := { s.account.remove identifier with
      lastProfileId := s.account.lastProfileId.filter (· != identifier) } }

/-- The configuration file of the last profile goes with it; false if it cannot be removed. -/
def forgetConfig (s : State) (identifier : Text) : Act State Bool :=
  if s.account.lastProfileId == some identifier && s.active.isNone && s.pending.isNone then
    (onHost (T.removeConfig interface) >>= fun _ => pure true).handle fun
      | .os => pure false
      | e => .raise e
  else pure true

/-- `delete_profile`. -/
def deleteProfile (identifier : Text) : Act State Result :=
  loadState >>= fun s =>
    if (s.account.find identifier).isNone then pure (.failure "proton_profile_not_found")
    else if isUsed s identifier then pure (.failure "proton_profile_active")
    else forgetConfig T s identifier >>= fun ok =>
      if ok then do
        mutate fun _ => without s identifier
        save
        pure .success
      else pure (.failure "proton_profile_cleanup_failed")

end ExitLane.Providers.Proton
