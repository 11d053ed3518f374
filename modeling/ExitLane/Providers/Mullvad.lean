import ExitLane.Providers.Direct

/-!
# Mullvad

`mullvad.py` over the lifecycle of a direct provider. One device with one key belongs to the
account; a generation is a relay. What the API answers in a run is given as `Outside`; each call
may raise instead.
-/

namespace ExitLane.Providers.Mullvad

open Effect Egress Net Python Vpn

/-! ## Data -/

def interface : Iface := "wg-mullvad".toList
def defaultPort : Nat := 51820
def defaultMtu : Nat := 1380

/-- `DNS_ADDRESS`, 10.64.0.1. -/
def dnsAddress : Bits := octet 10 ++ octet 64 ++ octet 0 ++ octet 1

/-- What `connect` reads of a device. -/
structure Device where
  pubkey : Text

structure Relay where
  hostname : Text
  countryCode : Text
  endpoint : Bits
  pubkey : Text
  deriving DecidableEq

inductive Registration where
  | pending
  | registered
  deriving DecidableEq

structure Account where
  registration : Registration
  privateKey : Text
  publicKey : Text
  ipv4Address : Option Bits
  deriving DecidableEq

structure Generation where
  generation : Text
  relay : Relay
  handshake : Option Nat
  deriving DecidableEq

abbrev State := Record Account Generation

/-- What a run of `connect` gets from outside. -/
structure Outside where
  devices : List Device
  relays : List Relay
  /-- `secrets.randbelow`. -/
  pick : Nat
  token : Token
  /-- How often the probe loop comes round before its deadline. -/
  attempts : Nat
  /-- `str.casefold`. -/
  casefold : Text → Text

/-! ## Selection and configuration -/

/-- `COUNTRY_CODE_PATTERN`. -/
def isCountryCode (t : Text) : Bool := t.length == 2 && t.all Char.isLower

/-- `HOSTNAME_PATTERN`. -/
def isHostname (t : Text) : Bool :=
  1 ≤ t.length && t.length ≤ 63 && t.all (fun c => c.isLower || c.isDigit || c == '-') &&
    t.head? != some '-' && t.getLast? != some '-'

/-- The candidates of `_select_relay`. -/
def candidates (casefold : Text → Text) (relays : List Relay) (target : Option Text) : List Relay :=
  match target.filter (· != []) with
  | none => relays
  | some t =>
    if isCountryCode (casefold t) then relays.filter (·.countryCode == casefold t)
    else if isHostname (casefold t) then relays.filter (·.hostname == casefold t)
    else []

/-- `_select_relay`. -/
def selectRelay (o : Outside) (target : Option Text) : Except Raised Relay :=
  let found := candidates o.casefold o.relays target
  match found[o.pick % found.length]? with
  | some relay => .ok relay
  | none => .error (.api "relay_unavailable".toList)

def egressConfig (a : Account) (address : Bits) (relay : Relay) (generation : Text) :
    EgressConfig where
  providerId := "mullvad".toList
  generation := generation
  interface := interface
  privateKey := a.privateKey
  address := address
  peerPublicKey := relay.pubkey
  endpointAddress := relay.endpoint
  dnsAddress := dnsAddress
  endpointPort := defaultPort
  mtu := defaultMtu
  dnsProbeHostname := "mullvad.net".toList
  presharedKey := none

variable (w : Platform)

/-- `_config`. -/
def config (a : Account) (relay : Relay) (generation : Text) : Except Raised EgressConfig :=
  if w.publicKey a.privateKey = some a.publicKey then
    match a.ipv4Address with
    | none => .error .value
    | some address =>
      if (egressConfig a address relay generation).isValid w then
        .ok (egressConfig a address relay generation)
      else .error (.egress .configurationInvalid)
  else .error (.egress .configurationInvalid)

/-- `_config` of the generation in an entry. -/
def configOf (s : State) : Entry Generation → Except Raised EgressConfig
  | .of g _ => config w s.account g.relay g.generation
  | .bare _ => .error .value

/-! ## Status -/

/-- `_legacy_conflict`: the daemon is active, or its nft table is there. -/
def legacyConflict : Act State Bool := do
  let daemon ← inquire
  let table ← inquire
  pure (daemon || table)

variable (T : Tunnel)

/-- Whether the active generation is seen to be connected. -/
def connectedNow (s : State) : Act State Bool :=
  match s.active with
  | none => pure false
  | some entry =>
    (liftExcept (configOf w s entry) >>= fun c => onHost (T.observe c)).handle fun e =>
      if isBroken e then pure false else .raise e

def isRegistered (s : Option State) : Bool := s.any (·.account.registration == .registered)

/-- Whether the provider counts as connected. -/
def isConnected (conflict : Bool) : Option State → Act State Bool
  | none => pure false
  | some s => if !conflict && isRegistered (some s) then connectedNow w T s else pure false

/-- `status`. -/
def status : Act State Status := do
  let s ← load
  let installed ← inquire
  let conflict ← legacyConflict
  let connected ← isConnected w T conflict s
  pure {
    installed := some installed
    available := some (installed && !conflict)
    daemonActive := some (installed && !conflict)
    authenticated := some (isRegistered s)
    connected := connected
    countryCode := (s.bind (·.active)).bind fun entry => entry.generation.map (·.relay.countryCode)
    errorCode :=
      if conflict then some "legacy_mullvad_runtime_conflict".toList
      else if installed then none
      else some "provider_wireguard_tools_unavailable".toList
    installation :=
      some (if conflict then .failed else if installed then .available else .notInstalled)
    authentication := some (if isRegistered s then .signedIn else .signedOut) }

/-- `network_facts`. -/
def networkFacts : Act State TunnelFacts :=
  status w T >>= fun s => pure (tunnelFacts interface s.connected)

/-! ## Connect -/

/-- The generation that a run of `connect` makes. -/
def made (o : Outside) (relay : Relay) (handshake : Option Nat) : Generation :=
  ⟨o.token.text, relay, handshake⟩

/-- The error of a probe loop that ran out. -/
def lateCode (seen : Observation) : Text :=
  if seen.dataplane && 0 < seen.handshake && !seen.dns then "provider_dns_unavailable".toList
  else "vpn_connect_timeout".toList

/-- The candidate becomes the active generation. -/
def settle (o : Outside) (relay : Relay) (seen : Observation) (s : State) : State :=
  { s with active := some (.of (made o relay (some seen.handshake)) none), pending := none }

/-- The body of the `try` in `connect`. -/
def attempt (owns : Bool) (o : Outside) (target : Option Text)
    (s : State) : Act State Result := do
  let devices ← call o.devices
  .demand (devices.any (·.pubkey == s.account.publicKey)) (.api "device_revoked".toList)
  let _ ← call o.relays
  let relay ← liftExcept (selectRelay o target)
  let c ← liftExcept (config w s.account relay o.token.text)
  mutate fun m => { m with pending := some (.of (made o relay none) none) }
  save
  launch T (networkFacts w T) owns c o.attempts lateCode (settle o relay)

/-- The intent to restore a generation. -/
def restoring : Entry Generation → Entry Generation
  | .of g _ => .of { g with handshake := none } (some .restorePrevious)
  | .bare _ => .bare .restorePrevious

/-- The generation as it becomes active again. -/
def resettle (previous : Entry Generation) (seen : Observation) (s : State) : State :=
  { s with
    active := some (match previous with
      | .of g mark => .of { g with handshake := some seen.handshake } mark
      | .bare mark => .bare mark)
    pending := none }

/-- Starts the previous generation again; false if that is not possible. -/
def restore (previous : Entry Generation) : Act State Bool :=
  (restart T
    (do
      let s ← .look (·.vault.memory)
      let c ← liftExcept (configOf w s previous)
      let ingress ← onFirewall Killswitch.configuredIngress
      pure (c, ingress))
    (resettle previous)).handle fun e => if isBroken e then pure false else .raise e

/-- The interface is stopped; a failure is remembered in the record. -/
def stop : Act State Unit :=
  tearDown isEgress (onHost (T.stopInterface interface)) >>= fun ok =>
    .when (!ok) (mutate fun m => { m with teardownFailed := true })

/-- The branch of `_rollback_connection` with a previous generation. -/
def rollbackTo (previous : Entry Generation) : Act State Bool := do
  mutate fun m => { m with pending := some (restoring previous) }
  let restored ← restore w T previous
  if restored then pure true
  else do
    note .restoreFailed
    stop T
    save
    pure false

/-- The branch of `_rollback_connection` without one: the candidate stays as an intent. -/
def rollbackFirst (candidate : Option (Entry Generation)) : Act State Bool := do
  stop T
  .when candidate.isNone (note .nothingToKeep)
  mutate fun m => { m with pending := some (candidate.getD (.bare .failedConnect)) }
  save
  pure false

/-- `_rollback_connection`. -/
def rollback (previous : Option (Entry Generation)) :
    Act State Bool := do
  let candidate ← .look (·.vault.memory.pending)
  mutate fun m => { m with active := none, pending := none }
  match previous with
  | some p => rollbackTo w T p
  | none => rollbackFirst T candidate

/-- `connect`. -/
def connect (owns : Bool) (o : Outside) (target : Option Text) : Act State Result :=
  load >>= fun
    | none => pure (.failure "provider_authentication_required")
    | some s =>
      if s.account.registration = .registered then
        armed owns >>= fun ok =>
          if ok then do
            mutate fun _ => s
            (attempt w T owns o target s).handle
              (connectHandler T (networkFacts w T) owns (rollback w T s.active))
          else pure (.failure "firewall_apply_failed")
      else pure (.failure "provider_authentication_required")

end ExitLane.Providers.Mullvad
