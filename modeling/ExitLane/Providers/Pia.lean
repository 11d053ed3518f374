import ExitLane.Providers.Direct

/-!
# Private Internet Access

`pia.py` over the lifecycle of a direct provider. A generation has a key of its own that the
selected server accepts; since a server may drop the key before when it accepts the next one, a
rollback registers the key of the previous generation again before it gives up.
-/

namespace ExitLane.Providers.Pia

open Effect Egress Net Python Vpn

/-! ## Data -/

def interface : Iface := "wg-pia".toList

structure Server where
  regionId : Text
  countryCode : Text
  hostname : Text
  address : Bits
  deriving DecidableEq

def Server.selectionId (s : Server) : Text := s.regionId ++ '.' :: s.hostname

/-- `PiaKeyResponse`. -/
structure KeyResponse where
  peerIp : Bits
  serverKey : Text
  serverPort : Nat
  dnsAddress : Bits
  deriving DecidableEq

/-- What `PiaKeyResponse.parse` asks for. -/
structure KeyResponse.Parsed (w : Platform) (r : KeyResponse) : Prop where
  source : isSource r.peerIp = true
  key : w.isKey r.serverKey = true
  port : 1 ≤ r.serverPort ∧ r.serverPort ≤ 65535
  dns : isSource r.dnsAddress = true

structure Account where
  username : Text
  password : Text
  deriving DecidableEq

structure Generation where
  generation : Text
  server : Server
  response : KeyResponse
  privateKey : Text
  publicKey : Text
  address : Bits
  deriving DecidableEq

abbrev State := Record Account Generation

/-- What a run of `connect` gets from outside. -/
structure Outside (w : Platform) where
  servers : List Server
  /-- `secrets.randbelow`. -/
  pick : Nat
  keys : KeyPair w
  response : KeyResponse
  parsed : response.Parsed w
  token : Token
  /-- How often the probe loop comes round before its deadline. -/
  attempts : Nat
  /-- The answer to a key that is registered again. -/
  renewed : KeyResponse
  renewedParsed : renewed.Parsed w
  /-- `str.casefold`. -/
  casefold : Text → Text

/-! ## Selection and configuration -/

/-- The candidates of `_select`. -/
def candidates (casefold : Text → Text) (servers : List Server) : Option Text → List Server
  | none => servers
  | some target => servers.filter fun s =>
      casefold s.countryCode == casefold target || s.selectionId == casefold target ||
        s.regionId == casefold target

/-- `_select`. -/
def select {w : Platform} (o : Outside w) (target : Option Text) : Except Raised Server :=
  let found := candidates o.casefold o.servers target
  match found[o.pick % found.length]? with
  | some server => .ok server
  | none => .error (.api "relay_unavailable".toList)

def egressConfig (g : Generation) : EgressConfig where
  providerId := "pia".toList
  generation := g.generation
  interface := interface
  privateKey := g.privateKey
  address := g.response.peerIp
  peerPublicKey := g.response.serverKey
  endpointAddress := g.server.address
  dnsAddress := g.response.dnsAddress
  endpointPort := g.response.serverPort
  mtu := 1380
  dnsProbeHostname := "privateinternetaccess.com".toList
  presharedKey := none

variable (w : Platform)

/-- `_config`. -/
def config (g : Generation) : Except Raised EgressConfig :=
  if w.publicKey g.privateKey = some g.publicKey ∧ (egressConfig g).isValid w then
    .ok (egressConfig g)
  else .error (.egress .configurationInvalid)

/-- `_config` of the generation in an entry. -/
def configOf : Entry Generation → Except Raised EgressConfig
  | .of g _ => config w g
  | .bare _ => .error .value

/-! ## Status -/

variable (T : Tunnel)

/-- Whether the active generation is seen to be connected. -/
def connectedNow : Option (Entry Generation) → Act State Bool
  | none => pure false
  | some entry =>
    (liftExcept (configOf w entry) >>= fun c => onHost (T.observe c)).handle fun e =>
      if isBroken e then pure false else .raise e

/-- `status`. -/
def status : Act State Status := do
  let s ← load
  let installed ← inquire
  let connected ← connectedNow w T (s.bind (·.active))
  pure {
    installed := some installed
    available := some installed
    daemonActive := some installed
    authenticated := some s.isSome
    connected := connected
    countryCode := (s.bind (·.active)).bind fun entry => entry.generation.map (·.server.countryCode)
    errorCode := if installed then none else some "provider_wireguard_tools_unavailable".toList
    installation := some (if installed then .available else .notInstalled)
    authentication := some (if s.isSome then .signedIn else .signedOut) }

/-- `network_facts`. -/
def networkFacts : Act State TunnelFacts :=
  status w T >>= fun s => pure (tunnelFacts interface s.connected)

/-! ## Connect -/

/-- The generation that a run of `connect` makes. -/
def made {w : Platform} (o : Outside w) (server : Server) : Generation :=
  ⟨o.token.text, server, o.response, o.keys.privateKey, o.keys.publicKey, o.response.peerIp⟩

/-- The error of a probe loop that ran out. -/
def lateCode (seen : Observation) : Text :=
  if seen.dataplane && !seen.dns then "provider_dns_unavailable".toList
  else "vpn_connect_timeout".toList

/-- An entry becomes the active one. -/
def settle (entry : Entry Generation) (_ : Observation) (s : State) : State :=
  { s with active := some entry, pending := none }

/-- The body of the `try` in `connect`. -/
def attempt (owns : Bool) (o : Outside w) (target : Option Text) :
    Act State Result := do
  let _ ← call o.servers
  let server ← liftExcept (select o target)
  let _ ← call o.response
  let c ← liftExcept (config w (made o server))
  mutate fun m => { m with pending := some (.of (made o server) none) }
  save
  launch T (networkFacts w T) owns c o.attempts lateCode (settle (.of (made o server) none))

/-- A start of an earlier generation, from its entry. -/
def prepare (entry : Entry Generation) : Act State (EgressConfig × List Iface) := do
  let c ← liftExcept (configOf w entry)
  let ingress ← onFirewall Killswitch.configuredIngress
  pure (c, ingress)

/-- The previous generation is started as it was. -/
def restore (previous : Entry Generation) : Act State Bool :=
  (restart T (prepare w previous) (settle previous)).handle fun e =>
    if isBroken e then pure false else .raise e

/-- The previous generation with the answer to its key registered again. -/
def renew {w : Platform} (o : Outside w) : Entry Generation → Option (Entry Generation)
  | .of g mark => some (.of { g with response := o.renewed, address := o.renewed.peerIp } mark)
  | .bare _ => none

/-- `except (KeyError, TypeError, ValueError, PiaApiError, ProviderWireGuardError)`. -/
def isRefused : Raised → Bool
  | .egress _ | .value | .api _ => true
  | _ => false

/-- The start of a generation whose key was registered again. -/
def startRenewed (o : Outside w) :
    Option (Entry Generation) → Act State Bool
  | none => .raise .value
  | some restored => do
    let _ ← call o.renewed
    mutate fun m => { m with pending := some restored }
    save
    restart T (prepare w restored) (settle restored)

/-- The key of the previous generation is registered again. -/
def reregister (o : Outside w) (previous : Entry Generation) : Act State Bool :=
  (startRenewed w T o (renew o previous)).handle fun e =>
    if isRefused e then pure false else .raise e

/-- The local part of a rollback that restores nothing. -/
def dismantle (disarms : Bool) : Act State Bool :=
  tearDown isEgress do
    onHost (T.stopInterface interface)
    .when disarms (onFirewall Killswitch.configuredIngress >>= fun ingress =>
      onHost (T.disarm ingress interface))

/-- What stays in the record when nothing was restored. -/
def leftover (previous candidate : Option (Entry Generation)) (toreDown : Bool) (s : State) :
    State :=
  let s := if toreDown then s else { s with teardownFailed := true }
  match previous with
  | some p => { s with pending := some p }
  | none =>
    if toreDown then { s with teardownFailed := false }
    else { s with pending := some (candidate.getD (.bare .failedConnect)) }

/-- The end of `_rollback`. -/
def abandon (previous candidate : Option (Entry Generation)) : Act State Bool := do
  let toreDown ← dismantle T (previous.isNone && candidate.isSome)
  mutate (leftover previous candidate toreDown)
  save
  pure false

/-- The branch of `_rollback` with a previous generation. -/
def rollbackTo (o : Outside w) (previous : Entry Generation)
    (candidate : Option (Entry Generation)) : Act State Bool := do
  mutate fun m => { m with pending := some previous }
  save
  let restored ← restore w T previous
  if restored then pure true
  else do
    let renewed ← reregister w T o previous
    if renewed then pure true else abandon T (some previous) candidate

/-- `_rollback`. -/
def rollback (o : Outside w) (previous : Option (Entry Generation)) :
    Act State Bool := do
  let candidate ← .look (·.vault.memory.pending)
  mutate fun m => { m with active := none, pending := none }
  match previous with
  | some p => rollbackTo w T o p candidate
  | none => abandon T none candidate

/-- `connect` up to its `try`: the record in memory, or the code of a refusal. -/
def enter (owns : Bool) : Act State (Except String State) :=
  load >>= fun
    | none => pure (.error "provider_authentication_required")
    | some s =>
      armed owns >>= fun ok =>
        if ok then mutate (fun _ => s) >>= fun _ => pure (.ok s)
        else pure (.error "firewall_apply_failed")

/-- `connect`. -/
def connect (owns : Bool) (o : Outside w) (target : Option Text) : Act State Result :=
  enter owns >>= fun
    | .error code => pure (.failure code)
    | .ok s => (attempt w T owns o target).handle
        (connectHandler T (networkFacts w T) owns (rollback w T o s.active))

/-- The record of a new account. -/
def fresh (username password : Text) : State := ⟨1, ⟨username, password⟩, none, none, false⟩

end ExitLane.Providers.Pia
