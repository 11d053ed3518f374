import ExitLane.Egress.Base

/-!
# `ProviderWireGuard`

`provider_wireguard.py` owns one policy table. Its guard is an unreachable default in
that table for each family, a rule for every protected ingress interface, and a rule for
every guarded source address; the provider interface adds a default route with a better
metric and a rule for its own probes. The methods below are the source's, one by one, over
the commands of the host.
-/

namespace ExitLane.Egress

open Effect Net Python

/-! ## Constants -/

def tableId : Nat := 51820
def sourceRulePriority : Nat := 0
def rulePriority : Nat := 20000
def probeRulePriority : Nat := 19999
def routeProtocol : Protocol := .number 196
def unreachableMetric : Nat := 42760
def providerMetric : Nat := 10

/-- The built-in table `local`. -/
def localTable : Nat := 255

/-- Eight bits, the highest first. -/
def octet (n : Nat) : Bits := (List.range 8).map fun i => n.testBit (7 - i)

/-- `PROBE_ADDRESS`, 1.1.1.1. -/
def probeAddress : Bits := octet 1 ++ octet 1 ++ octet 1 ++ octet 1

variable (i : Iface)

/-- `INTERFACE_PATTERN`. -/
def isInterface : Bool :=
  1 ≤ i.length && i.length ≤ 15 && i.all fun c => c.isAlphanum || c == '_' || c == '.' || c == '-'

/-- `_source_address`: one IPv4 address that is not unspecified, multicast, loopback or
link-local. -/
def isSource (a : Bits) : Bool :=
  a.length == 32 && a.any id && !(List.isPrefixOf [true, true, true, false] a) &&
    !(List.isPrefixOf (octet 127) a) && !(List.isPrefixOf (octet 169 ++ octet 254) a)

def sourceAddress (a : Bits) : Act Bits :=
  if isSource a then pure a else raiseEgress .configurationInvalid

/-- What `EgressConfig.validated` takes from libraries. -/
structure Platform where
  /-- `_wireguard_key`: 44 characters of base64 for 32 bytes. -/
  isKey : Text → Bool
  /-- `IPv4Address.is_global`. -/
  isGlobal : Bits → Bool
  /-- `_public_key_for_private`. -/
  publicKey : Text → Option Text

private def isLabel (t : Text) : Bool :=
  1 ≤ t.length && t.length ≤ 63 && t.all (fun c => c.isAlphanum || c == '-') &&
    t.head? != some '-' && t.getLast? != some '-'

/-- `EgressConfig.validated`. -/
def EgressConfig.isValid (w : Platform) (c : EgressConfig) : Bool :=
  (1 ≤ c.providerId.length && c.providerId.length ≤ 32 &&
    c.providerId.head?.any Char.isLower &&
    c.providerId.all fun x => x.isLower || x.isDigit || x == '_' || x == '-') &&
  (c.generation != [] && c.generation.length ≤ 64 && c.generation.all fun x => x.toNat < 128) &&
  isInterface c.interface && w.isKey c.privateKey && w.isKey c.peerPublicKey &&
  c.presharedKey.all w.isKey && c.address.length == 32 && w.isGlobal c.endpointAddress &&
  c.dnsAddress.length == 32 && (1 ≤ c.endpointPort && c.endpointPort ≤ 65535) &&
  (1280 ≤ c.mtu && c.mtu ≤ 1420) && c.dnsProbeHostname.length ≤ 253 &&
  (c.dnsProbeHostname.splitOn '.').all isLabel

def validated (w : Platform) (c : EgressConfig) : Act EgressConfig :=
  if c.isValid w then pure c else raiseEgress .configurationInvalid

/-! ## Ownership -/

inductive Direction where
  | iif
  | oif
  deriving DecidableEq

/-- A rule that `ProviderWireGuard` may own. -/
structure Expected where
  priority : Nat
  direction : Direction
  interface : Iface
  deriving DecidableEq

def ingressRule : Expected := ⟨rulePriority, .iif, i⟩
def probeRule : Expected := ⟨probeRulePriority, .oif, i⟩

def Expected.rule (e : Expected) : Rule where
  priority := e.priority
  src := none
  dst := none
  iif := if e.direction = .iif then some e.interface else none
  oif := if e.direction = .oif then some e.interface else none
  extra := none
  table := tableId
  protocol := routeProtocol

def sourceRule (a : Bits) : Rule :=
  ⟨sourceRulePriority, some a, none, none, none, none, tableId, routeProtocol⟩

/-- `_owned_rule`. A rule is shown as detached while its interface does not exist. -/
def ownedRule (h : Host) (r : Rule) (e : Expected) : Bool := r == e.rule && h.has e.interface

/-- `_owned_source_rule`. -/
def ownedSourceRule (r : Rule) : Bool := r.src.any fun a => isSource a && r == sourceRule a

/-- `_local_rule`. -/
def localRule (r : Rule) : Bool :=
  r.priority == 0 && r.src.isNone && r.dst.isNone && r.iif.isNone && r.oif.isNone &&
    r.extra.isNone && r.table == localTable &&
    (r.protocol == .unset || r.protocol == .name "kernel".toList || r.protocol == .number 2)

/-- `_owned_route`. -/
def ownedRoute (r : Route) (egress : Option Iface) : Bool :=
  r.protocol == routeProtocol && r.dst == [] &&
    ((r.kind == .unreachable && r.metric == unreachableMetric) ||
      (r.kind == .unicast && r.metric == providerMetric && egress.isSome && r.dev == egress))

def unreachableDefault : Route :=
  ⟨tableId, [], unreachableMetric, .unreachable, .link, none, routeProtocol⟩

def providerDefault : Route :=
  ⟨tableId, [], providerMetric, .unicast, .link, some i, routeProtocol⟩

def providerDefaultSpec : RouteSpec :=
  ⟨tableId, [], providerMetric, routeProtocol, some i⟩

/-- The arguments of `ip rule del` in `_delete_rule`. -/
def Expected.spec (e : Expected) : RuleSpec where
  priority := some e.priority
  dst := none
  iif := if e.direction = .iif then some e.interface else none
  oif := if e.direction = .oif then some e.interface else none
  table := some tableId
  protocol := some routeProtocol

/-! ## Checks -/

/-- `_check_table_ownership`. -/
def checkTableOwnership (f : Family) (egress : Option Iface) (others : List Iface) : Act Unit :=
  json (fun h => (h.routes f).filter (·.table == tableId)) >>= fun routes =>
    .demand (routes.all fun r => (egress :: others.map some).any (ownedRoute r))
      (.egress .resourceConflict)

/-- `_check_source_rule_order`. -/
def sourceOrderOk (rules : List Rule) (required : Bool) : Bool :=
  match rules.filter (·.priority == 0) with
  | [] => !required
  | first :: rest => localRule first && rest.all ownedSourceRule

/-- `_check_source_assignment`. -/
def checkSourceAssignment (source : Bits) (i : Option Iface) : Act Unit :=
  json (fun h => h.links) >>= fun links =>
    .demand (links.all fun l => some l.name == i || !l.addresses.contains source)
      (.egress .resourceConflict)

/-- What `_preflight` asks of the rules of one family. -/
def preflightRulesOk (h : Host) (f : Family) (expected : List Expected) (sourced : Bool) : Bool :=
  (f == .v6 || sourceOrderOk (h.rules f).rules sourced) &&
    (h.rules f).rules.all fun r =>
      !(r.priority == rulePriority || r.priority == probeRulePriority) ||
        (expected.any (ownedRule h r) && !(f == .v6 && r.priority == probeRulePriority))

variable (ingress : List Iface) (egress : Option Iface)

def expectedRules (others : List Iface) : List Expected :=
  ingress.map ingressRule ++ (egress.toList ++ others).map probeRule

/-- `_preflight` for one family. -/
def preflightFamily (sourced : Bool)
    (others : List Iface) (f : Family) : Act Unit := do
  checkTableOwnership f egress others
  json (fun h => preflightRulesOk h f (expectedRules ingress egress others) sourced) >>=
    fun ok => .demand ok (.egress .resourceConflict)

/-- `_preflight`. -/
def preflight (source : Option Bits)
    (others : List Iface) : Act Unit := do
  .optionally source fun a => checkSourceAssignment a egress
  [Family.v4, .v6].forM (preflightFamily ingress egress source.isSome others)

/-! ## The guard -/

def replaceUnreachable (f : Family) : Act Unit := run (Host.replaceRoute f unreachableDefault)

/-- `_ensure_rule`. -/
def ensureRule (e : Expected) (f : Family) : Act Unit := do
  .demand (isInterface e.interface) (.egress .configurationInvalid)
  let present ← json fun h => (h.rules f).rules.any fun r => ownedRule h r e
  .when (!present) (run (Host.addRule f e.rule))

/-- The two checks of `_ensure_source_rule` on the rules it has read. -/
def sourcePresent (rules : List Rule) (source : Bits) : Bool :=
  rules.any fun r => ownedSourceRule r && r.src == some source

/-- `_ensure_source_rule`. -/
def ensureSourceRule (source : Bits) : Act Unit := do
  let rules ← json fun h => (h.rules .v4).rules
  .demand (sourceOrderOk rules true) (.egress .resourceConflict)
  .when (!sourcePresent rules source) (run (Host.addRule .v4 (sourceRule source)))
  let rules ← json fun h => (h.rules .v4).rules
  .demand (sourceOrderOk rules true) (.egress .resourceConflict)
  .demand (sourcePresent rules source) (.egress .sourceGuardFailed)

/-- `_apply_guard`. -/
def applyGuard (source : Option Bits) : Act Unit := do
  [Family.v4, .v6].forM replaceUnreachable
  .optionally source ensureSourceRule
  ingress.forM fun i => [Family.v4, .v6].forM (ensureRule (ingressRule i))
  .optionally egress fun i => ensureRule (probeRule i) .v4

def checkNames (names : List Iface) : Act Unit :=
  .demand (names.all isInterface) (.egress .configurationInvalid)

def checkSource : Option Bits → Act (Option Bits)
  | none => pure none
  | some a => sourceAddress a >>= fun a => pure (some a)

/-- `arm`. -/
def arm (source : Option Bits) : Act Unit := do
  let source ← checkSource source
  checkNames ingress.eraseDups
  checkNames egress.toList
  preflight ingress.eraseDups egress source []
  applyGuard ingress.eraseDups egress source

/-- `arm_source`. -/
def armSource (egress : Iface) (source : Bits) : Act Unit := do
  let source ← sourceAddress source
  checkNames [egress]
  checkSourceAssignment source (some egress)
  checkTableOwnership .v4 (some egress) []
  let rules ← json fun h => (h.rules .v4).rules
  .demand (sourceOrderOk rules true) (.egress .resourceConflict)
  replaceUnreachable .v4
  ensureSourceRule source

/-! ## Removal -/

/-- `_delete_rule`: the first rule that agrees, up to `attempts` times. -/
def deleteRules (e : Expected) (f : Family) : Nat → Act Unit
  | 0 => raiseEgress .applyFailed
  | attempts + 1 => command (Host.deleteRule f e.spec) >>= fun
    | true => deleteRules e f attempts
    | false => pure ()

def deletionAttempts : Nat := 8

/-- The rules that `disarm` deletes in one family. -/
def removalRules (f : Family) : List Expected :=
  ingress.map ingressRule ++ if f = .v4 then egress.toList.map probeRule else []

/-- `_check_removal_ownership` for one family: every rule that a deletion could select is one of
ours, attached or not. -/
def checkRemovalFamily (f : Family) : Act Unit := do
  checkTableOwnership f egress []
  json (fun h => (h.rules f).rules.all fun r =>
      (removalRules ingress egress f).all fun e => !e.spec.agrees r || r == e.rule) >>=
    fun ok => .demand ok (.egress .resourceConflict)

/-- `_check_removal_ownership`. -/
def checkRemovalOwnership : Act Unit :=
  [Family.v4, .v6].forM (checkRemovalFamily ingress egress)

def deleteProviderDefault : Act Unit :=
  command (Host.deleteRoute .v4 (providerDefaultSpec i)) >>= fun _ => pure ()

/-- `disarm`. -/
def disarm : Act Unit := do
  checkNames ingress.eraseDups
  checkNames egress.toList
  checkRemovalOwnership ingress.eraseDups egress
  ingress.eraseDups.forM fun i => [Family.v4, .v6].forM fun f =>
    deleteRules (ingressRule i) f deletionAttempts
  .optionally egress fun i => deleteRules (probeRule i) .v4 deletionAttempts
  [Family.v4, .v6].forM replaceUnreachable
  .optionally egress deleteProviderDefault

/-! ## The interface -/

/-- `interface_exists`. -/
def interfaceExists : Act Bool :=
  if isInterface i then query (fun h => h.has i) >>= fun answer => pure (answer == some true)
  else pure false

/-- `stop_interface`. -/
def stopInterface : Act Unit := do
  checkNames [i]
  let present ← interfaceExists i
  .when present <| command (Host.wgDown i) >>= fun
    | true => pure ()
    | false => interfaceExists i >>= fun still => .demand (!still) (.egress .teardownFailed)
  deleteProviderDefault i

/-- `remove_config`. -/
def removeConfig : Act Unit := do
  checkNames [i]
  file fun h => h.setConfig i none

/-- `_rollback_start`: the file is put back even if the interface could not be stopped. -/
def rollbackStart (previous : Option EgressConfig) : Act Unit := do
  (stopInterface i).handle fun e => do
    file fun h => h.setConfig i previous
    .raise e
  file fun h => h.setConfig i previous

/-- `_ingress_source`. -/
def ingressSource : Act Bits :=
  ask (·.source) >>= fun
    | none => raiseEgress .applyFailed
    | some none => raiseEgress .routeUnavailable
    | some (some a) => pure a

/-- The packet of `ip route get` in `verify_route`. -/
def probePacket (source : Bits) (ingress : Iface) : Packet :=
  ⟨source, probeAddress, some ingress, none, fun _ => false⟩

/-- `verify_route` for one ingress interface: the lookup has to give the provider interface. -/
def verifyIngress (i ingress : Iface) : Act Unit := do
  let source ← ingressSource
  let found ← json fun h => resolve (h.rules .v4).rules (h.routes .v4) (probePacket source ingress)
  match found with
  | none => raiseEgress .applyFailed
  | some (r, route) =>
    .demand (route.kind == .unicast && route.dev == some i && r.table == tableId)
      (.egress .routeUnavailable)

def verifyRoute : Act Unit := ingress.forM (verifyIngress i)

/-- The part of `start` that a failure undoes. -/
def startBody (c : EgressConfig) (ingress : List Iface) (source : Bits) : Act Unit := do
  applyGuard ingress (some c.interface) (some source)
  stopInterface c.interface
  file fun h => h.setConfig c.interface (some c)
  run (Host.wgUp c.interface)
  run (Host.replaceRoute .v4 (providerDefault c.interface))
  verifyRoute c.interface ingress

/-- The handlers of `start`. The shield around the rollback of a cancelled start holds back the
next cancellation only, so that the rollback too may be cancelled. -/
def startHandler (previous : Option EgressConfig) : Raised → Act Unit
  | .os => do
    rollbackStart i previous
    raiseEgress .applyFailed
  | .cancelled => do
    rollbackStart i previous
    .raise .cancelled
  | .egress code => do
    rollbackStart i previous
    raiseEgress code
  | e => .raise e

/-- `start`. -/
def start (w : Platform) (c : EgressConfig) (ingress : List Iface) : Act Unit := do
  let c ← validated w c
  checkNames [c.interface]
  .demand (!ingress.eraseDups.contains c.interface) (.egress .configurationInvalid)
  checkNames ingress.eraseDups
  let source ← sourceAddress c.address
  preflight ingress.eraseDups (some c.interface) (some source) []
  let previous ← json fun h => h.configs c.interface
  (startBody c ingress.eraseDups source).handle (startHandler c.interface previous)

/-- `probe`: the answers of `ping`, the resolver and `wg show`. -/
def probe (w : Platform) (c : EgressConfig) : Act Observation := do
  let _ ← validated w c
  ask (·.observation) >>= fun
    | none => raiseEgress .applyFailed
    | some observation => pure observation

end ExitLane.Egress
