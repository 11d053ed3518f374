import ExitLane.Vpn.Status

/-!
# The lifecycle of a direct provider

Mullvad, PIA and Proton keep one encrypted record each. It holds the account and at most two
generations of the tunnel: `active`, which has been proved, and `pending`, which is an intent. An
operation works on a copy of the record in memory and saves it; an exception leaves the copy as
it is, and the rollback goes on from there.

The notes list, newest first, what a run has to answer for: the records that were saved, the
probes that answered, and the record that was stored when a transition was completed.
-/

namespace ExitLane.Providers

open Effect Egress Net Python Vpn

/-! ## Records -/

/-- The values of the key `recovery`. -/
inductive Recovery where
  | failedConnect
  | restorePrevious
  deriving DecidableEq

/-- The dictionary under `active` or `pending`: the keys of a generation, the key `recovery`, or
both. -/
inductive Entry (G : Type) where
  | of (generation : G) (mark : Option Recovery)
  | bare (mark : Recovery)
  deriving DecidableEq

def Entry.generation {G : Type} : Entry G → Option G
  | .of g _ => some g
  | .bare _ => none

/-- The state of a provider, as it is encrypted. -/
structure Record (A G : Type) where
  version : Nat
  account : A
  active : Option (Entry G)
  pending : Option (Entry G)
  teardownFailed : Bool
  deriving DecidableEq

inductive Note (S : Type) where
  | saved (state : S)
  | probed (config : EgressConfig) (seen : Observation)
  | completed (stored : Option S)
  /-- A step of a local teardown failed. -/
  | teardownFailed
  /-- A rollback could not restart the generation that was active before. -/
  | restoreFailed
  /-- A rollback found neither an earlier generation nor a candidate. -/
  | nothingToKeep

/-- The record of one provider, the copy that the running operation works on, and the notes. -/
structure Vault (S : Type) where
  stored : Option S
  memory : S
  notes : List (Note S)

structure World (S : Type) where
  firewall : Firewall
  host : Host
  vault : Vault S

abbrev Act (S α : Type) := Proc (World S) Reply Raised α

section
variable {S α : Type}

def hostLens : Lens (World S) Host :=
  ⟨(·.host), fun h w => { w with host := h }, fun _ _ => rfl, fun _ => rfl⟩

def firewallLens : Lens (World S) Firewall :=
  ⟨(·.firewall), fun f w => { w with firewall := f }, fun _ _ => rfl, fun _ => rfl⟩

def onHost (p : Egress.Act α) : Act S α := p.zoom hostLens

def onFirewall (p : Killswitch.Act α) : Act S α := p.zoom firewallLens

/-! ## Storage -/

namespace World

def note (n : Note S) (w : World S) : World S :=
  { w with vault := { w.vault with notes := n :: w.vault.notes } }

def mutate (f : S → S) (w : World S) : World S :=
  { w with vault := { w.vault with memory := f w.vault.memory } }

/-- The row of the provider is replaced by what is in memory. -/
def commit (w : World S) : World S :=
  { w with vault :=
      { w.vault with
        stored := some w.vault.memory, notes := .saved w.vault.memory :: w.vault.notes } }

end World

def note (n : Note S) : Act S Unit := .modify (World.note n)

def mutate (f : S → S) : Act S Unit := .modify (World.mutate f)

/-- `provider_secrets.load`. -/
def load : Act S (Option S) :=
  (Proc.check fun w => .ok w.vault.stored).handle fun _ => .raise .secret

/-- `provider_secrets.save` of the copy in memory. -/
def save : Act S Unit := (Proc.atomic World.commit).handle fun _ => .raise .secret

/-! ## Calls to the outside -/

/-- What the client of a provider's API can raise. -/
def clientError : Raised → Raised
  | .cancelled => .cancelled
  | .api code => .api code
  | .os => .os
  | .value => .value
  | _ => .other

/-- A call that answers with `value` or raises. -/
def call (value : α) : Act S α :=
  (Proc.check fun _ => .ok value).handle fun e => .raise (clientError e)

/-- A local command or lookup that only answers yes or no. -/
def inquire : Act S Bool := onHost (ask fun _ => true) >>= fun answer => pure answer.isSome

/-- `asyncio.sleep`. -/
def pause : Act S Unit := (Proc.check fun _ => .ok ()).handle fun _ => .raise .cancelled

def liftExcept : Except Raised α → Act S α
  | .ok a => pure a
  | .error e => .raise e

/-! ## The tunnel -/

/-- The methods of `ProviderWireGuard` that a provider calls. -/
structure Tunnel where
  start : EgressConfig → List Iface → Egress.Act Unit
  probe : EgressConfig → Egress.Act Observation
  observe : EgressConfig → Egress.Act Bool
  armSource : Iface → Bits → Egress.Act Unit
  stopInterface : Iface → Egress.Act Unit
  disarm : List Iface → Iface → Egress.Act Unit
  removeConfig : Iface → Egress.Act Unit
  committed : EgressConfig → Egress.Act Unit
  transitionFacts : EgressConfig → Egress.Act (Option TunnelFacts)

/-- `observe` of the native runtime. -/
def observe (w : Platform) (c : EgressConfig) : Egress.Act Bool := do
  let _ ← validated w c
  let present ← interfaceExists c.interface
  if present then ask (·.observation) >>= fun answer => pure (answer.any (·.ready)) else pure false

/-- The native runtime. -/
def native (w : Platform) : Tunnel where
  start := Egress.start w
  probe := Egress.probe w
  observe := Providers.observe w
  armSource := Egress.armSource
  stopInterface := Egress.stopInterface
  disarm ingress i := Egress.disarm ingress (some i)
  removeConfig := Egress.removeConfig
  committed _ := pure ()
  transitionFacts _ := pure none

/-! ## Steps of `connect` -/

def probe (T : Tunnel) (c : EgressConfig) : Act S Observation := do
  let seen ← onHost (T.probe c)
  note (.probed c seen)
  pure seen

/-- The loop around the probe; `attempts` is how often it comes round before the deadline. -/
def awaitReady (T : Tunnel) (c : EgressConfig) : Nat → Observation → Act S Observation
  | 0, last => pure last
  | attempts + 1, _ => do
    let seen ← probe T c
    if seen.ready then pure seen
    else do
      pause
      awaitReady T c attempts seen

/-- The facts for the end of a transition: those of the candidate, or else `network_facts`. -/
def provedFacts (T : Tunnel) (facts : Act S TunnelFacts) : Option EgressConfig → Act S TunnelFacts
  | none => facts
  | some c => onHost (T.transitionFacts c) >>= fun
    | some proved => pure proved
    | none => facts

/-- `_complete_transition`. -/
def completeTransition (T : Tunnel) (facts : Act S TunnelFacts) (config : Option EgressConfig) :
    Act S Bool :=
  (do
    let proved ← provedFacts T facts config
    .modify fun w => w.note (.completed w.vault.stored)
    onFirewall (Killswitch.complete proved)
    pure true).handle fun
      | .killswitch | .egress _ | .secret => pure false
      | e => .raise e

def committed (T : Tunnel) (c : EgressConfig) : Act S Result := do
  onHost (T.committed c)
  pure .success

/-- The end of the forward path, once the new generation is stored as active. -/
def finish (T : Tunnel) (facts : Act S TunnelFacts) (owns : Bool) (c : EgressConfig) :
    Act S Result :=
  if owns then
    completeTransition T facts (some c) >>= fun done =>
      if done then committed T c else pure (.failure "firewall_apply_failed")
  else committed T c

/-- The forward path from the stored intent on. `settle` makes the candidate the active one. -/
def launch (T : Tunnel) (facts : Act S TunnelFacts) (owns : Bool) (c : EgressConfig)
    (attempts : Nat) (late : Observation → Text) (settle : Observation → S → S) : Act S Result := do
  let ingress ← onFirewall Killswitch.configuredIngress
  onHost (T.start c ingress)
  let seen ← awaitReady T c attempts default
  .demand seen.ready (.api (late seen))
  mutate (settle seen)
  save
  finish T facts owns c

/-- The part of a rollback that starts an earlier generation again. -/
def restart (T : Tunnel) (prepare : Act S (EgressConfig × List Iface))
    (settle : Observation → S → S) : Act S Bool := do
  let (c, ingress) ← prepare
  onHost (T.start c ingress)
  let seen ← probe T c
  if seen.ready then do
    mutate (settle seen)
    save
    onHost (T.committed c)
    pure true
  else pure false

/-- `code` of `ProviderWireGuardError`. -/
def egressText : EgressCode → String
  | .configurationInvalid => "provider_egress_configuration_invalid"
  | .applyFailed => "provider_egress_apply_failed"
  | .resourceConflict => "provider_egress_resource_conflict"
  | .sourceGuardFailed => "provider_egress_source_guard_failed"
  | .teardownFailed => "provider_egress_teardown_failed"
  | .routeUnavailable => "provider_egress_route_unavailable"

/-- `getattr(error, "code", "provider_connect_failed")`. -/
def errorCode : Raised → Text
  | .egress code => (egressText code).toList
  | .api code => code
  | .secret => "provider_secret_storage_failed".toList
  | _ => "provider_connect_failed".toList

/-- The handlers of `connect`. A second cancellation does not reach the shielded rollback; what
stops it is one more fault of its own steps. -/
def connectHandler (T : Tunnel) (facts : Act S TunnelFacts) (owns : Bool) (rollback : Act S Bool) :
    Raised → Act S Result
  | .cancelled => do
    let safe ← rollback
    .when (owns && safe) (completeTransition T facts none >>= fun _ => pure ())
    .raise .cancelled
  | .value => recovered .value
  | .api code => recovered (.api code)
  | .egress code => recovered (.egress code)
  | .secret => recovered .secret
  | e => .raise e
where
  recovered (e : Raised) : Act S Result := do
    let safe ← rollback
    .when (owns && safe) (completeTransition T facts none >>= fun _ => pure ())
    pure ⟨false, some (errorCode e)⟩

/-- Teardown steps. An error that `caught` names is noted, and the answer is false. -/
def tearDown (caught : Raised → Bool) (steps : Act S Unit) : Act S Bool :=
  (steps >>= fun _ => pure true).handle fun e =>
    if caught e then note .teardownFailed >>= fun _ => pure false else .raise e

/-- `except ProviderWireGuardError`. -/
def isEgress : Raised → Bool
  | .egress _ => true
  | _ => false

/-- `except (KeyError, TypeError, ValueError, ProviderWireGuardError)`. -/
def isBroken : Raised → Bool
  | .egress _ | .value => true
  | _ => false

/-- The guard is armed before a connect that owns the transition; false if it cannot be. -/
def armed (owns : Bool) : Act S Bool :=
  if owns then
    (onFirewall Killswitch.arm >>= fun _ => pure true).handle fun
      | .killswitch => pure false
      | e => .raise e
  else pure true

/-- `complete_provider_transition` at the end of a disconnect. -/
def completeClosed : Act S Unit := do
  .modify fun w => w.note (.completed w.vault.stored)
  onFirewall (Killswitch.complete .closed)

/-- The facts of a direct tunnel. -/
def tunnelFacts (i : Iface) (connected : Bool) : TunnelFacts where
  available := connected
  interface := if connected then some i else none
  supportsIpv4 := connected
  supportsIpv6 := false
  protectedEgress := connected
  reason := (if connected then "tunnel_available" else "tunnel_unavailable").toList

end

/-! ## Keys -/

/-- A pair of `_wireguard_keypair`. -/
structure KeyPair (w : Platform) where
  privateKey : Text
  publicKey : Text
  fits : w.publicKey privateKey = some publicKey
  valid : w.isKey publicKey = true

/-- `secrets.token_hex`. -/
structure Token where
  text : Text
  hex : text.all (fun c => c.isDigit || ('a' ≤ c && c ≤ 'f')) = true
  length : text.length = 32

end ExitLane.Providers
