import ExitLane.Effect.Zoom
import ExitLane.Effect.Machine
import ExitLane.Egress.WireGuard
import ExitLane.Vpn.Ruleset

/-!
# The killswitch

`killswitch.py` keeps one nft table and two settings. While a provider is exchanged the setting
`provider_transition` holds and the table lets nothing through; `complete_provider_transition`
takes the table to the facts of a tunnel, or away, and clears the setting. Every function that
writes does so under one lock.

A ruleset goes to `nft` as a text, once to be checked and once to be loaded; `nft` does with it
what `Nft.load` reads in it. What `nft list table` prints is taken to be a text that loads the same
table again.

The chronicle lists, newest first, what a switch of providers has to answer for: facts that were
observed for a provider, the provider that was stored, and each completion of a transition.
-/

namespace ExitLane.Vpn

open Effect Egress Net Python

/-! ## Providers -/

/-- The registered providers. -/
inductive ProviderId where
  | nordvpn
  | mullvad
  | pia
  | proton
  deriving DecidableEq

inductive Event where
  | observed (provider : ProviderId) (facts : TunnelFacts)
  | stored (provider : ProviderId)
  | completed (facts : TunnelFacts)
  deriving DecidableEq

/-! ## The firewall -/

structure Firewall where
  /-- `SETTING_CONFIGURED`. -/
  configured : Bool
  /-- `SETTING_TRANSITION`. -/
  transition : Bool
  /-- The setting of the WireGuard interface. -/
  wireguard : Text
  /-- `SETTING_INGRESS`. -/
  routed : List Text
  /-- `SETTING_LOCAL_ALLOWLIST`. -/
  allowlist : List Text
  /-- The table of the killswitch in the kernel. -/
  table : Option Nft.Table
  chronicle : List Event

/-- The interfaces of the settings. -/
def Firewall.ingress (f : Firewall) : List Text := f.wireguard :: f.routed

/-- The states of `KillswitchStatus`. -/
inductive KillswitchState where
  | disabled
  | error
  | enabledTransition
  | enabledProtected
  | enabledDegraded
  | enabledWaitingForTunnel
  deriving DecidableEq

/-- `KillswitchStatus`, without the time of the last transition. -/
structure KillswitchStatus where
  configured : Bool
  effective : Bool
  state : KillswitchState
  reason : Text
  tunnelAvailable : Bool
  tunnelInterfaceKnown : Bool
  firewallRulesInstalled : Bool
  ipv4Protected : Bool
  ipv6Protected : Bool
  protectedSources : List Text
  localAllowlist : List Text
  deriving DecidableEq

/-- `SAFE_REASONS`. -/
def safeReasons : List Text :=
  ["disabled", "tunnel_available", "tunnel_unavailable", "tunnel_interface_unknown",
    "provider_unavailable", "provider_conflict", "firewall_unavailable", "firewall_apply_failed",
    "firewall_rules_missing", "invalid_configuration", "provider_transition"].map String.toList

namespace Killswitch

abbrev Act (α : Type) := Proc Firewall Reply Raised α

/-! ## nft -/

/-- A command on the table: true if it reports success. -/
def command (change : Firewall → Firewall) : Act Bool :=
  (Proc.prim
    (fun r f => match r.refused with
      | none => (.ok true, change f)
      | some took => (.ok false, if took then change f else f))
    (fun k f => if k = 0 then f else change f)).handle fun e => .raise e.system

/-- `snapshot`, by `nft list table`. -/
def snapshot : Act (Option Nft.Table) :=
  (Proc.prim (fun r f => (.ok (if r.refused.isSome then none else f.table), f))
    fun _ f => f).handle fun e => .raise e.system

def installed : Act Bool := snapshot >>= fun table => pure table.isSome

/-- `_load`: a text is written to a file and given to `nft`. -/
def load (change : Firewall → Firewall) : Act Unit :=
  command change >>= fun ok => .demand ok .killswitch

/-- What a text that `nft` takes does to the table. -/
def perform (script : Nft.Script) (f : Firewall) : Firewall :=
  match script with
  | .destroy _ => { f with table := none }
  | .replace T => { f with table := some T }

/-- The second half of `apply`: a ruleset that was checked and still is refused gives way to the
one before. -/
def exchange (previous : Option Nft.Table) (script : Nft.Script) : Act Unit :=
  (load (perform script)).handle fun
    | .killswitch => do
      (Proc.optionally previous fun table => load fun f => { f with table := some table }).handle
        fun
        | .killswitch => pure ()
        | e => .raise e
      .raise .killswitch
    | e => .raise e

/-- `apply`; `nft` refuses a text that it cannot read when it checks it. -/
def apply (ruleset : Text) : Act Unit := do
  let previous ← snapshot
  match Nft.load ruleset with
  | none => load id >>= fun _ => .raise .killswitch
  | some script => load id >>= fun _ => exchange previous script

/-- `remove`. -/
def remove : Act Unit :=
  installed >>= fun present => .when present (load fun f => { f with table := none })

/-! ## Settings -/

/-- `core.set_setting`. -/
def setSetting (change : Firewall → Firewall) : Act Unit :=
  (Proc.atomic change).handle fun _ => .raise .other

/-- `core.setting`. -/
def setting {α : Type} (read : Firewall → α) : Act α :=
  (Proc.check fun f => .ok (read f)).handle fun _ => .raise .other

/-- `_transition(_now())`. -/
def stamp : Act Unit := setSetting id

/-- `configuration`. -/
def configuration : Act (List Text × List Text) := do
  let values ← setting fun f => validateConfiguration f.ingress f.allowlist
  match values with
  | some c => pure c
  | none => .raise .killswitch

/-- `ingress, _ = configuration()`. -/
def configuredIngress : Act (List Iface) := configuration >>= fun c => pure c.1

variable (facts : TunnelFacts) {I : Firewall → Prop} {change : Firewall → Firewall}

/-- `apply` of what `generate_ruleset` gives. -/
def generateAndApply (config : List Text × List Text) : Act Unit :=
  match generateRuleset facts config.1 config.2 with
  | some ruleset => apply ruleset
  | none => .raise .killswitch

/-- The same for the current configuration. -/
def install : Act Unit := configuration >>= generateAndApply facts

/-! ## Status -/

/-- The end of `status`, once everything is read. -/
def statusOf (configured transition : Bool) (config : List Text × List Text)
    (installed : Bool) : KillswitchStatus :=
  let shielded := configured && !transition && installed && facts.available &&
    facts.protectedEgress && facts.interface.any (· ≠ []) && facts.supportsIpv4
  let (state, reason, effective) : KillswitchState × Text × Bool :=
    if transition then (.enabledTransition, "provider_transition".toList, installed)
    else if !configured then (.disabled, "disabled".toList, false)
    else if !installed then (.error, "firewall_rules_missing".toList, false)
    else if shielded then (.enabledProtected, "tunnel_available".toList, true)
    else if facts.reason = "tunnel_interface_unknown".toList then
      (.enabledDegraded, "tunnel_interface_unknown".toList, true)
    else (.enabledWaitingForTunnel, facts.reason, true)
  { configured := configured
    effective := effective
    state := state
    reason := if reason ∈ safeReasons then reason else "tunnel_unavailable".toList
    tunnelAvailable := facts.available
    tunnelInterfaceKnown := facts.interface.isSome
    firewallRulesInstalled := installed
    ipv4Protected := shielded
    ipv6Protected := shielded && facts.supportsIpv6
    protectedSources := config.1
    localAllowlist := config.2 }

/-- `status`, which only reads. -/
def status : Act KillswitchStatus := do
  let (configured, transition) ← setting fun f => (f.configured, f.transition)
  let config ← configuration
  let present ← installed
  pure (statusOf facts configured transition config present)

/-! ## Under the lock -/

/-- `enable`. -/
def enable : Act KillswitchStatus := do
  let config ← configuration
  let transition ← setting (·.transition)
  let effectiveFacts := if transition then .inTransition else facts
  generateAndApply effectiveFacts config
  let present ← installed
  .demand present .killswitch
  setSetting fun f => { f with configured := true }
  stamp
  status effectiveFacts

/-- `reconcile`. -/
def reconcile : Act KillswitchStatus := do
  let transition ← setting (·.transition)
  if transition then do
    install .inTransition
    status .inTransition
  else do
    let configured ← setting (·.configured)
    if configured then do
      install facts
      stamp
      status facts
    else status facts

/-- `arm_provider_transition`. -/
def armProviderTransition : Act KillswitchStatus := do
  setSetting fun f => { f with transition := true }
  install .inTransition
  let present ← installed
  .demand present .killswitch
  status .inTransition

/-- The part of `complete_provider_transition` that works on the table. -/
def converge : Act Unit := do
  let configured ← setting (·.configured)
  if configured then install facts else remove

/-- `complete_provider_transition`. -/
def completeProviderTransition : Act KillswitchStatus := do
  .modify fun f => { f with chronicle := .completed facts :: f.chronicle }
  converge facts
  setSetting fun f => { f with transition := false }
  stamp
  status facts

/-- `disable`. -/
def disable : Act KillswitchStatus := do
  remove
  setSetting fun f => { f with configured := false }
  setSetting fun f => { f with transition := false }
  stamp
  status .closed

/-- `arm_provider_transition` where its status is not used. -/
def arm : Act Unit := armProviderTransition >>= fun _ => pure ()

/-- `complete_provider_transition` where its status is not used. -/
def complete : Act Unit :=
  completeProviderTransition facts >>= fun _ => pure ()

/-! ## Reading -/

theorem wp_setting {α : Type} {A : Regime Reply Raised} {f : Firewall} (read : Firewall → α) :
    wpElse A (setting read) (fun a g => g = f ∧ a = read f) (fun g => g = f) f := by
  refine wp_handle
    (wp_check (fun _ h => ⟨rfl, ?_⟩) nofun (fun _ _ _ => wp_raise rfl) fun _ _ => rfl)
  cases h
  rfl

theorem wp_configuration {A : Regime Reply Raised} {f : Firewall} :
    wpElse A configuration
      (fun c g => g = f ∧ validateConfiguration f.ingress f.allowlist = some c)
      (fun g => g = f) f := by
  refine wp_seq_read (wp_setting _) ?_
  split
  · next hc => exact wp_pure ⟨rfl, hc⟩
  · exact wp_raise rfl

/-! ## What the steps leave alone -/

theorem preserves_command (h : ∀ f, I f → I (change f)) : Preserves I (command change) := by
  refine preserves_handle (preserves_prim (fun r f hf => ?_) fun k f hf => ?_) fun _ =>
    preserves_raise _
  · rcases r.refused with _ | took
    · exact h f hf
    · cases took with
      | true => exact h f hf
      | false => exact hf
  · by_cases hk : k = 0
    · simpa [hk] using hf
    · simpa [hk] using h f hf

theorem preserves_snapshot : Preserves I snapshot :=
  preserves_handle (preserves_prim (fun _ _ hf => hf) fun _ _ hf => hf) fun _ => preserves_raise _

theorem preserves_installed : Preserves I installed :=
  preserves_bind preserves_snapshot fun _ => preserves_pure _

theorem preserves_load (h : ∀ f, I f → I (change f)) : Preserves I (load change) :=
  preserves_bind (preserves_command h) fun _ => preserves_demand _ _

theorem preserves_exchange (h : ∀ f table, I f → I { f with table := table })
    (previous : Option Nft.Table) (script : Nft.Script) :
    Preserves I (exchange previous script) := by
  refine preserves_handle (preserves_load fun f hf => ?_) fun e => ?_
  · cases script with
    | destroy _ => exact h f _ hf
    | replace T => exact h f _ hf
  · cases e with
    | killswitch =>
      refine preserves_seq (preserves_handle ?_ fun e => ?_) <| preserves_raise _
      · exact preserves_optionally _ fun table => preserves_load fun f hf => h f _ hf
      · cases e with
        | killswitch => exact preserves_pure _
        | _ => exact preserves_raise _
    | _ => exact preserves_raise _

theorem preserves_apply (h : ∀ f table, I f → I { f with table := table }) (ruleset : Text) :
    Preserves I (apply ruleset) := by
  refine preserves_bind preserves_snapshot fun previous => ?_
  split
  · exact preserves_seq (preserves_load fun _ hf => hf) <| preserves_raise _
  · exact preserves_seq (preserves_load fun _ hf => hf) <| preserves_exchange h _ _

theorem preserves_setSetting (h : ∀ f, I f → I (change f)) : Preserves I (setSetting change) :=
  preserves_handle (preserves_atomic h) fun _ => preserves_raise _

theorem preserves_setting {α : Type} (read : Firewall → α) : Preserves I (setting read) :=
  preserves_handle (preserves_check _) fun _ => preserves_raise _

theorem preserves_configuration : Preserves I configuration := by
  refine preserves_bind (preserves_setting _) fun values => ?_
  cases values with
  | none => exact preserves_raise _
  | some c => exact preserves_pure _

theorem preserves_install (h : ∀ f table, I f → I { f with table := table }) (facts : TunnelFacts) :
    Preserves I (install facts) := by
  refine preserves_bind preserves_configuration fun c => ?_
  unfold generateAndApply
  split
  · exact preserves_apply h _
  · exact preserves_raise _

theorem preserves_status : Preserves I (status facts) :=
  preserves_bind (preserves_setting _) fun _ => preserves_bind preserves_configuration fun _ =>
    preserves_bind preserves_installed fun _ => preserves_pure _

theorem preserves_arm (hset : ∀ f, I f → I { f with transition := true })
    (htable : ∀ f table, I f → I { f with table := table }) : Preserves I arm :=
  preserves_seq (preserves_seq (preserves_setSetting hset) <|
    preserves_bind (preserves_install htable _) fun _ => preserves_bind preserves_installed fun _ =>
      preserves_seq (preserves_demand _ _) <| preserves_status _) <| preserves_pure _

end Killswitch

end ExitLane.Vpn
