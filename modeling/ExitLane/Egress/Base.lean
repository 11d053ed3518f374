import ExitLane.Effect.Basic
import ExitLane.Net.Policy
import ExitLane.Python.Text

/-!
# The host under the provider egress

`ProviderWireGuard` drives `ip` and `wg-quick`. The host holds what these commands read
and change: rules and routes of both families, the links, and the configuration files of
the provider interfaces. A command reports success or failure; one that reports failure
may still have taken effect, and so may one whose caller is cancelled.
-/

namespace ExitLane.Egress

open Effect Net Python

/-! ## Exceptions and replies -/

/-- The codes of `ProviderWireGuardError`. -/
inductive EgressCode where
  | configurationInvalid
  | applyFailed
  | resourceConflict
  | sourceGuardFailed
  | teardownFailed
  | routeUnavailable
  deriving DecidableEq

/-- What can be raised around a provider operation. `value` stands for `KeyError`, `TypeError`
and `ValueError`, which the handlers name together; `other` for anything no handler names. -/
inductive Raised where
  | cancelled
  | egress (code : EgressCode)
  | os
  | value
  | api (code : Text)
  | secret
  | killswitch
  | management
  | http (detail : Text)
  | other
  deriving DecidableEq

/-- The answer of `probe` and `observe`. -/
structure Observation where
  ready : Bool
  handshake : Nat
  dataplane : Bool
  dns : Bool
  deriving DecidableEq, Inhabited

/-- What comes from outside at one step. -/
structure Reply where
  /-- A command reports failure, after it took effect or before. -/
  refused : Option Bool
  /-- An address of an ingress network that is not the interface's own. -/
  source : Option Bits
  observation : Observation
  deriving Inhabited

/-! ## The host -/

/-- The fields of `EgressConfig`; `address` is the tunnel address with its prefix bits. -/
structure EgressConfig where
  providerId : Text
  generation : Text
  interface : Iface
  privateKey : Text
  address : Bits
  peerPublicKey : Text
  endpointAddress : Bits
  dnsAddress : Bits
  endpointPort : Nat
  mtu : Nat
  dnsProbeHostname : Text
  presharedKey : Option Text
  deriving DecidableEq

structure Link where
  name : Iface
  addresses : List Bits
  deriving DecidableEq

/-- The state of the host. `taken` remembers the routes that `ip route` commands have replaced or
deleted; a route that goes with its link is not among them. -/
structure Host where
  rules : Family → Rpdb
  routes : Family → List Route
  links : List Link
  /-- The files `<interface>.conf` of the provider egress. -/
  configs : Iface → Option EgressConfig
  taken : List (Family × Route)

namespace Host

def has (h : Host) (i : Iface) : Bool := h.links.any (·.name == i)

def setRules (h : Host) (f : Family) (db : Rpdb) : Host :=
  { h with rules := Function.update h.rules f db }

def setRoutes (h : Host) (f : Family) (routes : List Route) : Host :=
  { h with routes := Function.update h.routes f routes }

def setConfig (h : Host) (i : Iface) (config : Option EgressConfig) : Host :=
  { h with configs := Function.update h.configs i config }

/-- Remembers routes that a command takes away. -/
def take (h : Host) (f : Family) (routes : List Route) : Host :=
  { h with taken := h.taken ++ routes.map (f, ·) }

def addRule (f : Family) (r : Rule) (h : Host) : Option Host :=
  ((h.rules f).add r).map (h.setRules f)

def deleteRule (f : Family) (d : RuleSpec) (h : Host) : Option Host :=
  ((h.rules f).delete d).map (h.setRules f)

def replaceRoute (f : Family) (r : Route) (h : Host) : Option Host :=
  some ((h.take f ((h.routes f).filter (·.sameKey r))).setRoutes f
    (Net.replaceRoute r (h.routes f)))

def deleteRoute (f : Family) (d : RouteSpec) (h : Host) : Option Host :=
  (Net.deleteRoute d (h.routes f)).map
    ((h.take f ((h.routes f).find? d.agrees).toList).setRoutes f)

/-- The routes over a link go with it. -/
def removeLink (h : Host) (i : Iface) : Host :=
  { h with
    links := h.links.filter (·.name != i)
    routes := fun f => (h.routes f).filter fun r => r.dev != some i }

/-- `wg-quick up`: the file has `Table = off`, so that no route comes with the link. -/
def wgUp (i : Iface) (h : Host) : Option Host :=
  match h.configs i with
  | none => none
  | some config =>
    if h.has i then none else some { h with links := h.links ++ [⟨i, [config.address]⟩] }

/-- `wg-quick down`. -/
def wgDown (i : Iface) (h : Host) : Option Host :=
  if h.has i && (h.configs i).isSome then some (h.removeLink i) else none

variable {h h' : Host} {f g : Family} {r : Rule} {d : RuleSpec} {q : Route} {i : Iface}

theorem addRule_routes (hadd : h.addRule f r = some h') :
    h'.routes = h.routes ∧ h'.taken = h.taken := by
  obtain ⟨db, -, rfl⟩ := Option.map_eq_some_iff.mp hadd
  exact ⟨rfl, rfl⟩

theorem addRule_rules (hadd : h.addRule f r = some h') :
    (h'.rules g).rules = if g = f then insertRule r (h.rules f).rules else (h.rules g).rules := by
  obtain ⟨db, hdb, rfl⟩ := Option.map_eq_some_iff.mp hadd
  by_cases hg : g = f
  · subst hg
    simp [setRules, (Rpdb.add_rules hdb).2]
  · simp [setRules, hg]

theorem mem_addRule {q : Rule} (hadd : h.addRule f r = some h') :
    q ∈ (h'.rules g).rules ↔ (g = f ∧ q = r) ∨ q ∈ (h.rules g).rules := by
  rw [addRule_rules hadd]
  by_cases hg : g = f
  · subst hg
    simp [mem_insertRule]
  · simp [hg]

section
variable (hdel : h.deleteRule f d = some h')
include hdel

theorem deleteRule_routes : h'.routes = h.routes ∧ h'.taken = h.taken := by
  obtain ⟨db, -, rfl⟩ := Option.map_eq_some_iff.mp hdel
  exact ⟨rfl, rfl⟩

theorem deleteRule_rules :
    (h'.rules g).rules =
      if g = f then (h.rules f).rules.eraseP d.agrees else (h.rules g).rules := by
  obtain ⟨db, hdb, rfl⟩ := Option.map_eq_some_iff.mp hdel
  by_cases hg : g = f
  · subst hg
    simp [setRules, (Rpdb.delete_rules hdb).2]
  · simp [setRules, hg]

theorem mem_of_mem_deleteRule {q : Rule} (hq : q ∈ (h'.rules g).rules) : q ∈ (h.rules g).rules := by
  rw [deleteRule_rules hdel] at hq
  split at hq
  · next hg => exact hg ▸ List.mem_of_mem_eraseP hq
  · exact hq

theorem mem_deleteRule {q : Rule} (hd : d.agrees q = false)
    (hq : q ∈ (h.rules g).rules) : q ∈ (h'.rules g).rules := by
  rw [deleteRule_rules hdel]
  split
  · next hg => exact (List.mem_eraseP_of_neg (by simp [hd])).mpr (hg ▸ hq)
  · exact hq

end

theorem replaceRoute_rules {r : Route} (hrep : h.replaceRoute f r = some h') :
    h'.rules = h.rules := by
  cases hrep
  rfl

theorem mem_replaceRoute {r : Route} (hrep : h.replaceRoute f r = some h') :
    q ∈ h'.routes g ↔
      (g = f ∧ q = r) ∨ (q ∈ h.routes g ∧ (g = f → q.sameKey r = false)) := by
  cases hrep
  by_cases hg : g = f
  · subst hg
    simp [setRoutes, Net.mem_replaceRoute]
  · simp [setRoutes, take, hg]

theorem deleteRoute_rules {d : RouteSpec} (hdel : h.deleteRoute f d = some h') :
    h'.rules = h.rules := by
  obtain ⟨routes, -, rfl⟩ := Option.map_eq_some_iff.mp hdel
  rfl

theorem mem_of_mem_deleteRoute {d : RouteSpec} (hdel : h.deleteRoute f d = some h')
    (hq : q ∈ h'.routes g) : q ∈ h.routes g := by
  obtain ⟨routes, hroutes, rfl⟩ := Option.map_eq_some_iff.mp hdel
  by_cases hg : g = f
  · subst hg
    exact Net.mem_of_mem_deleteRoute hroutes (by simpa [setRoutes] using hq)
  · simpa [setRoutes, take, hg] using hq

theorem mem_deleteRoute {d : RouteSpec} (hdel : h.deleteRoute f d = some h')
    (hd : d.agrees q = false) (hq : q ∈ h.routes g) : q ∈ h'.routes g := by
  obtain ⟨routes, hroutes, rfl⟩ := Option.map_eq_some_iff.mp hdel
  by_cases hg : g = f
  · subst hg
    simpa [setRoutes] using mem_deleteRoute_of_not_agrees hroutes hd hq
  · simpa [setRoutes, take, hg] using hq

theorem mem_removeLink : q ∈ (h.removeLink i).routes g ↔ q ∈ h.routes g ∧ q.dev ≠ some i := by
  simp [removeLink]

theorem wgUp_eq (hup : h.wgUp i = some h') :
    h'.rules = h.rules ∧ h'.routes = h.routes ∧ h'.taken = h.taken := by
  unfold wgUp at hup
  split at hup
  · cases hup
  · split at hup
    · cases hup
    · cases hup
      exact ⟨rfl, rfl, rfl⟩

theorem wgDown_eq (hdown : h.wgDown i = some h') : h' = h.removeLink i := by
  unfold wgDown at hdown
  split at hdown
  · cases hdown
    rfl
  · cases hdown

end Host

/-! ## Commands -/

abbrev Act (α : Type) := Proc Host Reply Raised α

/-- What a child process or a file operation can raise. -/
def Raised.system : Raised → Raised
  | .cancelled => .cancelled
  | .os => .os
  | _ => .other

/-- A step whose faults are those of the system. -/
def system {α : Type} (run : Reply → Host → Except Raised α × Host) (part : Nat → Host → Host) :
    Act α :=
  (Proc.prim run part).handle fun e => .raise e.system

/-- `self.runner(...)`: true if the command reports success. -/
def command (full : Host → Option Host) : Act Bool :=
  system
    (fun r h => match r.refused with
      | none => (.ok (full h).isSome, (full h).getD h)
      | some took => (.ok false, if took then (full h).getD h else h))
    (fun k h => if k = 0 then h else (full h).getD h)

/-- A command that only shows something; `none` if it fails. -/
def query {α : Type} (f : Host → α) : Act (Option α) :=
  system
    (fun r h => match r.refused with
      | none => (.ok (some (f h)), h)
      | some _ => (.ok none, h))
    (fun _ h => h)

/-- A file operation, which may raise `OSError` before or after its effect. -/
def file (full : Host → Host) : Act Unit :=
  system (fun _ h => (.ok (), full h)) fun k h => if k = 0 then h else full h

def raiseEgress {α : Type} (code : EgressCode) : Act α := .raise (.egress code)

/-- `_run`. -/
def run (full : Host → Option Host) : Act Unit :=
  command full >>= fun ok => .demand ok (.egress .applyFailed)

/-- What the outside answers at a step that changes nothing; `none` if a command fails. -/
def ask {α : Type} (f : Reply → α) : Act (Option α) :=
  system (fun r h => (.ok (if r.refused.isSome then none else some (f r)), h)) fun _ h => h

/-- `_json`. -/
def json {α : Type} (f : Host → α) : Act α :=
  query f >>= fun
    | some a => pure a
    | none => raiseEgress .applyFailed

end ExitLane.Egress
