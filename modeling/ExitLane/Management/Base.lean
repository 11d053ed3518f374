import ExitLane.Effect.Basic
import ExitLane.Net.Policy
import Mathlib.Algebra.Ring.Nat
import Mathlib.Data.List.Sort

/-!
# The host under the management routing

`ManagementRoutingBackend` keeps protected destinations on their canonical paths with
`ip rule` and `ip route`. The underlay holds what it reads and changes: rules and routes of
both families, the addresses of the links, and the store of provider tables. `issued`
counts the commands that were to change something.
-/

namespace ExitLane.Management

open Effect Net

/-! ## Constants -/

def protocolNumber : Nat := 196
def ruleProtocol : Protocol := .number protocolNumber
def priorityBase : Nat := 10000
def priorityMin : Nat := 1
def routeMetric : Nat := 42760
def maxPrefixes : Nat := 64

def mainTable : Nat := 254

/-- `STANDARD_ROUTE_TABLES`: local, main and default. -/
def isStandard (table : Nat) : Bool := table == 255 || table == mainTable || table == 253

/-- `_numeric_provider_table`. -/
def isProviderTable (table : Nat) : Bool :=
  0 < table && table ≤ 0xFFFFFFFF && !isStandard table

/-- `FAIL_CLOSED_ROUTE_TYPES`. -/
def isFailClosed : Kind → Bool
  | .unreachable | .blackhole | .prohibit => true
  | .unicast | .other => false

/-! ## Networks and paths -/

/-- A network that is not a default route. -/
structure Network where
  family : Family
  bits : Bits
  proper : bits ≠ []
  deriving DecidableEq

def width : Family → Nat
  | .v4 => 32
  | .v6 => 128

/-- The number of a bit string of the given width, filled up with zeros. -/
def value (w : Nat) (bits : Bits) : Nat :=
  bits.foldl (fun n b => 2 * n + b.toNat) 0 * 2 ^ (w - bits.length)

/-- The last `w` bits of a number, the highest first. -/
def ofNat (w n : Nat) : Bits := (List.range w).map fun i => n.testBit (w - 1 - i)

namespace Network

/-- `subnet_of`. -/
def subnetOf (n : Network) (bits : Bits) : Bool := bits.isPrefixOf n.bits

/-- The order of `_network_sort_key`. -/
def le (a b : Network) : Bool :=
  match a.family, b.family with
  | .v4, .v6 => true
  | .v6, .v4 => false
  | _, _ =>
    value (width a.family) a.bits < value (width b.family) b.bits ||
      (value (width a.family) a.bits == value (width b.family) b.bits &&
        a.bits.length ≤ b.bits.length)

end Network

/-- A gateway and a device; without either the path is closed. -/
structure Path where
  gateway : Option Bits
  device : Option Iface
  deriving DecidableEq

def Path.closed : Path := ⟨none, none⟩

/-! ## The host -/

/-- An address of a link with the length of its prefix. -/
structure Address where
  family : Family
  bits : Bits
  length : Nat
  isGlobal : Bool
  nonempty : bits.take length ≠ []

def Address.network (a : Address) : Network := ⟨a.family, a.bits.take a.length, a.nonempty⟩

structure Link where
  name : Iface
  addresses : List Address

structure Underlay where
  rules : Family → Rpdb
  routes : Family → Fib
  links : List Link
  /-- The provider tables of the store. -/
  tables : Family → List Nat
  issued : Nat

/-! ## Changes -/

/-- The commands of `_mutate` and `_mutate_route`. -/
inductive Edit where
  | addRule (priority : Nat) (network : Network)
  | deleteRule (priority : Nat) (network : Network)
  | addRoute (table : Nat) (network : Network) (path : Path)
  | replaceRoute (table : Nat) (network : Network) (path : Path)
  | deleteRoute (table : Nat) (network : Network)
  deriving DecidableEq

def managementRule (priority : Nat) (network : Network) : Rule :=
  ⟨priority, none, some network.bits, none, none, none, mainTable, ruleProtocol⟩

def ruleSpec (priority : Nat) (network : Network) : RuleSpec :=
  ⟨some priority, some network.bits, none, none, some mainTable, some ruleProtocol⟩

def managementRoute (table : Nat) (bits : Bits) (path : Path) : Route where
  table := table
  dst := bits
  metric := routeMetric
  kind := if path = .closed then .unreachable else .unicast
  hop := match path.gateway with
    | some g => .gateway g
    | none => .link
  dev := path.device
  protocol := ruleProtocol

def routeSpec (table : Nat) (network : Network) : RouteSpec :=
  ⟨table, network.bits, routeMetric, ruleProtocol, none⟩

namespace Underlay

def setRules (h : Underlay) (f : Family) (db : Rpdb) : Underlay :=
  { h with rules := Function.update h.rules f db }

def setRoutes (h : Underlay) (f : Family) (fib : Fib) : Underlay :=
  { h with routes := Function.update h.routes f fib }

end Underlay

/-- What the kernel makes of a command; `none` if it refuses. -/
def Edit.apply (e : Edit) (h : Underlay) : Option Underlay :=
  match e with
  | .addRule priority n =>
    ((h.rules n.family).add (managementRule priority n)).map (h.setRules n.family)
  | .deleteRule priority n =>
    ((h.rules n.family).delete (ruleSpec priority n)).map (h.setRules n.family)
  | .addRoute table n path =>
    ((h.routes n.family).add (managementRoute table n.bits path)).map (h.setRoutes n.family)
  | .replaceRoute table n path =>
    some (h.setRoutes n.family ((h.routes n.family).replace (managementRoute table n.bits path)))
  | .deleteRoute table n =>
    ((h.routes n.family).delete (routeSpec table n)).map (h.setRoutes n.family)

/-! ## Failures and commands -/

/-- The codes of `ManagementRoutingError`. -/
inductive Code where
  | routeDiscovery
  | ruleInspection
  | providerRouteInspection
  | ruleApply
  | routeApply
  | providerRouteApply
  | providerTableState
  | providerRouteConflict
  | tooManyPrefixes
  | rulePostcondition
  | failClosedPostcondition
  | managementProviderRoutePostcondition
  | gatewayPostcondition
  | directPostcondition
  | routedPostcondition
  | destinationPostcondition
  | providerRoutePostcondition
  | destinationUnavailable
  deriving DecidableEq

inductive Failure where
  | code (c : Code)
  | cancelled
  | os
  | other
  deriving DecidableEq

/-- What a child process can raise. -/
def Failure.system : Failure → Failure
  | .code _ => .other
  | e => e

/-- A command reports failure, after it took effect or before. -/
structure Reply where
  refused : Option Bool
  deriving Inhabited

abbrev Act (α : Type) := Proc Underlay Reply Failure α

/-- `_json`. -/
def json {α : Type} (code : Code) (f : Underlay → α) : Act α :=
  ((Proc.prim (fun r h => (.ok (if r.refused.isSome then none else some (f h)), h))
    fun _ h => h).handle
      fun e => .raise e.system) >>= fun
    | some a => pure a
    | none => .raise (.code code)

/-- The code of a command that fails. -/
def Edit.code : Edit → Code
  | .addRule _ _ | .deleteRule _ _ => .ruleApply
  | .addRoute table _ _ | .replaceRoute table _ _ | .deleteRoute table _ =>
    if table = mainTable then .routeApply else .providerRouteApply

/-- The state once a command has been issued, with its effect or without it. -/
def Edit.issue (e : Edit) (took : Bool) (h : Underlay) : Underlay :=
  let t := if took then (e.apply h).getD h else h
  { t with issued := h.issued + 1 }

/-- `_mutate` and `_mutate_route`. -/
def mutate (e : Edit) : Act Unit :=
  ((Proc.prim
      (fun r h => match r.refused with
        | none => (.ok (e.apply h).isSome, e.issue true h)
        | some took => (.ok false, e.issue took h))
      (fun k h => e.issue (k != 0) h)).handle fun err => .raise err.system) >>= fun ok =>
    .demand ok (.code e.code)

/-- The same reading for both families. -/
def both {α : Type} (read : Family → Act α) : Act (Family → α) := do
  let a ← read .v4
  let b ← read .v6
  pure fun
    | .v4 => a
    | .v6 => b

end ExitLane.Management
