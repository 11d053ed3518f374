import ExitLane.Management.Base

/-!
# `ManagementRoutingBackend`

One reconciliation reads rules and routes, computes what it wants, and then changes the
main table, the tables of the provider and the rules, in this order; at the end it reads
everything again and checks it. `reconcile` holds the rules at priority 10000 and
`prepare_provider_transition` at priority 1.
-/

namespace ExitLane.Management

open Effect Net

/-! ## Ownership -/

variable (f : Family)

/-- `_owned_rules` for one rule. -/
def ownedRule (r : Rule) : Option (Nat × Network) :=
  match r.dst with
  | none => none
  | some bits =>
    if h : bits ≠ [] then
      if r.protocol == ruleProtocol && r.table == mainTable then some (r.priority, ⟨f, bits, h⟩)
      else none
    else none

def ownedRules (rules : List Rule) : List (Nat × Network) :=
  rules.filterMap (ownedRule f)

/-- The protocol as `int` reads it: a rule with a named protocol is passed over. -/
def isProviderRule (r : Rule) : Bool :=
  match r.protocol with
  | .unset => true
  | .number n => n != protocolNumber
  | .name _ => false

/-- `_provider_policy_tables_before`. -/
def providerTablesBefore (rules : List Rule) (priority : Nat) : List Nat :=
  (rules.filter fun r => r.priority ≤ priority && isProviderRule r && isProviderTable r.table).map
    (·.table)

/-- `_provider_policy_tables`. -/
def providerTables (rules : List Rule) : List Nat :=
  (rules.filter fun r => isProviderRule r && !isStandard r.table).map (·.table)

/-- `_route_network`. -/
def routeNetwork (r : Route) : Option Network :=
  if h : r.dst ≠ [] then some ⟨f, r.dst, h⟩ else none

def gatewayOf (r : Route) : Option Bits :=
  match r.hop with
  | .gateway g => some g
  | .link | .via _ => none

def routePath (r : Route) : Path := ⟨gatewayOf r, r.dev⟩

/-- The protocol and the metric of the management routes. -/
def isOwned (r : Route) : Bool := r.protocol == ruleProtocol && r.metric == routeMetric

/-- `_owned_routes`. -/
def ownedRoutes (routes : List Route) : List (Network × Path) :=
  (routes.filter isOwned).filterMap fun r => (routeNetwork f r).map (·, routePath r)

/-- `_owned_provider_routes`. -/
def ownedProviderRoutes (routes : List Route) : List ((Nat × Network) × Path) :=
  (routes.filter fun r => isOwned r && isProviderTable r.table).filterMap fun r =>
    (routeNetwork f r).map fun n => ((r.table, n), routePath r)

/-- `_path_matches`; a gateway of the other family equals none of this one. -/
def pathMatches (r : Route) (path : Path) : Bool :=
  if path = .closed then isFailClosed r.kind
  else !isFailClosed r.kind && path.device.all (r.dev == some ·) &&
    path.gateway.all (gatewayOf r == some ·)

/-! ## Readings -/

def readRules : Act (List Rule) := json .ruleInspection fun h => (h.rules f).rules

/-- The routes of the main table. -/
def mainRoutesOf (h : Underlay) : List Route :=
  (h.routes f).routes.filter (·.table == mainTable)

def readMainRoutes : Act (List Route) := json .routeDiscovery (mainRoutesOf f)

def readAllRoutes : Act (List Route) :=
  json .providerRouteInspection fun h => (h.routes f).routes

/-- The devices of the default routes of some tables. -/
def defaultDevices (tables : List Nat) (routes : List Route) : List Iface :=
  (routes.filter fun r => tables.contains r.table && r.dst == []).filterMap (·.dev)

/-- `_provider_devices`. -/
def providerDevices (rules : Family → List Rule) : Act (List Iface) := do
  let devices ← both fun f =>
    if (providerTables (rules f)).isEmpty then pure []
    else readAllRoutes f >>= fun routes => pure (defaultDevices (providerTables (rules f)) routes)
  pure (devices .v4 ++ devices .v6)

/-! ## Paths -/

/-- The first of the routes with the longest prefix. -/
def longest : List Route → Option Route
  | [] => none
  | r :: rest =>
    match longest rest with
    | none => some r
    | some s => if r.dst.length < s.dst.length then some s else some r

/-- `ProtectedDestination`. -/
structure Destination where
  network : Network
  expectedDevice : Iface
  deriving DecidableEq

variable (main : Family → List Route)

/-- `_protected_destination_paths` for one destination; `none` if it is unavailable. -/
def destinationPath (devices : List Iface) (d : Destination) : Option Path :=
  let candidates := (main d.network.family).filter fun r =>
    r.dst != [] && d.network.subnetOf r.dst && r.protocol != ruleProtocol && !isFailClosed r.kind &&
      r.dev.isSome
  match longest candidates with
  | none => none
  | some r =>
    let sameFamily := match r.hop with
      | .via _ => false
      | .link | .gateway _ => true
    if r.dev == some d.expectedDevice && !devices.contains d.expectedDevice && sameFamily then
      some (routePath r)
    else none

/-- The path of a configured network, and whether the main table needs a route for it: a covering
route that is not ours, or else the first usable default. -/
def configuredPath (routes : List Route) (n : Network) : Option (Bool × Path) :=
  match longest (routes.filter fun r =>
      r.protocol != ruleProtocol && r.dst != [] && n.subnetOf r.dst) with
  | some r => some (false, routePath r)
  | none =>
    (routes.find? fun r => r.dst == [] && ((gatewayOf r).isSome || r.dev.isSome)).map fun r =>
      (true, routePath r)

/-- A dictionary from its assignments: the last one counts. -/
def lastWins {α β : Type} [DecidableEq α] : List (α × β) → List (α × β)
  | [] => []
  | x :: rest => if rest.any (·.1 == x.1) then lastWins rest else x :: lastWins rest

def sortNetworks (l : List Network) : List Network := l.insertionSort fun a b => a.le b = true

def sortEntries (l : List (Network × Path)) : List (Network × Path) :=
  l.insertionSort fun a b => a.1.le b.1 = true

/-! ## The main table -/

/-- What the main table is to hold for the configured networks, and their paths. -/
def mainPlan (configured : List Network) : List (Network × Bool × Path) :=
  configured.filterMap fun n => (configuredPath (main n.family) n).map (n, ·)

def mainDesired (configured closed : List Network) : List (Network × Path) :=
  lastWins (((mainPlan main configured).filter (·.2.1)).map (fun x => (x.1, x.2.2)) ++
    closed.map (·, .closed))

def expectedPaths (configured : List Network) : List (Network × Path) :=
  (mainPlan main configured).map fun x => (x.1, x.2.2)

/-- The edit that puts an entry in place, if it is not there. -/
def putEdit (existing : List (Network × Path)) (table : Nat) (entry : Network × Path) :
    Option Edit :=
  if existing.contains entry then none
  else if existing.any (·.1 == entry.1) then some (.replaceRoute table entry.1 entry.2)
  else some (.addRoute table entry.1 entry.2)

def mainPuts (existing desired : List (Network × Path)) : List Edit :=
  (sortEntries desired).filterMap (putEdit existing mainTable)

def mainDrops (existing desired : List (Network × Path)) : List Edit :=
  (sortNetworks ((existing.map (·.1)).filter fun n => !desired.any (·.1 == n)).eraseDups).map
    (Edit.deleteRoute mainTable)

/-- The counts and tables of a reconciliation. -/
structure Tally where
  added : Nat
  removed : Nat
  deriving DecidableEq

/-- `_reconcile_routes`. -/
def reconcileRoutes (configured closed : List Network) : Act (Tally × List (Network × Path)) := do
  let main ← both fun f => do
    let routes ← readMainRoutes f
    .demand ((configured.filter (·.family = f)).all fun n => (configuredPath routes n).isSome)
      (.code .routeDiscovery)
    pure routes
  let existing := ownedRoutes .v4 (main .v4) ++ ownedRoutes .v6 (main .v6)
  let desired := mainDesired main configured.eraseDups closed
  (mainPuts existing desired).forM mutate
  (mainDrops existing desired).forM mutate
  pure (⟨(mainPuts existing desired).length, (mainDrops existing desired).length⟩,
    expectedPaths main configured.eraseDups)

/-! ## Direct networks -/

/-- `DirectManagementPath`. -/
structure DirectPath where
  network : Network
  device : Iface
  localAddresses : List Bits
  deriving DecidableEq

/-- `is_loopback` and `is_link_local` of a network. -/
def isLocalScope (n : Network) : Bool :=
  match n.family with
  | .v4 => n.subnetOf (ofNat 8 127) || n.subnetOf (ofNat 16 0xA9FE)
  | .v6 => n.subnetOf (ofNat 128 1) || n.subnetOf (ofNat 10 0x3FA)

/-- The global addresses of a link in one family. -/
def globalAddresses (h : Underlay) (f : Family) (device : Iface) : List Address :=
  ((h.links.filter (·.name == device)).flatMap (·.addresses)).filter fun a =>
    decide (a.family = f) && a.isGlobal

def textLe : List Char → List Char → Bool
  | [], _ => true
  | _ :: _, [] => false
  | a :: as, b :: bs => a < b || (a == b && textLe as bs)

/-- `_direct_management_paths` for one family: the networks of the links that carry a default route.
The readings change nothing and fail alike, so that they are one step here. -/
def directPathsOf (h : Underlay) : List DirectPath :=
  let devices := (((mainRoutesOf f h).filter (·.dst == [])).filterMap (·.dev)).eraseDups
  (devices.insertionSort fun a b => textLe a b = true).flatMap fun device =>
    let addresses := (globalAddresses h f device).filter fun a => !isLocalScope a.network
    (addresses.map (·.network)).eraseDups.map fun n =>
      ⟨n, device, ((addresses.filter (·.network == n)).map (·.bits)).insertionSort fun a b =>
        value (width f) a ≤ value (width f) b⟩

def readDirectPaths : Act (List DirectPath) := do
  let paths ← both fun f => json .routeDiscovery (directPathsOf f)
  pure ((paths .v4 ++ paths .v6).eraseDups.insertionSort fun a b =>
    (a.network.le b.network && !(b.network.le a.network && !textLe a.device b.device)) = true)

/-! ## The provider tables -/

def hasDefault (routes : List Route) (table : Nat) : Bool :=
  routes.any fun r => r.table == table && r.dst == []

def digits (n : Nat) : List Char := Nat.toDigits 10 n

/-- The tables that rules up to a priority select and that have a default route. -/
def discoveredTables (rules : List Rule) (routes : List Route) (priority : Nat) : List Nat :=
  ((providerTablesBefore rules priority).eraseDups.filter (hasDefault routes)).insertionSort
    fun a b => textLe (digits a) (digits b) = true

/-- What a protected path asks of a provider table. -/
inductive Mirror where
  | foreign
  | conflict
  | settled
  | put (e : Edit)
  deriving DecidableEq

def Mirror.wanted : Mirror → Bool
  | .settled | .put _ => true
  | .foreign | .conflict => false

def mirror (routes : List Route) (table : Nat) (entry : Network × Path) : Mirror :=
  let foreign := routes.filter fun r => r.table == table && r.dst == entry.1.bits && !isOwned r
  if foreign.isEmpty then
    let owned := (ownedProviderRoutes entry.1.family routes).filter (·.1 == (table, entry.1))
    if owned.any (·.2 == entry.2) then .settled
    else if owned.isEmpty then .put (.addRoute table entry.1 entry.2)
    else .put (.replaceRoute table entry.1 entry.2)
  else if foreign.all (pathMatches · entry.2) then .foreign
  else .conflict

/-- The entries in the order of the loop: those without a gateway first. -/
def mirrorEntries (paths : List (Network × Path)) (f : Family) : List (Network × Path) :=
  ((sortEntries paths).insertionSort fun a b =>
    (!a.2.gateway.isSome || b.2.gateway.isSome) = true).filter (·.1.family = f)

/-- The places where the paths are wanted, table by table. -/
def mirrorPlaces (paths : List (Network × Path)) (targets : Family → List Nat) (f : Family) :
    List (Nat × Network × Path) :=
  (targets f).flatMap fun table => (mirrorEntries paths f).map (table, ·)

def Mirror.carryOut : Mirror → Act Unit
  | .conflict => .raise (.code .providerRouteConflict)
  | .put e => mutate e
  | .foreign | .settled => pure ()

def mirrorStep (routes : Family → List Route) (place : Nat × Network × Path) : Act Unit :=
  (mirror (routes place.2.1.family) place.1 place.2).carryOut

/-- The owned routes that no place asks for. -/
def mirrorDrops (routes : Family → List Route) (places : List (Nat × Network × Path)) (f : Family) :
    List Edit :=
  let wanted := places.filter fun place =>
    (mirror (routes place.2.1.family) place.1 place.2).wanted
  let stale := ((ownedProviderRoutes f (routes f)).map (·.1)).filter fun key =>
    !wanted.any fun place => (place.1, place.2.1) == key
  (stale.insertionSort fun a b => (a.1 < b.1 || (a.1 == b.1 && a.2.le b.2)) = true).map fun key =>
    .deleteRoute key.1 key.2

/-- `CoreProviderTableStore.load`. -/
def storedTables (h : Underlay) (f : Family) : List Nat :=
  ((h.tables f).filter isProviderTable).eraseDups

def storeLoad : Act (Family → List Nat) :=
  (Proc.prim (fun r h =>
      (if r.refused.isSome then .error .other else .ok (storedTables h), h)) fun _ h => h).handle
    fun _ => .raise (.code .providerTableState)

def storeSave (tables : Family → List Nat) : Act Unit :=
  (Proc.prim (fun r h =>
      match r.refused with
      | none => (.ok (), { h with tables := tables })
      | some took => (.error .other, if took then { h with tables := tables } else h))
    fun k h => if k = 0 then h else { h with tables := tables }).handle fun _ =>
      .raise (.code .providerTableState)

/-- `_reconcile_provider_routes`. -/
def reconcileProviderRoutes (paths : List (Network × Path)) (rules : Family → List Rule)
    (priority : Nat) (transition : Bool) : Act (Tally × (Family → List Nat)) := do
  let cached ← storeLoad
  let routes ← both readAllRoutes
  let discovered := fun f => discoveredTables (rules f) (routes f) priority
  let targets := fun f =>
    if (discovered f).isEmpty then if transition then cached f else [] else discovered f
  .when (!(discovered .v4).isEmpty || !(discovered .v6).isEmpty)
    (storeSave fun f => if (discovered f).isEmpty then cached f else discovered f)
  let places := mirrorPlaces paths targets .v4 ++ mirrorPlaces paths targets .v6
  places.forM (mirrorStep routes)
  let drops := mirrorDrops routes places .v4 ++ mirrorDrops routes places .v6
  drops.forM mutate
  let added := places.filter fun place =>
    match mirror (routes place.2.1.family) place.1 place.2 with
    | .put _ => true
    | _ => false
  pure (⟨added.length, drops.length⟩, targets)

/-! ## The rules -/

def ruleAdds (existing desired : List (Nat × Network)) : List Edit :=
  (desired.diff existing).map fun x => .addRule x.1 x.2

def ruleDrops (existing desired : List (Nat × Network)) : List Edit :=
  ((existing.diff desired).insertionSort fun a b =>
    (a.1 < b.1 || (a.1 == b.1 && a.2.le b.2)) = true).map fun x => .deleteRule x.1 x.2

/-! ## The check at the end -/

/-- The offsets that `_representative_address` looks at in a network of the given size. -/
def sampledOffsets (size : Nat) : List Nat :=
  List.range (min size 4) ++
    if size > 4 then [if f = .v4 then size - 2 else size - 1] else []

/-- The network or broadcast address of an IPv4 network shorter than /31. -/
def isEdge (base length address : Nat) : Bool :=
  decide (f = .v4) && length < 31 &&
    (address == base || address == base + 2 ^ (width f - length) - 1)

/-- `_representative_address` for the network at `base`, with every address as its number. -/
def representativeValue (base length : Nat) (excluded : List Nat) : Option Nat :=
  ((sampledOffsets f (2 ^ (width f - length))).map (base + ·)).find? fun candidate =>
    !excluded.contains candidate && !isEdge f base length candidate

def representativeAddress (n : Network) (excluded : List Bits) : Option Bits :=
  (representativeValue n.family (value (width n.family) n.bits) n.bits.length
    (excluded.map fun a => value a.length a)).map (ofNat (width n.family))

/-- A host of the network at `base`: of an IPv4 network shorter than /31 neither the first nor the
last address. -/
def IsHost (base length a : Nat) : Prop :=
  match f with
  | .v4 =>
    if length < 31 then base < a ∧ a + 1 < base + 2 ^ (32 - length)
    else base ≤ a ∧ a < base + 2 ^ (32 - length)
  | .v6 => base ≤ a ∧ a < base + 2 ^ (128 - length)

/-- The hosts that are looked at: of at most four addresses all, and otherwise those among the first
four and one at the end. -/
def lookedAt (base length : Nat) : List Nat :=
  match f with
  | .v4 =>
    if 32 ≤ length then [base]
    else if length = 31 then [base, base + 1]
    else if length = 30 then [base + 1, base + 2]
    else [base + 1, base + 2, base + 3, base + 2 ^ (32 - length) - 2]
  | .v6 =>
    if 128 ≤ length then [base]
    else if length = 127 then [base, base + 1]
    else if length = 126 then [base, base + 1, base + 2, base + 3]
    else [base, base + 1, base + 2, base + 3, base + 2 ^ (128 - length) - 1]

/-- An address that can be asked for. The excluded ones are addresses of either family. -/
def Testable (base length : Nat) (excluded : List (Family × Nat)) (a : Nat) : Prop :=
  IsHost f base length a ∧ (f, a) ∉ excluded

theorem sampledOffsets_lt {f : Family} {length offset : Nat}
    (h : offset ∈ sampledOffsets f (2 ^ (width f - length))) : offset < 2 ^ (width f - length) := by
  have hpos := Nat.two_pow_pos (width f - length)
  simp only [sampledOffsets, List.mem_append, List.mem_range] at h
  rcases h with h | h
  · omega
  · split at h
    · simp only [List.mem_singleton] at h
      split at h <;> omega
    · cases h

theorem isHost_iff {f : Family} {base length a : Nat} : IsHost f base length a ↔
    base ≤ a ∧ a < base + 2 ^ (width f - length) ∧ isEdge f base length a = false := by
  cases f with
  | v4 =>
    have hpos := Nat.two_pow_pos (32 - length)
    simp only [IsHost, isEdge, width, decide_true, Bool.true_and]
    split
    · next hl =>
      simp only [hl, decide_true, Bool.true_and, Bool.or_eq_false_iff, beq_eq_false_iff_ne]
      omega
    · next hl => simp [hl]
  | v6 => simp [IsHost, isEdge, width]

/-- Eight addresses or more, unless the network is one of the last three sizes. -/
theorem eight_le {size length : Nat} (h : length + 3 ≤ size) : 8 ≤ 2 ^ (size - length) :=
  Nat.pow_le_pow_right (n := 2) (by omega) (show 3 ≤ size - length by omega)

theorem mem_sampled {f : Family} {base size a : Nat} :
    (∃ offset ∈ sampledOffsets f size, base + offset = a) ↔
      base ≤ a ∧ (a < base + min size 4 ∨
        4 < size ∧ a = base + if f = .v4 then size - 2 else size - 1) := by
  simp only [sampledOffsets, List.mem_append, List.mem_range, List.mem_ite_nil_right,
    List.mem_singleton]
  constructor
  · rintro ⟨offset, hoffset, rfl⟩
    omega
  · rintro ⟨hle, h⟩
    exact ⟨a - base, by omega, by omega⟩

/-- The table of `lookedAt` is what the offsets give. -/
theorem mem_lookedAt {f : Family} {base length a : Nat} : a ∈ lookedAt f base length ↔
    IsHost f base length a ∧
      ∃ offset ∈ sampledOffsets f (2 ^ (width f - length)), base + offset = a := by
  have hsize (size : Nat) : length + 3 ≤ size ∨ length + 2 = size ∨ length + 1 = size ∨
      size ≤ length := by
    omega
  rw [mem_sampled]
  cases f with
  | v4 =>
    rcases hsize 32 with h | h | h | h
    · have h8 := eight_le h
      simp only [lookedAt, IsHost, width, if_neg (show ¬32 ≤ length by omega),
        if_neg (show length ≠ 31 by omega), if_neg (show length ≠ 30 by omega),
        if_pos (show length < 31 by omega), List.mem_cons, List.not_mem_nil, or_false, if_true]
      omega
    · obtain rfl : length = 30 := by omega
      simp [lookedAt, IsHost, width]
      omega
    · obtain rfl : length = 31 := by omega
      simp [lookedAt, IsHost, width]
      omega
    · simp [lookedAt, IsHost, width, h, Nat.sub_eq_zero_of_le h, show ¬length < 31 by omega]
      omega
  | v6 =>
    rcases hsize 128 with h | h | h | h
    · have h8 := eight_le h
      simp only [lookedAt, IsHost, width, if_neg (show ¬128 ≤ length by omega),
        if_neg (show length ≠ 127 by omega), if_neg (show length ≠ 126 by omega),
        List.mem_cons, List.not_mem_nil, or_false, if_neg (show Family.v6 ≠ .v4 by decide)]
      omega
    · obtain rfl : length = 126 := by omega
      simp [lookedAt, IsHost, width]
      omega
    · obtain rfl : length = 127 := by omega
      simp [lookedAt, IsHost, width]
      omega
    · simp [lookedAt, IsHost, width, h, Nat.sub_eq_zero_of_le h]
      omega

/-- An address that is found can be asked for. That none is found means that there is none exactly
if one of the few hosts that are looked at does not share its number with an excluded address of
either family, or if every host is excluded. -/
theorem representative_iff (f : Family) (base length : Nat) (excluded : List (Family × Nat)) :
    ((∀ a, representativeValue f base length (excluded.map Prod.snd) = some a →
        Testable f base length excluded a) ∧
      (representativeValue f base length (excluded.map Prod.snd) = none →
        ¬∃ a, Testable f base length excluded a)) ↔
    ((∃ a ∈ lookedAt f base length, a ∉ excluded.map Prod.snd) ∨
      ∀ a, IsHost f base length a → (f, a) ∈ excluded) := by
  have hfound (a : Nat) (h : representativeValue f base length (excluded.map Prod.snd) = some a) :
      a ∈ lookedAt f base length ∧ a ∉ excluded.map Prod.snd := by
    obtain ⟨offset, hoffset, rfl⟩ := List.mem_map.mp (List.mem_of_find?_eq_some h)
    have hok := List.find?_some h
    simp only [Bool.and_eq_true, Bool.not_eq_true', List.contains_eq_mem, decide_eq_false_iff_not]
      at hok
    have hlt := sampledOffsets_lt hoffset
    exact ⟨mem_lookedAt.mpr ⟨isHost_iff.mpr ⟨by omega, by omega, hok.2⟩, offset, hoffset, rfl⟩,
      hok.1⟩
  have hsound (a : Nat) (h : representativeValue f base length (excluded.map Prod.snd) = some a) :
      Testable f base length excluded a :=
    ⟨(mem_lookedAt.mp (hfound a h).1).1, fun hmem => (hfound a h).2 (List.mem_map_of_mem hmem)⟩
  constructor
  · rintro ⟨-, hcomplete⟩
    cases hr : representativeValue f base length (excluded.map Prod.snd) with
    | some a => exact .inl ⟨a, hfound a hr⟩
    | none =>
      refine .inr fun a ha => ?_
      by_contra hmem
      exact hcomplete hr ⟨a, ha, hmem⟩
  · rintro (⟨a, hlooked, hfree⟩ | hall)
    · refine ⟨hsound, fun hnone => ?_⟩
      -- the search would have stopped at this address, or before it
      obtain ⟨hhost, offset, hoffset, rfl⟩ := mem_lookedAt.mp hlooked
      have hskip := List.find?_eq_none.mp hnone _ (List.mem_map_of_mem hoffset)
      simp [hfree, (isHost_iff.mp hhost).2.2] at hskip
    · exact ⟨hsound, fun _ ⟨a, ha, hfree⟩ => hfree (hall a ha)⟩

/-- Four excluded addresses hide the rest of a /24. -/
theorem representative_missed :
    let excluded := [1, 2, 3, 254].map fun host => (Family.v4, 0xC0A80100 + host)
    representativeValue .v4 0xC0A80100 24 (excluded.map Prod.snd) = none ∧
      Testable .v4 0xC0A80100 24 excluded 0xC0A80104 := by
  unfold Testable IsHost
  decide

/-- The packet of `ip route get`. -/
def probe (destination : Bits) : Packet :=
  ⟨ofNat (width f) 0, destination, some "lo".toList, none, fun _ => false⟩

/-- `_route_get`: the command fails if there is no route or it is closed. -/
def routeGet (destination : Bits) (code : Code) : Act (Rule × Route) :=
  json code (fun h => resolve (h.rules f).rules (h.routes f).routes (probe f destination)) >>= fun
    | some (r, route) =>
      if isFailClosed route.kind then .raise (.code code) else pure (r, route)
    | none => .raise (.code code)

/-- The lookup of a representative has to give the path. -/
def verifyPath (n : Network) (excluded : List Bits) (path : Path) (code : Code) : Act Unit :=
  .optionally (representativeAddress n excluded) fun destination =>
    routeGet n.family destination code >>= fun found =>
      .demand (pathMatches found.2 path) (.code code)

/-- `_device_local_addresses`, if there is a device. -/
def deviceAddresses (device : Option Iface) : Act (List Bits) :=
  match device with
  | some device =>
    json .destinationPostcondition fun h => (globalAddresses h f device).map (·.bits)
  | none => pure []

/-- The gateways of the default routes, with their devices. -/
def physicalGateways (routes : List Route) : List (Bits × Iface) :=
  ((routes.filter (·.dst == [])).filterMap fun r =>
    match gatewayOf r, r.dev with
    | some g, some d => some (g, d)
    | _, _ => none).eraseDups

def verifyRules (priority : Nat) (networks : List Network) : Act (Family → List Rule) := do
  let rules ← both readRules
  let owned := ownedRules .v4 (rules .v4) ++ ownedRules .v6 (rules .v6)
  .demand (owned.isPerm (networks.map (priority, ·)) && owned.all (·.1 != 0))
    (.code .rulePostcondition)
  pure rules

def verifyClosed (closed : List Network) : Act Unit :=
  .demand (closed.all fun n => (main n.family).any fun r =>
    r.dst == n.bits && isOwned r && pathMatches r .closed) (.code .failClosedPostcondition)

/-- The mirrored paths of one provider table. -/
def verifyTable (paths : List (Network × Path)) (f : Family) (table : Nat) : Act Unit :=
  json .providerRouteInspection (fun h => (h.routes f).routes.filter (·.table == table)) >>=
    fun routes =>
      .demand ((paths.filter (·.1.family = f)).all fun entry =>
          routes.any fun r => r.dst == entry.1.bits && pathMatches r entry.2)
        (.code .managementProviderRoutePostcondition)

def publicAddress : Bits := ofNat 32 0x01010101

/-- The public route goes through a provider table if there is one, and else the default way. -/
def verifyPublic (main : List Route) (rules : List Rule) : Act Unit := do
  let defaults := main.filter fun r => r.dst == [] && r.dev.isSome
  .demand (!defaults.isEmpty) (.code .providerRoutePostcondition)
  let found ← routeGet .v4 publicAddress .providerRoutePostcondition
  .demand
    (if (providerTables rules).isEmpty then
      (defaults.head?.map fun r => pathMatches found.2 (routePath r)).getD false
    else (providerTables rules).contains found.1.table)
    (.code .providerRoutePostcondition)

/-- What the check at the end is given. -/
structure Outlook where
  priority : Nat
  networks : List Network
  configured : List (Network × Path)
  direct : List DirectPath
  main : Family → List Route
  paths : List (Network × Path)
  available : List (Network × Path)
  closed : List Network
  targets : Family → List Nat

/-- `_verify_postconditions`. -/
def verifyPostconditions (o : Outlook) : Act Unit := do
  let rules ← verifyRules o.priority o.networks
  verifyClosed o.main o.closed
  [Family.v4, .v6].forM fun f => (o.targets f).forM (verifyTable o.paths f)
  [Family.v4, .v6].forM fun f => (physicalGateways (o.main f)).forM fun g =>
    routeGet f g.1 .gatewayPostcondition >>= fun found =>
      .demand (pathMatches found.2 ⟨none, some g.2⟩) (.code .gatewayPostcondition)
  let gateways := ((physicalGateways (o.main .v4)) ++ physicalGateways (o.main .v6)).map (·.1)
  o.direct.forM fun path =>
    verifyPath path.network (path.localAddresses ++ gateways) ⟨none, some path.device⟩
      .directPostcondition
  o.configured.forM fun entry => verifyPath entry.1 [] entry.2 .routedPostcondition
  o.available.forM fun entry => deviceAddresses entry.1.family entry.2.device >>= fun addresses =>
    verifyPath entry.1 addresses entry.2 .destinationPostcondition
  verifyPublic (o.main .v4) (rules .v4)

/-! ## Reconciliation -/

/-- The arguments of `reconcile`. -/
structure Config where
  configured : List Network
  destinations : List Destination

def desiredNetworks (config : Config) (direct : List DirectPath) : List Network :=
  (sortNetworks (config.configured ++ (direct.map (·.network)).eraseDups ++
    config.destinations.map (·.network))).eraseDups

def protectedPaths (configured : List (Network × Path)) (direct : List DirectPath)
    (available : List (Network × Path)) (closed : List Network) : List (Network × Path) :=
  lastWins (configured ++ direct.map (fun p => (p.network, ⟨none, some p.device⟩)) ++ available ++
    closed.map (·, .closed))

/-- `ReconcileResult`. -/
structure Result where
  prefixes : List Network
  added : Nat
  removed : Nat
  deriving DecidableEq

def rulePriority (transition : Bool) : Nat := if transition then priorityMin else priorityBase

/-- What `_reconcile` computes from the destinations. -/
def availablePaths (config : Config) (main : Family → List Route) (devices : List Iface) :
    List (Network × Path) :=
  config.destinations.filterMap fun d => (destinationPath main devices d).map (d.network, ·)

def closedNetworks (config : Config) (main : Family → List Route) (devices : List Iface) :
    List Network :=
  (config.destinations.filter fun d => (destinationPath main devices d).isNone).map (·.network)

/-- `_reconcile` up to the report of unavailable destinations, which are its second result. -/
def reconcileBody (config : Config) (transition : Bool) : Act (Result × List Network) := do
  let priority := rulePriority transition
  let rules ← both readRules
  let main ← both readMainRoutes
  let devices ← providerDevices rules
  let available := availablePaths config main devices
  let closed := closedNetworks config main devices
  let (mainTally, configured) ← reconcileRoutes config.configured closed
  let main ← both readMainRoutes
  let direct ← readDirectPaths
  let networks := desiredNetworks config direct
  .demand (networks.length ≤ maxPrefixes + direct.length + config.destinations.length)
    (.code .tooManyPrefixes)
  let paths := protectedPaths configured direct available closed
  let (providerTally, targets) ← reconcileProviderRoutes paths rules priority transition
  let desired := networks.map (priority, ·)
  let existing := ownedRules .v4 (rules .v4) ++ ownedRules .v6 (rules .v6)
  (ruleAdds existing desired).forM mutate
  (ruleDrops existing desired).forM mutate
  verifyPostconditions ⟨priority, networks, configured, direct, main, paths, available, closed,
    targets⟩
  pure (⟨networks, mainTally.added + providerTally.added + (ruleAdds existing desired).length,
    mainTally.removed + providerTally.removed + (ruleDrops existing desired).length⟩, closed)

/-- `_reconcile`. -/
def reconcileWith (config : Config) (transition : Bool) : Act Result := do
  let (result, closed) ← reconcileBody config transition
  .demand closed.isEmpty (.code .destinationUnavailable)
  pure result

/-- `reconcile`. -/
def reconcile (config : Config) : Act Result := reconcileWith config false

end ExitLane.Management
