import Mathlib.Data.List.Sort
import Mathlib.Data.Prod.Lex
import Mathlib.Order.OrderDual
import ExitLane.Python.Text

/-!
# The choice of a server

`services/vpn_selection.py`: `select_server` takes the fastest server of a country, from the fresh
rows of the latency cache if these know the first five servers of the list, and else from a new
measurement of those. Times are of any linear order, and `str.casefold` is any function.

* `considered_measureServers`: the rows cover the first five servers, and are about listed servers;
* `least_of_find?`: the first row of a sorted list that has a latency has the least one;
* `select_server_least`: what is selected is the best of the rows that were considered.
-/

namespace ExitLane.Vpn.Selection

open Python

/-- An item of the list of a provider. -/
structure Server where
  hostname : Option Text
  station : Option Text

/-- A row of `vpn_latency_cache`. -/
structure Row (τ : Type) where
  provider : Text
  country : Text
  server : Text
  latency : Option Int
  status : Text
  measuredAt : τ

/-- What a call of `select_server` gets from outside: its arguments, the clock, and the latency and
the status of each measurement, by its place among the candidates and its endpoint. -/
structure Outside (τ : Type) where
  provider : Text
  country : Text
  cutoff : τ
  now : τ
  casefold : Text → Text
  measure : Nat → Text → Option Int × Text

/-- The dictionary that is returned, without the time of the measurement. -/
structure Choice where
  server : Text
  latency : Option Int
  status : Text
  deriving DecidableEq

variable {τ : Type}

def normalizeServerHostname (o : Outside τ) : Option Text → Option Text
  | none => none
  | some server =>
    match o.casefold ((strip server).rdropWhile (· == '.')) with
    | [] => none
    | normalized => some normalized

/-! ## Rows in order -/

/-- `sorted(rows, key=…)`, which is stable. -/
def sortRows {κ : Type} [LinearOrder κ] (key : Row τ → κ) (rows : List (Row τ)) : List (Row τ) :=
  rows.insertionSort fun a b => key a ≤ key b

/-- `(latency_ms is None, latency_ms or 0)`. -/
def latencyKey (row : Row τ) : Bool ×ₗ Int := toLex (row.latency.isNone, row.latency.getD 0)

/-- The latency of `a` is at most that of `b`, if `b` has one. -/
def Faster (a b : Row τ) : Prop := ∀ m, b.latency = some m → ∃ l, a.latency = some l ∧ l ≤ m

theorem faster_of_latencyKey {a b : Row τ} (h : latencyKey a ≤ latencyKey b) : Faster a b := by
  intro m hm
  rw [latencyKey, latencyKey, Prod.Lex.toLex_le_toLex, hm] at h
  cases ha : a.latency with
  | none =>
    rw [ha] at h
    rcases h with hlt | ⟨heq, -⟩
    · exact absurd hlt (by simp)
    · cases heq
  | some l => exact ⟨l, rfl, by simpa [ha] using h⟩

theorem pairwise_sortRows {κ : Type} [LinearOrder κ] {key : Row τ → κ}
    (hkey : ∀ {a b}, key a ≤ key b → Faster a b) (rows : List (Row τ)) :
    (sortRows key rows).Pairwise Faster := by
  have : Std.Total fun a b : Row τ => key a ≤ key b := ⟨fun a b => le_total (key a) (key b)⟩
  have : IsTrans (Row τ) fun a b => key a ≤ key b := ⟨fun _ _ _ => le_trans⟩
  exact (List.pairwise_insertionSort _ rows).imp hkey

theorem least_of_find? {rows : List (Row τ)} (hrows : rows.Pairwise Faster) {best : Row τ}
    (h : rows.find? (·.latency.isSome) = some best) : ∀ row ∈ rows, Faster best row := by
  induction rows with
  | nil => cases h
  | cons first rest ih =>
    rw [List.pairwise_cons] at hrows
    rw [List.find?_cons] at h
    cases hfirst : first.latency with
    | some l =>
      simp only [hfirst, Option.isSome_some] at h
      cases h
      intro row hrow m hm
      rcases List.mem_cons.mp hrow with rfl | hrow
      · exact ⟨m, hm, le_rfl⟩
      · exact hrows.1 row hrow m hm
    | none =>
      -- then no later row has a latency either
      simp only [hfirst, Option.isSome_none] at h
      have hbest := List.find?_some h
      obtain ⟨l, hl⟩ := Option.isSome_iff_exists.mp (hbest : best.latency.isSome = true)
      obtain ⟨l', hl', -⟩ := hrows.1 best (List.mem_of_find?_eq_some h) l hl
      rw [hfirst] at hl'
      cases hl'

variable [LinearOrder τ]

/-- `ORDER BY latency_ms IS NULL, latency_ms, measured_at DESC`. -/
def cacheKey (row : Row τ) : (Bool ×ₗ Int) ×ₗ τᵒᵈ :=
  toLex (latencyKey row, OrderDual.toDual row.measuredAt)

theorem faster_of_cacheKey {a b : Row τ} (h : cacheKey a ≤ cacheKey b) : Faster a b := by
  rw [cacheKey, cacheKey, Prod.Lex.toLex_le_toLex] at h
  rcases h with hlt | ⟨heq, -⟩
  · exact faster_of_latencyKey hlt.le
  · exact faster_of_latencyKey heq.le

/-! ## The selection -/

variable (o : Outside τ) (db : List (Row τ)) (servers : List Server)

/-- `_cached`. -/
def cached : List (Row τ) :=
  sortRows cacheKey (db.filter fun row =>
    row.provider = o.provider ∧ row.country = o.country ∧ o.cutoff ≤ row.measuredAt)

/-- The first five servers with a usable name, each with the endpoint to measure. -/
def candidates : List (Text × Text) :=
  (servers.filterMap fun item => (normalizeServerHostname o item.hostname).map fun name =>
    (name, (item.station.filter (· ≠ [])).getD name)).take 5

/-- The cached rows whose names are in the list. -/
def known : List (Row τ) :=
  (cached o db).filter fun row => normalizeServerHostname o row.server ∈
    servers.map fun item => normalizeServerHostname o item.hostname

/-- The rows of a new measurement. -/
def measured : List (Row τ) :=
  (candidates o servers).mapIdx fun i candidate =>
    let result := o.measure i candidate.2
    ⟨o.provider, o.country, candidate.1, result.1, result.2, o.now⟩

/-- `INSERT … ON CONFLICT(provider, server) DO UPDATE`. -/
def upsert (row : Row τ) : List (Row τ) :=
  if db.any fun old => old.provider = row.provider ∧ old.server = row.server then
    db.map fun old => if old.provider = row.provider ∧ old.server = row.server then row else old
  else db ++ [row]

/-- The rows, and the cache afterwards. -/
def measureServers : List (Row τ) × List (Row τ) :=
  let names := (known o db servers).map fun row => normalizeServerHostname o row.server
  if known o db servers ≠ [] ∧ ∀ candidate ∈ candidates o servers, some candidate.1 ∈ names then
    (known o db servers, db)
  else (sortRows latencyKey (measured o servers), (measured o servers).foldl upsert db)

def selectServer : Option Choice × List (Row τ) :=
  let (rows, db) := measureServers o db servers
  match rows.find? (·.latency.isSome) with
  | some best => (some ⟨best.server, best.latency, best.status⟩, db)
  | none =>
    match servers.findSome? fun item => item.hostname.filter (· ≠ []) with
    | some hostname => (some ⟨hostname, none, "unknown".toList⟩, db)
    | none => (none, db)

/-! ## The rows that are considered -/

/-- The rows are fresh, they are about listed servers as far as their names are usable, and the
first five servers are among them. -/
structure Considered (rows : List (Row τ)) : Prop where
  fresh : ∀ row ∈ rows, row ∈ cached o db ∨ row ∈ measured o servers
  listed : ∀ row ∈ rows, ∀ name, normalizeServerHostname o row.server = some name →
    ∃ item ∈ servers, normalizeServerHostname o item.hostname = some name ∨
      normalizeServerHostname o item.hostname = some row.server
  covers : ∀ candidate ∈ candidates o servers, ∃ row ∈ rows, row.server = candidate.1 ∨
    normalizeServerHostname o row.server = some candidate.1
  sorted : rows.Pairwise Faster

omit [LinearOrder τ] in
theorem exists_of_candidate {candidate : Text × Text} (h : candidate ∈ candidates o servers) :
    ∃ item ∈ servers, normalizeServerHostname o item.hostname = some candidate.1 := by
  obtain ⟨item, hitem, hmap⟩ := List.mem_filterMap.mp (List.mem_of_mem_take h)
  obtain ⟨name, hname, rfl⟩ := Option.map_eq_some_iff.mp hmap
  exact ⟨item, hitem, hname⟩

theorem considered_known (hcovers : ∀ candidate ∈ candidates o servers, some candidate.1 ∈
      (known o db servers).map fun row => normalizeServerHostname o row.server) :
    Considered o db servers (known o db servers) where
  fresh row hrow := .inl (List.mem_filter.mp hrow).1
  listed row hrow name hname := by
    have hlisted := of_decide_eq_true (List.mem_filter.mp hrow).2
    obtain ⟨item, hitem, heq⟩ := List.mem_map.mp hlisted
    exact ⟨item, hitem, .inl (heq.trans hname)⟩
  covers candidate h := by
    obtain ⟨row, hrow, hname⟩ := List.mem_map.mp (hcovers candidate h)
    exact ⟨row, hrow, .inr hname⟩
  sorted := (pairwise_sortRows faster_of_cacheKey _).filter _

theorem considered_measured :
    Considered o db servers (sortRows latencyKey (measured o servers)) where
  fresh row hrow := .inr ((List.mem_insertionSort _).mp hrow)
  listed row hrow name hname := by
    obtain ⟨i, hi, rfl⟩ := List.mem_mapIdx.mp ((List.mem_insertionSort _).mp hrow)
    obtain ⟨item, hitem, heq⟩ := exists_of_candidate o servers (List.getElem_mem hi)
    exact ⟨item, hitem, .inr heq⟩
  covers candidate h := by
    obtain ⟨i, hi, rfl⟩ := List.getElem_of_mem h
    refine ⟨_, (List.mem_insertionSort _).mpr (List.mem_mapIdx.mpr ⟨i, hi, rfl⟩), .inl rfl⟩
  sorted := pairwise_sortRows faster_of_latencyKey _

theorem considered_measureServers : Considered o db servers (measureServers o db servers).1 := by
  unfold measureServers
  dsimp only
  split_ifs with h
  · exact considered_known o db servers h.2
  · exact considered_measured o db servers

/-- For every list of servers, content of the cache and outcome of the measurements, a result with
a latency is the best of the rows that were considered; there is one without a latency only if none
of these has one, and no result only if no server of the list has a hostname. -/
theorem select_server_least :
    Considered o db servers (measureServers o db servers).1 ∧
    match (selectServer o db servers).1 with
    | none => ∀ item ∈ servers, item.hostname = none ∨ item.hostname = some []
    | some choice =>
      match choice.latency with
      | none => ∀ row ∈ (measureServers o db servers).1, row.latency = none
      | some latency => ∃ best ∈ (measureServers o db servers).1,
          best.server = choice.server ∧ best.latency = some latency ∧
          ∀ row ∈ (measureServers o db servers).1, ∀ other, row.latency = some other →
            latency ≤ other := by
  have hrows := considered_measureServers o db servers
  refine ⟨hrows, ?_⟩
  unfold selectServer
  cases hfind : (measureServers o db servers).1.find? (·.latency.isSome) with
  | some best =>
    simp only [hfind]
    have hbest := List.find?_some hfind
    obtain ⟨latency, hlatency⟩ := Option.isSome_iff_exists.mp (hbest : best.latency.isSome = true)
    rw [hlatency]
    refine ⟨best, List.mem_of_find?_eq_some hfind, rfl, hlatency, fun row hrow other hother => ?_⟩
    obtain ⟨l, hl, hle⟩ := least_of_find? hrows.sorted hfind row hrow other hother
    rw [hlatency] at hl
    cases hl
    exact hle
  | none =>
    simp only [hfind]
    have hnone : ∀ row ∈ (measureServers o db servers).1, row.latency = none := by
      simpa using hfind
    cases hname : servers.findSome? fun item => item.hostname.filter (· ≠ []) with
    | some hostname => exact hnone
    | none =>
      intro item hitem
      have := List.findSome?_eq_none_iff.mp hname item hitem
      cases hhost : item.hostname with
      | none => exact .inl rfl
      | some name => simpa [hhost] using this

/-- The cache may hold the name of a listed server in capitals. -/
def demoOutside : Outside Nat := ⟨[], [], 0, 9, fun t => t.map Char.toLower, fun _ _ => (none, [])⟩

/-- Then the row is used, and its name is returned as it stands. -/
theorem select_server_raw :
    (selectServer demoOutside [⟨[], [], ['N', 'L'], some 7, [], 5⟩] [⟨some ['n', 'l'], none⟩]).1 =
      some ⟨['N', 'L'], some 7, []⟩ ∧
    ∀ item ∈ [(⟨some ['n', 'l'], none⟩ : Server)],
      normalizeServerHostname demoOutside item.hostname ≠ some ['N', 'L'] := by
  decide

end ExitLane.Vpn.Selection
