import ExitLane.Management.Converge

/-!
# Unavailable destinations

A protected destination whose path is unavailable gets an unreachable route in the main table
and in every provider table that is mirrored, and the reconciliation ends with an error. The
route has a large metric. In a provider table a route for the same network that is not ours
has to be closed as well, or the reconciliation stops before; in the main table nothing asks
for that, and such a route with a smaller metric wins.
-/

namespace ExitLane.Management

open Effect Net

variable {config : Config} {transition : Bool} {h t : Underlay} {n : Network} {r : Route}
  {x : Place} {table : Nat} {a : Bits}

/-! ## Dictionaries -/

theorem exists_mem_lastWins {α β : Type} [DecidableEq α] {l : List (α × β)} {a : α} {b : β}
    (hmem : (a, b) ∈ l) : ∃ b', (a, b') ∈ lastWins l := by
  induction l generalizing b with
  | nil => cases hmem
  | cons y rest ih =>
    unfold lastWins
    by_cases hlater : rest.any (·.1 == y.1) = true
    · rw [if_pos hlater]
      rcases List.mem_cons.mp hmem with rfl | hrest
      · obtain ⟨⟨a', b'⟩, hmem', heq⟩ := List.any_eq_true.mp hlater
        cases beq_iff_eq.mp heq
        exact ih hmem'
      · exact ih hrest
    · rw [if_neg hlater]
      rcases List.mem_cons.mp hmem with rfl | hrest
      · exact ⟨b, List.mem_cons_self⟩
      · obtain ⟨b', hb'⟩ := ih hrest
        exact ⟨b', List.mem_cons_of_mem _ hb'⟩

theorem mem_lastWins_append {α β : Type} [DecidableEq α] {l l' : List (α × β)} {x : α × β}
    (hx : x ∈ lastWins l') : x ∈ lastWins (l ++ l') := by
  induction l with
  | nil => exact hx
  | cons y rest ih =>
    rw [List.cons_append, lastWins]
    split
    · exact ih
    · exact List.mem_cons_of_mem _ ih

/-- The closed networks come last and win. -/
theorem mem_lastWins_closed {l : List (Network × Path)} {closed : List Network} (hn : n ∈ closed) :
    (n, Path.closed) ∈ lastWins (l ++ closed.map (·, Path.closed)) := by
  obtain ⟨path, hpath⟩ := exists_mem_lastWins (List.mem_map_of_mem (f := (·, Path.closed)) hn)
  have hclosed : path = .closed := by
    obtain ⟨m, -, heq⟩ := List.mem_map.mp (mem_of_mem_lastWins hpath)
    exact (Prod.mk.inj heq).2.symm
  exact mem_lastWins_append (hclosed ▸ hpath)

/-! ## The routes at the end -/

/-- A route at the end was there at the start or has been put there. -/
theorem Ran.route_cases {edits : List Edit} (hran : Ran h edits t) {f : Family}
    (hr : r ∈ routesOf t f) :
    r ∈ routesOf h f ∨ ∃ e ∈ edits, ∃ table bits path,
      e.change = some ((f, table, bits), some path) ∧ r = managementRoute table bits path := by
  induction hran with
  | start hsame =>
    rw [routesOf, hsame.routes] at hr
    exact .inl hr
  | @step edits e s s' t hran hsound happly hsame ih =>
    rw [routesOf, hsame.routes] at hr
    have hold (hr : r ∈ routesOf s f) : r ∈ routesOf h f ∨ ∃ e' ∈ edits ++ [e], ∃ table bits path,
        e'.change = some ((f, table, bits), some path) ∧ r = managementRoute table bits path := by
      rcases ih hr with hr | ⟨e', he', hrest⟩
      · exact .inl hr
      · exact .inr ⟨e', List.mem_append_left _ he', hrest⟩
    cases hchange : e.change with
    | none => exact hold (by rwa [apply_routes hchange happly] at hr)
    | some change =>
      obtain ⟨x, path⟩ := change
      by_cases hf : f = x.1
      · subst hf
        rcases (mem_routes_apply hchange hsound happly).mp hr with ⟨p, rfl, rfl⟩ | ⟨hr, -⟩
        · exact .inr ⟨e, by simp, x.2.1, x.2.2, p, hchange, rfl⟩
        · exact hold hr
      · exact hold (by rwa [routes_of_ne hchange happly hf] at hr)

/-- A put of the plan puts what is not in place. -/
theorem ne_of_mem_plan {e : Edit} {path : Path} (he : e ∈ plan config transition h)
    (hchange : e.change = some (x, some path)) : pathAt h x ≠ some path := by
  rcases mem_plan_change he hchange with ⟨he, -⟩ | ⟨he, -⟩
  · rcases List.mem_append.mp he with he | he
    · obtain ⟨n, p, -, hput⟩ := mem_planMainPuts.mp he
      rw [hput.change, Option.some.injEq, Prod.mk.injEq, Option.some.injEq] at hchange
      obtain ⟨rfl, rfl⟩ := hchange
      exact hput.1
    · obtain ⟨n, rfl, -⟩ := mem_planMainDrops.mp he
      simp [Edit.change] at hchange
  · rcases List.mem_append.mp he with he | he
    · obtain ⟨table, n, p, -, hput⟩ := mem_planMirrorPuts_iff.mp he
      rw [hput.change, Option.some.injEq, Prod.mk.injEq, Option.some.injEq] at hchange
      obtain ⟨rfl, rfl⟩ := hchange
      exact hput.1
    · obtain ⟨table, n, rfl, -⟩ := mem_planMirrorDrops_iff.mp he
      simp [Edit.change] at hchange

/-- A management route with this path lets packets through: it is in place and does so, or it is
not in place and the path is not closed. -/
def Opens (h : Underlay) (x : Place) (path : Path) : Prop :=
  (∃ r ∈ routesOf h x.1, atPlace x r = true ∧ routePath r = path ∧ isFailClosed r.kind = false) ∨
    (pathAt h x ≠ some path ∧ path ≠ .closed)

theorem eq_of_atPlace {q : Route} (hq : q ∈ routesOf h x.1) (hr : r ∈ routesOf h x.1)
    (hqx : atPlace x q = true) (hrx : atPlace x r = true) : q = r := by
  refine Fib.eq_of_sameKey hq hr (sameKey_iff.mpr ?_)
  obtain ⟨hqt, hqd, hqo⟩ := atPlace_iff.mp hqx
  obtain ⟨hrt, hrd, hro⟩ := atPlace_iff.mp hrx
  simp only [isOwned, Bool.and_eq_true, beq_iff_eq] at hqo hro
  exact ⟨hqt.trans hrt.symm, hqd.trans hrd.symm, hqo.2.trans hro.2.symm⟩

theorem opens_iff (hran : Ran h (plan config transition h) t) (hr : r ∈ routesOf t x.1)
    (hplace : atPlace x r = true) : Opens h x (routePath r) ↔ isFailClosed r.kind = false := by
  obtain ⟨ht, hd, hown⟩ := atPlace_iff.mp hplace
  rcases hran.route_cases hr with hold | ⟨e, he, table, bits, path, hchange, rfl⟩
  · have hthere : pathAt h x = some (routePath r) := mem_owned_iff.mpr ⟨r, hold, ht, hd, hown, rfl⟩
    constructor
    · rintro (⟨q, hq, hqx, -, hopen⟩ | ⟨hne, -⟩)
      · rwa [eq_of_atPlace hq hold hqx hplace] at hopen
      · exact absurd hthere hne
    · exact fun hopen => .inl ⟨r, hold, hplace, rfl, hopen⟩
  · obtain ⟨f, table', bits'⟩ := x
    cases ht
    cases hd
    have hne := ne_of_mem_plan he hchange
    rw [routePath_managementRoute]
    have hkind : isFailClosed (managementRoute table bits path).kind = false ↔ path ≠ .closed := by
      by_cases hclosed : path = .closed <;> simp [managementRoute, hclosed, isFailClosed]
    rw [hkind]
    constructor
    · rintro (⟨q, hq, hqx, rfl, -⟩ | ⟨-, hopen⟩)
      · obtain ⟨hqt, hqd, hqo⟩ := atPlace_iff.mp hqx
        exact absurd (mem_owned_iff.mpr ⟨q, hq, hqt, hqd, hqo, rfl⟩) hne
      · exact hopen
    · exact fun hopen => .inr ⟨hne, hopen⟩

/-! ## Lookups of an address of the network -/

/-- No route of other owners in the table is longer than the network and contains the address. -/
def Uncovered (h : Underlay) (table : Nat) (n : Network) (a : Bits) : Prop :=
  ∀ q ∈ routesOf h n.family, q.table = table → isOwned q = false → q.dst <+: a →
    q.dst.length ≤ n.bits.length

/-- The lookup in the table ends at a closed route. -/
def Sealed (h : Underlay) (table : Nat) (n : Network) (a : Bits) : Prop :=
  ∃ r, lookup (routesOf h n.family) table a = some r ∧ isFailClosed r.kind = true

/-- The longest of some networks inside `n` that contain the address. -/
structure Innermost (entries : Network → Path → Prop) (n : Network) (a : Bits) (m : Network)
    (path : Path) : Prop where
  entry : entries m path
  family : m.family = n.family
  inside : n.bits.length < m.bits.length
  covers : m.bits <+: a
  longest : ∀ m' path', entries m' path' → m'.family = n.family → m'.bits <+: a →
    m'.bits.length ≤ m.bits.length

theorem uncovered_iff {edits : List Edit} (hran : Ran h edits t) :
    Uncovered t table n a ↔ Uncovered h table n a := by
  constructor
  · exact fun hun q hq ht ho => hun q ((mem_foreign_iff hran).mpr ⟨hq, ho⟩).1 ht ho
  · exact fun hun q hq ht ho => hun q ((mem_foreign_iff hran).mp ⟨hq, ho⟩).1 ht ho

theorem eq_of_prefix_of_length {b c : Bits} (ha : a <+: c) (hb : b <+: c)
    (hlength : a.length = b.length) : a = b := by
  rw [List.prefix_iff_eq_take.mp ha, List.prefix_iff_eq_take.mp hb, hlength]

/-- Where a lookup ends if the table has a route for the network: at a route for the network, or at
a management route inside it. -/
theorem lookup_cases {E : Network → Path → Prop}
    (hentries : ∀ m path, m.family = n.family →
      (pathAt t (m.family, table, m.bits) = some path ↔ E m path)) (hcovers : n.bits <+: a)
    (hun : Uncovered t table n a)
    (hsome : ∃ r ∈ routesOf t n.family, r.table = table ∧ r.dst = n.bits) :
    ∃ r, lookup (routesOf t n.family) table a = some r ∧ r ∈ routesOf t n.family ∧
      r.table = table ∧
      ((r.dst = n.bits ∧ (∀ m path, ¬Innermost E n a m path) ∧
          ∀ q ∈ routesOf t n.family, q.table = table → q.dst = n.bits → r.metric ≤ q.metric) ∨
        ∃ m, Innermost E n a m (routePath r) ∧
          atPlace (n.family, table, m.bits) r = true) := by
  obtain ⟨r0, hr0, ht0, hd0⟩ := hsome
  obtain ⟨r, hlookup⟩ := exists_lookup hr0 ht0 (hd0 ▸ hcovers)
  obtain ⟨hr, ht, hd, hbest⟩ := lookup_spec hlookup
  have hlonger (q : Route) (hq : q ∈ routesOf t n.family) (hqt : q.table = table)
      (hqd : q.dst <+: a) : q.dst.length ≤ r.dst.length := by
    have := hbest q hq hqt hqd
    simp only [Route.better, Bool.or_eq_false_iff, decide_eq_false_iff_not] at this
    omega
  -- An entry that contains the address has a route, which the lookup has to respect.
  have hentry (m : Network) (path : Path) (hm : E m path) (hf : m.family = n.family)
      (hma : m.bits <+: a) : m.bits.length ≤ r.dst.length := by
    obtain ⟨q, hq, hqt, hqd, -, -⟩ := mem_owned_iff.mp ((hentries m path hf).mpr hm)
    have hqm : q.dst = m.bits := hqd
    rw [← hqm]
    exact hlonger q (hf ▸ hq) hqt (hqm ▸ hma)
  refine ⟨r, hlookup, hr, ht, ?_⟩
  have hlength : n.bits.length ≤ r.dst.length := hd0 ▸ hlonger r0 hr0 ht0 (hd0 ▸ hcovers)
  rcases Nat.eq_or_lt_of_le hlength with heq | hlt
  · refine .inl ⟨(eq_of_prefix_of_length hcovers hd heq).symm, fun m path hm => ?_, ?_⟩
    · have := hentry m path hm.entry hm.family hm.covers
      have := hm.inside
      omega
    · intro q hq hqt hqd
      have := hbest q hq hqt (hqd ▸ hcovers)
      simp only [Route.better, Bool.or_eq_false_iff, Bool.and_eq_false_iff,
        decide_eq_false_iff_not, beq_eq_false_iff_ne, hqd] at this
      omega
  · have hown : isOwned r = true := by
      by_contra hforeign
      have := hun r hr ht (by simpa using hforeign) hd
      omega
    have hproper : r.dst ≠ [] := by
      rintro hnil
      simp [hnil] at hlt
    refine .inr ⟨⟨n.family, r.dst, hproper⟩, ⟨?_, rfl, hlt, hd, hentry⟩, ?_⟩
    · exact (hentries ⟨n.family, r.dst, hproper⟩ (routePath r) rfl).mp
        (mem_owned_iff.mpr ⟨r, hr, ht, rfl, hown, rfl⟩)
    · exact atPlace_iff.mpr ⟨ht, rfl, hown⟩

/-- A lookup that ends inside the network is closed unless the route there lets packets through. -/
theorem sealed_iff_of_innermost (hran : Ran h (plan config transition h) t) {m : Network}
    {E : Network → Path → Prop} (hfunctional : ∀ m p q, E m p → E m q → p = q)
    (hlookup : lookup (routesOf t n.family) table a = some r) (hr : r ∈ routesOf t n.family)
    (hinner : Innermost E n a m (routePath r))
    (hplace : atPlace (n.family, table, m.bits) r = true) :
    Sealed t table n a ↔ ¬∃ m' path, Innermost E n a m' path ∧
      Opens h (n.family, table, m'.bits) path := by
  have hopens := opens_iff hran (x := (n.family, table, m.bits)) hr hplace
  -- There is one innermost network, with one path.
  have hunique (m' : Network) (path : Path) (hm' : Innermost E n a m' path) :
      m' = m ∧ path = routePath r := by
    have hlength : m'.bits.length = m.bits.length :=
      Nat.le_antisymm (hinner.longest m' path hm'.entry hm'.family hm'.covers)
        (hm'.longest m _ hinner.entry hinner.family hinner.covers)
    have hm : m' = m := network_ext (hm'.family.trans hinner.family.symm)
      (eq_of_prefix_of_length hm'.covers hinner.covers hlength)
    subst hm
    exact ⟨rfl, hfunctional m' _ _ hm'.entry hinner.entry⟩
  constructor
  · rintro ⟨r', hr', hclosed⟩ ⟨m', path, hm', hopen⟩
    obtain ⟨rfl, rfl⟩ := hunique m' path hm'
    cases hlookup.symm.trans hr'
    rw [hopens.mp hopen] at hclosed
    cases hclosed
  · intro hnone
    refine ⟨r, hlookup, ?_⟩
    by_contra hopen
    exact hnone ⟨m, _, hinner, hopens.mpr (by simpa using hopen)⟩

/-! ## The main table -/

/-- The foreign route for the network that wins in the main table, and lets packets through. -/
def Outbid (h : Underlay) (n : Network) : Prop :=
  ∃ q, IsForeign h mainTable n q ∧ q.metric < routeMetric ∧ isFailClosed q.kind = false ∧
    ∀ q', IsForeign h mainTable n q' → q.metric ≤ q'.metric

/-- What opens an address of a closed network in the main table: a configured network inside it, or
a foreign route for the network itself. -/
def OpenInMain (config : Config) (h : Underlay) (n : Network) (a : Bits) : Prop :=
  (∃ m path, Innermost (fun m path => (m, path) ∈ desiredMain config h) n a m path ∧
      Opens h (n.family, mainTable, m.bits) path) ∨
    ((∀ m path, ¬Innermost (fun m path => (m, path) ∈ desiredMain config h) n a m path) ∧
      Outbid h n)

theorem sealed_main (hcarried : Carried config transition h t) (hn : n ∈ closedOf config h)
    (hcovers : n.bits <+: a) (hun : Uncovered h mainTable n a) :
    Sealed t mainTable n a ↔ ¬OpenInMain config h n a := by
  have hran := hcarried.done.ran
  obtain ⟨r0, hr0, hd0, hown0, hclosed0⟩ := hcarried.verified.closed n hn
  simp only [outlookOf, mainRoutesOf, List.mem_filter, beq_iff_eq] at hr0
  obtain ⟨hr0, ht0⟩ := hr0
  obtain ⟨r, hlookup, hr, ht, ⟨hd, hnone, hmin⟩ | ⟨m, hinner, hplace⟩⟩ := lookup_cases
    (E := fun m path => (m, path) ∈ desiredMain config h)
    (fun m path _ => pathAt_main hran) hcovers ((uncovered_iff hran).mpr hun) ⟨r0, hr0, ht0, hd0⟩
  · have hopen : OpenInMain config h n a ↔ Outbid h n := by
      refine ⟨?_, fun houtbid => .inr ⟨hnone, houtbid⟩⟩
      rintro (⟨m, path, hm, -⟩ | ⟨-, houtbid⟩)
      · exact absurd hm (hnone m path)
      · exact houtbid
    have hsealed : Sealed t mainTable n a ↔ isFailClosed r.kind = true := by
      simp [Sealed, hlookup]
    have hmetric0 : r0.metric = routeMetric := by
      simp only [isOwned, Bool.and_eq_true, beq_iff_eq] at hown0
      exact hown0.2
    rw [hopen, hsealed]
    cases hown : isOwned r with
    | true =>
      -- Our route wins, so that no foreign one has a smaller metric.
      have heq : r = r0 := eq_of_atPlace (x := (n.family, mainTable, n.bits)) hr hr0
        (atPlace_iff.mpr ⟨ht, hd, hown⟩) (atPlace_iff.mpr ⟨ht0, hd0, hown0⟩)
      subst heq
      refine iff_of_true hclosed0 ?_
      rintro ⟨q, hq, hlt, -⟩
      obtain ⟨hqt, htable, hdst, -⟩ := (isForeign_iff hran).mpr hq
      have := hmin q hqt htable hdst
      omega
    | false =>
      have hforeign : IsForeign h mainTable n r := (isForeign_iff hran).mp ⟨hr, ht, hd, hown⟩
      have hmin' (q : Route) (hq : IsForeign h mainTable n q) : r.metric ≤ q.metric := by
        obtain ⟨hqt, htable, hdst, -⟩ := (isForeign_iff hran).mpr hq
        exact hmin q hqt htable hdst
      have hlt : r.metric < routeMetric := by
        refine Nat.lt_of_le_of_ne (hmetric0 ▸ hmin r0 hr0 ht0 hd0) fun hmetric => ?_
        have heq : r = r0 := Fib.eq_of_sameKey hr hr0 (sameKey_iff.mpr
          ⟨ht.trans ht0.symm, hd.trans hd0.symm, hmetric.trans hmetric0.symm⟩)
        rw [heq, hown0] at hown
        cases hown
      constructor
      · rintro hclosed ⟨q, hq, -, hopen, hleast⟩
        have hkey : q.sameKey r = true := sameKey_iff.mpr ⟨hq.2.1.trans ht.symm,
          hq.2.2.1.trans hd.symm, Nat.le_antisymm (hleast r hforeign) (hmin' q hq)⟩
        rw [Fib.eq_of_sameKey hq.1 hforeign.1 hkey, hclosed] at hopen
        cases hopen
      · intro hnot
        by_contra hopen
        exact hnot ⟨r, hforeign, hlt, by simpa using hopen, hmin'⟩
  · rw [sealed_iff_of_innermost (E := fun m path => (m, path) ∈ desiredMain config h) hran
      (fun m p q => lastWins_functional) hlookup hr hinner hplace]
    refine not_congr ⟨.inl, fun hopen => hopen.elim id fun hnone => ?_⟩
    exact absurd hinner (hnone.1 m _)

/-! ## The provider tables -/

theorem mem_pathsOf_closed (hn : n ∈ closedOf config h) : (n, Path.closed) ∈ pathsOf config h :=
  mem_lastWins_closed hn

/-- All routes of a mirrored table for the network are closed. -/
theorem closed_of_target (hcarried : Carried config transition h t) (hn : n ∈ closedOf config h)
    (htable : table ∈ targetsOf transition h n.family) (hr : r ∈ routesOf t n.family)
    (ht : r.table = table) (hd : r.dst = n.bits) : isFailClosed r.kind = true := by
  have hran := hcarried.done.ran
  have hprovider := isProviderTable_of_target htable
  have hplace := mem_placesOf.mpr ⟨htable, mem_pathsOf_closed hn⟩
  have hmatch {q : Route} (hq : pathMatches q .closed = true) : isFailClosed q.kind = true := by
    simpa [pathMatches] using hq
  rcases mirrorOf_cases h n .closed hprovider with
    ⟨hsome, ⟨-, hall⟩ | hconflict⟩ | ⟨hfree, -⟩
  · cases hown : isOwned r with
    | false => exact hmatch (hall r ((isForeign_iff hran).mp ⟨hr, ht, hd, hown⟩))
    | true =>
      -- Where a foreign route is there, ours has been removed.
      have hpath : pathAt t (n.family, table, n.bits) = some (routePath r) :=
        mem_owned_iff.mpr ⟨r, hr, ht, hd, hown, rfl⟩
      obtain ⟨q, hq⟩ := hsome
      exact absurd hq (((pathAt_provider hran hprovider).mp hpath).2.2 q)
  · exact absurd hconflict (hcarried.agreed _ hplace)
  · obtain ⟨q, hq, hqt, hqd, hqm⟩ :=
      hcarried.verified.mirrored n.family table htable n .closed (mem_pathsOf_closed hn) rfl
    have howned (s : Route) (hs : s ∈ routesOf t n.family) (hst : s.table = table)
        (hsd : s.dst = n.bits) : atPlace (n.family, table, n.bits) s = true := by
      refine atPlace_iff.mpr ⟨hst, hsd, ?_⟩
      by_contra hforeign
      exact hfree s ((isForeign_iff hran).mp ⟨hs, hst, hsd, by simpa using hforeign⟩)
    rw [eq_of_atPlace (x := (n.family, table, n.bits)) hr hq (howned r hr ht hd)
      (howned q hq hqt hqd)]
    exact hmatch hqm

theorem sealed_provider (hcarried : Carried config transition h t) (hn : n ∈ closedOf config h)
    (htable : table ∈ targetsOf transition h n.family) (hcovers : n.bits <+: a)
    (hun : Uncovered h table n a) :
    Sealed t table n a ↔ ¬∃ m path, Innermost (Wanted config transition h table) n a m path ∧
      Opens h (n.family, table, m.bits) path := by
  have hran := hcarried.done.ran
  obtain ⟨q, hq, hqt, hqd, -⟩ :=
    hcarried.verified.mirrored n.family table htable n .closed (mem_pathsOf_closed hn) rfl
  obtain ⟨r, hlookup, hr, ht, ⟨hd, hnone, -⟩ | ⟨m, hinner, hplace⟩⟩ := lookup_cases
    (E := Wanted config transition h table)
    (fun m path _ => pathAt_provider hran (isProviderTable_of_target htable)) hcovers
    ((uncovered_iff hran).mpr hun) ⟨q, hq, hqt, hqd⟩
  · refine iff_of_true ⟨r, hlookup, closed_of_target hcarried hn htable hr ht hd⟩ ?_
    exact fun ⟨m, path, hm, _⟩ => hnone m path hm
  · exact sealed_iff_of_innermost hran
      (fun m p q hp hq => lastWins_functional hp.2.1 hq.2.1) hlookup hr hinner hplace

/-- A reconciliation that reports an unavailable destination, for an address of such a destination
and a table in which no route of other owners is longer. In the main table the address is closed
unless a configured network inside the destination or a foreign route for the destination itself
opens it; in a mirrored table, unless the mirrored route of a network inside it does. -/
theorem unavailable_fails_closed (config : Config) (transition : Bool) (h : Underlay)
    (ks : List (Signal Reply Failure))
    (hrun : (reconcileWith config transition h ks).1 = .raised (.code .destinationUnavailable))
    (n : Network) (hn : n ∈ closedOf config h) (a : Bits) (hcovers : n.bits <+: a) :
    let t := (reconcileWith config transition h ks).2.1
    (Uncovered h mainTable n a → (Sealed t mainTable n a ↔ ¬OpenInMain config h n a)) ∧
      ∀ table ∈ targetsOf transition h n.family, Uncovered h table n a →
        (Sealed t table n a ↔ ¬∃ m path, Innermost (Wanted config transition h table) n a m path ∧
          Opens h (n.family, table, m.bits) path) := by
  intro t
  have hends := (wp_reconcileWith config transition h).holds (any_script ks)
  rw [hrun] at hends
  have hcarried : Carried config transition h t := hends.2 rfl
  exact ⟨sealed_main hcarried hn hcovers, fun table htable =>
    sealed_provider hcarried hn htable hcovers⟩

/-! ### A stray route for the network -/

/-- The network 10.8.0.0/24. -/
def tunnelNetwork : Network := ⟨.v4, (address 10 8 0 0).take 24, by decide⟩

/-- The network is to be reached over its own interface. -/
def tunnelConfig : Config := ⟨[], [⟨tunnelNetwork, "wg0".toList⟩]⟩

/-- A host without that interface, and with a route for the network over another one. -/
def strayRoute : Underlay where
  rules
    | .v4 => ⟨[⟨0, none, none, none, none, none, 255, .unset⟩,
        ⟨32766, none, none, none, none, none, mainTable, .unset⟩], by simp [Ordered]⟩
    | .v6 => .empty
  routes
    | .v4 => ⟨[⟨mainTable, [], 0, .unicast, .gateway (address 192 168 1 1), some "eth0".toList,
          .name "dhcp".toList⟩,
        ⟨mainTable, lan.bits, 0, .unicast, .link, some "eth0".toList, .name "kernel".toList⟩,
        ⟨mainTable, tunnelNetwork.bits, 0, .unicast, .link, some "eth1".toList, .unset⟩], by decide⟩
    | .v6 => ⟨[], Fib.keys_nil⟩
  links := [⟨"eth0".toList, [⟨.v4, address 192 168 1 2, 24, true, take_hostAddress⟩]⟩]
  tables _ := []
  issued := 0

/-- Every command succeeds and the report is made, but an address of the network goes out over the
other interface. -/
theorem stray_route_leads_out :
    (reconcile tunnelConfig strayRoute []).1 = .raised (.code .destinationUnavailable) ∧
      tunnelNetwork ∈ closedOf tunnelConfig strayRoute ∧
      tunnelNetwork.bits <+: address 10 8 0 9 ∧
      Uncovered strayRoute mainTable tunnelNetwork (address 10 8 0 9) ∧
      lookup (routesOf (reconcile tunnelConfig strayRoute []).2.1 .v4) mainTable
        (address 10 8 0 9) =
        some ⟨mainTable, tunnelNetwork.bits, 0, .unicast, .link, some "eth1".toList, .unset⟩ := by
  refine ⟨by decide +kernel, by decide +kernel, by decide +kernel, ?_, by decide +kernel⟩
  unfold Uncovered
  decide +kernel

/-- On the host with two provider tables nothing is longer than the route of the network, in the
main table and in the mirrored ones. -/
theorem unavailable_fails_closed_twoProviders :
    let t := (reconcileWith tunnelConfig false twoProviders []).2.1
    (Sealed t mainTable tunnelNetwork (address 10 8 0 9) ↔
      ¬OpenInMain tunnelConfig twoProviders tunnelNetwork (address 10 8 0 9)) ∧
    ∀ table ∈ [100, 200], Sealed t table tunnelNetwork (address 10 8 0 9) ↔
      ¬∃ m path, Innermost (Wanted tunnelConfig false twoProviders table) tunnelNetwork
        (address 10 8 0 9) m path ∧ Opens twoProviders (.v4, table, m.bits) path := by
  have hboth := unavailable_fails_closed tunnelConfig false twoProviders [] (by decide +kernel)
    tunnelNetwork (by decide +kernel) (address 10 8 0 9) (by decide +kernel)
  have huncovered : ∀ table ∈ [mainTable, 100, 200],
      Uncovered twoProviders table tunnelNetwork (address 10 8 0 9) := by
    unfold Uncovered
    decide +kernel
  have htargets : ∀ table ∈ [100, 200], table ∈ targetsOf false twoProviders .v4 := by
    decide +kernel
  exact ⟨hboth.1 (huncovered _ List.mem_cons_self), fun table htable =>
    hboth.2 table (htargets table htable) (huncovered _ (List.mem_cons_of_mem _ htable))⟩

end ExitLane.Management
