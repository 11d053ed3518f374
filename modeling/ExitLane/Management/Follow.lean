import ExitLane.Management.Plan

/-!
# A reconciliation follows its plan

Every state of a run is reached by the edits of an initial part of the plan, and a run that
gets through its checks has carried out all of it. What a reconciliation does to rules and
routes can therefore be read off the plan, which is made from the underlay at the start.
-/

namespace ExitLane.Management

open Effect Net

variable {config : Config} {transition : Bool} {h t : Underlay} {e : Edit} {pre edits : List Edit}
  {routes : List Route}

/-! ## Soundness -/

theorem change_planMainPuts (he : e ∈ planMainPuts config h) :
    ∃ (n : Network) (path : Path), e.change = some ((n.family, mainTable, n.bits), some path) := by
  obtain ⟨n, path, -, hput⟩ := mem_planMainPuts.mp he
  exact ⟨n, path, hput.change⟩

theorem sound_planMainPuts (he : e ∈ planMainPuts config h) (hpre : pre <+: planMainPuts config h)
    (hran : Ran h pre t) : e.Sound t := by
  obtain ⟨n, path, -, -, ⟨rfl, -⟩ | ⟨rfl, hsome⟩⟩ := mem_planMainPuts.mp he
  · trivial
  · refine hran.isSome_pathAt hsome fun e' he' p hchange => ?_
    obtain ⟨n', path', hchange'⟩ := change_planMainPuts (hpre.subset he')
    rw [hchange', Option.some.injEq, Prod.mk.injEq] at hchange
    rw [← hchange.2]
    rfl

theorem sound_planMainDrops (he : e ∈ planMainDrops config h) : e.Sound t := by
  obtain ⟨n, rfl, -⟩ := mem_planMainDrops.mp he
  trivial

/-- The edits of the main table. -/
def planMain (config : Config) (h : Underlay) : List Edit :=
  planMainPuts config h ++ planMainDrops config h

theorem change_planMain (he : e ∈ planMain config h) :
    ∃ (n : Network) (path : Option Path),
      e.change = some ((n.family, mainTable, n.bits), path) := by
  rcases List.mem_append.mp he with he | he
  · obtain ⟨n, path, hchange⟩ := change_planMainPuts he
    exact ⟨n, some path, hchange⟩
  · obtain ⟨n, rfl, -⟩ := mem_planMainDrops.mp he
    exact ⟨n, none, rfl⟩

theorem sound_planMirrorPuts (he : e ∈ planMirrorPuts config transition h)
    (hpre : pre <+: planMirrorPuts config transition h)
    (hran : Ran h (planMain config h ++ pre) t) : e.Sound t := by
  obtain ⟨table, n, path, -, htable, -, ⟨rfl, -⟩ | ⟨rfl, hsome⟩⟩ := isPut_of_mem he
  · trivial
  · refine hran.isSome_pathAt hsome fun e' he' p hchange => ?_
    rcases List.mem_append.mp he' with hmain | hmirror
    · obtain ⟨n', path', hchange'⟩ := change_planMain hmain
      rw [hchange', Option.some.injEq, Prod.mk.injEq, Prod.mk.injEq, Prod.mk.injEq] at hchange
      exact absurd hchange.1.2.1.symm (ne_main_of_isProviderTable htable)
    · obtain ⟨table', n', path', -, -, hput⟩ := isPut_of_mem (hpre.subset hmirror)
      rw [hput.change, Option.some.injEq, Prod.mk.injEq] at hchange
      rw [← hchange.2]
      rfl

theorem sound_planMirrorDrops (he : e ∈ planMirrorDrops config transition h) : e.Sound t := by
  obtain ⟨table, n, rfl, -⟩ := mem_planMirrorDrops.mp he
  trivial

theorem sound_planRuleAdds (he : e ∈ planRuleAdds config transition h) : e.Sound t := by
  obtain ⟨x, -, rfl⟩ := List.mem_map.mp he
  trivial

theorem sound_planRuleDrops (he : e ∈ planRuleDrops config transition h) : e.Sound t := by
  obtain ⟨x, -, rfl⟩ := List.mem_map.mp he
  trivial

/-! ## What the edits of the main table leave -/

/-- The routes outside the main table. -/
def offMain (routes : List Route) : List Route := routes.filter (·.table != mainTable)

theorem offMain_of_planMain (hpre : pre ⊆ planMain config h) (hran : Ran h pre t) (f : Family) :
    offMain (routesOf t f) = offMain (routesOf h f) := by
  refine hran.filter_routes fun e he x path hchange hf q hq => ?_
  obtain ⟨n, path', hchange'⟩ := change_planMain (hpre he)
  rw [hchange'] at hchange
  cases hchange
  simpa using (atPlace_iff.mp hq).1

theorem proper_of_change {x : Place} {path : Option Path} (hchange : e.change = some (x, path)) :
    x.2.2 ≠ [] := by
  cases e with
  | addRule _ _ => cases hchange
  | deleteRule _ _ => cases hchange
  | addRoute _ n _ => cases hchange; exact n.proper
  | replaceRoute _ n _ => cases hchange; exact n.proper
  | deleteRoute _ n => cases hchange; exact n.proper

/-- No edit is at the default prefix. -/
theorem filter_default (hran : Ran h edits t) (f : Family) :
    (routesOf t f).filter (·.dst == []) = (routesOf h f).filter (·.dst == []) := by
  refine hran.filter_routes fun e _ x path hchange hf q hq => ?_
  simpa [(atPlace_iff.mp hq).2.1] using proper_of_change hchange

theorem directPathsOf_eq (hran : Ran h edits t) (f : Family) :
    directPathsOf f t = directPathsOf f h := by
  have hdefaults : (mainRoutesOf f t).filter (·.dst == []) =
      (mainRoutesOf f h).filter (·.dst == []) := by
    have hboth := congrArg (List.filter (·.table == mainTable)) (filter_default hran f)
    simpa only [mainRoutesOf, routesOf, List.filter_filter, Bool.and_comm] using hboth
  unfold directPathsOf globalAddresses
  rw [hdefaults, hran.links]

theorem directOf_eq (hran : Ran h edits t) : directOf t = directOf h := by
  unfold directOf
  rw [directPathsOf_eq hran, directPathsOf_eq hran]

theorem hasDefault_eq (hran : Ran h edits t) (f : Family) (table : Nat) :
    hasDefault (routesOf t f) table = hasDefault (routesOf h f) table := by
  have hany (routes : List Route) : hasDefault routes table =
      (routes.filter (·.dst == [])).any (·.table == table) := by
    simp only [hasDefault, List.any_filter, Bool.and_comm]
  rw [hany, hany, filter_default hran]

theorem filter_offMain {p : Route → Bool} (hp : ∀ r, p r = true → r.table ≠ mainTable) :
    (offMain routes).filter p = routes.filter p := by
  rw [offMain, List.filter_filter]
  refine List.filter_congr fun r _ => ?_
  cases hr : p r with
  | false => simp
  | true => simpa using hp r hr

/-- What a provider table asks for depends on the routes outside the main table. -/
theorem ownedProviderRoutes_eq {routes' : List Route} (hoff : offMain routes = offMain routes')
    (f : Family) : ownedProviderRoutes f routes = ownedProviderRoutes f routes' := by
  have hp (r : Route) (hr : (isOwned r && isProviderTable r.table) = true) : r.table ≠ mainTable :=
    ne_main_of_isProviderTable (Bool.and_eq_true_iff.mp hr).2
  unfold ownedProviderRoutes
  rw [← filter_offMain hp, hoff, filter_offMain hp]

theorem mirror_eq {routes' : List Route} (hoff : offMain routes = offMain routes') {table : Nat}
    (htable : isProviderTable table = true) (entry : Network × Path) :
    mirror routes table entry = mirror routes' table entry := by
  have hp (r : Route) (hr : (r.table == table && r.dst == entry.1.bits && !isOwned r) = true) :
      r.table ≠ mainTable := by
    simp only [Bool.and_eq_true, beq_iff_eq] at hr
    exact hr.1.1 ▸ ne_main_of_isProviderTable htable
  unfold mirror
  rw [← filter_offMain hp, hoff, filter_offMain hp, ownedProviderRoutes_eq hoff]

/-! ## Readings and checks -/

section
variable {A : Regime Reply Failure} {I : Underlay → Prop} {c : Code}

/-- Keeps `I` and raises nothing but early failures. -/
def Calm {α : Type} (I : Underlay → Prop) (p : Act α) : Prop := Keeps I (fun e t => I t ∧ Early e) p

theorem calm_code {α : Type} (hc : c ≠ .destinationUnavailable) :
    Calm I (.raise (.code c) : Act α) :=
  keeps_raise fun _ hs => ⟨hs, by simpa [Early] using hc⟩

theorem calm_demand (b : Bool) (hc : c ≠ .destinationUnavailable) : Calm I (.demand b (.code c)) :=
  keeps_demand b fun _ hs => ⟨hs, by simpa [Early] using hc⟩

theorem calm_json {α : Type} {f : Underlay → α} (hc : c ≠ .destinationUnavailable) :
    Calm I (json c f) := by
  intro A s hs
  refine wp_post (wp_json (I := I) hs hc) ?_
  rintro a t ⟨rfl, -⟩
  exact hs

theorem calm_routeGet (f : Family) (destination : Bits) (hc : c ≠ .destinationUnavailable) :
    Calm I (routeGet f destination c) := by
  refine keeps_bind (calm_json hc) fun found => ?_
  rcases found with _ | ⟨r, route⟩
  · exact calm_code hc
  · dsimp only
    split
    · exact calm_code hc
    · exact keeps_pure _

theorem calm_verifyPath (n : Network) (excluded : List Bits) (path : Path)
    (hc : c ≠ .destinationUnavailable) : Calm I (verifyPath n excluded path c) :=
  keeps_optionally _ fun _ => keeps_bind (calm_routeGet _ _ hc) fun _ => calm_demand _ hc

theorem calm_deviceAddresses (f : Family) (device : Option Iface) :
    Calm I (deviceAddresses f device) := by
  cases device with
  | none => exact keeps_pure _
  | some _ => exact calm_json (by decide)

theorem calm_verifyPublic (main : List Route) (rules : List Rule) :
    Calm I (verifyPublic main rules) :=
  keeps_bind (calm_demand _ (by decide)) fun _ =>
    keeps_bind (calm_routeGet _ _ (by decide)) fun _ => calm_demand _ (by decide)

/-- What a check that returns has seen. -/
structure Verified (o : Outlook) (t : Underlay) : Prop where
  rules : (existingRules t).Perm (o.networks.map (o.priority, ·))
  closed : ∀ n ∈ o.closed, ∃ r ∈ o.main n.family, r.dst = n.bits ∧ isOwned r = true ∧
    isFailClosed r.kind = true
  mirrored : ∀ f, ∀ table ∈ o.targets f, ∀ n path, (n, path) ∈ o.paths → n.family = f →
    ∃ r ∈ routesOf t f, r.table = table ∧ r.dst = n.bits ∧ pathMatches r path = true

theorem wp_verifyTable {s : Underlay} (hs : I s) (paths : List (Network × Path)) (f : Family)
    (table : Nat) :
    wp A (verifyTable paths f table)
      (fun _ t => t = s ∧ ∀ n path, (n, path) ∈ paths → n.family = f →
        ∃ r ∈ routesOf s f, r.table = table ∧ r.dst = n.bits ∧ pathMatches r path = true)
      (fun e t => I t ∧ Early e) I s := by
  refine wp_seq_read (wp_json hs (by decide)) ?_
  refine wp_demand (fun hall => ⟨rfl, fun n path hmem hf => ?_⟩) fun _ =>
    ⟨hs, by simp [Early]⟩
  have hone := List.all_eq_true.mp hall (n, path) (by simp [hmem, hf])
  obtain ⟨r, hr, hmatch⟩ := List.any_eq_true.mp hone
  simp only [List.mem_filter, beq_iff_eq] at hr
  simp only [Bool.and_eq_true, beq_iff_eq] at hmatch
  exact ⟨r, hr.1, hr.2, hmatch.1, hmatch.2⟩

theorem wp_verifyTables {s : Underlay} (hs : I s) (paths : List (Network × Path)) (f : Family)
    (tables : List Nat) :
    wp A (tables.forM (verifyTable paths f))
      (fun _ t => t = s ∧ ∀ table ∈ tables, ∀ n path, (n, path) ∈ paths → n.family = f →
        ∃ r ∈ routesOf s f, r.table = table ∧ r.dst = n.bits ∧ pathMatches r path = true)
      (fun e t => I t ∧ Early e) I s := by
  induction tables with
  | nil => exact wp_pure ⟨rfl, nofun⟩
  | cons table tables ih =>
    refine wp_seq (wp_verifyTable hs paths f table) ?_
    rintro - m ⟨rfl, hfirst⟩
    refine wp_post ih ?_
    rintro - t ⟨rfl, hrest⟩
    refine ⟨rfl, fun table' ht => ?_⟩
    rcases List.mem_cons.mp ht with rfl | ht
    · exact hfirst
    · exact hrest table' ht

theorem wp_verifyPostconditions {s : Underlay} (hs : I s) (o : Outlook) :
    wp A (verifyPostconditions o) (fun _ t => t = s ∧ Verified o s)
      (fun e t => I t ∧ Early e) I s := by
  have hrules : wp A (verifyRules o.priority o.networks)
      (fun rules t => t = s ∧ (existingRules s).Perm (o.networks.map (o.priority, ·)))
      (fun e t => I t ∧ Early e) I s := by
    refine wp_seq_read (wp_both (I := I) fun f => wp_json hs (by decide)) ?_
    refine wp_bind (wp_demand (fun hok => wp_pure ⟨rfl, ?_⟩) fun _ => ⟨hs, by simp [Early]⟩)
    exact List.isPerm_iff.mp (Bool.and_eq_true_iff.mp hok).1
  refine wp_seq hrules ?_
  rintro rules m ⟨rfl, hperm⟩
  refine wp_seq (R := fun _ t => t = m ∧ ∀ n ∈ o.closed, ∃ r ∈ o.main n.family, r.dst = n.bits ∧
    isOwned r = true ∧ isFailClosed r.kind = true)
    (wp_demand (fun hall => ⟨rfl, fun n hn => ?_⟩) fun _ => ⟨hs, by simp [Early]⟩) ?_
  · obtain ⟨r, hr, hmatch⟩ := List.any_eq_true.mp (List.all_eq_true.mp hall n hn)
    simp only [Bool.and_eq_true, beq_iff_eq] at hmatch
    exact ⟨r, hr, hmatch.1.1, hmatch.1.2, by simpa [pathMatches] using hmatch.2⟩
  rintro - m ⟨rfl, hclosed⟩
  refine wp_seq (R := fun _ t => t = m ∧ ∀ f, ∀ table ∈ o.targets f, ∀ n path, (n, path) ∈ o.paths →
    n.family = f → ∃ r ∈ routesOf m f, r.table = table ∧ r.dst = n.bits ∧ pathMatches r path = true)
    ?_ ?_
  · refine wp_seq (wp_verifyTables hs o.paths .v4 (o.targets .v4)) ?_
    rintro - m ⟨rfl, h4⟩
    refine wp_seq (wp_verifyTables hs o.paths .v6 (o.targets .v6)) ?_
    rintro - m ⟨rfl, h6⟩
    refine wp_pure ⟨rfl, fun f => ?_⟩
    cases f with
    | v4 => exact h4
    | v6 => exact h6
  rintro - m ⟨rfl, hmirrored⟩
  -- The rest looks addresses up and changes nothing.
  refine wp_mono ((?_ : Calm (fun t => t = m ∧ I m) _) A m ⟨rfl, hs⟩)
    (fun _ t ht => ⟨ht.1, hperm, hclosed, hmirrored⟩) ?_ ?_
  · refine keeps_bind (keeps_forM (fun f => keeps_forM (fun g => ?_) _) _) fun _ => ?_
    · exact keeps_bind (calm_routeGet _ _ (by decide)) fun _ => calm_demand _ (by decide)
    refine keeps_bind (keeps_forM (fun path => calm_verifyPath _ _ _ (by decide)) _) fun _ => ?_
    refine keeps_bind (keeps_forM (fun entry => calm_verifyPath _ _ _ (by decide)) _) fun _ => ?_
    refine keeps_bind (keeps_forM (fun entry => ?_) _) fun _ => calm_verifyPublic _ _
    exact keeps_bind (calm_deviceAddresses _ _) fun _ => calm_verifyPath _ _ _ (by decide)
  · rintro e t ⟨⟨rfl, ht⟩, he⟩
    exact ⟨ht, he⟩
  · rintro t ⟨rfl, ht⟩
    exact ht

end

/-! ## The phases -/

section
variable {A : Regime Reply Failure} {whole done : List Edit} {s : Underlay}

theorem wp_providerDevices {I : Underlay → Prop} (hI : I h) :
    wp A (providerDevices (rulesOf h)) (fun devices t => t = h ∧ devices = devicesOf h)
      (fun e t => I t ∧ Early e) I h := by
  have hfamily (f : Family) : wp A
      (if (providerTables (rulesOf h f)).isEmpty then pure []
        else readAllRoutes f >>= fun routes =>
          pure (defaultDevices (providerTables (rulesOf h f)) routes) : Act (List Iface))
      (fun devices t => t = h ∧ devices = devicesIn h f) (fun e t => I t ∧ Early e) I h := by
    unfold devicesIn
    split
    · exact wp_pure ⟨rfl, rfl⟩
    · refine wp_seq_read (wp_json hI (by decide)) ?_
      exact wp_pure ⟨rfl, rfl⟩
  refine wp_seq_read (wp_both hfamily) ?_
  exact wp_pure ⟨rfl, rfl⟩

theorem wp_readDirectPaths {I : Underlay → Prop} (hI : I s) (hran : Ran h done s) :
    wp A readDirectPaths (fun direct t => t = s ∧ direct = directOf h)
      (fun e t => I t ∧ Early e) I s := by
  refine wp_seq_read (wp_both (I := I) fun f => wp_json hI (by decide)) ?_
  exact wp_pure ⟨rfl, directOf_eq hran⟩

/-- The main table gets what the plan says; every configured network had a path. -/
theorem wp_reconcileRoutes
    (hwhole : (∀ n ∈ config.configured, (configuredPath (mainRoutesOf n.family h) n).isSome) →
      planMain config h <+: whole) :
    wp A (reconcileRoutes config.configured (closedOf config h))
      (fun r t => At h (planMain config h) t ∧ t.tables = h.tables ∧ r.2 = expectedOf config h ∧
        ∀ n ∈ config.configured, (configuredPath (mainRoutesOf n.family h) n).isSome)
      (fun e t => Follows h whole t ∧ Early e) (Follows h whole) h := by
  have hstart : Follows h whole h := (At.refl h).follows List.nil_prefix
  refine wp_seq (R := fun main t => t = h ∧ main = (mainRoutesOf · h) ∧
    ∀ n ∈ config.configured, (configuredPath (mainRoutesOf n.family h) n).isSome) ?_ ?_
  · have hfamily (f : Family) : wp A (do
        let routes ← readMainRoutes f
        .demand ((config.configured.filter (·.family = f)).all fun n =>
          (configuredPath routes n).isSome) (.code .routeDiscovery)
        pure routes : Act (List Route))
        (fun main t => t = h ∧ main = mainRoutesOf f h ∧ ∀ n ∈ config.configured, n.family = f →
          (configuredPath (mainRoutesOf f h) n).isSome)
        (fun e t => Follows h whole t ∧ Early e) (Follows h whole) h := by
      refine wp_seq_read (wp_json hstart (by decide)) ?_
      refine wp_bind (wp_demand (fun hall => wp_pure ⟨rfl, rfl, fun n hn hf => ?_⟩)
        fun _ => ⟨hstart, by simp [Early]⟩)
      exact List.all_eq_true.mp hall n (by simp [hn, hf])
    refine wp_seq (hfamily .v4) ?_
    rintro main m ⟨rfl, rfl, h4⟩
    refine wp_seq (hfamily .v6) ?_
    rintro main m ⟨rfl, rfl, h6⟩
    refine wp_pure ⟨rfl, ?_, fun n hn => ?_⟩
    · funext f
      cases f <;> rfl
    · cases hf : n.family with
      | v4 => exact h4 n hn hf
      | v6 => exact h6 n hn hf
  · rintro main m ⟨rfl, rfl, hall⟩
    have hwhole := hwhole hall
    refine wp_seq (wp_edits (planMainPuts config m) (At.refl m)
      ((List.prefix_append _ _).trans hwhole) fun e he pre t hpre hran =>
        sound_planMainPuts he hpre hran) ?_
    rintro - t ⟨hat, -, htables⟩
    refine wp_seq (wp_edits (planMainDrops config m) hat hwhole fun e he _ _ _ _ =>
      sound_planMainDrops he) ?_
    rintro - t' ⟨hat', -, htables'⟩
    exact wp_pure ⟨hat', htables'.trans htables, rfl, hall⟩

/-- The loop over the places. -/
theorem wp_mirrorSteps {routes : Family → List Route} (places : List (Nat × Network × Path))
    (hat : At h done s) (hroutes : ∀ place ∈ places,
      mirror (routes place.2.1.family) place.1 place.2 = mirrorOf h place)
    (hwhole : done ++ places.filterMap (fun place => (mirrorOf h place).edit) <+: whole)
    (hsound : ∀ e ∈ places.filterMap (fun place => (mirrorOf h place).edit), ∀ pre t,
      pre <+: places.filterMap (fun place => (mirrorOf h place).edit) →
        Ran h (done ++ pre) t → e.Sound t) :
    wp A (places.forM (mirrorStep routes))
      (fun _ t => At h (done ++ places.filterMap fun place => (mirrorOf h place).edit) t ∧
        Ran s (places.filterMap fun place => (mirrorOf h place).edit) t ∧ t.tables = s.tables ∧
        ∀ place ∈ places, mirrorOf h place ≠ .conflict)
      (fun e t => Follows h whole t ∧ Early e) (Follows h whole) s := by
  induction places generalizing done s with
  | nil => exact wp_pure ⟨by simpa using hat, .start (.refl s), rfl, nofun⟩
  | cons place places ih =>
    have hrest (place' : Nat × Network × Path) (hmem : place' ∈ places) :
        mirror (routes place'.2.1.family) place'.1 place'.2 = mirrorOf h place' :=
      hroutes place' (List.mem_cons_of_mem _ hmem)
    have hall (hne : mirrorOf h place ≠ .conflict)
        (ht : ∀ place ∈ places, mirrorOf h place ≠ .conflict) :
        ∀ place' ∈ place :: places, mirrorOf h place' ≠ .conflict :=
      fun _ hmem => (List.mem_cons.mp hmem).elim (fun heq => heq ▸ hne) (ht _)
    change wp A ((mirror (routes place.2.1.family) place.1 place.2).carryOut >>= fun _ =>
      places.forM (mirrorStep routes)) _ _ _ s
    rw [hroutes place List.mem_cons_self]
    cases hmirror : mirrorOf h place with
    | conflict =>
      have hfollows := hat.follows ((List.prefix_append _ _).trans hwhole)
      exact wp_seq (R := fun _ _ => False) (wp_raise ⟨hfollows, by simp [Early]⟩) fun _ _ =>
        False.elim
    | put e =>
      rw [List.filterMap_cons, hmirror] at hwhole hsound ⊢
      have hone : done ++ [e] <+: whole := List.IsPrefix.trans ⟨_, List.append_assoc _ _ _⟩ hwhole
      have hs : e.Sound s :=
        hsound e List.mem_cons_self [] s (List.nil_prefix) (by simpa using hat.ran)
      refine wp_seq (wp_edit hat hone hs) ?_
      rintro - m ⟨hat', hfirst, htables⟩
      refine wp_post (ih hat' hrest (by simpa [Mirror.edit] using hwhole)
        fun e' he' pre t hpre hran => ?_) ?_
      · refine hsound e' (List.mem_cons_of_mem _ he') (e :: pre) t ?_ (by simpa using hran)
        exact List.prefix_cons_iff.mpr (.inr ⟨pre, rfl, hpre⟩)
      · rintro - t' ⟨hat'', hran, htables', hconflict⟩
        refine ⟨by simpa [Mirror.edit] using hat'', hfirst.trans hran, htables'.trans htables, ?_⟩
        exact hall (by simp [hmirror]) hconflict
    | foreign | settled =>
      rw [List.filterMap_cons, hmirror] at hwhole hsound ⊢
      refine wp_seq_eq (wp_pure rfl) fun _ => ?_
      refine wp_post (ih hat hrest hwhole hsound) ?_
      rintro - t' ⟨hat', hran, htables, hconflict⟩
      exact ⟨hat', hran, htables, hall (by simp [hmirror]) hconflict⟩

/-- The edits of the provider tables. -/
def planMirror (config : Config) (transition : Bool) (h : Underlay) : List Edit :=
  planMirrorPuts config transition h ++ planMirrorDrops config transition h

/-- What the store holds after a reconciliation that got that far. -/
def storeAfter (transition : Bool) (h : Underlay) (f : Family) : List Nat :=
  if (discoveredOf transition h .v4).isEmpty && (discoveredOf transition h .v6).isEmpty then
    h.tables f
  else if (discoveredOf transition h f).isEmpty then storedTables h f
  else discoveredOf transition h f

theorem wp_storeLoad (hat : At h done s) (hwhole : done <+: whole) (htables : s.tables = h.tables) :
    wp A storeLoad (fun cached t => t = s ∧ cached = storedTables h)
      (fun e t => Follows h whole t ∧ Early e) (Follows h whole) s := by
  have hfollows := hat.follows hwhole
  refine wp_handle (wp_prim (fun r _ => ?_) (fun _ _ _ => ?_) fun _ _ => hfollows)
  · cases r.refused with
    | none => exact ⟨rfl, by funext f; simp [storedTables, htables]⟩
    | some _ => exact wp_raise ⟨hfollows, by simp [Early]⟩
  · exact wp_raise ⟨hfollows, by simp [Early]⟩

theorem At.setTables (hat : At h done s) (tables : Family → List Nat) :
    At h done { s with tables := tables } :=
  ⟨hat.ran.same ⟨rfl, rfl, rfl⟩, hat.issued⟩

theorem wp_storeSave (hat : At h done s) (hwhole : done <+: whole) (tables : Family → List Nat) :
    wp A (storeSave tables) (fun _ t => t = { s with tables := tables })
      (fun e t => Follows h whole t ∧ Early e) (Follows h whole) s := by
  have hfollows := hat.follows hwhole
  have hsaved : Follows h whole { s with tables := tables } := (hat.setTables tables).follows hwhole
  have hpart (took : Prop) [Decidable took] :
      Follows h whole (if took then s else { s with tables := tables }) := by
    split
    · exact hfollows
    · exact hsaved
  refine wp_handle (wp_prim (fun r _ => ?_) (fun k _ _ => ?_) fun k _ => hpart _)
  · cases r.refused with
    | none => rfl
    | some took =>
      cases took with
      | true => exact wp_raise ⟨hsaved, by simp [Early]⟩
      | false => exact wp_raise ⟨hfollows, by simp [Early]⟩
  · exact wp_raise ⟨hpart _, by simp [Early]⟩

/-- The provider tables get what the plan says, and there was no conflict. -/
theorem wp_reconcileProviderRoutes (hat : At h (planMain config h) s)
    (htables : s.tables = h.tables)
    (hwhole : planMain config h ++ planMirror config transition h <+: whole) :
    wp A
      (reconcileProviderRoutes (pathsOf config h) (rulesOf h) (rulePriority transition) transition)
      (fun r t => At h (planMain config h ++ planMirror config transition h) t ∧
        Ran s (planMirror config transition h) t ∧ t.tables = storeAfter transition h ∧
        r.2 = targetsOf transition h ∧
        ∀ place ∈ placesOf config transition h, mirrorOf h place ≠ .conflict)
      (fun e t => Follows h whole t ∧ Early e) (Follows h whole) s := by
  have hmain : planMain config h <+: whole := (List.prefix_append _ _).trans hwhole
  have hoff (f : Family) : offMain (routesOf s f) = offMain (routesOf h f) :=
    offMain_of_planMain (fun _ => id) hat.ran f
  have hdiscovered (f : Family) : discoveredTables (rulesOf h f) (routesOf s f)
      (rulePriority transition) = discoveredOf transition h f := by
    unfold discoveredOf discoveredTables
    simp only [funext (hasDefault_eq hat.ran f)]
  refine wp_seq_read (wp_storeLoad hat hmain htables) ?_
  refine wp_seq_read (wp_both fun f => wp_json (hat.follows hmain) (by decide)) ?_
  dsimp only
  simp only [show ∀ f, (s.routes f).routes = routesOf s f from fun _ => rfl, hdiscovered]
  -- The store is written if anything was discovered.
  refine wp_seq_eq (t := { s with tables := storeAfter transition h }) ?_ fun _ => ?_
  · refine wp_when (fun hsome => ?_) fun hnone => ?_
    · refine wp_post (wp_storeSave hat hmain _) ?_
      rintro - t rfl
      have hnot : ((discoveredOf transition h .v4).isEmpty &&
          (discoveredOf transition h .v6).isEmpty) = false := by
        rwa [← Bool.not_and, Bool.not_eq_true'] at hsome
      unfold storeAfter
      simp only [hnot, Bool.false_eq_true, if_false]
    · have hboth : ((discoveredOf transition h .v4).isEmpty &&
          (discoveredOf transition h .v6).isEmpty) = true := by
        simpa using hnone
      have hsame : storeAfter transition h = s.tables := by
        funext f
        unfold storeAfter
        rw [if_pos hboth, htables]
      rw [hsame]
  have hat' := hat.setTables (storeAfter transition h)
  refine wp_seq (wp_mirrorSteps (placesOf config transition h) hat' (fun place hplace => ?_)
    ?_ fun e he pre t hpre hran => sound_planMirrorPuts he hpre hran) ?_
  · exact mirror_eq (hoff _) (isProviderTable_of_target (mem_placesOf.mp hplace).1) place.2
  · refine List.IsPrefix.trans ?_ hwhole
    exact ⟨planMirrorDrops config transition h, List.append_assoc _ _ _⟩
  rintro - t ⟨hatPuts, hranPuts, htablesPuts, hconflict⟩
  have hdrops (f : Family) : mirrorDrops (routesOf s) (placesOf config transition h) f =
      mirrorDrops (routesOf h) (placesOf config transition h) f := by
    unfold mirrorDrops
    rw [ownedProviderRoutes_eq (hoff f)]
    have hwanted : (placesOf config transition h).filter (fun place =>
          (mirror (routesOf s place.2.1.family) place.1 place.2).wanted) =
        (placesOf config transition h).filter fun place =>
          (mirror (routesOf h place.2.1.family) place.1 place.2).wanted := by
      refine List.filter_congr fun place hplace => ?_
      rw [mirror_eq (hoff _) (isProviderTable_of_target (mem_placesOf.mp hplace).1)]
    rw [hwanted]
  change wp A ((mirrorDrops (routesOf s) (placesOf config transition h) .v4 ++
    mirrorDrops (routesOf s) (placesOf config transition h) .v6).forM mutate >>= _) _ _ _ t
  rw [hdrops, hdrops]
  refine wp_seq (wp_edits (planMirrorDrops config transition h) hatPuts ?_ fun e he _ _ _ _ =>
    sound_planMirrorDrops he) ?_
  · exact (List.append_assoc _ _ _).symm ▸ hwhole
  rintro - t' ⟨hatDrops, hranDrops, htablesDrops⟩
  refine wp_pure ⟨?_, ?_, ?_, rfl, hconflict⟩
  · exact (List.append_assoc _ _ _) ▸ hatDrops
  · have hsaved : Ran s [] { s with tables := storeAfter transition h } := .start ⟨rfl, rfl, rfl⟩
    exact hsaved.trans (hranPuts.trans hranDrops)
  · exact htablesDrops.trans htablesPuts

/-- The edits of the rules. -/
def planRules (config : Config) (transition : Bool) (h : Underlay) : List Edit :=
  planRuleAdds config transition h ++ planRuleDrops config transition h

theorem plan_eq (config : Config) (transition : Bool) (h : Underlay) :
    plan config transition h =
      planMain config h ++ planMirror config transition h ++ planRules config transition h := by
  simp [plan, planMain, planMirror, planRules]

theorem plan_eq_drops (config : Config) (transition : Bool) (h : Underlay) :
    plan config transition h = planMain config h ++ planMirror config transition h ++
      planRuleAdds config transition h ++ planRuleDrops config transition h := by
  simp [plan, planMain, planMirror]

/-- What the last check is given, with the main table as it is at the end. -/
def outlookOf (config : Config) (transition : Bool) (h t : Underlay) : Outlook :=
  ⟨rulePriority transition, networksOf config h, expectedOf config h, directOf h,
    (mainRoutesOf · t), pathsOf config h, availableOf config h, closedOf config h,
    targetsOf transition h⟩

theorem mainRoutesOf_eq {edits : List Edit} (hran : Ran s edits t)
    (hedits : ∀ e ∈ edits, ∀ x path, e.change = some (x, path) → x.2.1 ≠ mainTable) (f : Family) :
    mainRoutesOf f t = mainRoutesOf f s := by
  refine hran.filter_routes fun e he x path hchange _ q hq => ?_
  simpa [(atPlace_iff.mp hq).1] using hedits e he x path hchange

theorem change_planMirror {e : Edit} (he : e ∈ planMirror config transition h) :
    ∃ (table : Nat) (n : Network) (path : Option Path),
      e.change = some ((n.family, table, n.bits), path) ∧ isProviderTable table = true := by
  rcases List.mem_append.mp he with he | he
  · obtain ⟨table, n, path, -, htable, hput⟩ := isPut_of_mem he
    exact ⟨table, n, some path, hput.change, htable⟩
  · obtain ⟨table, n, rfl, htable, -⟩ := mem_planMirrorDrops.mp he
    exact ⟨table, n, none, rfl, htable⟩

theorem change_planRules {e : Edit} (he : e ∈ planRules config transition h) : e.change = none := by
  rcases List.mem_append.mp he with he | he
  · obtain ⟨x, -, rfl⟩ := List.mem_map.mp he
    rfl
  · obtain ⟨x, -, rfl⟩ := List.mem_map.mp he
    rfl

/-- The edits that a run can make: none if a configured network has no path. -/
def course (config : Config) (transition : Bool) (h : Underlay) : List Edit :=
  if config.configured.all fun n => (configuredPath (mainRoutesOf n.family h) n).isSome then
    plan config transition h
  else []

theorem course_eq
    (hall : ∀ n ∈ config.configured, (configuredPath (mainRoutesOf n.family h) n).isSome) :
    course config transition h = plan config transition h :=
  if_pos (List.all_eq_true.mpr hall)

/-- What a reconciliation that got through its checks has done. -/
structure Carried (config : Config) (transition : Bool) (h t : Underlay) : Prop where
  done : At h (plan config transition h) t
  verified : Verified (outlookOf config transition h t) t
  tables : t.tables = storeAfter transition h
  configured : ∀ n ∈ config.configured, (configuredPath (mainRoutesOf n.family h) n).isSome
  agreed : ∀ place ∈ placesOf config transition h, mirrorOf h place ≠ .conflict

theorem wp_reconcileBody (config : Config) (transition : Bool) (h : Underlay) :
    wp A (reconcileBody config transition)
      (fun r t => Carried config transition h t ∧ r.1.prefixes = networksOf config h ∧
        r.2 = closedOf config h)
      (fun e t => Follows h (course config transition h) t ∧ Early e)
      (Follows h (course config transition h)) h := by
  have hmirrorWhole : planMain config h ++ planMirror config transition h <+:
      plan config transition h := by
    rw [plan_eq]
    exact List.prefix_append _ _
  have hmainWhole : planMain config h <+: plan config transition h :=
    (List.prefix_append _ _).trans hmirrorWhole
  have hstart : Follows h (course config transition h) h := (At.refl h).follows List.nil_prefix
  refine wp_seq_read (wp_both fun f => wp_json hstart (by decide)) ?_
  refine wp_seq_read (wp_both fun f => wp_json hstart (by decide)) ?_
  refine wp_seq_read (wp_providerDevices hstart) ?_
  refine wp_seq (wp_reconcileRoutes fun hall => course_eq hall ▸ hmainWhole) ?_
  rintro ⟨mainTally, configured⟩ s ⟨hat, htables, rfl, hconfigured⟩
  rw [course_eq hconfigured]
  have hfollows : Follows h (plan config transition h) s := hat.follows hmainWhole
  refine wp_seq_read (wp_both fun f => wp_json hfollows (by decide)) ?_
  refine wp_seq_read (wp_readDirectPaths hfollows hat.ran) ?_
  refine wp_bind (wp_demand (fun _ => ?_) fun _ => ⟨hfollows, by simp [Early]⟩)
  refine wp_seq (wp_reconcileProviderRoutes hat htables hmirrorWhole) ?_
  rintro ⟨providerTally, targets⟩ t ⟨hatMirror, hranMirror, htablesMirror, rfl, hagreed⟩
  refine wp_seq (wp_edits (planRuleAdds config transition h) hatMirror ?_ fun e he _ _ _ _ =>
    sound_planRuleAdds he) ?_
  · rw [plan_eq_drops]
    exact List.prefix_append _ _
  rintro - t1 ⟨hatAdds, hranAdds, htablesAdds⟩
  refine wp_seq (wp_edits (planRuleDrops config transition h) hatAdds ?_ fun e he _ _ _ _ =>
    sound_planRuleDrops he) ?_
  · exact ⟨[], by rw [List.append_nil, plan_eq_drops]⟩
  rintro - t2 ⟨hatDrops, hranDrops, htablesDrops⟩
  have hdone : At h (plan config transition h) t2 := by
    rw [plan_eq_drops]
    exact hatDrops
  refine wp_seq (wp_verifyPostconditions (hdone.follows (List.prefix_refl _)) _) ?_
  rintro - t3 ⟨rfl, hverified⟩
  refine wp_pure ⟨⟨hdone, ?_, ?_, hconfigured, hagreed⟩, rfl, rfl⟩
  · have hmain : (fun f => mainRoutesOf f t3) = fun f => mainRoutesOf f s := by
      funext f
      refine mainRoutesOf_eq (hranMirror.trans (hranAdds.trans hranDrops)) ?_ f
      intro e he x path hchange
      rcases List.mem_append.mp he with he | he
      · obtain ⟨table, n, path', hchange', htable⟩ := change_planMirror he
        rw [hchange', Option.some.injEq, Prod.mk.injEq] at hchange
        rw [← hchange.1]
        exact ne_main_of_isProviderTable htable
      · rw [change_planRules he] at hchange
        cases hchange
    unfold outlookOf
    rw [hmain]
    exact hverified
  · rw [htablesDrops, htablesAdds, htablesMirror]

theorem Carried.follows (hcarried : Carried config transition h t) :
    Follows h (course config transition h) t := by
  rw [course_eq hcarried.configured]
  exact hcarried.done.follows (List.prefix_refl _)

/-- A run of `_reconcile`: it follows the plan; if it returns or reports a destination that is
unavailable, the plan has been carried out. -/
theorem wp_reconcileWith (config : Config) (transition : Bool) (h : Underlay) :
    wp A (reconcileWith config transition)
      (fun r t => Carried config transition h t ∧ r.prefixes = networksOf config h ∧
        closedOf config h = [])
      (fun e t => Follows h (course config transition h) t ∧
        (e = .code .destinationUnavailable → Carried config transition h t))
      (Follows h (course config transition h)) h := by
  refine wp_seq (wp_mono (wp_reconcileBody config transition h) (fun _ _ => id) ?_ fun _ => id) ?_
  · exact fun e t ht => ⟨ht.1, fun he => absurd he ht.2⟩
  · rintro ⟨result, closed⟩ t ⟨hcarried, hprefixes, rfl⟩
    have hfollows := hcarried.follows
    refine wp_bind (wp_demand (fun hempty => ?_) fun _ => ⟨hfollows, fun _ => hcarried⟩)
    exact wp_pure ⟨hcarried, hprefixes, List.isEmpty_iff.mp hempty⟩

/-- However a run ends, it is on its course. -/
theorem follows_course (config : Config) (transition : Bool) (h : Underlay)
    (ks : List (Signal Reply Failure)) :
    Follows h (course config transition h) (reconcileWith config transition h ks).2.1 :=
  (wp_mono (wp_reconcileWith config transition h) (fun _ _ hq => hq.1.follows) (fun _ _ he => he.1)
    fun _ => id).always (any_script ks)

end

end ExitLane.Management
