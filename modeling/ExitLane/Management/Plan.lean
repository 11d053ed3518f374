import ExitLane.Management.Edits

/-!
# The plan of a reconciliation

The plan is a list of edits that depends on the underlay at the start only. Runs of edits
keep everything that no edit names, and act on the management routes as updates of a map.
-/

namespace ExitLane.Management

open Effect Net

/-! ## The plan -/

section
variable (config : Config) (transition : Bool) (h : Underlay)

def rulesOf (f : Family) : List Rule := (h.rules f).rules
def routesOf (f : Family) : List Route := (h.routes f).routes

def devicesIn (f : Family) : List Iface :=
  if (providerTables (rulesOf h f)).isEmpty then []
  else defaultDevices (providerTables (rulesOf h f)) (routesOf h f)

def devicesOf : List Iface := devicesIn h .v4 ++ devicesIn h .v6

def availableOf : List (Network × Path) :=
  availablePaths config (mainRoutesOf · h) (devicesOf h)

def closedOf : List Network := closedNetworks config (mainRoutesOf · h) (devicesOf h)

def existingMain : List (Network × Path) :=
  ownedRoutes .v4 (mainRoutesOf .v4 h) ++ ownedRoutes .v6 (mainRoutesOf .v6 h)

def desiredMain : List (Network × Path) :=
  mainDesired (mainRoutesOf · h) config.configured.eraseDups (closedOf config h)

def expectedOf : List (Network × Path) :=
  expectedPaths (mainRoutesOf · h) config.configured.eraseDups

def directOf : List DirectPath :=
  (directPathsOf .v4 h ++ directPathsOf .v6 h).eraseDups.insertionSort fun a b =>
    (a.network.le b.network && !(b.network.le a.network && !textLe a.device b.device)) = true

/-- The desired protected set. -/
def networksOf : List Network := desiredNetworks config (directOf h)

def pathsOf : List (Network × Path) :=
  protectedPaths (expectedOf config h) (directOf h) (availableOf config h) (closedOf config h)

def discoveredOf (f : Family) : List Nat :=
  discoveredTables (rulesOf h f) (routesOf h f) (rulePriority transition)

/-- The tables that get the mirrored routes. -/
def targetsOf (f : Family) : List Nat :=
  if (discoveredOf transition h f).isEmpty then if transition then storedTables h f else []
  else discoveredOf transition h f

def placesOf : List (Nat × Network × Path) :=
  mirrorPlaces (pathsOf config h) (targetsOf transition h) .v4 ++
    mirrorPlaces (pathsOf config h) (targetsOf transition h) .v6

/-- What a place asks for. -/
def mirrorOf (place : Nat × Network × Path) : Mirror :=
  mirror (routesOf h place.2.1.family) place.1 place.2

def Mirror.edit : Mirror → Option Edit
  | .put e => some e
  | .foreign | .conflict | .settled => none

def existingRules : List (Nat × Network) :=
  ownedRules .v4 (rulesOf h .v4) ++ ownedRules .v6 (rulesOf h .v6)

def desiredRules : List (Nat × Network) :=
  (networksOf config h).map (rulePriority transition, ·)

def planMainPuts : List Edit := mainPuts (existingMain h) (desiredMain config h)
def planMainDrops : List Edit := mainDrops (existingMain h) (desiredMain config h)

def planMirrorPuts : List Edit :=
  (placesOf config transition h).filterMap fun place => (mirrorOf h place).edit

def planMirrorDrops : List Edit :=
  mirrorDrops (routesOf h) (placesOf config transition h) .v4 ++
    mirrorDrops (routesOf h) (placesOf config transition h) .v6

def planRuleAdds : List Edit := ruleAdds (existingRules h) (desiredRules config transition h)
def planRuleDrops : List Edit := ruleDrops (existingRules h) (desiredRules config transition h)

/-- The edits of a reconciliation in their order. -/
def plan : List Edit :=
  planMainPuts config h ++ planMainDrops config h ++ planMirrorPuts config transition h ++
    planMirrorDrops config transition h ++ planRuleAdds config transition h ++
    planRuleDrops config transition h

end

/-! ## Runs of edits -/

/-- The same rules, routes and links. -/
structure Same (h t : Underlay) : Prop where
  rules : t.rules = h.rules
  routes : t.routes = h.routes
  links : t.links = h.links

/-- `Ran h edits t`: the edits, one after the other and each of them sound, lead from `h` to `t`. -/
inductive Ran (h : Underlay) : List Edit → Underlay → Prop
  | start {t : Underlay} (hsame : Same h t) : Ran h [] t
  | step {edits : List Edit} {e : Edit} {s s' t : Underlay} (hran : Ran h edits s)
      (hsound : e.Sound s) (happly : e.apply s = some s') (hsame : Same s' t) :
      Ran h (edits ++ [e]) t

theorem Same.refl (h : Underlay) : Same h h := ⟨rfl, rfl, rfl⟩

theorem Same.trans {h s t : Underlay} (hs : Same h s) (ht : Same s t) : Same h t :=
  ⟨ht.rules.trans hs.rules, ht.routes.trans hs.routes, ht.links.trans hs.links⟩

namespace Ran

variable {h t s : Underlay} {edits : List Edit}

theorem same (hran : Ran h edits t) (hsame : Same t s) : Ran h edits s := by
  cases hran with
  | start h1 => exact .start (h1.trans hsame)
  | step h1 h2 h3 h4 => exact .step h1 h2 h3 (h4.trans hsame)

theorem trans {edits' : List Edit} (hran : Ran h edits s) (hran' : Ran s edits' t) :
    Ran h (edits ++ edits') t := by
  induction hran' with
  | start hsame => simpa using hran.same hsame
  | step _ hsound happly hsame ih =>
    rw [← List.append_assoc]
    exact .step ih hsound happly hsame

section
variable (hran : Ran h edits t)
include hran

theorem links : t.links = h.links := by
  induction hran with
  | start hsame => exact hsame.links
  | step _ _ happly hsame ih =>
    exact hsame.links.trans ((apply_frame happly).1.trans ih)

/-- Rules without the signature are as at the start. -/
theorem filter_rules {p : Rule → Bool}
    (hp : ∀ r, isSigned r = true → p r = false) (f : Family) :
    (rulesOf t f).filter p = (rulesOf h f).filter p := by
  induction hran with
  | start hsame => rw [rulesOf, hsame.rules]; rfl
  | step _ _ happly hsame ih =>
    rw [rulesOf, hsame.rules, filter_rules_apply happly hp]
    exact ih

/-- Routes that are at no place of the edits are as at the start. -/
theorem filter_routes {p : Route → Bool} {f : Family}
    (hp : ∀ e ∈ edits, ∀ x path, e.change = some (x, path) → f = x.1 →
      ∀ q, atPlace x q = true → p q = false) :
    (routesOf t f).filter p = (routesOf h f).filter p := by
  induction hran with
  | start hsame => rw [routesOf, hsame.routes]; rfl
  | @step edits e s s' t hran hsound happly hsame ih =>
    have hold := ih fun e' he' => hp e' (List.mem_append_left _ he')
    rw [← hold, routesOf, hsame.routes]
    cases hchange : e.change with
    | none => rw [apply_routes hchange happly]; rfl
    | some change =>
      obtain ⟨x, path⟩ := change
      exact filter_routes_apply hchange hsound happly
        (hp e (List.mem_append_right _ (List.mem_singleton.mpr rfl)) x path hchange)

/-- The paths are those of the start, updated edit by edit. -/
theorem pathAt_eq : pathAt t = edits.foldl (fun m e => e.update m) (pathAt h) := by
  induction hran with
  | start hsame => funext x; simp only [pathAt, hsame.routes, List.foldl_nil]
  | step _ hsound happly hsame ih =>
    rw [List.foldl_append, List.foldl_cons, List.foldl_nil, ← ih, ← pathAt_apply hsound happly]
    funext x
    simp only [pathAt, hsame.routes]

/-- Where nothing is deleted, a management route stays. -/
theorem isSome_pathAt {x : Place} (hsome : (pathAt h x).isSome)
    (hputs : ∀ e ∈ edits, ∀ path, e.change = some (x, path) → path.isSome) :
    (pathAt t x).isSome := by
  induction hran with
  | start hsame => simpa only [pathAt, hsame.routes] using hsome
  | @step edits e s s' t hran hsound happly hsame ih =>
    have hold := ih fun e' he' => hputs e' (List.mem_append_left _ he')
    have heq : pathAt t = e.update (pathAt s) := by
      rw [← pathAt_apply hsound happly]
      funext y
      simp only [pathAt, hsame.routes]
    rw [heq, Edit.update]
    cases hchange : e.change with
    | none => exact hold
    | some change =>
      obtain ⟨y, path⟩ := change
      by_cases hx : x = y
      · subst hx
        simpa using hputs e (List.mem_append_right _ (List.mem_singleton.mpr rfl)) path hchange
      · simpa [Function.update_of_ne hx] using hold

end

end Ran

/-- A state on the way: an initial part of the edits has been carried out. -/
def Follows (h : Underlay) (whole : List Edit) (t : Underlay) : Prop :=
  ∃ done, done <+: whole ∧ Ran h done t ∧ h.issued ≤ t.issued ∧
    t.issued ≤ h.issued + whole.length

/-- The state after exactly these edits. -/
structure At (h : Underlay) (done : List Edit) (t : Underlay) : Prop where
  ran : Ran h done t
  issued : t.issued = h.issued + done.length

section
variable {h s : Underlay} {whole done : List Edit} {A : Regime Reply Failure}

theorem At.refl (h : Underlay) : At h [] h := ⟨.start (.refl h), rfl⟩

theorem At.follows (hat : At h done s) (hwhole : done <+: whole) : Follows h whole s := by
  refine ⟨done, hwhole, hat.ran, ?_, ?_⟩
  · rw [hat.issued]
    exact Nat.le_add_right _ _
  · rw [hat.issued]
    exact Nat.add_le_add_left hwhole.length_le _

/-- One more edit of the plan, whether it takes effect or not. -/
theorem At.follows_issue {e : Edit} (hat : At h done s) (hwhole : done ++ [e] <+: whole)
    (hsound : e.Sound s) (took : Bool) : Follows h whole (e.issue took s) := by
  have hlength : done.length + 1 ≤ whole.length := by simpa using hwhole.length_le
  have hissued : h.issued ≤ (e.issue took s).issued ∧
      (e.issue took s).issued ≤ h.issued + whole.length := by
    have hcount : (e.issue took s).issued = h.issued + done.length + 1 := by
      rw [← hat.issued]
      rfl
    omega
  have hkept : Follows h whole { s with issued := s.issued + 1 } :=
    ⟨done, (List.prefix_append _ _).trans hwhole, hat.ran.same ⟨rfl, rfl, rfl⟩, hissued⟩
  cases took with
  | false => exact hkept
  | true =>
    cases ht : e.apply s with
    | none => simpa [Edit.issue, ht] using hkept
    | some t =>
      refine ⟨done ++ [e], hwhole, ?_, hissued⟩
      exact .step hat.ran hsound ht (by simpa [Edit.issue, ht] using ⟨rfl, rfl, rfl⟩)

/-- One edit of the plan. -/
theorem wp_edit {e : Edit} (hat : At h done s) (hwhole : done ++ [e] <+: whole) (hs : e.Sound s) :
    wp A (mutate e)
      (fun _ t => At h (done ++ [e]) t ∧ Ran s [e] t ∧ t.tables = s.tables)
      (fun e t => Follows h whole t ∧ Early e) (Follows h whole) s := by
  refine wp_post (wp_mutate (hat.follows_issue hwhole hs)) ?_
  rintro - m ⟨t, ht, rfl⟩
  refine ⟨⟨.step hat.ran hs ht ⟨rfl, rfl, rfl⟩, ?_⟩, ?_, (apply_frame ht).2.1⟩
  · simp [hat.issued, Nat.add_assoc]
  · exact .step (.start (.refl s)) hs ht ⟨rfl, rfl, rfl⟩

/-- A list of edits of the plan. -/
theorem wp_edits (edits : List Edit) (hat : At h done s) (hwhole : done ++ edits <+: whole)
    (hsound : ∀ e ∈ edits, ∀ pre t, pre <+: edits → Ran h (done ++ pre) t → e.Sound t) :
    wp A (edits.forM mutate)
      (fun _ t => At h (done ++ edits) t ∧ Ran s edits t ∧ t.tables = s.tables)
      (fun e t => Follows h whole t ∧ Early e) (Follows h whole) s := by
  induction edits generalizing done s with
  | nil => exact wp_pure ⟨by simpa using hat, .start (.refl s), rfl⟩
  | cons e edits ih =>
    have hone : done ++ [e] <+: whole := List.IsPrefix.trans ⟨edits, by simp⟩ hwhole
    have hs : e.Sound s :=
      hsound e List.mem_cons_self [] s (List.nil_prefix) (by simpa using hat.ran)
    refine wp_seq (wp_edit hat hone hs) ?_
    rintro - m ⟨hat', hfirst, htables⟩
    refine wp_post (ih hat' (by simpa using hwhole) fun e' he' pre t hpre hran => ?_) ?_
    · refine hsound e' (List.mem_cons_of_mem _ he') (e :: pre) t ?_ (by simpa using hran)
      exact List.prefix_cons_iff.mpr (.inr ⟨pre, rfl, hpre⟩)
    · rintro - t' ⟨hat'', hran, htables'⟩
      exact ⟨by simpa using hat'', hfirst.trans hran, htables'.trans htables⟩

end

/-! ## What the edits of the plan are -/

variable {f : Family} {n : Network} {path : Path} {h : Underlay} {table : Nat} {e : Edit}
  {config : Config} {transition : Bool}

theorem mem_routeNetwork {r : Route} :
    routeNetwork f r = some n ↔ n.family = f ∧ r.dst = n.bits := by
  unfold routeNetwork
  constructor
  · intro hn
    split at hn
    · cases hn
      exact ⟨rfl, rfl⟩
    · cases hn
  · rintro ⟨rfl, hd⟩
    have hne : r.dst ≠ [] := hd ▸ n.proper
    rw [dif_pos hne]
    simp [hd]

/-- The owned routes of the main table are the paths at its places. -/
theorem mem_ownedRoutes :
    (n, path) ∈ ownedRoutes f (mainRoutesOf f h) ↔
      n.family = f ∧ pathAt h (n.family, mainTable, n.bits) = some path := by
  rw [mem_owned_iff]
  simp only [ownedRoutes, mainRoutesOf, List.mem_filterMap, List.mem_filter, Option.map_eq_some_iff,
    Prod.mk.injEq, beq_iff_eq]
  constructor
  · rintro ⟨r, ⟨⟨hr, ht⟩, hown⟩, m, hm, rfl, rfl⟩
    obtain ⟨hf, hd⟩ := mem_routeNetwork.mp hm
    exact ⟨hf, r, hf ▸ hr, ht, hd, hown, rfl⟩
  · rintro ⟨rfl, r, hr, ht, hd, hown, rfl⟩
    exact ⟨r, ⟨⟨hr, ht⟩, hown⟩, n, mem_routeNetwork.mpr ⟨rfl, hd⟩, rfl, rfl⟩

theorem mem_existingMain :
    (n, path) ∈ existingMain h ↔ pathAt h (n.family, mainTable, n.bits) = some path := by
  rw [existingMain, List.mem_append, mem_ownedRoutes, mem_ownedRoutes]
  cases n.family <;> simp

theorem mem_ownedProviderRoutes :
    ((table, n), path) ∈ ownedProviderRoutes f (routesOf h f) ↔
      n.family = f ∧ isProviderTable table = true ∧
        pathAt h (n.family, table, n.bits) = some path := by
  rw [mem_owned_iff]
  simp only [ownedProviderRoutes, routesOf, List.mem_filterMap, List.mem_filter,
    Option.map_eq_some_iff, Prod.mk.injEq, Bool.and_eq_true]
  constructor
  · rintro ⟨r, ⟨hr, hown, ht⟩, m, hm, ⟨rfl, rfl⟩, rfl⟩
    obtain ⟨hf, hd⟩ := mem_routeNetwork.mp hm
    exact ⟨hf, ht, r, hf ▸ hr, rfl, hd, hown, rfl⟩
  · rintro ⟨rfl, ht, r, hr, rfl, hd, hown, rfl⟩
    exact ⟨r, ⟨hr, hown, ht⟩, n, mem_routeNetwork.mpr ⟨rfl, hd⟩, ⟨rfl, rfl⟩, rfl⟩

/-- A put of a network that is not in place, as an addition or a replacement. -/
def IsPut (h : Underlay) (table : Nat) (n : Network) (path : Path) (e : Edit) : Prop :=
  pathAt h (n.family, table, n.bits) ≠ some path ∧
    ((e = .addRoute table n path ∧ pathAt h (n.family, table, n.bits) = none) ∨
      (e = .replaceRoute table n path ∧ (pathAt h (n.family, table, n.bits)).isSome))

theorem IsPut.change (hput : IsPut h table n path e) :
    e.change = some ((n.family, table, n.bits), some path) := by
  rcases hput.2 with ⟨rfl, -⟩ | ⟨rfl, -⟩
  · rfl
  · rfl

theorem IsPut.unique {e' : Edit} (hput : IsPut h table n path e)
    (hput' : IsPut h table n path e') : e = e' := by
  rcases hput.2 with ⟨rfl, hnone⟩ | ⟨rfl, hsome⟩
  · rcases hput'.2 with ⟨rfl, -⟩ | ⟨-, hsome⟩
    · rfl
    · simp [hnone] at hsome
  · rcases hput'.2 with ⟨-, hnone⟩ | ⟨rfl, -⟩
    · simp [hnone] at hsome
    · rfl

theorem mem_planMainPuts :
    e ∈ planMainPuts config h ↔
      ∃ n path, (n, path) ∈ desiredMain config h ∧ IsPut h mainTable n path e := by
  have hany (n : Network) : (existingMain h).any (·.1 == n) = true ↔
      (pathAt h (n.family, mainTable, n.bits)).isSome := by
    rw [List.any_eq_true, Option.isSome_iff_exists]
    constructor
    · rintro ⟨⟨m, path⟩, hm, heq⟩
      cases beq_iff_eq.mp heq
      exact ⟨path, mem_existingMain.mp hm⟩
    · rintro ⟨path, hpath⟩
      exact ⟨(n, path), mem_existingMain.mpr hpath, by simp⟩
  simp only [planMainPuts, mainPuts, sortEntries, List.mem_filterMap, List.mem_insertionSort]
  constructor
  · rintro ⟨⟨n, path⟩, hentry, hput⟩
    refine ⟨n, path, hentry, ?_⟩
    unfold putEdit at hput
    split at hput
    · cases hput
    · next hnot =>
      have hne : pathAt h (n.family, mainTable, n.bits) ≠ some path := fun heq =>
        hnot (by simpa using mem_existingMain.mpr heq)
      refine ⟨hne, ?_⟩
      split at hput
      · next hsome => exact .inr ⟨(Option.some.inj hput).symm, (hany n).mp hsome⟩
      · next hnone =>
        refine .inl ⟨(Option.some.inj hput).symm, ?_⟩
        rw [hany] at hnone
        simpa using hnone
  · rintro ⟨n, path, hentry, hne, hput⟩
    refine ⟨(n, path), hentry, ?_⟩
    unfold putEdit
    have hnot : ¬(existingMain h).contains (n, path) = true := by
      rw [List.contains_iff_mem, mem_existingMain]
      exact hne
    rw [if_neg hnot]
    rcases hput with ⟨rfl, hnone⟩ | ⟨rfl, hsome⟩
    · rw [if_neg]
      rw [hany, hnone]
      simp
    · rw [if_pos ((hany n).mpr hsome)]

theorem mem_planMainDrops :
    e ∈ planMainDrops config h ↔ ∃ n, e = .deleteRoute mainTable n ∧
      (pathAt h (n.family, mainTable, n.bits)).isSome ∧
      ∀ path, (n, path) ∉ desiredMain config h := by
  simp only [planMainDrops, mainDrops, sortNetworks, List.mem_map, List.mem_insertionSort,
    List.mem_eraseDups, List.mem_filter, Bool.not_eq_true', List.any_eq_false, beq_iff_eq,
    Option.isSome_iff_exists]
  constructor
  · rintro ⟨n, ⟨⟨⟨m, path⟩, hm, rfl⟩, hnot⟩, rfl⟩
    exact ⟨m, rfl, ⟨path, mem_existingMain.mp hm⟩, fun path' hp => hnot (m, path') hp rfl⟩
  · rintro ⟨n, rfl, ⟨path, hpath⟩, hnot⟩
    refine ⟨n, ⟨⟨(n, path), mem_existingMain.mpr hpath, rfl⟩, ?_⟩, rfl⟩
    rintro ⟨m, path'⟩ hm rfl
    exact hnot path' hm

/-- A route of a table for exactly this network that is not ours. -/
def IsForeign (h : Underlay) (table : Nat) (n : Network) (q : Route) : Prop :=
  q ∈ routesOf h n.family ∧ q.table = table ∧ q.dst = n.bits ∧ isOwned q = false

/-- What a place asks for, case by case. -/
theorem mirrorOf_cases (h : Underlay) (n : Network) (path : Path)
    (htable : isProviderTable table = true) :
    ((∃ q, IsForeign h table n q) ∧
      (mirrorOf h (table, n, path) = .foreign ∧
          (∀ q, IsForeign h table n q → pathMatches q path = true) ∨
        mirrorOf h (table, n, path) = .conflict)) ∨
    ((∀ q, ¬IsForeign h table n q) ∧
      (mirrorOf h (table, n, path) = .settled ∧ pathAt h (n.family, table, n.bits) = some path ∨
        ∃ e, mirrorOf h (table, n, path) = .put e ∧ IsPut h table n path e)) := by
  have hmem (q : Route) : q ∈ (routesOf h n.family).filter (fun r =>
      r.table == table && r.dst == n.bits && !isOwned r) ↔ IsForeign h table n q := by
    simp [IsForeign, and_assoc]
  have howned (p : Path) : ((table, n), p) ∈ (ownedProviderRoutes n.family
      (routesOf h n.family)).filter (·.1 == (table, n)) ↔
        pathAt h (n.family, table, n.bits) = some p := by
    simp [mem_ownedProviderRoutes, htable]
  unfold mirrorOf mirror
  dsimp only
  by_cases hforeign : ((routesOf h n.family).filter fun r =>
      r.table == table && r.dst == n.bits && !isOwned r).isEmpty = true
  · refine .inr ⟨fun q hq => ?_, ?_⟩
    · have := (hmem q).mpr hq
      rw [List.isEmpty_iff.mp hforeign] at this
      cases this
    rw [if_pos hforeign]
    by_cases hsettled : ((ownedProviderRoutes n.family (routesOf h n.family)).filter
        (·.1 == (table, n))).any (·.2 == path) = true
    · refine .inl ⟨if_pos hsettled, ?_⟩
      obtain ⟨⟨key, p⟩, hp, heq⟩ := List.any_eq_true.mp hsettled
      cases beq_iff_eq.mp heq
      cases beq_iff_eq.mp (List.mem_filter.mp hp).2
      exact (howned p).mp hp
    · rw [if_neg hsettled]
      have hne : pathAt h (n.family, table, n.bits) ≠ some path := fun heq =>
        hsettled (List.any_eq_true.mpr ⟨_, (howned path).mpr heq, by simp⟩)
      by_cases hempty : ((ownedProviderRoutes n.family (routesOf h n.family)).filter
          (·.1 == (table, n))).isEmpty = true
      · refine .inr ⟨_, if_pos hempty, hne, .inl ⟨rfl, ?_⟩⟩
        by_contra hsome
        obtain ⟨p, hp⟩ := Option.ne_none_iff_exists'.mp hsome
        have := (howned p).mpr hp
        rw [List.isEmpty_iff.mp hempty] at this
        cases this
      · refine .inr ⟨_, if_neg hempty, hne, .inr ⟨rfl, ?_⟩⟩
        obtain ⟨p, hp⟩ :
            ∃ p, ((table, n), p) ∈ ownedProviderRoutes n.family (routesOf h n.family) := by
          simpa using hempty
        rw [(mem_ownedProviderRoutes.mp hp).2.2]
        rfl
  · rw [if_neg hforeign]
    refine .inl ⟨?_, ?_⟩
    · simpa [IsForeign] using hforeign
    · by_cases hall : ((routesOf h n.family).filter fun r =>
          r.table == table && r.dst == n.bits && !isOwned r).all (pathMatches · path) = true
      · refine .inl ⟨if_pos hall, fun q hq => ?_⟩
        exact List.all_eq_true.mp hall q ((hmem q).mpr hq)
      · exact .inr (if_neg hall)

theorem mem_placesOf :
    (table, n, path) ∈ placesOf config transition h ↔
      table ∈ targetsOf transition h n.family ∧ (n, path) ∈ pathsOf config h := by
  have hplaces (f : Family) : (table, n, path) ∈
      mirrorPlaces (pathsOf config h) (targetsOf transition h) f ↔
        table ∈ targetsOf transition h f ∧ (n, path) ∈ pathsOf config h ∧ n.family = f := by
    simp [mirrorPlaces, mirrorEntries, sortEntries, List.mem_insertionSort]
  rw [placesOf, List.mem_append, hplaces, hplaces]
  cases n.family <;> simp

theorem isProviderTable_of_discovered {rules : List Rule} {routes : List Route} {priority : Nat}
    (ht : table ∈ discoveredTables rules routes priority) : isProviderTable table = true := by
  simp only [discoveredTables, List.mem_insertionSort, List.mem_filter, List.mem_eraseDups,
    providerTablesBefore, List.mem_map, Bool.and_eq_true] at ht
  obtain ⟨⟨r, ⟨-, -, htable⟩, rfl⟩, -⟩ := ht
  exact htable

theorem isProviderTable_of_target (ht : table ∈ targetsOf transition h f) :
    isProviderTable table = true := by
  unfold targetsOf at ht
  split at ht
  · split at ht
    · simp only [storedTables, List.mem_eraseDups, List.mem_filter] at ht
      exact ht.2
    · cases ht
  · exact isProviderTable_of_discovered ht

theorem ne_main_of_isProviderTable (ht : isProviderTable table = true) : table ≠ mainTable := by
  rintro rfl
  cases ht

theorem mem_planMirrorPuts :
    e ∈ planMirrorPuts config transition h ↔
      ∃ place ∈ placesOf config transition h, mirrorOf h place = .put e := by
  simp only [planMirrorPuts, List.mem_filterMap]
  refine exists_congr fun place => and_congr_right fun _ => ?_
  cases mirrorOf h place <;> simp [Mirror.edit]

theorem isPut_of_mirrorOf (htable : isProviderTable table = true)
    (hmirror : mirrorOf h (table, n, path) = .put e) : IsPut h table n path e := by
  rcases mirrorOf_cases h n path htable with
    ⟨-, ⟨hcase, -⟩ | hcase⟩ | ⟨-, ⟨hcase, -⟩ | ⟨e', hcase, hput⟩⟩
  · rw [hcase] at hmirror; cases hmirror
  · rw [hcase] at hmirror; cases hmirror
  · rw [hcase] at hmirror; cases hmirror
  · rw [hcase] at hmirror
    cases hmirror
    exact hput

/-- A put of the mirrored routes. -/
theorem isPut_of_mem (he : e ∈ planMirrorPuts config transition h) :
    ∃ table n path, (table, n, path) ∈ placesOf config transition h ∧
      isProviderTable table = true ∧ IsPut h table n path e := by
  obtain ⟨⟨table, n, path⟩, hplace, hmirror⟩ := mem_planMirrorPuts.mp he
  have htable := isProviderTable_of_target (mem_placesOf.mp hplace).1
  exact ⟨table, n, path, hplace, htable, isPut_of_mirrorOf htable hmirror⟩

theorem mem_planMirrorDrops :
    e ∈ planMirrorDrops config transition h ↔ ∃ table n, e = .deleteRoute table n ∧
      isProviderTable table = true ∧ (pathAt h (n.family, table, n.bits)).isSome ∧
      ∀ path, (table, n, path) ∈ placesOf config transition h →
        (mirrorOf h (table, n, path)).wanted = false := by
  have hdrops (f : Family) : e ∈ mirrorDrops (routesOf h) (placesOf config transition h) f ↔
      ∃ table n, e = .deleteRoute table n ∧ n.family = f ∧ isProviderTable table = true ∧
        (pathAt h (n.family, table, n.bits)).isSome ∧
        ∀ path, (table, n, path) ∈ placesOf config transition h →
          (mirrorOf h (table, n, path)).wanted = false := by
    simp only [mirrorDrops, List.mem_map, List.mem_insertionSort, List.mem_filter,
      Bool.not_eq_true', List.any_eq_false, beq_iff_eq, Option.isSome_iff_exists]
    constructor
    · rintro ⟨⟨table, n⟩, ⟨⟨⟨key, path⟩, hmem, rfl⟩, hnot⟩, rfl⟩
      obtain ⟨hf, htable, hpath⟩ := mem_ownedProviderRoutes.mp hmem
      refine ⟨table, n, rfl, hf, htable, ⟨path, hpath⟩, fun path' hplace => ?_⟩
      by_contra hwanted
      exact hnot (table, n, path') ⟨hplace, by simpa [mirrorOf] using hwanted⟩ rfl
    · rintro ⟨table, n, rfl, hf, htable, ⟨path, hpath⟩, hnot⟩
      refine ⟨(table, n), ⟨⟨((table, n), path), ?_, rfl⟩, ?_⟩, rfl⟩
      · exact mem_ownedProviderRoutes.mpr ⟨hf, htable, hpath⟩
      · rintro ⟨table', n', path'⟩ ⟨hplace, hwanted⟩ heq
        cases heq
        have := hnot path' hplace
        rw [mirrorOf] at this
        rw [this] at hwanted
        cases hwanted
  rw [planMirrorDrops, List.mem_append, hdrops, hdrops]
  constructor
  · rintro (⟨table, n, rfl, -, hrest⟩ | ⟨table, n, rfl, -, hrest⟩)
    · exact ⟨table, n, rfl, hrest⟩
    · exact ⟨table, n, rfl, hrest⟩
  · rintro ⟨table, n, rfl, hrest⟩
    cases hf : n.family with
    | v4 => exact .inl ⟨table, n, rfl, hf, hrest⟩
    | v6 => exact .inr ⟨table, n, rfl, hf, hrest⟩

end ExitLane.Management
