import ExitLane.Management.Routing

/-!
# What the commands of a reconciliation can do

Every edit touches owned rules or owned routes only: the other rules and routes stay as
they are, in their order. On the owned routes an edit is the update of a map from places
to paths. A reading returns what the underlay holds or fails and changes nothing.
-/

namespace ExitLane.Management

open Effect Net

/-! ## Places -/

/-- Where a management route can be: a family, a table and a prefix. -/
abbrev Place := Family × Nat × Bits

/-- The path of the management route at a place. -/
def pathAt (h : Underlay) (x : Place) : Option Path :=
  ((h.routes x.1).routes.find? fun r =>
    r.table == x.2.1 && r.dst == x.2.2 && isOwned r).map routePath

namespace Edit

/-- The place that an edit changes and what it puts there. -/
def change : Edit → Option (Place × Option Path)
  | addRule _ _ | deleteRule _ _ => none
  | addRoute table n path | replaceRoute table n path => some ((n.family, table, n.bits), some path)
  | deleteRoute table n => some ((n.family, table, n.bits), none)

/-- The map of paths after an edit. -/
def update (e : Edit) (m : Place → Option Path) : Place → Option Path :=
  match e.change with
  | none => m
  | some (x, path) => Function.update m x path

end Edit

variable {x : Place} {path : Path} {q : Route}

theorem mem_owned_iff {h : Underlay} :
    pathAt h x = some path ↔ ∃ r ∈ (h.routes x.1).routes, r.table = x.2.1 ∧ r.dst = x.2.2 ∧
      isOwned r = true ∧ routePath r = path := by
  constructor
  · intro hpath
    obtain ⟨r, hr, hp⟩ := Option.map_eq_some_iff.mp hpath
    have hfound := List.find?_some hr
    simp only [Bool.and_eq_true, beq_iff_eq] at hfound
    exact ⟨r, List.mem_of_find?_eq_some hr, hfound.1.1, hfound.1.2, hfound.2, hp⟩
  · rintro ⟨r, hr, ht, hd, hown, rfl⟩
    unfold pathAt
    cases hfind : (h.routes x.1).routes.find? fun r =>
        r.table == x.2.1 && r.dst == x.2.2 && isOwned r with
    | none =>
      have := List.find?_eq_none.mp hfind r hr
      simp [ht, hd, hown] at this
    | some q =>
      have hfound := List.find?_some hfind
      simp only [Bool.and_eq_true, beq_iff_eq] at hfound
      -- Two management routes at one place have the same key.
      have hmetric : q.metric = r.metric := by
        have hq := hfound.2
        simp only [isOwned, Bool.and_eq_true, beq_iff_eq] at hq hown
        exact hq.2.trans hown.2.symm
      have hkey : q.sameKey r = true :=
        sameKey_iff.mpr ⟨hfound.1.1.trans ht.symm, hfound.1.2.trans hd.symm, hmetric⟩
      have heq := Fib.eq_of_sameKey (List.mem_of_find?_eq_some hfind) hr hkey
      rw [heq]
      rfl

theorem isOwned_managementRoute (table : Nat) (bits : Bits) (path : Path) :
    isOwned (managementRoute table bits path) = true := by
  simp [isOwned, managementRoute]

theorem routePath_managementRoute (table : Nat) (bits : Bits) (path : Path) :
    routePath (managementRoute table bits path) = path := by
  obtain ⟨gateway, device⟩ := path
  cases gateway <;> rfl

/-! ## Routes after an edit -/

/-- A route is replaced only where there is a management route. -/
def Edit.Sound (e : Edit) (h : Underlay) : Prop :=
  match e with
  | .replaceRoute table n _ => (pathAt h (n.family, table, n.bits)).isSome
  | _ => True

/-- The management route at a place. -/
def atPlace (x : Place) (r : Route) : Bool := r.table == x.2.1 && r.dst == x.2.2 && isOwned r

theorem atPlace_iff {r : Route} :
    atPlace x r = true ↔ r.table = x.2.1 ∧ r.dst = x.2.2 ∧ isOwned r = true := by
  simp [atPlace, and_assoc]

theorem atPlace_managementRoute (x : Place) (path : Path) :
    atPlace x (managementRoute x.2.1 x.2.2 path) = true :=
  atPlace_iff.mpr ⟨rfl, rfl, isOwned_managementRoute _ _ path⟩

/-- The management routes are known by their key, and so is a deletion. -/
theorem routeSpec_agrees {table : Nat} {n : Network} :
    (routeSpec table n).agrees q = atPlace (n.family, table, n.bits) q := by
  rw [Bool.eq_iff_iff, atPlace_iff]
  simp only [RouteSpec.agrees, routeSpec, isOwned, Option.all_none, Bool.and_true, Bool.and_eq_true,
    beq_iff_eq]
  tauto

theorem sameKey_of_atPlace (hq : atPlace x q = true) :
    q.sameKey (managementRoute x.2.1 x.2.2 path) = true := by
  obtain ⟨ht, hd, hown⟩ := atPlace_iff.mp hq
  simp only [isOwned, Bool.and_eq_true, beq_iff_eq] at hown
  exact sameKey_iff.mpr ⟨ht, hd, hown.2⟩

/-- Where there is a management route, its key belongs to it alone. -/
theorem atPlace_of_sameKey {h : Underlay} (hsome : (pathAt h x).isSome)
    (hq : q ∈ (h.routes x.1).routes) (hkey : q.sameKey (managementRoute x.2.1 x.2.2 path) = true) :
    atPlace x q = true := by
  obtain ⟨path', hpath⟩ := Option.isSome_iff_exists.mp hsome
  obtain ⟨r, hr, ht, hd, hown, -⟩ := mem_owned_iff.mp hpath
  have hplace : atPlace x r = true := atPlace_iff.mpr ⟨ht, hd, hown⟩
  obtain ⟨hqt, hqd, hqm⟩ := sameKey_iff.mp hkey
  have hrkey : r.sameKey (managementRoute x.2.1 x.2.2 path) = true := sameKey_of_atPlace hplace
  obtain ⟨hrt, hrd, hrm⟩ := sameKey_iff.mp hrkey
  have hsame : q.sameKey r = true :=
    sameKey_iff.mpr ⟨hqt.trans hrt.symm, hqd.trans hrd.symm, hqm.trans hrm.symm⟩
  rw [Fib.eq_of_sameKey hq hr hsame]
  exact hplace

section
variable {e : Edit} {h h' : Underlay} {x : Place} {path : Option Path} {f : Family} {priority : Nat}
  {n : Network}

/-- An edit sets the routes of the family of its place, or the rules of one family. -/
theorem apply_cases (happly : e.apply h = some h') :
    (∃ x path fib, e.change = some (x, path) ∧ h' = h.setRoutes x.1 fib) ∨
      ∃ f db, e.change = none ∧ h' = h.setRules f db := by
  cases e with
  | addRule _ _ | deleteRule _ _ =>
    obtain ⟨db, -, rfl⟩ := Option.map_eq_some_iff.mp happly
    exact .inr ⟨_, db, rfl, rfl⟩
  | addRoute _ _ _ | deleteRoute _ _ =>
    obtain ⟨fib, -, rfl⟩ := Option.map_eq_some_iff.mp happly
    exact .inl ⟨_, _, fib, rfl, rfl⟩
  | replaceRoute _ _ _ =>
    cases happly
    exact .inl ⟨_, _, _, rfl, rfl⟩

/-- The fields that an edit does not touch. -/
theorem apply_frame (happly : e.apply h = some h') :
    h'.links = h.links ∧ h'.tables = h.tables ∧ h'.issued = h.issued := by
  obtain ⟨_, _, _, -, rfl⟩ | ⟨_, _, -, rfl⟩ := apply_cases happly <;> exact ⟨rfl, rfl, rfl⟩

/-- An edit of rules leaves the routes, and an edit of routes the rules. -/
theorem apply_routes (hchange : e.change = none) (happly : e.apply h = some h') :
    h'.routes = h.routes := by
  obtain ⟨_, _, _, hroute, -⟩ | ⟨_, _, -, rfl⟩ := apply_cases happly
  · cases hchange.symm.trans hroute
  · rfl

section
variable (hchange : e.change = some (x, path))
include hchange

theorem apply_rules (happly : e.apply h = some h') : h'.rules = h.rules := by
  obtain ⟨_, _, _, -, rfl⟩ | ⟨_, _, hrule, -⟩ := apply_cases happly
  · rfl
  · cases hchange.symm.trans hrule

/-- The routes of the other family stay. -/
theorem routes_of_ne (happly : e.apply h = some h') (hf : f ≠ x.1) : h'.routes f = h.routes f := by
  obtain ⟨_, _, _, hroute, rfl⟩ | ⟨_, _, hrule, -⟩ := apply_cases happly
  · cases hchange.symm.trans hroute
    exact Function.update_of_ne hf _ _
  · cases hchange.symm.trans hrule

/-- The routes of the family of an edit: all but the one at its place, and what it puts there. -/
theorem mem_routes_apply {q : Route} (hsound : e.Sound h)
    (happly : e.apply h = some h') :
    q ∈ (h'.routes x.1).routes ↔
      (∃ p, path = some p ∧ q = managementRoute x.2.1 x.2.2 p) ∨
        (q ∈ (h.routes x.1).routes ∧ atPlace x q = false) := by
  cases e with
  | addRule _ _ => cases hchange
  | deleteRule _ _ => cases hchange
  | addRoute table n p =>
    obtain ⟨fib, hadd, rfl⟩ := Option.map_eq_some_iff.mp happly
    cases hchange
    have hfree (hq : q ∈ (h.routes n.family).routes) :
        atPlace (n.family, table, n.bits) q = false := by
      by_contra hplace
      have := (Fib.add_routes hadd).1 q hq
      rw [sameKey_of_atPlace (x := (n.family, table, n.bits)) (by simpa using hplace)] at this
      cases this
    simp only [Underlay.setRoutes, Function.update_self, Fib.mem_add hadd, Option.some.injEq,
      exists_eq_left']
    exact or_congr_right ⟨fun hq => ⟨hq, hfree hq⟩, fun hq => hq.1⟩
  | replaceRoute table n p =>
    cases happly
    cases hchange
    simp only [Underlay.setRoutes, Function.update_self, Fib.mem_replace, Option.some.injEq,
      exists_eq_left']
    refine or_congr_right (and_congr_right fun hq => ?_)
    rw [← Bool.not_eq_true, ← Bool.not_eq_true]
    exact not_congr ⟨atPlace_of_sameKey (x := (n.family, table, n.bits)) hsound hq,
      sameKey_of_atPlace (x := (n.family, table, n.bits))⟩
  | deleteRoute table n =>
    obtain ⟨fib, hdel, rfl⟩ := Option.map_eq_some_iff.mp happly
    cases hchange
    simp [Underlay.setRoutes, Fib.mem_delete hdel, routeSpec_agrees]

/-- Routes of which none is at the place of the edit stay as they are, in their order. -/
theorem filter_routes_apply {p : Route → Bool}
    (hsound : e.Sound h) (happly : e.apply h = some h')
    (hp : f = x.1 → ∀ q, atPlace x q = true → p q = false) :
    (h'.routes f).routes.filter p = (h.routes f).routes.filter p := by
  by_cases hf : f = x.1
  · subst hf
    have hp := hp rfl
    cases e with
    | addRule _ _ => cases hchange
    | deleteRule _ _ => cases hchange
    | addRoute table n path =>
      obtain ⟨fib, hadd, rfl⟩ := Option.map_eq_some_iff.mp happly
      cases hchange
      simp only [Underlay.setRoutes, Function.update_self]
      exact Fib.filter_add hadd (hp _ (atPlace_managementRoute (n.family, table, n.bits) path))
    | replaceRoute table n path =>
      cases happly
      cases hchange
      simp only [Underlay.setRoutes, Function.update_self]
      refine Fib.filter_replace (hp _ (atPlace_managementRoute (n.family, table, n.bits) path)) ?_
      exact fun q hq hkey =>
        hp q (atPlace_of_sameKey (x := (n.family, table, n.bits)) hsound hq hkey)
    | deleteRoute table n =>
      obtain ⟨fib, hdel, rfl⟩ := Option.map_eq_some_iff.mp happly
      cases hchange
      simp only [Underlay.setRoutes, Function.update_self]
      exact Fib.filter_delete hdel fun q hq => hp q (by rwa [routeSpec_agrees] at hq)
  · rw [routes_of_ne hchange happly hf]

end

/-- On the paths an edit is the update of a map. -/
theorem pathAt_apply (hsound : e.Sound h) (happly : e.apply h = some h') :
    pathAt h' = e.update (pathAt h) := by
  unfold Edit.update
  cases hchange : e.change with
  | none =>
    have hroutes := apply_routes hchange happly
    funext x
    simp only [pathAt, hroutes]
  | some change =>
    obtain ⟨x, path⟩ := change
    funext y
    dsimp only
    by_cases hy : y = x
    · subst hy
      rw [Function.update_self]
      cases path with
      | some p =>
        refine mem_owned_iff.mpr ⟨managementRoute y.2.1 y.2.2 p, ?_, rfl, rfl,
          isOwned_managementRoute _ _ _, routePath_managementRoute _ _ _⟩
        exact (mem_routes_apply hchange hsound happly).mpr (.inl ⟨p, rfl, rfl⟩)
      | none =>
        by_contra hsome
        obtain ⟨p, hp⟩ := Option.ne_none_iff_exists'.mp hsome
        obtain ⟨r, hr, ht, hd, hown, -⟩ := mem_owned_iff.mp hp
        rcases (mem_routes_apply hchange hsound happly).mp hr with ⟨_, hnone, -⟩ | ⟨-, hplace⟩
        · cases hnone
        · rw [atPlace_iff.mpr ⟨ht, hd, hown⟩] at hplace
          cases hplace
    · rw [Function.update_of_ne hy]
      have hfilter : (h'.routes y.1).routes.filter (atPlace y) =
          (h.routes y.1).routes.filter (atPlace y) := by
        refine filter_routes_apply hchange hsound happly fun hf q hq => ?_
        by_contra hplace
        obtain ⟨ht, hd, -⟩ := atPlace_iff.mp hq
        obtain ⟨ht', hd', -⟩ := atPlace_iff.mp (by simpa using hplace)
        exact hy (Prod.ext hf (Prod.ext (ht'.symm.trans ht) (hd'.symm.trans hd)))
      change ((h'.routes y.1).routes.find? (atPlace y)).map routePath =
        ((h.routes y.1).routes.find? (atPlace y)).map routePath
      rw [← List.head?_filter, ← List.head?_filter, hfilter]

/-! ## Rules after an edit -/

/-- The signature of the management rules. -/
def isSigned (r : Rule) : Bool :=
  r.protocol == ruleProtocol && r.table == mainTable && r.dst.any (· != [])

theorem isSigned_of_agrees {r : Rule} (h : (ruleSpec priority n).agrees r = true) :
    isSigned r = true ∧ r.priority = priority ∧ r.dst = some n.bits := by
  simp only [RuleSpec.agrees, ruleSpec, Option.all_some, Option.all_none, Bool.and_true,
    Bool.and_eq_true, beq_iff_eq] at h
  obtain ⟨⟨⟨hp, hd⟩, ht⟩, hproto⟩ := h
  refine ⟨?_, hp.symm, hd⟩
  simp [isSigned, ← ht, ← hproto, hd, n.proper]

/-- Rules without the signature stay as they are, in their order. -/
theorem filter_rules_apply {p : Rule → Bool} (happly : e.apply h = some h')
    (hp : ∀ r, isSigned r = true → p r = false) :
    (h'.rules f).rules.filter p = (h.rules f).rules.filter p := by
  cases e with
  | addRule priority n =>
    obtain ⟨db, hadd, rfl⟩ := Option.map_eq_some_iff.mp happly
    by_cases hf : f = n.family
    · subst hf
      simp only [Underlay.setRules, Function.update_self, (Rpdb.add_rules hadd).2]
      exact filter_insertRule_of_ne (hp _ (by simp [isSigned, managementRule, n.proper]))
    · simp only [Underlay.setRules, Function.update_of_ne hf]
  | deleteRule priority n =>
    obtain ⟨db, hdel, rfl⟩ := Option.map_eq_some_iff.mp happly
    by_cases hf : f = n.family
    · subst hf
      simp only [Underlay.setRules, Function.update_self, (Rpdb.delete_rules hdel).2]
      exact filter_eraseP (fun r hr => hp r (isSigned_of_agrees hr).1) _
    · simp only [Underlay.setRules, Function.update_of_ne hf]
  | addRoute _ _ _ => rw [apply_rules rfl happly]
  | replaceRoute _ _ _ => rw [apply_rules rfl happly]
  | deleteRoute _ _ => rw [apply_rules rfl happly]

end

/-! ## Steps -/

section
variable {A : Regime Reply Failure} {h : Underlay} {I : Underlay → Prop}

/-- A failure other than the last one of a reconciliation. -/
def Early (e : Failure) : Prop := e ≠ .code .destinationUnavailable

theorem early_system (e : Failure) : Early e.system := by
  cases e <;> simp [Early, Failure.system]

theorem early_edit (e : Edit) : Early (.code e.code) := by
  have hroute (table : Nat) :
      Early (.code (if table = mainTable then .routeApply else .providerRouteApply)) := by
    unfold Early
    split <;> decide
  have hrule : Early (.code .ruleApply) := by
    unfold Early
    decide
  cases e with
  | addRule _ _ => exact hrule
  | deleteRule _ _ => exact hrule
  | addRoute table _ _ => exact hroute table
  | replaceRoute table _ _ => exact hroute table
  | deleteRoute table _ => exact hroute table

/-- A reading gives what the underlay holds, or fails and leaves it alone. -/
theorem wp_json {α : Type} {f : Underlay → α} {c : Code} (hI : I h)
    (hc : c ≠ .destinationUnavailable) :
    wp A (json c f) (fun a t => t = h ∧ a = f h) (fun e t => I t ∧ Early e) I h := by
  refine wp_seq (R := fun answer t => t = h ∧ (answer = none ∨ answer = some (f h))) ?_ ?_
  · refine wp_handle (wp_prim (fun r _ => ?_) (fun _ e _ => ?_) fun _ _ => hI)
    · cases r.refused with
      | none => exact ⟨rfl, .inr rfl⟩
      | some _ => exact ⟨rfl, .inl rfl⟩
    · exact wp_raise ⟨hI, early_system e⟩
  · rintro answer m ⟨rfl, rfl | rfl⟩
    · exact wp_raise ⟨hI, by simpa [Early] using hc⟩
    · exact wp_pure ⟨rfl, rfl⟩

/-- The same for both families. -/
theorem wp_both {α : Type} {read : Family → Act α} {value : Family → α}
    (hread : ∀ f, wp A (read f) (fun a t => t = h ∧ a = value f) (fun e t => I t ∧ Early e) I h) :
    wp A (both read) (fun a t => t = h ∧ a = value) (fun e t => I t ∧ Early e) I h := by
  refine wp_seq_read (hread .v4) ?_
  refine wp_seq_read (hread .v6) ?_
  refine wp_pure ⟨rfl, ?_⟩
  funext f
  cases f <;> rfl

/-- A command that returns has taken effect. -/
theorem wp_mutate {e : Edit} (hI : ∀ took, I (e.issue took h)) :
    wp A (mutate e) (fun _ t => ∃ t', e.apply h = some t' ∧ t = { t' with issued := h.issued + 1 })
      (fun e t => I t ∧ Early e) I h := by
  refine wp_seq (R := fun ok t => I t ∧ (ok = true → ∃ t', e.apply h = some t' ∧
    t = { t' with issued := h.issued + 1 })) ?_ ?_
  · refine wp_handle (wp_prim (fun r _ => ?_) (fun k err _ => ?_) fun k _ => hI _)
    · cases r.refused with
      | none =>
        refine ⟨hI true, fun hok => ?_⟩
        obtain ⟨t', ht'⟩ := Option.isSome_iff_exists.mp hok
        exact ⟨t', ht', by simp [Edit.issue, ht']⟩
      | some took => exact ⟨hI took, nofun⟩
    · exact wp_raise ⟨hI _, early_system err⟩
  · rintro ok m ⟨hm, hok⟩
    exact wp_demand hok fun _ => ⟨hm, early_edit e⟩

end

end ExitLane.Management
