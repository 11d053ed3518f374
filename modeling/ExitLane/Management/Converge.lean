import ExitLane.Management.Follow
import ExitLane.Python.Text
import Mathlib.Data.List.Count

/-!
# Convergence

A reconciliation that returns has put the management rules and routes in the desired state,
has left every other rule and route alone, and has nothing left to do: what the plan is made
of has not changed, and the plan of the state it has reached is empty.
-/

namespace ExitLane.Management

open Effect Net

variable {config : Config} {transition : Bool} {h t : Underlay} {α : Type} {x : Place} {path : Path}
  {e : Edit} {n : Network} {table : Nat}

/-! ## Dictionaries -/

theorem mem_of_mem_lastWins {β : Type} [DecidableEq α] {l : List (α × β)} {x : α × β}
    (hx : x ∈ lastWins l) : x ∈ l := by
  induction l with
  | nil => cases hx
  | cons y rest ih =>
    unfold lastWins at hx
    split at hx
    · exact List.mem_cons_of_mem _ (ih hx)
    · rcases List.mem_cons.mp hx with rfl | hx
      · exact List.mem_cons_self
      · exact List.mem_cons_of_mem _ (ih hx)

/-- A dictionary has one value for a key. -/
theorem lastWins_functional {β : Type} [DecidableEq α] {l : List (α × β)} {a : α} {b b' : β}
    (hb : (a, b) ∈ lastWins l) (hb' : (a, b') ∈ lastWins l) : b = b' := by
  induction l with
  | nil => cases hb
  | cons y rest ih =>
    unfold lastWins at hb hb'
    split at hb
    · next hlater =>
      rw [if_pos hlater] at hb'
      exact ih hb hb'
    · next hlast =>
      rw [if_neg hlast] at hb'
      -- The key of `y` does not occur in the rest.
      have hfresh (c : β) : (y.1, c) ∉ lastWins rest := fun hc =>
        hlast (List.any_eq_true.mpr ⟨(y.1, c), mem_of_mem_lastWins hc, by simp⟩)
      rcases List.mem_cons.mp hb with rfl | hrest
      · rcases List.mem_cons.mp hb' with heq | hrest'
        · cases heq
          rfl
        · exact absurd hrest' (hfresh b')
      · rcases List.mem_cons.mp hb' with rfl | hrest'
        · exact absurd hrest (hfresh b)
        · exact ih hrest hrest'

/-! ## What the plan is made of -/

section
variable {edits : List Edit}

section
variable (hran : Ran h edits t)
include hran

/-- The routes that a plan reads: those of other protocols and the default routes. -/
theorem filter_read (f : Family) :
    (routesOf t f).filter (fun r => r.protocol != ruleProtocol || r.dst == []) =
      (routesOf h f).filter fun r => r.protocol != ruleProtocol || r.dst == [] := by
  refine hran.filter_routes fun e _ x path hchange _ q hq => ?_
  obtain ⟨-, hdst, hown⟩ := atPlace_iff.mp hq
  have hproto : q.protocol = ruleProtocol := by
    simp only [isOwned, Bool.and_eq_true, beq_iff_eq] at hown
    exact hown.1
  simpa [hproto, hdst] using proper_of_change hchange

/-- A reading that sees such routes of the main table only. -/
theorem filter_main_eq (f : Family) {p : Route → Bool}
    (hp : ∀ r, p r = true → r.protocol ≠ ruleProtocol ∨ r.dst = []) :
    (mainRoutesOf f t).filter p = (mainRoutesOf f h).filter p := by
  have hread (s : Underlay) : (mainRoutesOf f s).filter p =
      ((routesOf s f).filter fun r => r.protocol != ruleProtocol || r.dst == []).filter fun r =>
        p r && r.table == mainTable := by
    rw [mainRoutesOf, List.filter_filter, List.filter_filter]
    refine List.filter_congr fun r _ => ?_
    cases hr : p r with
    | false => simp
    | true => rcases hp r hr with hproto | hdst <;> simp [*]
  rw [hread, hread, filter_read hran]

theorem configuredPath_eq (n : Network) :
    configuredPath (mainRoutesOf n.family t) n = configuredPath (mainRoutesOf n.family h) n := by
  unfold configuredPath
  rw [filter_main_eq hran, ← List.head?_filter, ← List.head?_filter, filter_main_eq hran]
  · intro r hr
    simp only [Bool.and_eq_true, beq_iff_eq] at hr
    exact .inr hr.1
  · intro r hr
    simp only [Bool.and_eq_true, bne_iff_ne] at hr
    exact .inl hr.1.1

theorem devicesOf_eq : devicesOf t = devicesOf h := by
  have hrules (f : Family) : providerTables (rulesOf t f) = providerTables (rulesOf h f) := by
    unfold providerTables
    rw [hran.filter_rules fun r hr => ?_]
    simp only [isSigned, Bool.and_eq_true, beq_iff_eq] at hr
    simp [isStandard, hr.1.2]
  have hdevices (f : Family) : devicesIn t f = devicesIn h f := by
    have hroutes (tables : List Nat) (routes : List Route) : defaultDevices tables routes =
        ((routes.filter (·.dst == [])).filter fun r => tables.contains r.table).filterMap
          (·.dev) := by
      rw [defaultDevices, List.filter_filter]
    unfold devicesIn
    rw [hrules, hroutes, hroutes, filter_default hran]
  rw [devicesOf, devicesOf, hdevices, hdevices]

theorem destinationPath_eq (d : Destination) :
    destinationPath (mainRoutesOf · t) (devicesOf t) d =
      destinationPath (mainRoutesOf · h) (devicesOf h) d := by
  unfold destinationPath
  rw [devicesOf_eq hran, filter_main_eq hran]
  intro r hr
  simp only [Bool.and_eq_true, bne_iff_ne] at hr
  exact .inl hr.1.1.2

theorem availableOf_eq : availableOf config t = availableOf config h := by
  unfold availableOf availablePaths
  simp only [destinationPath_eq hran]

theorem closedOf_eq : closedOf config t = closedOf config h := by
  unfold closedOf closedNetworks
  simp only [destinationPath_eq hran]

theorem mainPlan_eq (configured : List Network) :
    mainPlan (mainRoutesOf · t) configured = mainPlan (mainRoutesOf · h) configured := by
  unfold mainPlan
  simp only [configuredPath_eq hran]

theorem desiredMain_eq : desiredMain config t = desiredMain config h := by
  unfold desiredMain mainDesired
  rw [mainPlan_eq hran, closedOf_eq hran]

theorem networksOf_eq : networksOf config t = networksOf config h := by
  unfold networksOf
  rw [directOf_eq hran]

theorem pathsOf_eq : pathsOf config t = pathsOf config h := by
  unfold pathsOf expectedOf expectedPaths
  rw [mainPlan_eq hran, directOf_eq hran, availableOf_eq hran, closedOf_eq hran]

theorem discoveredOf_eq (f : Family) :
    discoveredOf transition t f = discoveredOf transition h f := by
  unfold discoveredOf discoveredTables providerTablesBefore
  rw [hran.filter_rules fun r hr => ?_]
  · simp only [funext (hasDefault_eq hran f)]
  · simp only [isSigned, Bool.and_eq_true, beq_iff_eq] at hr
    simp [isProviderTable, isStandard, hr.1.2]

/-- Without a transition the store is not read. -/
theorem targetsOf_eq (f : Family) : targetsOf false t f = targetsOf false h f := by
  unfold targetsOf
  rw [discoveredOf_eq hran]
  rfl

/-- The routes of others stay as they are. -/
theorem mem_foreign_iff {f : Family} {q : Route} : q ∈ routesOf t f ∧ isOwned q = false ↔
    q ∈ routesOf h f ∧ isOwned q = false := by
  have hfilter : (routesOf t f).filter (fun r => !isOwned r) =
      (routesOf h f).filter fun r => !isOwned r := by
    refine hran.filter_routes fun e _ x path hchange _ q hq => ?_
    simp [(atPlace_iff.mp hq).2.2]
  simpa using congrArg (q ∈ ·) hfilter

theorem isForeign_iff {table : Nat} {n : Network} {q : Route} :
    IsForeign t table n q ↔ IsForeign h table n q := by
  have hmem := mem_foreign_iff hran (f := n.family) (q := q)
  unfold IsForeign
  tauto

end

end

/-! ## Where the plan leads -/

/-- Edits that agree on a place decide what is there, unless it is there already. -/
theorem foldl_update {path : Option Path} {edits : List Edit} {m : Place → Option Path}
    (hsame : ∀ e ∈ edits, ∀ p, e.change = some (x, p) → p = path)
    (hput : (∃ e ∈ edits, e.change = some (x, path)) ∨ m x = path) :
    edits.foldl (fun m e => e.update m) m x = path := by
  induction edits generalizing m with
  | nil =>
    rcases hput with ⟨e, he, -⟩ | hm
    · cases he
    · exact hm
  | cons e edits ih =>
    refine ih (fun e' he' => hsame e' (List.mem_cons_of_mem _ he')) ?_
    cases hchange : e.change with
    | none =>
      rcases hput with ⟨e', he', hx⟩ | hm
      · rcases List.mem_cons.mp he' with rfl | he'
        · rw [hchange] at hx
          cases hx
        · exact .inl ⟨e', he', hx⟩
      · exact .inr (by simpa [Edit.update, hchange] using hm)
    | some change =>
      obtain ⟨y, p⟩ := change
      by_cases hy : y = x
      · subst hy
        refine .inr ?_
        simpa [Edit.update, hchange] using hsame e List.mem_cons_self p hchange
      · rcases hput with ⟨e', he', hx⟩ | hm
        · rcases List.mem_cons.mp he' with rfl | he'
          · rw [hchange] at hx
            cases hx
            exact absurd rfl hy
          · exact .inl ⟨e', he', hx⟩
        · exact .inr (by simpa [Edit.update, hchange, Function.update_of_ne (Ne.symm hy)] using hm)

/-- What is desired at a place is there once it has been put, if the edits put nothing else. -/
theorem Ran.pathAt_eq_some {edits : List Edit} (hran : Ran h edits t) {D : Path → Prop}
    (hfunctional : ∀ p q, D p → D q → p = q)
    (hputs : ∀ e ∈ edits, ∀ p, e.change = some (x, some p) → D p)
    (hdrops : ∀ e ∈ edits, e.change = some (x, none) → ∀ p, ¬D p) (hpath : D path)
    (hput : pathAt h x ≠ some path → ∃ e ∈ edits, e.change = some (x, some path)) :
    pathAt t x = some path := by
  rw [hran.pathAt_eq]
  refine foldl_update (fun e he v hchange => ?_) ?_
  · cases v with
    | none => exact absurd hpath (hdrops e he hchange path)
    | some q => rw [hfunctional q path (hputs e he q hchange) hpath]
  · by_cases hthere : pathAt h x = some path
    · exact .inr hthere
    · exact .inl (hput hthere)

/-- A place where the edits put what is desired, and nothing else, holds it in the end. -/
theorem Ran.pathAt_iff {edits : List Edit} (hran : Ran h edits t) {D : Path → Prop}
    (hfunctional : ∀ p q, D p → D q → p = q)
    (hputs : ∀ e ∈ edits, ∀ p, e.change = some (x, some p) → D p)
    (hdrops : ∀ e ∈ edits, e.change = some (x, none) → ∀ p, ¬D p)
    (hput : ∀ p, D p → pathAt h x ≠ some p → ∃ e ∈ edits, e.change = some (x, some p))
    (hdrop : (∀ p, ¬D p) → (pathAt h x).isSome → ∃ e ∈ edits, e.change = some (x, none)) :
    pathAt t x = some path ↔ D path := by
  by_cases hdesired : ∃ p, D p
  · obtain ⟨p, hp⟩ := hdesired
    rw [hran.pathAt_eq_some hfunctional hputs hdrops hp (hput p hp), Option.some.injEq]
    exact ⟨fun heq => heq ▸ hp, fun hq => hfunctional p path hp hq⟩
  · have hnone (p : Path) : ¬D p := fun hp => hdesired ⟨p, hp⟩
    have hfinal : pathAt t x = none := by
      rw [hran.pathAt_eq]
      refine foldl_update (fun e he v hchange => ?_) ?_
      · cases v with
        | none => rfl
        | some q => exact absurd (hputs e he q hchange) (hnone q)
      · cases hthere : pathAt h x with
        | none => exact .inr rfl
        | some q => exact .inl (hdrop hnone (by simp [hthere]))
    rw [hfinal]
    exact ⟨nofun, fun hp => absurd hp (hnone path)⟩

/-- The edits of the plan by their places. -/
theorem mem_plan_change {path : Option Path} (he : e ∈ plan config transition h)
    (hchange : e.change = some (x, path)) :
    (e ∈ planMain config h ∧ x.2.1 = mainTable) ∨
      (e ∈ planMirror config transition h ∧ isProviderTable x.2.1 = true) := by
  rw [plan_eq, List.mem_append, List.mem_append] at he
  rcases he with (he | he) | he
  · obtain ⟨n, path', hchange'⟩ := change_planMain he
    rw [hchange', Option.some.injEq, Prod.mk.injEq] at hchange
    exact .inl ⟨he, hchange.1 ▸ rfl⟩
  · obtain ⟨table, n, path', hchange', htable⟩ := change_planMirror he
    rw [hchange', Option.some.injEq, Prod.mk.injEq] at hchange
    exact .inr ⟨he, hchange.1 ▸ htable⟩
  · rw [change_planRules he] at hchange
    cases hchange

theorem network_ext {m : Network} (hf : n.family = m.family) (hb : n.bits = m.bits) : n = m := by
  cases n
  cases m
  cases hf
  cases hb
  rfl

theorem mem_plan_of_planMain (he : e ∈ planMain config h) : e ∈ plan config transition h := by
  rw [plan_eq, List.append_assoc]
  exact List.mem_append_left _ he

theorem mem_plan_of_planMirror (he : e ∈ planMirror config transition h) :
    e ∈ plan config transition h := by
  rw [plan_eq]
  exact List.mem_append_left _ (List.mem_append_right _ he)

theorem exists_put {D : List Edit} (hne : pathAt h (n.family, table, n.bits) ≠ some path)
    (hput : ∀ e, IsPut h table n path e → e ∈ D) :
    ∃ e ∈ D, e.change = some ((n.family, table, n.bits), some path) := by
  cases hold : pathAt h (n.family, table, n.bits) with
  | none => exact ⟨.addRoute table n path, hput _ ⟨hne, .inl ⟨rfl, hold⟩⟩, rfl⟩
  | some old => exact ⟨.replaceRoute table n path, hput _ ⟨hne, .inr ⟨rfl, by simp [hold]⟩⟩, rfl⟩

/-- An edit at a place of the main table puts what is desired there, or deletes what is not. -/
theorem desired_of_change {v : Option Path} (he : e ∈ plan config transition h)
    (hchange : e.change = some ((n.family, mainTable, n.bits), v)) :
    (∃ p, v = some p ∧ (n, p) ∈ desiredMain config h) ∨
      (v = none ∧ ∀ p, (n, p) ∉ desiredMain config h) := by
  rcases mem_plan_change he hchange with ⟨he, -⟩ | ⟨-, htable⟩
  · rcases List.mem_append.mp he with he | he
    · obtain ⟨m, p, hmem, hput⟩ := mem_planMainPuts.mp he
      rw [hput.change] at hchange
      simp only [Option.some.injEq, Prod.mk.injEq] at hchange
      obtain ⟨⟨hf, -, hb⟩, rfl⟩ := hchange
      exact .inl ⟨p, rfl, network_ext hf hb ▸ hmem⟩
    · obtain ⟨m, rfl, -, hnot⟩ := mem_planMainDrops.mp he
      simp only [Edit.change, Option.some.injEq, Prod.mk.injEq] at hchange
      obtain ⟨⟨hf, -, hb⟩, rfl⟩ := hchange
      exact .inr ⟨rfl, network_ext hf hb ▸ hnot⟩
  · exact absurd rfl (ne_main_of_isProviderTable htable)

theorem desired_of_put (he : e ∈ plan config transition h)
    (hchange : e.change = some ((n.family, mainTable, n.bits), some path)) :
    (n, path) ∈ desiredMain config h := by
  obtain ⟨p, hp, hmem⟩ | ⟨hnone, -⟩ := desired_of_change he hchange
  · cases hp
    exact hmem
  · cases hnone

theorem undesired_of_drop (he : e ∈ plan config transition h)
    (hchange : e.change = some ((n.family, mainTable, n.bits), none)) (path : Path) :
    (n, path) ∉ desiredMain config h := by
  obtain ⟨p, hp, -⟩ | ⟨-, hnot⟩ := desired_of_change he hchange
  · cases hp
  · exact hnot path

/-- The main table holds what is desired. -/
theorem pathAt_main (hran : Ran h (plan config transition h) t) :
    pathAt t (n.family, mainTable, n.bits) = some path ↔ (n, path) ∈ desiredMain config h := by
  refine hran.pathAt_iff (D := fun path => (n, path) ∈ desiredMain config h)
    (fun p q => lastWins_functional) (fun e he p => desired_of_put he)
    (fun e he => undesired_of_drop he) (fun p hp hne => ?_) fun hnone hsome => ?_
  · refine exists_put hne fun e hput => mem_plan_of_planMain (List.mem_append_left _ ?_)
    exact mem_planMainPuts.mpr ⟨n, p, hp, hput⟩
  · exact ⟨.deleteRoute mainTable n, mem_plan_of_planMain (List.mem_append_right _
      (mem_planMainDrops.mpr ⟨n, rfl, hsome, hnone⟩)), rfl⟩

/-- A mirrored route is wanted where no foreign route is there for the same network. -/
def Wanted (config : Config) (transition : Bool) (h : Underlay) (table : Nat) (n : Network)
    (path : Path) : Prop :=
  table ∈ targetsOf transition h n.family ∧ (n, path) ∈ pathsOf config h ∧
    ∀ q, ¬IsForeign h table n q

theorem wanted_iff :
    Wanted config transition h table n path ↔
      (table, n, path) ∈ placesOf config transition h ∧
        (mirrorOf h (table, n, path)).wanted = true := by
  rw [mem_placesOf, Wanted, and_assoc]
  refine and_congr_right fun htarget => and_congr_right fun _ => ?_
  rcases mirrorOf_cases h n path (isProviderTable_of_target htarget) with
    ⟨hforeign, ⟨hcase, -⟩ | hcase⟩ | ⟨hfree, ⟨hcase, -⟩ | ⟨e, hcase, -⟩⟩
  · simpa [hcase, Mirror.wanted] using hforeign
  · simpa [hcase, Mirror.wanted] using hforeign
  · simpa [hcase, Mirror.wanted] using hfree
  · simpa [hcase, Mirror.wanted] using hfree

theorem mem_planMirrorPuts_iff :
    e ∈ planMirrorPuts config transition h ↔
      ∃ table n path, Wanted config transition h table n path ∧ IsPut h table n path e := by
  rw [mem_planMirrorPuts]
  constructor
  · rintro ⟨⟨table, n, path⟩, hplace, hmirror⟩
    have htable := isProviderTable_of_target (mem_placesOf.mp hplace).1
    refine ⟨table, n, path, wanted_iff.mpr ⟨hplace, by simp [hmirror, Mirror.wanted]⟩, ?_⟩
    exact isPut_of_mirrorOf htable hmirror
  · rintro ⟨table, n, path, hwanted, hput⟩
    refine ⟨(table, n, path), (wanted_iff.mp hwanted).1, ?_⟩
    rcases mirrorOf_cases h n path (isProviderTable_of_target hwanted.1) with
      ⟨⟨q, hq⟩, -⟩ | ⟨-, ⟨-, hthere⟩ | ⟨e', hcase, hput'⟩⟩
    · exact absurd hq (hwanted.2.2 q)
    · exact absurd hthere hput.1
    · rw [hcase, hput.unique hput']

theorem mem_planMirrorDrops_iff :
    e ∈ planMirrorDrops config transition h ↔ ∃ table n, e = .deleteRoute table n ∧
      isProviderTable table = true ∧ (pathAt h (n.family, table, n.bits)).isSome ∧
      ∀ path, ¬Wanted config transition h table n path := by
  simp only [mem_planMirrorDrops, wanted_iff, not_and, Bool.not_eq_true]

/-- The same for the places of the provider tables. -/
theorem wanted_of_change {v : Option Path} (htable : isProviderTable table = true)
    (he : e ∈ plan config transition h) (hchange : e.change = some ((n.family, table, n.bits), v)) :
    (∃ p, v = some p ∧ Wanted config transition h table n p) ∨
      (v = none ∧ ∀ p, ¬Wanted config transition h table n p) := by
  rcases mem_plan_change he hchange with ⟨-, hmain⟩ | ⟨he, -⟩
  · exact absurd hmain (ne_main_of_isProviderTable htable)
  · rcases List.mem_append.mp he with he | he
    · obtain ⟨table', m, p, hwanted, hput⟩ := mem_planMirrorPuts_iff.mp he
      rw [hput.change] at hchange
      simp only [Option.some.injEq, Prod.mk.injEq] at hchange
      obtain ⟨⟨hf, rfl, hb⟩, rfl⟩ := hchange
      exact .inl ⟨p, rfl, network_ext hf hb ▸ hwanted⟩
    · obtain ⟨table', m, rfl, -, -, hnot⟩ := mem_planMirrorDrops_iff.mp he
      simp only [Edit.change, Option.some.injEq, Prod.mk.injEq] at hchange
      obtain ⟨⟨hf, rfl, hb⟩, rfl⟩ := hchange
      exact .inr ⟨rfl, network_ext hf hb ▸ hnot⟩

theorem wanted_of_put (htable : isProviderTable table = true) (he : e ∈ plan config transition h)
    (hchange : e.change = some ((n.family, table, n.bits), some path)) :
    Wanted config transition h table n path := by
  obtain ⟨p, hp, hwanted⟩ | ⟨hnone, -⟩ := wanted_of_change htable he hchange
  · cases hp
    exact hwanted
  · cases hnone

theorem unwanted_of_drop (htable : isProviderTable table = true) (he : e ∈ plan config transition h)
    (hchange : e.change = some ((n.family, table, n.bits), none)) (path : Path) :
    ¬Wanted config transition h table n path := by
  obtain ⟨p, hp, -⟩ | ⟨-, hnot⟩ := wanted_of_change htable he hchange
  · cases hp
  · exact hnot path

/-- A provider table holds what is wanted in it. -/
theorem pathAt_provider (hran : Ran h (plan config transition h) t)
    (htable : isProviderTable table = true) :
    pathAt t (n.family, table, n.bits) = some path ↔
      Wanted config transition h table n path := by
  refine hran.pathAt_iff (fun p q hp hq => lastWins_functional hp.2.1 hq.2.1)
    (fun e he p => wanted_of_put htable he) (fun e he => unwanted_of_drop htable he)
    (fun p hp hne => ?_) fun hnone hsome => ?_
  · refine exists_put hne fun e hput => mem_plan_of_planMirror (List.mem_append_left _ ?_)
    exact mem_planMirrorPuts_iff.mpr ⟨table, n, p, hp, hput⟩
  · exact ⟨.deleteRoute table n, mem_plan_of_planMirror (List.mem_append_right _
      (mem_planMirrorDrops_iff.mpr ⟨table, n, rfl, htable, hsome, hnone⟩)), rfl⟩

/-! ## Nothing left to do -/

theorem diff_eq_nil [BEq α] [LawfulBEq α] {l l' : List α} (hperm : l.Perm l') : l.diff l' = [] := by
  refine List.eq_nil_iff_forall_not_mem.mpr fun a ha => ?_
  have hpos := List.count_pos_iff.mpr ha
  rw [List.count_diff, hperm.count_eq] at hpos
  omega

/-- The plan at the end of a plan that has been carried out. -/
theorem plan_eq_nil (hran : Ran h (plan config false h) t)
    (hrules : (existingRules t).Perm (desiredRules config false h)) : plan config false t = [] := by
  have hmainPuts : planMainPuts config t = [] := by
    refine List.eq_nil_iff_forall_not_mem.mpr fun e he => ?_
    obtain ⟨n, path, hmem, hne, -⟩ := mem_planMainPuts.mp he
    exact hne ((pathAt_main hran).mpr (desiredMain_eq hran ▸ hmem))
  have hmainDrops : planMainDrops config t = [] := by
    refine List.eq_nil_iff_forall_not_mem.mpr fun e he => ?_
    obtain ⟨n, -, hsome, hnot⟩ := mem_planMainDrops.mp he
    obtain ⟨path, hpath⟩ := Option.isSome_iff_exists.mp hsome
    exact hnot path (desiredMain_eq hran ▸ (pathAt_main hran).mp hpath)
  have hwanted {table : Nat} {n : Network} {path : Path} :
      Wanted config false t table n path ↔ Wanted config false h table n path := by
    simp only [Wanted, targetsOf_eq hran, pathsOf_eq hran, isForeign_iff hran]
  have hmirrorPuts : planMirrorPuts config false t = [] := by
    refine List.eq_nil_iff_forall_not_mem.mpr fun e he => ?_
    obtain ⟨table, n, path, hw, hne, -⟩ := mem_planMirrorPuts_iff.mp he
    exact hne ((pathAt_provider hran (isProviderTable_of_target hw.1)).mpr (hwanted.mp hw))
  have hmirrorDrops : planMirrorDrops config false t = [] := by
    refine List.eq_nil_iff_forall_not_mem.mpr fun e he => ?_
    obtain ⟨table, n, -, htable, hsome, hnot⟩ := mem_planMirrorDrops_iff.mp he
    obtain ⟨path, hpath⟩ := Option.isSome_iff_exists.mp hsome
    exact hnot path (hwanted.mpr ((pathAt_provider hran htable).mp hpath))
  have hdesired : desiredRules config false t = desiredRules config false h := by
    rw [desiredRules, networksOf_eq hran]
    rfl
  have hadds : planRuleAdds config false t = [] := by
    rw [planRuleAdds, ruleAdds, hdesired, List.map_eq_nil_iff]
    exact diff_eq_nil hrules.symm
  have hdrops : planRuleDrops config false t = [] := by
    rw [planRuleDrops, ruleDrops, hdesired, diff_eq_nil hrules]
    rfl
  rw [plan, hmainPuts, hmainDrops, hmirrorPuts, hmirrorDrops, hadds, hdrops]
  rfl

/-- The routes that are ours: with the protocol and the metric, in a table that we write. -/
def isManaged (r : Route) : Bool :=
  isOwned r && r.dst != [] && (r.table == mainTable || isProviderTable r.table)

/-- What a plan leaves alone. -/
theorem plan_leaves (hran : Ran h (plan config transition h) t) (f : Family) :
    (rulesOf t f).filter (fun r => (ownedRule f r).isNone) =
        (rulesOf h f).filter (fun r => (ownedRule f r).isNone) ∧
      (routesOf t f).filter (fun r => !isManaged r) =
        (routesOf h f).filter fun r => !isManaged r := by
  constructor
  · refine hran.filter_rules (fun r hr => ?_) f
    simp only [isSigned, Bool.and_eq_true, Option.any_eq_true, bne_iff_ne] at hr
    obtain ⟨hboth, bits, hdst, hbits⟩ := hr
    simp [ownedRule, hdst, hbits, hboth]
  · refine hran.filter_routes fun e he x path hchange _ q hq => ?_
    obtain ⟨htable, hdst, hown⟩ := atPlace_iff.mp hq
    have hproper := proper_of_change hchange
    rcases mem_plan_change he hchange with ⟨-, hmain⟩ | ⟨-, hprovider⟩
    · simp [isManaged, hown, hdst, htable, hproper, hmain]
    · simp [isManaged, hown, hdst, htable, hproper, hprovider]

/-- A `reconcile` that returns: the management rules are the desired ones, once each; the management
routes of the main table are the desired ones, and those of the provider tables are the protected
paths of the current tables, where no foreign route is there for the same network; all other rules
and routes are as before; and another `reconcile` issues no command, however it ends. -/
theorem reconcile_converges (config : Config) (h : Underlay) (ks ks' : List (Signal Reply Failure))
    (result : Result) (hok : (reconcile config h ks).1 = .ok result) :
    let t := (reconcile config h ks).2.1
    ((existingRules t).Perm ((networksOf config h).map (priorityBase, ·)) ∧
      (existingRules t).Nodup) ∧
      (∀ n path, (n, path) ∈ existingMain t ↔ (n, path) ∈ desiredMain config h) ∧
      (∀ f table n path, ((table, n), path) ∈ ownedProviderRoutes f (routesOf t f) ↔
        n.family = f ∧ Wanted config false h table n path) ∧
      (∀ f, (rulesOf t f).filter (fun r => (ownedRule f r).isNone) =
          (rulesOf h f).filter (fun r => (ownedRule f r).isNone) ∧
        (routesOf t f).filter (fun r => !isManaged r) =
          (routesOf h f).filter fun r => !isManaged r) ∧
      (reconcile config t ks').2.1.issued = t.issued := by
  intro t
  have hrun := (wp_reconcileWith config false h).holds (any_script ks)
  change (reconcile config h ks).1.Holds _ _ _ _ at hrun
  rw [hok] at hrun
  obtain ⟨hcarried, -, -⟩ : Carried config false h t ∧ _ := hrun
  have hran := hcarried.done.ran
  have hperm : (existingRules t).Perm (desiredRules config false h) := hcarried.verified.rules
  have hnodup : (desiredRules config false h).Nodup :=
    (Python.nodup_eraseDups _).map fun a b heq => (Prod.mk.inj heq).2
  refine ⟨⟨hperm, hperm.nodup_iff.mpr hnodup⟩, fun n path => ?_, fun f table n path => ?_,
    plan_leaves hran, ?_⟩
  · rw [mem_existingMain, pathAt_main hran]
  · rw [mem_ownedProviderRoutes]
    refine and_congr_right fun _ => ?_
    constructor
    · exact fun ⟨htable, hpath⟩ => (pathAt_provider hran htable).mp hpath
    · intro hwanted
      have htable := isProviderTable_of_target hwanted.1
      exact ⟨htable, (pathAt_provider hran htable).mpr hwanted⟩
  · -- A run of an empty plan.
    obtain ⟨done, -, -, hlow, hhigh⟩ := follows_course config false t ks'
    have hnil : course config false t = [] := by
      rw [course, plan_eq_nil hran hperm, ite_self]
    rw [hnil, List.length_nil] at hhigh
    exact Nat.le_antisymm hhigh hlow

/-! ### A host with two provider tables -/

/-- An IPv4 address. -/
def address (a b c d : Nat) : Bits := ofNat 8 a ++ ofNat 8 b ++ ofNat 8 c ++ ofNat 8 d

/-- The network 192.168.1.0/24. -/
def lan : Network := ⟨.v4, (address 192 168 1 0).take 24, by decide⟩

theorem take_hostAddress : (address 192 168 1 2).take 24 ≠ [] := by decide

/-- A host on the network `lan`. One provider table is selected for marked packets, at priority 1,
another for everything, at priority 5000. -/
def twoProviders : Underlay where
  rules
    | .v4 => ⟨[⟨0, none, none, none, none, none, 255, .unset⟩,
        ⟨1, none, none, none, none, some 7, 100, .unset⟩,
        ⟨5000, none, none, none, none, none, 200, .unset⟩,
        ⟨32766, none, none, none, none, none, mainTable, .unset⟩], by simp [Ordered]⟩
    | .v6 => .empty
  routes
    | .v4 => ⟨[⟨mainTable, [], 0, .unicast, .gateway (address 192 168 1 1), some "eth0".toList,
          .name "dhcp".toList⟩,
        ⟨mainTable, lan.bits, 0, .unicast, .link, some "eth0".toList, .name "kernel".toList⟩,
        ⟨100, [], 0, .unicast, .link, some "tun0".toList, .unset⟩,
        ⟨200, [], 0, .unicast, .link, some "tun1".toList, .unset⟩], by decide⟩
    | .v6 => ⟨[], Fib.keys_nil⟩
  links := [⟨"eth0".toList, [⟨.v4, address 192 168 1 2, 24, true, take_hostAddress⟩]⟩]
  tables _ := []
  issued := 0

/-- On this host `reconcile` adds the rule and the two mirrored routes. -/
theorem reconcile_converges_twoProviders :
    (reconcile ⟨[], []⟩ twoProviders []).1 = .ok ⟨[lan], 3, 0⟩ ∧
      (reconcile ⟨[], []⟩ (reconcile ⟨[], []⟩ twoProviders []).2.1 []).2.1.issued =
        (reconcile ⟨[], []⟩ twoProviders []).2.1.issued :=
  ⟨by decide +kernel, (reconcile_converges ⟨[], []⟩ twoProviders [] [] ⟨[lan], 3, 0⟩
    (by decide +kernel)).2.2.2.2⟩

end ExitLane.Management
