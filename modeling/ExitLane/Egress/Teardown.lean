import ExitLane.Egress.Guard

/-!
# What a provider leaves behind on the host

`start` brings the rules of its ingress interfaces, the rule of its probes, a source guard, the
link and a default route over it; one that returns has brought them all. `stop_interface` and
`disarm` only take away. They trust the commands: a deletion that reports failure is taken for one
that found nothing, and a link that cannot be shown for one that is down.
-/

namespace ExitLane.Egress

open Effect Net Python

section
variable {b h h' : Host} {i : Iface} {f : Family} {ingress : List Iface} {A : Regime Reply Raised}
  {s : Host} {c : EgressConfig} {source : Bits}

/-! ## Taking away -/

/-- In `h'` there is of the provider at `i` no more than in `h`; its default route stays only
with its link. -/
structure Fewer (i : Iface) (h h' : Host) : Prop where
  link : h'.has i = true → h.has i = true
  rules : ∀ f, ∀ q ∈ (h'.rules f).rules, q ∈ (h.rules f).rules
  route : providerDefault i ∈ h'.routes .v4 →
    providerDefault i ∈ h.routes .v4 ∧ (h.has i = true → h'.has i = true)

/-- A command on rules and routes that adds none. -/
theorem fewer_of_links (hlinks : h'.links = h.links)
    (hrules : ∀ f, ∀ q ∈ (h'.rules f).rules, q ∈ (h.rules f).rules)
    (hroute : providerDefault i ∈ h'.routes .v4 → providerDefault i ∈ h.routes .v4) :
    Fewer i h h' := by
  have hhas : h'.has i = h.has i := by rw [Host.has, Host.has, hlinks]
  exact ⟨fun hi => hhas ▸ hi, hrules, fun hr => ⟨hroute hr, fun hi => hhas.trans hi⟩⟩

theorem fewer_deleteRule {d : RuleSpec} (hdel : h.deleteRule f d = some h') : Fewer i h h' := by
  refine fewer_of_links ?_ (fun g q hq => Host.mem_of_mem_deleteRule hdel hq) fun hr => ?_
  · obtain ⟨db, -, rfl⟩ := Option.map_eq_some_iff.mp hdel
    rfl
  · rwa [(Host.deleteRule_routes hdel).1] at hr

theorem fewer_replaceUnreachable (hrep : h.replaceRoute f unreachableDefault = some h') :
    Fewer i h h' := by
  refine fewer_of_links ?_ (fun g q hq => by rwa [Host.replaceRoute_rules hrep] at hq) fun hr => ?_
  · cases hrep
    rfl
  · rcases (Host.mem_replaceRoute hrep).mp hr with ⟨-, he⟩ | ⟨hold, -⟩
    · cases he
    · exact hold

theorem fewer_deleteRoute {d : RouteSpec} (hdel : h.deleteRoute f d = some h') : Fewer i h h' := by
  refine fewer_of_links ?_ (fun g q hq => by rwa [Host.deleteRoute_rules hdel] at hq)
    (Host.mem_of_mem_deleteRoute hdel)
  obtain ⟨routes, -, rfl⟩ := Option.map_eq_some_iff.mp hdel
  rfl

theorem has_removeLink : (h.removeLink i).has i = false := by
  simp [Host.has, Host.removeLink]

theorem fewer_wgDown (hdown : h.wgDown i = some h') : Fewer i h h' := by
  rw [Host.wgDown_eq hdown]
  refine ⟨fun hi => ?_, fun _ _ hq => hq, fun hr => ?_⟩
  · rw [has_removeLink] at hi
    cases hi
  · exact absurd rfl (Host.mem_removeLink.mp hr).2

theorem fewer_setConfig (j : Iface) (config : Option EgressConfig) :
    Fewer i h (h.setConfig j config) :=
  ⟨id, fun _ _ => id, fun hr => ⟨hr, id⟩⟩

/-- What the steps of a teardown keep. -/
def Closed (i : Iface) (I : Host → Prop) : Prop := ∀ h h', Fewer i h h' → I h → I h'

section
variable {I : Host → Prop} (hI : Closed i I)
include hI

theorem closed_deleteProviderDefault : Preserves I (deleteProviderDefault i) :=
  preserves_seq (preserves_command fun _ _ hs hdel => hI _ _ (fewer_deleteRoute hdel) hs) <|
    preserves_pure _

theorem closed_stopInterface : Preserves I (stopInterface i) := by
  refine preserves_seq (preserves_checkNames _) ?_
  refine preserves_bind (preserves_interfaceExists i) fun present => ?_
  refine preserves_seq (preserves_when present ?_) <| closed_deleteProviderDefault hI
  refine preserves_bind (preserves_command fun _ _ hs hdown => hI _ _ (fewer_wgDown hdown) hs) fun
    | true => preserves_pure _
    | false => preserves_bind (preserves_interfaceExists i) fun _ => preserves_demand _ _

theorem closed_setConfig (config : Option EgressConfig) :
    Preserves I (file fun h => h.setConfig i config) :=
  preserves_file fun _ hs => hI _ _ (fewer_setConfig i config) hs

theorem closed_removeConfig : Preserves I (removeConfig i) :=
  preserves_seq (preserves_checkNames _) <| closed_setConfig hI none

theorem closed_rollbackStart (previous : Option EgressConfig) :
    Preserves I (rollbackStart i previous) := by
  refine preserves_seq (preserves_handle (closed_stopInterface hI) fun _ => ?_) <|
    closed_setConfig hI previous
  exact preserves_seq (closed_setConfig hI previous) <| preserves_raise _

theorem closed_replaceUnreachable (f : Family) : Preserves I (replaceUnreachable f) :=
  preserves_run fun _ _ hs hrep => hI _ _ (fewer_replaceUnreachable hrep) hs

theorem closed_deleteRules (e : Expected) (f : Family) (attempts : Nat) :
    Preserves I (deleteRules e f attempts) := by
  induction attempts with
  | zero => exact preserves_raise _
  | succ n ih =>
    have hcommand : Preserves I (command (Host.deleteRule f e.spec)) :=
      preserves_command fun _ _ hs hdel => hI _ _ (fewer_deleteRule hdel) hs
    exact preserves_bind hcommand fun
      | true => ih
      | false => preserves_pure _

theorem closed_disarm (ingress : List Iface) : Preserves I (disarm ingress (some i)) := by
  refine preserves_seq (preserves_checkNames _) ?_
  refine preserves_seq (preserves_checkNames _) ?_
  refine preserves_seq (preserves_forM (fun f => ?_) _) ?_
  · exact preserves_seq (preserves_checkTableOwnership _ _ _) <|
      preserves_bind (preserves_json _) fun _ => preserves_demand _ _
  refine preserves_seq (preserves_forM (fun j => preserves_forM (fun f => ?_) _) _) ?_
  · exact closed_deleteRules hI _ f _
  refine preserves_seq (closed_deleteRules hI _ .v4 _) ?_
  exact preserves_seq (preserves_forM (closed_replaceUnreachable hI) _) <|
    closed_deleteProviderDefault hI

end

/-! ## Adding -/

/-- Since `b` no rule has come but those that a `disarm` names and source guards, and the default
route is there only as in `b` or with its link. -/
structure Added (b : Host) (ingress : List Iface) (i : Iface) (h : Host) : Prop where
  rules : ∀ f, ∀ q ∈ (h.rules f).rules, q ∈ (b.rules f).rules ∨ (∃ a, q = sourceRule a) ∨
    ∃ e ∈ removalRules ingress (some i) f, q = e.rule
  route : providerDefault i ∈ h.routes .v4 → providerDefault i ∈ b.routes .v4 ∨ h.has i = true

namespace Added

theorem refl : Added b ingress i b := ⟨fun _ _ hq => .inl hq, .inl⟩

theorem closed : Closed i (Added b ingress i) := by
  intro h h' hfew ha
  refine ⟨fun f q hq => ha.rules f q (hfew.rules f q hq), fun hr => ?_⟩
  obtain ⟨hold, hlink⟩ := hfew.route hr
  exact (ha.route hold).imp_right hlink

theorem addRule {r : Rule} (ha : Added b ingress i h) (hadd : h.addRule f r = some h')
    (hr : (∃ a, r = sourceRule a) ∨ ∃ e ∈ removalRules ingress (some i) f, r = e.rule) :
    Added b ingress i h' := by
  refine ⟨fun g q hq => ?_, fun hroute => ?_⟩
  · rcases (Host.mem_addRule hadd).mp hq with ⟨rfl, rfl⟩ | hold
    · exact .inr hr
    · exact ha.rules g q hold
  · obtain ⟨db, -, rfl⟩ := Option.map_eq_some_iff.mp hadd
    exact ha.route hroute

theorem wgUp (ha : Added b ingress i h) (hup : h.wgUp i = some h') :
    Added b ingress i h' ∧ h'.has i = true := by
  obtain ⟨hrules, hroutes, -⟩ := Host.wgUp_eq hup
  have hhas : h'.has i = true := by
    unfold Host.wgUp at hup
    split at hup
    · cases hup
    · split at hup
      · cases hup
      · cases hup
        simp [Host.has]
  exact ⟨⟨by simpa only [hrules] using ha.rules, fun _ => .inr hhas⟩, hhas⟩

theorem replaceProvider (ha : Added b ingress i h) (hhas : h.has i = true)
    (hrep : h.replaceRoute .v4 (providerDefault i) = some h') :
    Added b ingress i h' ∧ h'.has i = true := by
  have hhas' : h'.has i = true := by
    cases hrep
    exact hhas
  refine ⟨⟨?_, fun _ => .inr hhas'⟩, hhas'⟩
  simpa only [Host.replaceRoute_rules hrep] using ha.rules

end Added

theorem added_ensureRule {e : Expected} (he : e ∈ removalRules ingress (some i) f) :
    Preserves (Added b ingress i) (ensureRule e f) := by
  refine preserves_seq (preserves_demand _ _) ?_
  refine preserves_bind (preserves_json _) fun _ => preserves_when _ ?_
  exact preserves_run fun _ _ ha hadd => ha.addRule hadd (.inr ⟨e, he, rfl⟩)

theorem added_ensureSourceRule (a : Bits) : Preserves (Added b ingress i) (ensureSourceRule a) := by
  refine preserves_bind (preserves_json _) fun _ => ?_
  refine preserves_seq (preserves_demand _ _) ?_
  refine preserves_seq (preserves_when _ ?_) ?_
  · exact preserves_run fun _ _ ha hadd => ha.addRule hadd (.inl ⟨a, rfl⟩)
  · exact preserves_bind (preserves_json _) fun _ =>
      preserves_seq (preserves_demand _ _) <| preserves_demand _ _

theorem added_applyGuard {names : List Iface} (hnames : names ⊆ ingress) (source : Option Bits) :
    Preserves (Added b ingress i) (applyGuard names (some i) source) := by
  refine preserves_seq (preserves_forM (closed_replaceUnreachable Added.closed) _) ?_
  refine preserves_seq (preserves_optionally _ added_ensureSourceRule) ?_
  refine preserves_seq (preserves_forM_mem fun j hj => preserves_forM (fun f => ?_) _) ?_
  · exact added_ensureRule (List.mem_append_left _ (List.mem_map_of_mem (hnames hj)))
  · exact added_ensureRule (List.mem_append_right _ List.mem_cons_self)

theorem added_startBody {c : EgressConfig} {names : List Iface} (hnames : names ⊆ ingress)
    (source : Bits) : Preserves (Added b ingress c.interface) (startBody c names source) := by
  refine preserves_seq (added_applyGuard hnames _) ?_
  refine preserves_seq (closed_stopInterface Added.closed) ?_
  refine preserves_bind (closed_setConfig Added.closed _) fun _ A s hs => ?_
  -- the default route comes once the link is up
  refine wp_seq (R := fun _ t => Added b ingress c.interface t ∧ t.has c.interface = true) ?_ ?_
  · exact wp_post (wp_run hs fun _ hup => (hs.wgUp hup).1) fun _ _ hup => hs.wgUp hup
  intro _ t ht
  have hrest : Preserves (fun t => Added b ingress c.interface t ∧ t.has c.interface = true)
      (run (Host.replaceRoute .v4 (providerDefault c.interface)) >>= fun _ =>
        verifyRoute c.interface names) :=
    preserves_seq (preserves_run fun _ _ h hrep => h.1.replaceProvider h.2 hrep) <|
      preserves_verifyRoute _ _
  exact wp_mono_else (hrest A t ht) (fun _ _ h => h.1) fun _ h => h.1

theorem added_startHandler (previous : Option EgressConfig) (e : Raised) :
    Preserves (Added b ingress i) (startHandler i previous e) := by
  have hrollback (e' : Raised) : Preserves (Added b ingress i)
      (rollbackStart i previous >>= fun _ => .raise e' : Act Unit) :=
    preserves_seq (closed_rollbackStart Added.closed previous) <| preserves_raise _
  unfold startHandler
  split
  · exact hrollback _
  · exact hrollback _
  · exact hrollback _
  · exact preserves_raise _

theorem added_start (w : Platform) (c : EgressConfig) :
    Preserves (Added b ingress c.interface) (start w c ingress) := by
  intro A s hs
  refine wp_seq (wp_validated hs w c) ?_
  rintro c m ⟨rfl, rfl, -⟩
  have hnames : ingress.eraseDups ⊆ ingress := fun _ hj => List.mem_eraseDups.mp hj
  refine preserves_bind (preserves_checkNames _) (fun _ => ?_) A m hs
  refine preserves_seq (preserves_demand _ _) ?_
  refine preserves_seq (preserves_checkNames _) ?_
  refine preserves_bind (preserves_sourceAddress _) fun source => ?_
  refine preserves_seq (preserves_preflight _ _ _ _) ?_
  refine preserves_bind (preserves_json _) fun previous => ?_
  exact preserves_handle (added_startBody hnames source) (added_startHandler previous)

/-! ## A clean host -/

/-- Of the provider at `i` nothing is there that was not there in `b`, its source guards apart. -/
structure Clean (b : Host) (i : Iface) (h : Host) : Prop where
  link : h.has i = true → b.has i = true
  route : providerDefault i ∈ h.routes .v4 → providerDefault i ∈ b.routes .v4
  probe : (probeRule i).rule ∈ (h.rules .v4).rules → (probeRule i).rule ∈ (b.rules .v4).rules
  ingress : ∀ f j, (ingressRule j).rule ∈ (h.rules f).rules →
    (ingressRule j).rule ∈ (b.rules f).rules

theorem Clean.refl : Clean b i b := ⟨id, id, id, fun _ _ => id⟩

theorem Clean.closed : Closed i (Clean b i) := fun _ _ hfew hc =>
  { link := fun h => hc.link (hfew.link h)
    route := fun h => hc.route (hfew.route h).1
    probe := fun h => hc.probe (hfew.rules _ _ h)
    ingress := fun f j h => hc.ingress f j (hfew.rules f _ h) }

/-- What has been added is gone once the link is down and the rules are deleted. -/
theorem Added.clean (ha : Added b ingress i h) (hlink : h.has i = false)
    (hrules : ∀ f, ∀ e ∈ removalRules ingress (some i) f, e.rule ∉ (h.rules f).rules) :
    Clean b i h := by
  have hold {f : Family} {q : Rule} (hq : q ∈ (h.rules f).rules) (hsource : ∀ a, q ≠ sourceRule a) :
      q ∈ (b.rules f).rules := by
    rcases ha.rules f q hq with hb | ⟨a, rfl⟩ | ⟨e, he, rfl⟩
    · exact hb
    · exact absurd rfl (hsource a)
    · exact absurd hq (hrules f e he)
  refine ⟨fun hi => ?_, fun hr => ?_, fun hq => hold hq nofun, fun f j hq => hold hq nofun⟩
  · rw [hlink] at hi
    cases hi
  · refine (ha.route hr).resolve_right fun hi => ?_
    rw [hlink] at hi
    cases hi

/-! ## A furnished host -/

/-- All that a start brings for the provider at `i` and these ingress interfaces. -/
structure Furnished (i : Iface) (ingress : List Iface) (h : Host) : Prop where
  link : h.has i = true
  route : providerDefault i ∈ h.routes .v4
  probe : (probeRule i).rule ∈ (h.rules .v4).rules
  ingress : ∀ j ∈ ingress, ∀ f, (ingressRule j).rule ∈ (h.rules f).rules

/-- Where everything is there, nothing is new exactly if everything was there before. -/
theorem Added.clean_iff (ha : Added b ingress i h) (hfull : Furnished i ingress h) :
    Clean b i h ↔ Furnished i ingress b := by
  refine ⟨fun hc => ⟨hc.link hfull.link, hc.route hfull.route, hc.probe hfull.probe,
    fun j hj f => hc.ingress f j (hfull.ingress j hj f)⟩, fun hb => ?_⟩
  refine ⟨fun _ => hb.link, fun _ => hb.route, fun _ => hb.probe, fun f j hq => ?_⟩
  rcases ha.rules f _ hq with hold | ⟨a, hsource⟩ | ⟨e, he, hrule⟩
  · exact hold
  · cases hsource
  · rcases List.mem_append.mp he with he | he
    · obtain ⟨j', hj', rfl⟩ := List.mem_map.mp he
      rw [hrule]
      exact hb.ingress j' hj' f
    · split at he
      · cases List.mem_singleton.mp he
        cases hrule
      · cases he

/-- The last steps of a start bring the link and the route. -/
theorem wp_startBody_up : wpElse A (startBody c ingress source)
    (fun _ t => t.has c.interface = true ∧ providerDefault c.interface ∈ t.routes .v4)
    (fun _ => True) s := by
  have hany {α : Type} {p : Act α} (hp : Preserves (fun _ => True) p) (s : Host) :
      wpElse A p (fun _ _ => True) (fun _ => True) s := hp A s trivial
  have hclosed (i : Iface) : Closed i fun _ => True := fun _ _ _ _ => trivial
  refine wp_seq (hany (fun A s _ => ?_) s) fun _ s _ => ?_
  · exact wp_mono_else (added_applyGuard (i := c.interface) (List.Subset.refl _) _ A s .refl)
      (fun _ _ _ => trivial) fun _ _ => trivial
  refine wp_seq (hany (closed_stopInterface (hclosed _)) s) fun _ s _ => ?_
  refine wp_seq (hany (closed_setConfig (hclosed _) _) s) fun _ s _ => ?_
  refine wp_seq (wp_run trivial fun _ _ => trivial) fun _ t hup => ?_
  have hlink : t.has c.interface = true := ((.refl : Added s ingress _ s).wgUp hup).2
  refine wp_seq (wp_run trivial fun _ _ => trivial) fun _ u hrep => ?_
  have hroute : providerDefault c.interface ∈ u.routes .v4 :=
    (Host.mem_replaceRoute hrep).mpr (.inl ⟨rfl, rfl⟩)
  have hlink' : u.has c.interface = true := by
    cases hrep
    exact hlink
  exact wp_else (preserves_verifyRoute _ _ A u ⟨hlink', hroute⟩) fun _ _ => trivial

/-- A start that returns has furnished the host. -/
theorem furnished_start (w : Platform) (c : EgressConfig) :
    wpElse A (start w c ingress) (fun _ => Furnished c.interface ingress) (fun _ => True) s := by
  refine wp_seq (wp_validated trivial w c) ?_
  rintro c m ⟨rfl, rfl, -⟩
  refine wp_bind (wp_demand (fun _ => ?_) fun _ => trivial)
  refine wp_bind (wp_demand (fun _ => ?_) fun _ => trivial)
  refine wp_bind (wp_demand (fun _ => ?_) fun _ => trivial)
  refine wp_seq (wp_sourceAddress trivial c.address) ?_
  rintro source m ⟨rfl, rfl, hsource⟩
  refine wp_seq wp_preflight ?_
  rintro - m ⟨rfl, hg, -⟩
  refine wp_seq_read (wp_json trivial) ?_
  refine wp_try (wp_mono (wp_and (secures_startBody hsource List.mem_cons_self A [] [] m hg)
    wp_startBody_up) ?_ (fun _ _ h => h.1) fun _ _ => trivial) fun e m hm =>
      wp_mono_else (wp_startHandler _ _ e hm) (fun _ _ => False.elim) fun _ _ => trivial
  rintro - t ⟨hguard, hlink, hroute⟩
  refine ⟨hlink, hroute, hguard.rules (.v4, _) ?_, fun j hj f => hguard.rules (f, _) ?_⟩
  · exact List.mem_append_left _ (List.mem_append_left _ List.mem_cons_self)
  · refine List.mem_append_left _ (List.mem_append_right _ (List.mem_append_left _ ?_))
    refine List.mem_flatMap.mpr ⟨j, List.mem_eraseDups.mpr hj, ?_⟩
    cases f with
    | v4 => exact List.mem_cons_of_mem _ List.mem_cons_self
    | v6 => exact List.mem_cons_self

end

end ExitLane.Egress
