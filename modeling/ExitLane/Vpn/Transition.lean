import ExitLane.Vpn.Killswitch
import ExitLane.Vpn.Meaning

/-!
# What a call leaves in the table

A call that works on the table leaves the table that was there, the ruleset of its facts, or no
table. While the setting `provider_transition` holds every call but the two that end the transition
asks for the ruleset of a closed tunnel, so that the table stays as `arm_provider_transition` left
it.

`complete_provider_transition` changes the table first and the setting afterwards. If it fails in
between, the transition is still pending and the table is no longer the closed one.
-/

namespace ExitLane.Vpn

open Effect Egress Net Python IpAddress

/-! ## The ruleset of the current configuration -/

/-- What `nft` makes of `generate_ruleset`. -/
def Firewall.ruleset (f : Firewall) (facts : TunnelFacts) : Option Nft.Table :=
  match (validateConfiguration f.ingress f.allowlist).bind fun c =>
    (generateRuleset facts c.1 c.2).bind Nft.load with
  | some (.replace T) => some T
  | _ => none

/-- The installed table is the one that lets only the allowlist through. -/
def Firewall.Blocking (f : Firewall) : Prop :=
  ∃ T, f.table = some T ∧ f.ruleset .inTransition = some T

variable {f : Firewall} {facts : TunnelFacts}

theorem Firewall.exists_ruleset {T : Nft.Table}
    (h : f.ruleset facts = some T) : ∃ c text,
      validateConfiguration f.ingress f.allowlist = some c ∧
      generateRuleset facts c.1 c.2 = some text ∧ Nft.load text = some (.replace T) := by
  unfold Firewall.ruleset at h
  split at h
  · next T' hbind =>
    cases h
    obtain ⟨c, hc, hbind⟩ := Option.bind_eq_some_iff.mp hbind
    obtain ⟨text, htext, hload⟩ := Option.bind_eq_some_iff.mp hbind
    exact ⟨c, text, hc, htext, hload⟩
  · cases h

/-- The ruleset that is installed enforces what its facts say. -/
theorem Firewall.enforces {T : Nft.Table}
    (h : f.ruleset facts = some T) : Enforces facts f.ingress f.allowlist T := by
  obtain ⟨c, text, hc, htext, hload⟩ := Firewall.exists_ruleset h
  obtain ⟨_, heq, -, henforces, -⟩ := load_eq_some hc htext hload
  cases heq
  have henters (p : Nft.Packet) : Enters c.1 p ↔ Enters f.ingress p := by
    simp [Enters, validateConfiguration_fst hc]
  exact ⟨fun p hin => henforces.inside p ((henters p).mpr hin),
    fun p hout => henforces.outside p fun hin => hout ((henters p).mp hin),
    fun p => by rw [henforces.masquerades, henters]⟩

/-- The ruleset of the facts lets something out by the interface of a tunnel. -/
def TunnelFacts.opens (facts : TunnelFacts) : Bool :=
  facts.exit.isSome && (facts.supportsIpv4 || facts.supportsIpv6)

def isExit : Nft.Selector → Bool
  | .oif _ => true
  | _ => false

/-- Some rule of the chain is for one interface by which a packet leaves. -/
def chainNamesExit (c : Nft.Chain) : Bool := c.rules.any (·.selectors.any isExit)

def namesExit (T : Nft.Table) : Bool := T.chains.any chainNamesExit

theorem namesExit_rulesetTable (facts : TunnelFacts) (ingress : List Iface)
    (networks : List Network) : namesExit (rulesetTable facts ingress networks) = facts.opens := by
  have hif {c : Prop} [Decidable c] {r : Nft.Rule} {q : Nft.Rule → Bool} (hq : q r = false) :
      (if c then [] else [r]).any q = false := by
    split
    · rfl
    · rw [List.any_cons, hq, List.any_nil, Bool.or_false]
  have hb {b : Bool} {r : Nft.Rule} {q : Nft.Rule → Bool} (hq : q r = true) :
      (if b then [r] else []).any q = b := by
    cases b with
    | false => rfl
    | true => rw [if_pos rfl, List.any_cons, hq, Bool.true_or]
  have hforward (v4 v6 : List Network) : chainNamesExit (forwardChain facts v4 v6) =
      facts.opens := by
    change List.any (_ ++ _ ++ _ ++ _) _ = _
    rw [List.any_append, List.any_append, List.any_append, hif rfl, hif rfl]
    cases hx : facts.exit with
    | none =>
      rw [TunnelFacts.opens, hx]
      rfl
    | some x =>
      dsimp only
      rw [List.any_append, hb rfl, hb rfl, TunnelFacts.opens, hx]
      exact Bool.or_false _
  rw [namesExit, chains_rulesetTable, List.any_cons, hforward]
  cases hx : facts.exit with
  | none => exact Bool.or_false _
  | some x =>
    cases h4 : facts.supportsIpv4 with
    | false => exact Bool.or_false _
    | true =>
      rw [TunnelFacts.opens, hx, h4]
      rfl

theorem rulesetLines_of_not_opens (h : facts.opens = false)
    (ingress networks : List Text) :
    rulesetLines facts ingress networks = rulesetLines .inTransition ingress networks := by
  have hforward (v4 v6 : List Text) :
      forwardLines facts v4 v6 = forwardLines .inTransition v4 v6 := by
    rw [forwardLines, forwardLines]
    cases hx : facts.exit with
    | none => rfl
    | some x =>
      rw [TunnelFacts.opens, hx, Option.isSome_some, Bool.true_and, Bool.or_eq_false_iff] at h
      rw [h.1, h.2]
      rfl
  have hnat : natLines facts = natLines .inTransition := by
    rw [natLines]
    cases hx : facts.exit with
    | none => rfl
    | some x =>
      rw [TunnelFacts.opens, hx, Option.isSome_some, Bool.true_and, Bool.or_eq_false_iff] at h
      rw [h.1]
      rfl
  rw [rulesetLines, rulesetLines, hforward, hnat]

/-- The ruleset of the facts is the closed one if it opens nothing. -/
theorem Firewall.ruleset_inTransition_iff {T : Nft.Table}
    (h : f.ruleset facts = some T) : f.ruleset .inTransition = some T ↔ facts.opens = false := by
  obtain ⟨c, text, hc, htext, hload⟩ := Firewall.exists_ruleset h
  constructor
  · intro hclosed
    obtain ⟨c', text', hc', htext', hload'⟩ := Firewall.exists_ruleset hclosed
    obtain ⟨_, heq, -, -, nets, rfl, -⟩ := load_eq_some hc htext hload
    obtain ⟨_, heq', -, -, nets', rfl, -⟩ := load_eq_some hc' htext' hload'
    cases heq
    rw [← namesExit_rulesetTable facts c.1 nets, Nft.Script.replace.inj heq',
      namesExit_rulesetTable]
    rfl
  · intro hopens
    have htext' : generateRuleset .inTransition c.1 c.2 = some text := by
      unfold generateRuleset at htext ⊢
      split at htext
      · rw [← htext, rulesetLines_of_not_opens hopens]
        rfl
      · cases htext
    rw [Firewall.ruleset, hc, Option.bind_some, htext', Option.bind_some, hload]

/-- From a protected interface nothing but the allowlist gets through. -/
theorem Firewall.Blocking.passes_iff (h : f.Blocking) {p : Nft.Packet}
    (hin : Enters f.ingress p) :
    (∃ T, f.table = some T ∧ T.passes .forward p = true) ↔ Allowlisted f.allowlist p := by
  obtain ⟨T, htable, hT⟩ := h
  have hnone : ¬ Leaves .inTransition p := fun ⟨_, hx, _⟩ => by cases hx
  have hpasses := (Firewall.enforces hT).inside p hin
  simp only [hnone, false_and, or_false] at hpasses
  constructor
  · rintro ⟨T', hT', hpass⟩
    cases htable.symm.trans hT'
    exact hpasses.mp hpass
  · exact fun hallow => ⟨T, htable, hpasses.mpr hallow⟩

namespace Killswitch

variable {A : Regime Reply Raised} {f : Firewall} {facts : TunnelFacts} {g : Firewall}

/-- The table is the one of `f`, or the ruleset of the facts. -/
def Loaded (facts : TunnelFacts) (f g : Firewall) : Prop :=
  g = f ∨ ∃ T, f.ruleset facts = some T ∧ g = { f with table := some T }

/-- A command takes effect or does not. -/
theorem wp_command {change : Firewall → Firewall} :
    wpElse A (command change) (fun ok g => (ok = true → g = change f) ∧ (g = f ∨ g = change f))
      (fun g => g = f ∨ g = change f) f := by
  have hpart (k : Nat) : (if k = 0 then f else change f) = f ∨
      (if k = 0 then f else change f) = change f := by
    by_cases hk : k = 0
    · exact .inl (if_pos hk)
    · exact .inr (if_neg hk)
  refine wp_handle (wp_prim (fun r _ => ?_) (fun k _ _ => wp_raise (hpart k)) fun k _ => hpart k)
  cases hr : r.refused with
  | none => exact ⟨fun _ => rfl, .inr rfl⟩
  | some took =>
    cases took with
    | true => exact ⟨nofun, .inr rfl⟩
    | false => exact ⟨nofun, .inl rfl⟩

theorem wp_load {change : Firewall → Firewall} :
    wpElse A (load change) (fun _ g => g = change f) (fun g => g = f ∨ g = change f) f := by
  refine wp_seq wp_command ?_
  rintro ok g ⟨hok, hg⟩
  exact wp_demand hok fun _ => hg

theorem wp_snapshot :
    wpElse A snapshot (fun table g => g = f ∧ (table = none ∨ table = f.table))
      (fun g => g = f) f := by
  refine wp_handle (wp_prim (fun r _ => ⟨rfl, ?_⟩) (fun _ _ _ => wp_raise rfl) fun _ _ => rfl)
  by_cases hr : r.refused.isSome = true
  · exact .inl (if_pos hr)
  · exact .inr (if_neg hr)

theorem wp_installed :
    wpElse A installed (fun present g => g = f ∧ (present = true → f.table.isSome = true))
      (fun g => g = f) f := by
  refine wp_seq wp_snapshot ?_
  rintro table g ⟨rfl, htable⟩
  refine wp_pure ⟨rfl, fun hp => ?_⟩
  rcases htable with rfl | rfl
  · cases hp
  · exact hp

/-- A table that cannot be loaded gives way to the one before. -/
theorem wp_exchange {previous : Option Nft.Table} {script : Nft.Script}
    (hprevious : previous = none ∨ previous = f.table) :
    wpElse A (exchange previous script) (fun _ g => g = perform script f)
      (fun g => g = f ∨ g = perform script f) f := by
  -- Loading the table before leads back to the state before.
  have hback {T : Nft.Table} (hT : previous = some T) {g : Firewall}
      (hg : g = f ∨ g = perform script f) : ({ g with table := some T } : Firewall) = f := by
    have htable : f.table = some T := by
      rcases hprevious with h | h
      · cases h.symm.trans hT
      · exact h.symm.trans hT
    rcases hg with rfl | rfl
    · rw [← htable]
    · cases script <;> simp only [perform] <;> rw [← htable]
  refine wp_try wp_load fun e g hg => ?_
  cases e with
  | killswitch =>
    have hrollback :
        wpElse A (Proc.optionally previous fun T => load fun f => { f with table := some T })
        (fun _ g => g = f ∨ g = perform script f) (fun g => g = f ∨ g = perform script f) g := by
      refine wp_optionally (fun _ => hg) fun T hT => ?_
      exact wp_mono_else wp_load (fun _ g' hg' => .inl (hg'.trans (hback hT hg))) fun g' hg' =>
        hg'.elim (fun h => h ▸ hg) fun h => .inl (h.trans (hback hT hg))
    refine wp_seq (wp_try hrollback fun e g' hg' => ?_)
      fun _ g' hg' => wp_raise hg'
    cases e with
    | killswitch => exact wp_pure hg'
    | _ => exact wp_raise hg'
  | _ => exact wp_raise hg

/-- The text of a ruleset replaces the table. -/
theorem script_eq_replace {c : List Text × List Text} {text : Text}
    {script : Nft.Script} (hc : validateConfiguration f.ingress f.allowlist = some c)
    (htext : generateRuleset facts c.1 c.2 = some text) (hload : Nft.load text = some script) :
    ∃ T, script = .replace T ∧ f.ruleset facts = some T := by
  obtain ⟨T, rfl, -⟩ := load_eq_some hc htext hload
  refine ⟨T, rfl, ?_⟩
  rw [Firewall.ruleset, hc, Option.bind_some, htext, Option.bind_some, hload]

theorem wp_generateAndApply {c : List Text × List Text}
    (hc : validateConfiguration f.ingress f.allowlist = some c) :
    wpElse A (generateAndApply facts c)
      (fun _ g => ∃ T, f.ruleset facts = some T ∧ g = { f with table := some T })
      (Loaded facts f) f := by
  unfold generateAndApply
  split
  · next ruleset htext =>
    refine wp_seq (wp_else wp_snapshot fun _ => .inl) ?_
    rintro previous g ⟨rfl, hprevious⟩
    -- The check of the text changes nothing.
    have hcheck : wpElse A (load id) (fun _ h => h = g) (Loaded facts g) g :=
      wp_mono wp_load (fun _ _ => id) (fun _ _ h => .inl (h.elim id id)) fun _ h =>
        .inl (h.elim id id)
    split
    · exact wp_seq_eq hcheck fun _ => wp_raise (.inl rfl)
    · next script hload =>
      obtain ⟨T, rfl, hT⟩ := script_eq_replace hc htext hload
      refine wp_seq_eq hcheck fun _ => ?_
      exact wp_mono_else (wp_exchange hprevious) (fun _ _ h => ⟨T, hT, h⟩)
        fun _ h => h.imp id fun h => ⟨T, hT, h⟩
  · exact wp_raise (.inl rfl)

theorem wp_install :
    wpElse A (install facts)
      (fun _ g => ∃ T, f.ruleset facts = some T ∧ g = { f with table := some T })
      (Loaded facts f) f := by
  refine wp_seq (wp_else wp_configuration fun _ => .inl) ?_
  rintro c g ⟨rfl, hc⟩
  exact wp_generateAndApply hc

/-! ## The closed interval -/

/-- The settings that a ruleset depends on. -/
def SameConfiguration (f g : Firewall) : Prop :=
  g.ingress = f.ingress ∧ g.allowlist = f.allowlist

/-- A transition is pending and the table lets only the allowlist of `f` through. -/
structure Closed (f g : Firewall) : Prop where
  transition : g.transition = true
  blocking : g.Blocking
  config : SameConfiguration f g

theorem Closed.of_loaded (h : Closed f g) {g' : Firewall} (hl : Loaded .inTransition g g') :
    Closed f g' := by
  rcases hl with rfl | ⟨T, hT, rfl⟩
  · exact h
  · exact ⟨h.transition, ⟨T, rfl, hT⟩, h.config⟩

theorem Closed.self (h : Closed f g) : Closed g g := ⟨h.transition, h.blocking, rfl, rfl⟩

theorem closed_install : Preserves (Closed f) (install .inTransition) := fun _ _ hg =>
  wp_mono_else wp_install (fun _ _ ⟨T, hT, h⟩ => hg.of_loaded (.inr ⟨T, hT, h⟩))
    fun _ => hg.of_loaded

theorem closed_setting {α : Type} {A : Regime Reply Raised} {read : Firewall → α}
    (h : Closed f g) : wpElse A (setting read) (fun a g' => g' = g ∧ a = read g) (Closed f) g :=
  wp_else (wp_setting read) fun _ hg => hg ▸ h

theorem closed_reconcile (facts : TunnelFacts) : Preserves (Closed f) (reconcile facts) := by
  intro A g hg
  refine wp_seq_read (closed_setting hg) ?_
  rw [hg.transition, if_pos rfl]
  exact preserves_bind closed_install (fun _ => preserves_status _) A g hg

theorem closed_enable (facts : TunnelFacts) : Preserves (Closed f) (enable facts) := by
  intro A g hg
  refine wp_seq (wp_else wp_configuration fun _ h => h ▸ hg) ?_
  rintro c g ⟨rfl, hc⟩
  refine wp_seq_read (closed_setting hg) ?_
  simp only [hg.transition, if_true]
  refine wp_seq (wp_mono_else (wp_generateAndApply hc) (fun _ _ ⟨T, hT, h⟩ =>
    hg.of_loaded (.inr ⟨T, hT, h⟩)) fun _ => hg.of_loaded) fun _ g hg => ?_
  refine preserves_bind preserves_installed (fun _ => preserves_seq (preserves_demand _ _) <|
    preserves_seq (preserves_setSetting fun g hg => ?_) <|
      preserves_seq (preserves_setSetting fun _ => id) <| preserves_status _) A g hg
  exact ⟨hg.transition, hg.blocking, hg.config⟩

theorem closed_armProviderTransition : Preserves (Closed f) armProviderTransition :=
  preserves_seq (preserves_setSetting fun _ hg => ⟨rfl, hg.blocking, hg.config⟩) <|
    preserves_bind closed_install fun _ => preserves_bind preserves_installed fun _ =>
      preserves_seq (preserves_demand _ _) <| preserves_status _

/-- A transition that has been armed is closed, whatever was there before. -/
theorem wp_armProviderTransition :
    wpElse A armProviderTransition (fun _ => Closed f) (fun _ => True) f := by
  have hset : wpElse A (setSetting fun g => { g with transition := true })
      (fun _ g => g = { f with transition := true }) (fun _ => True) f :=
    wp_handle (wp_atomic rfl (fun _ _ _ => ⟨wp_raise trivial, wp_raise trivial⟩)
      fun _ _ => ⟨trivial, trivial⟩)
  refine wp_seq_eq hset fun _ => ?_
  refine wp_seq (wp_else wp_install fun _ _ => trivial) ?_
  rintro - g ⟨T, hT, rfl⟩
  have hclosed : Closed f { f with transition := true, table := some T } :=
    ⟨rfl, ⟨T, rfl, hT⟩, rfl, rfl⟩
  refine wp_else
    (preserves_bind preserves_installed (fun _ => preserves_seq (preserves_demand _ _) <|
    preserves_status _) A _ hclosed) fun _ _ => trivial

/-! ## Runs without faults -/

section
variable {c : List Text × List Text} {T : Nft.Table}

/-- The steps of a call that all go through. -/
def goes (n : Nat) : List (Signal Reply Raised) := List.replicate n (.go default)

theorem bind_ok {α β : Type} {p : Act α} {q : α → Act β} {f g : Firewall} {a : α}
    {ks rest : List (Signal Reply Raised)} (h : p f ks = (.ok a, g, rest)) :
    (p >>= q) f ks = q a g rest := by
  change Proc.bind p q f ks = _
  rw [Proc.bind, h]

theorem configuration_goes (hc : validateConfiguration f.ingress f.allowlist = some c)
    (ks : List (Signal Reply Raised)) : configuration f (.go default :: ks) = (.ok c, f, ks) := by
  unfold configuration
  refine (bind_ok (a := validateConfiguration f.ingress f.allowlist) rfl).trans ?_
  rw [hc]
  rfl

theorem generateAndApply_goes (hc : validateConfiguration f.ingress f.allowlist = some c)
    (hT : f.ruleset facts = some T) (ks : List (Signal Reply Raised)) :
    generateAndApply facts c f (goes 3 ++ ks) = (.ok (), { f with table := some T }, ks) := by
  obtain ⟨c', text, hc', htext, hload⟩ := Firewall.exists_ruleset hT
  cases hc.symm.trans hc'
  unfold generateAndApply
  rw [htext]
  change apply text f (goes 3 ++ ks) = _
  unfold apply
  refine (bind_ok rfl).trans ?_
  rw [hload]
  rfl

theorem status_goes (hc : validateConfiguration f.ingress f.allowlist = some c)
    (hT : f.table = some T) (ks : List (Signal Reply Raised)) :
    status facts f (goes 3 ++ ks) =
      (.ok (statusOf facts f.configured f.transition c true), f, ks) := by
  change (configuration >>= fun c => installed >>= fun present =>
    pure (statusOf facts f.configured f.transition c present) : Act _) f (goes 2 ++ ks) = _
  rw [show goes 2 ++ ks = .go default :: (goes 1 ++ ks) from rfl, bind_ok (configuration_goes hc _)]
  change (Outcome.ok (statusOf facts f.configured f.transition c f.table.isSome), f, ks) = _
  rw [hT]
  rfl

theorem install_goes (hT : f.ruleset facts = some T) (ks : List (Signal Reply Raised)) :
    install facts f (goes 4 ++ ks) = (.ok (), { f with table := some T }, ks) := by
  obtain ⟨c, text, hc, -⟩ := Firewall.exists_ruleset hT
  exact (bind_ok (configuration_goes hc (goes 3 ++ ks))).trans (generateAndApply_goes hc hT ks)

theorem reconcile_goes (hconfigured : f.configured = true) (htransition : f.transition = false)
    (hc : validateConfiguration f.ingress f.allowlist = some c)
    (hT : f.ruleset facts = some T) (ks : List (Signal Reply Raised)) :
    reconcile facts f (goes 10 ++ ks) =
      (.ok (statusOf facts true false c true), { f with table := some T }, ks) := by
  change (if f.transition then install .inTransition >>= fun _ => status .inTransition
    else setting (·.configured) >>= fun configured =>
      if configured then install facts >>= fun _ => stamp >>= fun _ => status facts
      else status facts : Act _) f (goes 9 ++ ks) = _
  rw [htransition, if_neg Bool.false_ne_true]
  change (if f.configured then install facts >>= fun _ => stamp >>= fun _ => status facts
    else status facts : Act _) f (goes 4 ++ (goes 4 ++ ks)) = _
  rw [hconfigured, if_pos rfl, bind_ok (install_goes hT _)]
  exact (status_goes (f := { f with table := some T }) hc rfl ks).trans (by
    rw [hconfigured, htransition])

theorem enable_goes (htransition : f.transition = false)
    (hc : validateConfiguration f.ingress f.allowlist = some c)
    (hT : f.ruleset facts = some T) (ks : List (Signal Reply Raised)) :
    enable facts f (goes 11 ++ ks) = (.ok (statusOf facts true false c true),
      { f with table := some T, configured := true }, ks) := by
  refine (bind_ok (configuration_goes hc (goes 10 ++ ks))).trans ?_
  change (generateAndApply (if f.transition then .inTransition else facts) c >>= fun _ =>
    installed >>= fun present => Proc.demand present .killswitch >>= fun _ =>
    setSetting (fun f => { f with configured := true }) >>= fun _ => stamp >>= fun _ =>
    status (if f.transition then .inTransition else facts) : Act _) f
      (goes 3 ++ (goes 6 ++ ks)) = _
  rw [htransition, if_neg Bool.false_ne_true, bind_ok (generateAndApply_goes hc hT _)]
  exact (status_goes (f := { f with table := some T, configured := true }) hc rfl ks).trans (by
    rw [htransition])

theorem armProviderTransition_goes
    (hc : validateConfiguration f.ingress f.allowlist = some c)
    (hT : f.ruleset .inTransition = some T) (ks : List (Signal Reply Raised)) :
    armProviderTransition f (goes 9 ++ ks) = (.ok (statusOf .inTransition f.configured true c true),
      { f with transition := true, table := some T }, ks) := by
  change (install .inTransition >>= fun _ => installed >>= fun present =>
    Proc.demand present .killswitch >>= fun _ => status .inTransition : Act _)
      { f with transition := true } (goes 4 ++ (goes 4 ++ ks)) = _
  rw [bind_ok (install_goes (f := { f with transition := true }) hT _)]
  exact status_goes (f := { f with transition := true, table := some T }) hc rfl ks

end

/-! ## The end of a transition -/

/-- The signal of a step; a script that has run out lets it go through. -/
def signal (ks : List (Signal Reply Raised)) (i : Nat) : Signal Reply Raised :=
  ks.getD i (.go default)

/-- The step neither raises nor is cut. -/
def goesOn : Signal Reply Raised → Bool
  | .go _ => true
  | _ => false

/-- The command reports success. -/
def passes : Signal Reply Raised → Bool
  | .go r => r.refused.isNone
  | _ => false

/-- The command takes effect, whatever it reports. -/
def acts : Signal Reply Raised → Bool
  | .go r => r.refused != some false
  | .fail k _ => k != 0
  | .crash k => k != 0

/-- The write of a setting stops before it takes effect. -/
def stops (k : Signal Reply Raised) : Bool := !goesOn k && !acts k

/-- The steps are: 0 the setting; with a killswitch that is configured 1 the configuration, 2
`nft list`, 3 the check of the ruleset, 4 its load and 5 the flag, or after a refusal the table that
was listed; otherwise 1 `nft list`, and 2 the removal of the table or, if none is listed, the
flag. -/
def EndsClosed (facts : TunnelFacts) (f : Firewall) (k : Nat → Signal Reply Raised) : Prop :=
  if goesOn (k 0) then
    if f.configured then
      if (f.ruleset facts).isSome && goesOn (k 1) && goesOn (k 2) && passes (k 3) then
        if passes (k 4) then facts.opens = false ∧ stops (k 5) = true
        else if goesOn (k 4) && passes (k 2) && f.table.isSome && acts (k 5) then f.Blocking
        else if acts (k 4) then facts.opens = false
        else f.Blocking
      else f.Blocking
    else f.Blocking ∧
      (goesOn (k 1) = true → if passes (k 1) then acts (k 2) = false else stops (k 2) = true)
  else f.Blocking

section
variable {α β : Type} {ks : List (Signal Reply Raised)} {q : α → Act β}
  {change : Firewall → Firewall}

theorem setting_goesOn {read : Firewall → α} (h : goesOn (signal ks 0) = true) :
    (setting read >>= q) f ks = q (read f) f ks.tail := by
  rcases ks with _ | ⟨_ | _ | _, ks⟩
  all_goals first | rfl | cases h

theorem setting_cut {read : Firewall → α} (h : goesOn (signal ks 0) = false) :
    ((setting read >>= q) f ks).2.1 = f := by
  rcases ks with _ | ⟨_ | _ | _, ks⟩
  all_goals first | rfl | cases h

theorem snapshot_goesOn {q : Option Nft.Table → Act β} (h : goesOn (signal ks 0) = true) :
    (snapshot >>= q) f ks = q (if passes (signal ks 0) then f.table else none) f ks.tail := by
  rcases ks with _ | ⟨⟨⟨_ | _, _, _⟩⟩ | _ | _, ks⟩
  all_goals first | rfl | cases h

theorem snapshot_cut {q : Option Nft.Table → Act β} (h : goesOn (signal ks 0) = false) :
    ((snapshot >>= q) f ks).2.1 = f := by
  rcases ks with _ | ⟨_ | _ | _, ks⟩
  all_goals first | rfl | cases h

theorem load_passes {q : Unit → Act β} (h : passes (signal ks 0) = true) :
    (load change >>= q) f ks = q () (change f) ks.tail := by
  rcases ks with _ | ⟨⟨⟨_ | _, _, _⟩⟩ | _ | _, ks⟩
  all_goals first | rfl | cases h

theorem load_stops {q : Unit → Act β} (h : passes (signal ks 0) = false) :
    ((load change >>= q) f ks).2.1 = if acts (signal ks 0) then change f else f := by
  rcases ks with _ | ⟨⟨⟨_ | _ | _, _, _⟩⟩ | ⟨_ | _, _⟩ | (_ | _), ks⟩
  all_goals first | rfl | cases h

theorem exchange_passes {q : Unit → Act β} {previous : Option Nft.Table} {script : Nft.Script}
    (h : passes (signal ks 0) = true) :
    (exchange previous script >>= q) f ks = q () (perform script f) ks.tail := by
  rcases ks with _ | ⟨⟨⟨_ | _, _, _⟩⟩ | _ | _, ks⟩
  all_goals first | rfl | cases h

/-- A load that stops for good, or after `nft` has refused it and the table from before is put
back. -/
theorem exchange_stops {q : Unit → Act β} {previous : Option Nft.Table} {script : Nft.Script}
    (h : passes (signal ks 0) = false) :
    ((exchange previous script >>= q) f ks).2.1 =
      if goesOn (signal ks 0) && previous.isSome && acts (signal ks 1) then
        { f with table := previous }
      else if acts (signal ks 0) then perform script f else f := by
  rcases ks with _ | ⟨⟨⟨_ | took, _, _⟩⟩ | ⟨_ | _, _ | _⟩ | (_ | _), ks⟩
  · cases h
  · cases h
  · cases previous with
    | none => cases took <;> rfl
    | some P =>
      rcases ks with _ | ⟨⟨⟨_ | _ | _, _, _⟩⟩ | ⟨_ | _, _ | _⟩ | (_ | _), ks⟩
      all_goals cases took <;> cases script <;> rfl
  all_goals rfl

end

theorem blocking_loaded {T : Nft.Table} (hT : f.ruleset facts = some T) :
    { f with table := some T }.Blocking ↔ facts.opens = false := by
  rw [← Firewall.ruleset_inTransition_iff hT]
  constructor
  · rintro ⟨T', htable, hT'⟩
    cases htable
    exact hT'
  · exact fun h => ⟨T, rfl, h⟩

/-- What follows the work on the table. -/
def finishTransition (facts : TunnelFacts) : Act KillswitchStatus := do
  setSetting fun f => { f with transition := false }
  stamp
  status facts

/-- The rest keeps the table, and clears the flag unless it stops right there. -/
theorem finishTransition_state (facts : TunnelFacts) (hflag : g.transition = true)
    (ks : List (Signal Reply Raised)) :
    (finishTransition facts g ks).2.1.table = g.table ∧
      SameConfiguration g (finishTransition facts g ks).2.1 ∧
      ((finishTransition facts g ks).2.1.transition = true ↔ stops (signal ks 0) = true) := by
  -- Once the flag is cleared nothing sets it again.
  have hrest : Preserves (fun h : Firewall =>
      h.transition = false ∧ h.table = g.table ∧ SameConfiguration g h)
      (stamp >>= fun _ => status facts) :=
    preserves_seq (preserves_setSetting fun _ => id) <| preserves_status _
  have hcleared (h : Firewall) (ks : List (Signal Reply Raised)) (hks : stops (signal ks 0) = false)
      (hh : h.transition = false ∧ h.table = g.table ∧ SameConfiguration g h) :
      h.table = g.table ∧ SameConfiguration g h ∧
      (h.transition = true ↔ stops (signal ks 0) = true) :=
    ⟨hh.2.1, hh.2.2, iff_of_false (by simp [hh.1]) (by simp [hks])⟩
  have hgo (rest : List (Signal Reply Raised)) :=
    (hrest Regime.any { g with transition := false } ⟨rfl, rfl, rfl, rfl⟩).always (any_script rest)
  match ks with
  | [] => exact hcleared _ _ rfl (hgo [])
  | .go r :: rest => exact hcleared _ _ rfl (hgo rest)
  | .fail 0 e :: rest => exact ⟨rfl, ⟨rfl, rfl⟩, iff_of_true hflag rfl⟩
  | .fail (k + 1) e :: rest => exact hcleared _ _ rfl ⟨rfl, rfl, rfl, rfl⟩
  | .crash 0 :: rest => exact ⟨rfl, ⟨rfl, rfl⟩, iff_of_true hflag rfl⟩
  | .crash (k + 1) :: rest => exact hcleared _ _ rfl ⟨rfl, rfl, rfl, rfl⟩

theorem blocking_congr {h : Firewall} (htable : h.table = g.table)
    (hconfig : SameConfiguration g h) : h.Blocking ↔ g.Blocking := by
  have hruleset : h.ruleset .inTransition = g.ruleset .inTransition := by
    rw [Firewall.ruleset, Firewall.ruleset, hconfig.1, hconfig.2]
  rw [Firewall.Blocking, Firewall.Blocking, htable, hruleset]

theorem acts_of_passes {k : Signal Reply Raised} (h : passes k = true) : acts k = true := by
  rcases k with ⟨_ | _, _, _⟩ | _ | _ <;> first | rfl | cases h

theorem signal_tail (ks : List (Signal Reply Raised)) (i : Nat) :
    signal ks.tail i = signal ks (i + 1) := by
  cases ks <;> rfl

/-- The transition is closed. -/
def Shut (g : Firewall) : Prop := g.transition = true ∧ g.Blocking

section
variable (hflag : f.transition = true) {T : Nft.Table} (ks : List (Signal Reply Raised))
include hflag

theorem shut_finish :
    Shut (finishTransition facts f ks).2.1 ↔ f.Blocking ∧ stops (signal ks 0) = true := by
  obtain ⟨htable, hconfig, hcleared⟩ := finishTransition_state facts hflag ks
  exact (and_congr hcleared (blocking_congr htable hconfig)).trans and_comm

theorem shut_remove :
    Shut ((remove >>= fun _ => finishTransition facts) f ks).2.1 ↔ f.Blocking ∧
      (goesOn (signal ks 0) = true →
        if passes (signal ks 0) then acts (signal ks 1) = false
        else stops (signal ks 1) = true) := by
  have hrun : (remove >>= fun _ => finishTransition facts) f ks =
      (snapshot >>= fun table => Proc.when table.isSome (load fun f => { f with table := none }) >>=
        fun _ => finishTransition facts) f ks := by
    unfold remove installed
    rw [Proc.bind_assoc, Proc.bind_assoc]
    rfl
  rw [hrun]
  cases hlist : goesOn (signal ks 0) with
  | false =>
    rw [snapshot_cut hlist]
    simp [Shut, hflag]
  | true =>
    rw [snapshot_goesOn hlist]
    cases hpass : passes (signal ks 0) with
    | false =>
      exact (shut_finish hflag ks.tail).trans (by simp [signal_tail])
    | true =>
      simp only [if_true, true_implies]
      cases htable : f.table with
      | none =>
        -- no table was the closed one
        have hopen : ¬f.Blocking := fun ⟨_, h, _⟩ => by simp [htable] at h
        exact iff_of_false (fun h => hopen ((shut_finish hflag ks.tail).mp h).1) fun h => hopen h.1
      | some T =>
        have hgone : ¬{ f with table := none }.Blocking := fun ⟨_, h, _⟩ => by cases h
        change Shut
          ((load (fun f => { f with table := none }) >>= fun _ => finishTransition facts) f
          ks.tail).2.1 ↔ _
        cases hdestroy : passes (signal ks.tail 0) with
        | true =>
          rw [load_passes hdestroy, ← signal_tail ks 0, acts_of_passes hdestroy]
          refine iff_of_false (fun h => hgone ?_) fun h => by cases h.2
          exact ((shut_finish (f := { f with table := none }) hflag _).mp h).1
        | false =>
          rw [load_stops hdestroy, ← signal_tail ks 0]
          cases acts (signal ks.tail 0) with
          | true => exact iff_of_false (fun h => hgone h.2) fun h => by cases h.2
          | false => simp [Shut, hflag]

/-- The load of a ruleset that was checked. -/
theorem shut_exchange (hT : f.ruleset facts = some T) (previous : Option Nft.Table)
    (hprevious : previous.isSome = true → previous = f.table) :
    Shut ((exchange previous (.replace T) >>= fun _ => finishTransition facts) f ks).2.1 ↔
      if passes (signal ks 0) then facts.opens = false ∧ stops (signal ks 1) = true
      else if goesOn (signal ks 0) && previous.isSome && acts (signal ks 1) then f.Blocking
      else if acts (signal ks 0) then facts.opens = false
      else f.Blocking := by
  cases hpass : passes (signal ks 0) with
  | true =>
    rw [exchange_passes hpass, if_pos rfl, ← signal_tail ks 0, ← blocking_loaded hT]
    exact shut_finish (f := { f with table := some T }) hflag ks.tail
  | false =>
    rw [exchange_stops hpass, if_neg Bool.false_ne_true]
    split
    · next hback =>
      simp only [Bool.and_eq_true] at hback
      rw [hprevious hback.1.2]
      exact and_iff_right hflag
    · split
      · exact (and_iff_right hflag).trans (blocking_loaded hT)
      · exact and_iff_right hflag

theorem shut_install (hT : f.ruleset facts = some T) :
    Shut ((install facts >>= fun _ => finishTransition facts) f ks).2.1 ↔
      if goesOn (signal ks 0) && goesOn (signal ks 1) && passes (signal ks 2) then
        if passes (signal ks 3) then facts.opens = false ∧ stops (signal ks 4) = true
        else if goesOn (signal ks 3) && passes (signal ks 1) && f.table.isSome &&
            acts (signal ks 4) then
          f.Blocking
        else if acts (signal ks 3) then facts.opens = false
        else f.Blocking
      else f.Blocking := by
  have hsame {g : Firewall} (hg : g = f) : Shut g ↔ f.Blocking := by
    rw [hg]
    exact and_iff_right hflag
  obtain ⟨c, text, hc, htext, hload⟩ := Firewall.exists_ruleset hT
  unfold install configuration
  rw [Proc.bind_assoc, Proc.bind_assoc]
  cases h0 : goesOn (signal ks 0) with
  | false => exact hsame (setting_cut h0)
  | true =>
    rw [setting_goesOn h0, hc]
    change Shut ((generateAndApply facts c >>= fun _ => finishTransition facts) f ks.tail).2.1 ↔ _
    unfold generateAndApply apply
    rw [htext, Proc.bind_assoc, ← signal_tail ks 0]
    cases h1 : goesOn (signal ks.tail 0) with
    | false => exact hsame (snapshot_cut h1)
    | true =>
      rw [snapshot_goesOn h1, hload]
      dsimp only
      rw [Proc.bind_assoc, ← signal_tail ks 1, ← signal_tail ks.tail 0]
      cases h2 : passes (signal ks.tail.tail 0) with
      | false =>
        refine hsame ((load_stops h2).trans ?_)
        split <;> rfl
      | true =>
        rw [load_passes h2]
        cases hlist : passes (signal ks.tail 0) with
        | false =>
          simpa [signal_tail] using shut_exchange hflag ks.tail.tail.tail hT none (by simp)
        | true =>
          simpa [signal_tail] using shut_exchange hflag ks.tail.tail.tail hT f.table fun _ => rfl

theorem shut_no_ruleset (hnone : f.ruleset facts = none) :
    Shut ((install facts >>= fun _ => finishTransition facts) f ks).2.1 ↔ f.Blocking := by
  have hrun :
      wpElse Regime.any (install facts >>= fun _ => finishTransition facts) (fun _ g => g = f)
      (fun g => g = f) f := by
    refine wp_seq (wp_else wp_install fun g hg => ?_) ?_
    · exact hg.resolve_right fun ⟨_, h, _⟩ => by simp [hnone] at h
    · rintro - g ⟨_, h, -⟩
      simp [hnone] at h
  rw [Shut, hrun.always (any_script ks)]
  exact and_iff_right hflag

end

/-- **A completion that fails.** It ends with the flag set and the blocking table exactly if what it
was given, and which of its steps go through, say so. -/
theorem completion_ends_closed_iff (facts : TunnelFacts) (f : Firewall)
    (ks : List (Signal Reply Raised)) (hflag : f.transition = true) :
    ((completeProviderTransition facts f ks).2.1.transition = true ∧
      (completeProviderTransition facts f ks).2.1.Blocking) ↔ EndsClosed facts f (signal ks) := by
  have hrun (g : Firewall) (hg : g.transition = true) :
      Shut ((converge facts >>= fun _ => finishTransition facts) g ks).2.1 ↔
        EndsClosed facts g (signal ks) := by
    unfold converge EndsClosed
    rw [Proc.bind_assoc]
    cases hread : goesOn (signal ks 0) with
    | false =>
      rw [setting_cut hread]
      exact and_iff_right hg
    | true =>
      rw [setting_goesOn hread]
      cases hconfigured : g.configured with
      | false => simpa [signal_tail] using shut_remove hg ks.tail
      | true =>
        cases hT : g.ruleset facts with
        | none => simpa using shut_no_ruleset hg ks.tail hT
        | some T => simpa [signal_tail] using shut_install hg ks.tail hT
  exact hrun { f with chronicle := .completed facts :: f.chronicle } hflag

/-- The ruleset of one protected interface and an empty allowlist. -/
theorem ruleset_plain (hwireguard : f.wireguard = "wg0".toList) (hrouted : f.routed = [])
    (hallow : f.allowlist = []) (hexit : facts.exit.all isInterface = true) :
    validateConfiguration f.ingress f.allowlist = some (["wg0".toList], []) ∧
      f.ruleset facts = some (rulesetTable facts ["wg0".toList] []) := by
  have hconfig : validateConfiguration f.ingress f.allowlist = some (["wg0".toList], []) := by
    rw [Firewall.ingress, hwireguard, hrouted, hallow]
    decide
  obtain ⟨text, htext⟩ : ∃ text, generateRuleset facts ["wg0".toList] [] = some text :=
    ⟨_, if_pos hexit⟩
  have hread : Nft.read text = some (.replace (rulesetTable facts ["wg0".toList] [])) :=
    read_ruleset htext (by simp) (by decide) (by simp) (by simp)
  have hload : Nft.load text = some (.replace (rulesetTable facts ["wg0".toList] [])) := by
    rw [Nft.load, hread]
    rfl
  obtain ⟨T, heq, hT⟩ := script_eq_replace hconfig htext hload
  cases heq
  exact ⟨hconfig, hT⟩

/-- A transition is pending on a host whose killswitch is not configured. -/
def pending : Firewall :=
  ⟨false, true, "wg0".toList, [], [], some (rulesetTable .inTransition ["wg0".toList] []), []⟩

theorem pending_blocking : pending.Blocking :=
  ⟨_, rfl, (ruleset_plain rfl rfl rfl (by decide)).2⟩

/-- Cut at its first step, the call leaves the transition closed. -/
theorem completion_cut_at_once :
    (completeProviderTransition .closed pending [.crash 0]).2.1.transition = true ∧
      (completeProviderTransition .closed pending [.crash 0]).2.1.Blocking :=
  (completion_ends_closed_iff .closed pending [.crash 0] rfl).mpr pending_blocking

/-- The table is removed, and then the flag cannot be written: the transition is pending without
any table. -/
theorem completion_leaves_no_table :
    pending.transition = true ∧ pending.Blocking ∧
    (completeProviderTransition .closed pending
      [.go default, .go default, .go default, .fail 0 .other]).1 = .raised .other ∧
    ¬ ((completeProviderTransition .closed pending
        [.go default, .go default, .go default, .fail 0 .other]).2.1.transition = true ∧
      (completeProviderTransition .closed pending
        [.go default, .go default, .go default, .fail 0 .other]).2.1.Blocking) := by
  refine ⟨rfl, pending_blocking, rfl, ?_⟩
  rintro ⟨-, T, htable, -⟩
  cases htable

end Killswitch

end ExitLane.Vpn
