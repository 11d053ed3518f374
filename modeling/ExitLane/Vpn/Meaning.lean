import ExitLane.Vpn.Ruleset

/-!
# What the ruleset of the killswitch lets through

The rules of the chain `forward` that accept stand first, so that a packet from a protected
interface passes if one of them fires and is dropped otherwise; a packet from another interface
meets no rule that drops. A scope in the allowlist stops the reading of the text at its percent
sign, and then there is no table at all.
-/

namespace ExitLane.Vpn

open Egress Net Python IpAddress Nft

/-- The address lies in the network. -/
def Covers : Network → Nft.Family → Nat → Prop
  | .v4 i, .v4, a => i.contains a = true
  | .v6 b k, .v6, a => a / 2 ^ (128 - k) = b.ip / 2 ^ (128 - k)
  | _, _, _ => False

/-- The packet enters on a protected interface. -/
def Enters (ingress : List Iface) (p : Nft.Packet) : Prop := ∃ i ∈ ingress, p.iif = some i

/-- The packet leaves by the interface of the protected tunnel. -/
def Leaves (facts : TunnelFacts) (p : Nft.Packet) : Prop :=
  ∃ x, facts.exit = some x ∧ p.oif = some x

/-- The destination lies in a network of the allowlist, which is of the family of the packet. -/
def Allowlisted (allowlist : List Text) (p : Nft.Packet) : Prop :=
  ∃ value ∈ allowlist, ∃ n, parseAnyNetwork value = some n ∧ Covers n p.family p.dst

/-- What the killswitch is for. -/
structure Enforces (facts : TunnelFacts) (ingress : List Iface) (allowlist : List Text)
    (T : Table) : Prop where
  inside : ∀ p, Enters ingress p → (T.passes .forward p = true ↔
    Allowlisted allowlist p ∨ Leaves facts p ∧ facts.supports p.family = true)
  outside : ∀ p, ¬ Enters ingress p → T.passes .forward p = true
  masquerades : ∀ p, T.masquerades p = true ↔
    facts.supportsIpv4 = true ∧ Enters ingress p ∧ Leaves facts p

/-! ## Selectors -/

section
variable (facts : TunnelFacts) (ingress : List Iface) (networks : List Network) (p : Nft.Packet)

theorem contains_ofNetwork {n : Network} (hvalid : n.Valid) (f : Nft.Family) (a : Nat) :
    (Prefix.ofNetwork n).contains f a = true ↔ Covers n f a := by
  cases n with
  | v4 i =>
    cases f with
    | v4 =>
      rw [Covers, Interface.contains, show i.ip = i.networkAddress from hvalid]
      simp [Prefix.contains, Prefix.ofNetwork, Family.width, Interface.size]
    | v6 => simp [Prefix.contains, Prefix.ofNetwork, Covers]
  | v6 b k =>
    cases f with
    | v4 => simp [Prefix.contains, Prefix.ofNetwork, Covers]
    | v6 => simp [Prefix.contains, Prefix.ofNetwork, Covers, Family.width]

theorem holds_ingress :
    (Selector.iifIn ingressSet).holds (rulesetTable facts ingress networks) p = true ↔
      Enters ingress p := by
  have helements : (rulesetTable facts ingress networks).elements ingressSet =
      some (.names ingress) := by
    simp [Table.elements, rulesetTable]
  rw [Selector.holds, helements]
  cases hi : p.iif with
  | none => simp [Enters, hi]
  | some i => simp [Enters, hi]

/-- The set of one family holds the networks of the list that are of this family. -/
private theorem holds_prefixes {T : Table} {set : Nft.Name} {f : Nft.Family} {nets : List Network}
    (hset : T.elements set = some (.prefixes (nets.map .ofNetwork)))
    (hvalid : ∀ n ∈ nets, n.Valid) :
    (Selector.daddrIn f set).holds T p = true ↔
      p.family = f ∧ ∃ n ∈ nets, Covers n p.family p.dst := by
  rw [Selector.holds, hset]
  simp only [Bool.and_eq_true, beq_iff_eq, List.any_map, List.any_eq_true, Function.comp_apply]
  refine and_congr_right fun _ => exists_congr fun n => and_congr_right fun hn => ?_
  exact contains_ofNetwork (hvalid n hn) _ _

variable {networks}

/-! ## The chain `forward` -/

/-- The rules that accept before anything is dropped. -/
def allowRules (facts : TunnelFacts) (networks : List Network) : List Nft.Rule :=
  (if networks.filter (fun n => !isV6 n) = [] then []
    else [⟨[.iifIn ingressSet, .daddrIn .v4 localV4], .verdict .accept⟩]) ++
  (if networks.filter isV6 = [] then []
    else [⟨[.iifIn ingressSet, .daddrIn .v6 localV6], .verdict .accept⟩]) ++
  (match facts.exit with
    | none => []
    | some x =>
      (if facts.supportsIpv4 then
        [⟨[.iifIn ingressSet, .nfproto .v4, .oif x], .verdict .accept⟩] else []) ++
      (if facts.supportsIpv6 then
        [⟨[.iifIn ingressSet, .nfproto .v6, .oif x], .verdict .accept⟩] else []))

/-- The rules for what is left. -/
def closingRules : List Nft.Rule :=
  [⟨[.iifIn ingressSet, .dport .udp 53], .verdict .drop⟩,
    ⟨[.iifIn ingressSet, .dport .tcp 53], .verdict .drop⟩,
    ⟨[.iifIn ingressSet], .verdict .drop⟩, ⟨[.established], .verdict .accept⟩]

theorem action_allowRules : ∀ r ∈ allowRules facts networks, r.action = .verdict .accept := by
  have hif {c : Prop} [Decidable c] {a b : List Nft.Rule} {r : Nft.Rule}
      (h : r ∈ if c then a else b) : r ∈ a ∨ r ∈ b := by
    split at h
    · exact .inl h
    · exact .inr h
  have hone {ss : List Selector} {r : Nft.Rule} (h : r ∈ [Nft.Rule.mk ss (.verdict .accept)]) :
      r.action = .verdict .accept := by rw [List.mem_singleton.mp h]
  intro r hr
  rw [allowRules, List.mem_append, List.mem_append] at hr
  rcases hr with (hr | hr) | hr
  · exact (hif hr).elim (fun h => by cases h) hone
  · exact (hif hr).elim (fun h => by cases h) hone
  · cases hx : facts.exit with
    | none =>
      rw [hx] at hr
      cases hr
    | some x =>
      rw [hx] at hr
      rcases List.mem_append.mp hr with hr | hr
      · exact (hif hr).elim hone fun h => by cases h
      · exact (hif hr).elim hone fun h => by cases h

section
variable {ingress p}

/-- A rule for packets from a protected interface fires if its other selectors hold. -/
private theorem fires_inside (hin : Enters ingress p) (ss : List Selector) (action : Action) :
    (Nft.Rule.mk (.iifIn ingressSet :: ss) action).fires (rulesetTable facts ingress networks) p =
      ss.all (·.holds (rulesetTable facts ingress networks) p) := by
  rw [Nft.Rule.fires, List.all_cons, (holds_ingress facts ingress networks p).mpr hin,
    Bool.true_and]

/-- The rule for the networks of one family, which stands if there are any. -/
private theorem fires_local {set : Nft.Name} {f : Nft.Family} {ofFamily : Network → Bool}
    (hvalid : ∀ n ∈ networks, n.Valid) (hin : Enters ingress p)
    (hset : networks.filter ofFamily ≠ [] → (rulesetTable facts ingress networks).elements set =
      some (.prefixes ((networks.filter ofFamily).map .ofNetwork)))
    (hfamily : ∀ n, Covers n f p.dst → ofFamily n = true) :
    (if networks.filter ofFamily = [] then []
      else [Nft.Rule.mk [.iifIn ingressSet, .daddrIn f set] (.verdict .accept)]).any
        (·.fires (rulesetTable facts ingress networks) p) = true ↔
      p.family = f ∧ ∃ n ∈ networks, Covers n p.family p.dst := by
  by_cases hne : networks.filter ofFamily = []
  · rw [if_pos hne]
    refine iff_of_false (by simp) ?_
    rintro ⟨rfl, n, hn, hcovers⟩
    exact List.filter_eq_nil_iff.mp hne n hn (hfamily n hcovers)
  · rw [if_neg hne, List.any_cons, List.any_nil, Bool.or_false, fires_inside facts hin,
      List.all_cons, List.all_nil, Bool.and_true,
      holds_prefixes p (hset hne) fun n hn => hvalid n (List.mem_filter.mp hn).1]
    refine and_congr_right fun hf => exists_congr fun n => ?_
    rw [List.mem_filter, and_assoc]
    refine and_congr_right fun _ => and_iff_right_of_imp fun hcovers => ?_
    exact hfamily n (hf ▸ hcovers)

theorem fires_localV4 (hvalid : ∀ n ∈ networks, n.Valid) (hin : Enters ingress p) :
    (if networks.filter (fun n => !isV6 n) = [] then []
      else [Nft.Rule.mk [.iifIn ingressSet, .daddrIn .v4 localV4] (.verdict .accept)]).any
        (·.fires (rulesetTable facts ingress networks) p) = true ↔
      p.family = .v4 ∧ ∃ n ∈ networks, Covers n p.family p.dst := by
  refine fires_local facts hvalid hin (fun hne => ?_) fun n hcovers => ?_
  · simp only [Table.elements, rulesetTable, if_neg hne]
    rfl
  · cases n <;> trivial

theorem fires_localV6 (hvalid : ∀ n ∈ networks, n.Valid) (hin : Enters ingress p) :
    (if networks.filter isV6 = [] then []
      else [Nft.Rule.mk [.iifIn ingressSet, .daddrIn .v6 localV6] (.verdict .accept)]).any
        (·.fires (rulesetTable facts ingress networks) p) = true ↔
      p.family = .v6 ∧ ∃ n ∈ networks, Covers n p.family p.dst := by
  refine fires_local facts hvalid hin (fun hne => ?_) fun n hcovers => ?_
  · simp only [Table.elements, rulesetTable, if_neg hne]
    split <;> rfl
  · cases n <;> trivial

theorem fires_exit (hin : Enters ingress p) :
    (match facts.exit with
      | none => []
      | some x =>
        (if facts.supportsIpv4 then
          [Nft.Rule.mk [.iifIn ingressSet, .nfproto .v4, .oif x] (.verdict .accept)] else []) ++
        (if facts.supportsIpv6 then
          [Nft.Rule.mk [.iifIn ingressSet, .nfproto .v6, .oif x] (.verdict .accept)] else [])).any
        (·.fires (rulesetTable facts ingress networks) p) = true ↔
      Leaves facts p ∧ facts.supports p.family = true := by
  cases hx : facts.exit with
  | none => simp [Leaves, hx]
  | some x =>
    have hif (b : Bool) (r : Nft.Rule) : (if b then [r] else []).any
        (·.fires (rulesetTable facts ingress networks) p) =
          (b && r.fires (rulesetTable facts ingress networks) p) := by
      cases b <;> simp
    have hleaves : Leaves facts p ↔ p.oif = some x := by simp [Leaves, hx]
    rw [List.any_append, hif, hif, fires_inside facts hin, fires_inside facts hin, hleaves]
    cases hf : p.family with
    | v4 => simp [Selector.holds, hf, TunnelFacts.supports, and_comm]
    | v6 => simp [Selector.holds, hf, TunnelFacts.supports, and_comm]

theorem fires_allowRules (hvalid : ∀ n ∈ networks, n.Valid) (hin : Enters ingress p) :
    (allowRules facts networks).any (·.fires (rulesetTable facts ingress networks) p) = true ↔
      (∃ n ∈ networks, Covers n p.family p.dst) ∨
        Leaves facts p ∧ facts.supports p.family = true := by
  rw [allowRules, List.any_append, List.any_append, Bool.or_eq_true, Bool.or_eq_true,
    fires_localV4 facts hvalid hin, fires_localV6 facts hvalid hin, fires_exit facts hin,
    ← or_and_right]
  cases p.family <;> simp

/-- From a protected interface what no rule accepts is dropped. -/
theorem accepts_closing_inside (c : Chain) (hin : Enters ingress p) :
    (c.withRules closingRules).accepts (rulesetTable facts ingress networks) p = false := by
  have hlast : [Selector.iifIn ingressSet].all
      (·.holds (rulesetTable facts ingress networks) p) = true := by
    rw [List.all_cons, (holds_ingress facts ingress networks p).mpr hin, List.all_nil,
      Bool.true_and]
  rw [closingRules, accepts_cons, accepts_cons, accepts_cons, if_pos hlast]
  -- Whichever of the three rules fires, it drops.
  split
  · rfl
  · split <;> rfl

/-- No rule that drops is for a packet from another interface. -/
theorem accepts_closing_outside {c : Chain} (hc : c.policy = .accept) (hout : ¬ Enters ingress p) :
    (c.withRules closingRules).accepts (rulesetTable facts ingress networks) p = true := by
  have hnot (ss : List Selector) : ¬ (Selector.iifIn ingressSet :: ss).all
      (·.holds (rulesetTable facts ingress networks) p) = true := by
    rw [List.all_cons, Bool.and_eq_true, holds_ingress]
    exact fun h => hout h.1
  rw [closingRules, accepts_cons, if_neg (hnot _), accepts_cons, if_neg (hnot _), accepts_cons,
    if_neg (hnot _), accepts_cons, accepts_nil, hc]
  exact ite_self _

/-- The chain `forward` is the only one that filters. -/
theorem passes_forward (networks : List Network) :
    (rulesetTable facts ingress networks).passes .forward p =
      ((forwardChain facts [] []).withRules (allowRules facts networks ++ closingRules)).accepts
        (rulesetTable facts ingress networks) p := by
  have hnat (x : Iface) (c : Bool) : ((if c then [natChain x] else []).all fun c =>
      c.hook != .forward || c.kind != .filter ||
        c.accepts (rulesetTable facts ingress networks) p) = true := by
    cases c <;> rfl
  rw [Table.passes]
  change (forwardChain facts _ _ :: _).all _ = _
  rw [List.all_cons]
  cases hx : facts.exit with
  | none => exact Bool.and_true _
  | some x => exact (congrArg _ (hnat x facts.supportsIpv4)).trans (Bool.and_true _)

theorem passes_inside (hvalid : ∀ n ∈ networks, n.Valid) (hin : Enters ingress p) :
    (rulesetTable facts ingress networks).passes .forward p = true ↔
      (∃ n ∈ networks, Covers n p.family p.dst) ∨
        Leaves facts p ∧ facts.supports p.family = true := by
  rw [passes_forward, accepts_append (action_allowRules facts),
    accepts_closing_inside facts _ hin, Bool.or_false, fires_allowRules facts hvalid hin]

theorem passes_outside (hout : ¬ Enters ingress p) :
    (rulesetTable facts ingress networks).passes .forward p = true := by
  rw [passes_forward, accepts_append (action_allowRules facts),
    accepts_closing_outside facts rfl hout, Bool.or_true]

theorem decides_natChain (T : Table) (x : Iface) : (natChain x).decides T p = some .masquerade ↔
    (Selector.iifIn ingressSet).holds T p = true ∧ p.oif = some x := by
  have hchain : natChain x =
      (natChain x).withRules [⟨[.iifIn ingressSet, .oif x], .masquerade⟩] := rfl
  rw [hchain, decides_singleton, List.all_cons, List.all_cons, List.all_nil, Bool.and_true,
    Bool.and_eq_true, Selector.holds.eq_3, beq_iff_eq]

theorem masquerades_rulesetTable :
    (rulesetTable facts ingress networks).masquerades p = true ↔
      facts.supportsIpv4 = true ∧ Enters ingress p ∧ Leaves facts p := by
  rw [← holds_ingress facts ingress networks p]
  rw [Table.masquerades, chains_rulesetTable]
  generalize rulesetTable facts ingress networks = T
  rw [List.any_cons]
  cases hx : facts.exit with
  | none =>
    refine iff_of_false nofun ?_
    rintro ⟨-, -, x, hx', -⟩
    cases hx.symm.trans hx'
  | some x =>
    have hleaves : Leaves facts p ↔ p.oif = some x := by simp [Leaves, hx]
    rw [hleaves, ← decides_natChain]
    cases facts.supportsIpv4 with
    | false => exact iff_of_false nofun nofun
    | true =>
      change (_ == _ || false) = true ↔ _
      rw [Bool.or_false, beq_iff_eq]
      exact (and_iff_right rfl).symm

end

end

/-! ## What nft takes -/

/-- The two networks share no address. -/
def Apart (n m : Network) : Prop := ∀ f a, ¬ (Covers n f a ∧ Covers m f a)

/-- A set of networks takes two that are written alike, or share no address. -/
def Compatible (networks : List Network) : Prop :=
  ∀ n ∈ networks, ∀ m ∈ networks, n.text = m.text ∨ Apart n m

variable {n m : Network} {networks : List Network}

theorem text_of_ofNetwork (hn : n.scopeId = none) (hm : m.scopeId = none)
    (h : Prefix.ofNetwork n = Prefix.ofNetwork m) : n.text = m.text := by
  cases n with
  | v4 i =>
    cases m with
    | v4 j =>
      simp only [Prefix.ofNetwork, Prefix.mk.injEq] at h
      simp [Network.text, Network.addressText, Network.prefixLength, h.2.1, h.2.2]
    | v6 b q => simp [Prefix.ofNetwork] at h
  | v6 a k =>
    cases m with
    | v4 j => simp [Prefix.ofNetwork] at h
    | v6 b q =>
      simp only [Prefix.ofNetwork, Prefix.mk.injEq, true_and] at h
      simp only [Network.scopeId] at hn hm
      simp [Network.text, Network.addressText, Network.prefixLength, hn, hm, h.1, h.2]

theorem ofNetwork_of_text (hn : n.Valid) (hm : m.Valid) (hsn : n.scopeId = none)
    (hsm : m.scopeId = none) (h : n.text = m.text) : Prefix.ofNetwork n = Prefix.ofNetwork m := by
  have hfamily : (Prefix.ofNetwork n).family = (Prefix.ofNetwork m).family := by
    have hcolon := contains_colon hn
    rw [h, contains_colon hm] at hcolon
    cases n <;> cases m <;> first | rfl | cases hcolon
  have hread := readPrefix_text hn hsn
  rw [hfamily, h, readPrefix_text hm hsm] at hread
  exact (Option.some.inj hread).symm

theorem overlaps_ofNetwork (hn : n.Valid) (hm : m.Valid) :
    (Prefix.ofNetwork n).overlaps (Prefix.ofNetwork m) = false ↔ Apart n m := by
  rw [← Bool.not_eq_true, Prefix.overlaps_iff]
  simp only [contains_ofNetwork hn, contains_ofNetwork hm, Apart, not_exists]

/-- Networks of different families share no address. -/
theorem apart_of_isV6 (h : isV6 n ≠ isV6 m) : Apart n m := by
  rintro f a ⟨hn, hm⟩
  cases n <;> cases m <;> cases f <;> first | exact hn | exact hm | exact h rfl

theorem disjoint_ofNetwork (hvalid : ∀ n ∈ networks, n.Valid)
    (hscope : ∀ n ∈ networks, n.scopeId = none) :
    (Elements.prefixes (networks.map .ofNetwork)).disjoint = true ↔ Compatible networks := by
  simp only [Elements.disjoint_iff, List.forall_mem_map]
  refine forall₂_congr fun n hn => forall₂_congr fun m hm => ?_
  rw [overlaps_ofNetwork (hvalid n hn) (hvalid m hm)]
  refine or_congr_left ⟨text_of_ofNetwork (hscope n hn) (hscope m hm), ?_⟩
  exact ofNetwork_of_text (hvalid n hn) (hvalid m hm) (hscope n hn) (hscope m hm)

theorem compatible_iff_filter (networks : List Network) : Compatible networks ↔
    Compatible (networks.filter fun n => !isV6 n) ∧ Compatible (networks.filter isV6) := by
  constructor
  · intro h
    exact ⟨fun n hn m hm => h n (List.mem_filter.mp hn).1 m (List.mem_filter.mp hm).1,
      fun n hn m hm => h n (List.mem_filter.mp hn).1 m (List.mem_filter.mp hm).1⟩
  · rintro ⟨h4, h6⟩ n hn m hm
    by_cases hfamily : isV6 n = isV6 m
    · cases hv : isV6 n with
      | false =>
        exact h4 n (List.mem_filter.mpr ⟨hn, by rw [hv]; rfl⟩) m
          (List.mem_filter.mpr ⟨hm, by rw [← hfamily, hv]; rfl⟩)
      | true =>
        exact h6 n (List.mem_filter.mpr ⟨hn, hv⟩) m (List.mem_filter.mpr ⟨hm, hfamily ▸ hv⟩)
    · exact .inr (apart_of_isV6 hfamily)

theorem loads_rulesetTable (facts : TunnelFacts) (ingress : List Iface)
    (hvalid : ∀ n ∈ networks, n.Valid) (hscope : ∀ n ∈ networks, n.scopeId = none) :
    (rulesetTable facts ingress networks).loads = true ↔ Compatible networks := by
  have hset (p : Network → Bool) (name : Nft.Name) :
      ((if networks.filter p = [] then []
        else [NamedSet.mk name (.prefixes ((networks.filter p).map .ofNetwork))]).all
          (·.elements.disjoint)) = true ↔ Compatible (networks.filter p) := by
    rw [← disjoint_ofNetwork (fun n hn => hvalid n (List.mem_filter.mp hn).1)
      fun n hn => hscope n (List.mem_filter.mp hn).1]
    split
    · next hnil =>
      rw [hnil]
      exact iff_of_true rfl rfl
    · rw [List.all_cons, List.all_nil, Bool.and_true]
  have hsets : (rulesetTable facts ingress networks).sets = ⟨ingressSet, .names ingress⟩ ::
      ((if networks.filter (fun n => !isV6 n) = [] then []
        else [⟨localV4, .prefixes ((networks.filter fun n => !isV6 n).map .ofNetwork)⟩]) ++
      (if networks.filter isV6 = [] then []
        else [⟨localV6, .prefixes ((networks.filter isV6).map .ofNetwork)⟩])) := rfl
  rw [Table.loads, hsets, List.all_cons, List.all_append, Elements.disjoint.eq_1, Bool.true_and,
    Bool.and_eq_true, hset, hset, compatible_iff_filter networks]

/-! ## Scopes -/

/-- The percent sign before the scope begins no token. -/
theorem stuck_text (h : n.scopeId ≠ none) : Stuck n.text := by
  cases n with
  | v4 i => exact absurd rfl h
  | v6 a k =>
    obtain ⟨scope, hscope⟩ := Option.ne_none_iff_exists'.mp h
    have hquote : '"' ∉ ipv6Text a.ip := fun hm => by
      rcases mem_ipv6Text hm with hm | hm | hm
      · exact absurd hm (by decide)
      · exact absurd hm (by decide)
      · exact absurd hm (by decide)
    have htext : (Network.v6 a k).text =
        (ipv6Text a.ip ++ '%' :: scope) ++ '/' :: natText k := by
      rw [Network.text, Network.addressText, show a.scopeId = some scope from hscope]
      rfl
    rw [htext]
    exact (stuck_at hquote (by decide) fun _ => rfl).append _

theorem stuck_commaList (h : ∃ n ∈ networks, n.scopeId ≠ none) :
    Stuck (commaList (networks.map Network.text)) := by
  induction networks with
  | nil => simp at h
  | cons n networks ih =>
    by_cases hn : n.scopeId = none
    · obtain ⟨m, hm, hscope⟩ := h
      rcases List.mem_cons.mp hm with rfl | hm
      · exact absurd hn hscope
      · have hrest := ih ⟨m, hm, hscope⟩
        have hne : networks ≠ [] := List.ne_nil_of_mem hm
        have hcomma : Lexes (n.text ++ [',']) [.ofWord n.text, .comma] :=
          lexes_word (text_ne_nil n) (fun x hx => isWordChar_of_mem_text hn hx) (by decide)
            fun _ => rfl
        have hspace : Lexes [' '] [] := lexes_of_eval rfl
        obtain ⟨m', rest, rfl⟩ := List.exists_cons_of_ne_nil hne
        have hjoin : commaList ((n :: m' :: rest).map Network.text) =
            (n.text ++ [',']) ++ ([' '] ++ commaList ((m' :: rest).map Network.text)) := by
          rw [commaList, List.map_cons, List.map_cons, List.intercalate_cons_cons, ← List.map_cons]
          simp [commaList]
        rw [hjoin]
        exact hcomma.stuck (hspace.stuck hrest)
    · have hhead : ∃ rest, commaList ((n :: networks).map Network.text) = n.text ++ rest := by
        cases networks with
        | nil => exact ⟨[], by simp [commaList, List.intercalate]⟩
        | cons m rest =>
          rw [commaList, List.map_cons, List.map_cons, List.intercalate_cons_cons]
          exact ⟨_, List.append_assoc _ _ _⟩
      obtain ⟨rest, hrest⟩ := hhead
      rw [hrest]
      exact (stuck_text hn).append rest

theorem stuck_sets {ingress : List Iface} (hne : ingress ≠ [])
    (hall : ∀ i ∈ ingress, isInterface i = true) (v4 : List Network) {v6 : List Network}
    (hvalid : ∀ n ∈ v4, n.Valid) (h4 : ∀ n ∈ v4, isV6 n = false)
    (hscope : ∃ n ∈ v6, n.scopeId ≠ none) :
    Stuck ((setLines ingress (v4.map Network.text) (v6.map Network.text)).flatMap endLine) := by
  have hset4 := readsBody_sets hne hall v4 []
    (fun n hn => by
      rw [List.append_nil] at hn
      cases n with
      | v4 i => rfl
      | v6 a k => cases h4 _ hn)
    (fun n hn => hvalid n (by rwa [List.append_nil] at hn)) h4 (by simp)
  obtain ⟨ts, hlex⟩ := hset4.lexes
  have hstuck : Stuck (endLine
      ("  set local_v6 \x7b type ipv6_addr; flags interval; elements = \x7b ".toList ++
        commaList (v6.map Network.text) ++ " \x7d \x7d".toList)) := by
    have hopen : Lexes
        "  set local_v6 \x7b type ipv6_addr; flags interval; elements = \x7b ".toList
        ([.key .set, .word localV6, .lbrace] ++
          [.key .type, .key .ipv6Addr, .semicolon, .key .flags, .key .interval, .semicolon] ++
          [.key .elements, .equals, .lbrace]) := lexes_literal (by decide +kernel)
    exact ((hopen.stuck (stuck_commaList hscope)).append _).append _
  obtain ⟨n, rest, rfl⟩ := List.exists_cons_of_ne_nil (List.ne_nil_of_mem hscope.choose_spec.1)
  have hlines (t : Text) (ls ms : List Text) : (ls ++ ms ++ [t]).flatMap endLine =
      (ls ++ ms ++ []).flatMap endLine ++ endLine t := by
    rw [List.append_nil, List.flatMap_append, List.flatMap_singleton]
  have hstuck4 := hlex.stuck hstuck
  rw [setLines, List.map_nil, List.isEmpty_nil, Bool.not_true, lineIf, lineIf,
    if_neg Bool.false_ne_true, ← hlines] at hstuck4
  exact hstuck4

theorem read_scoped {facts : TunnelFacts} {ingress : List Iface}
    {text : Text} (ht : generateRuleset facts ingress (networks.map Network.text) = some text)
    (hne : ingress ≠ []) (hall : ∀ i ∈ ingress, isInterface i = true)
    (hvalid : ∀ n ∈ networks, n.Valid) (hscope : ∃ n ∈ networks, n.scopeId ≠ none) :
    Nft.read text = none := by
  have hv6 : ∃ n ∈ networks.filter isV6, n.scopeId ≠ none := by
    obtain ⟨n, hn, hs⟩ := hscope
    refine ⟨n, List.mem_filter.mpr ⟨hn, ?_⟩, hs⟩
    cases n with
    | v4 i => exact absurd rfl hs
    | v6 a k => rfl
  have hsets := stuck_sets hne hall (networks.filter fun n => !isV6 n)
    (fun n hn => hvalid n (List.mem_filter.mp hn).1)
    (fun n hn => by simpa using (List.mem_filter.mp hn).2) hv6
  unfold generateRuleset at ht
  split at ht
  · cases ht
    rw [intercalate_lines (by simp [rulesetLines]), rulesetLines]
    have h4 := filter_texts hvalid (p := fun b => !b)
    have h6 := filter_texts hvalid (p := fun b => b)
    rw [h4, h6, flatMap_pieces]
    exact ((lexes_opening.stuck ((hsets.append _).append _)).append _).read
  · cases ht

/-! ## The allowlist of the settings -/

/-- No network of the allowlist has a scope, and two that are not the same share no address. -/
def Loadable (allowlist : List Text) : Prop :=
  ∀ value ∈ allowlist, ∀ n, parseAnyNetwork value = some n → n.scopeId = none ∧
    ∀ other ∈ allowlist, ∀ m, parseAnyNetwork other = some m → n.text = m.text ∨ Apart n m

private theorem exists_map_eq {α β : Type} {f : α → β} {P : α → Prop} {l : List β}
    (h : ∀ b ∈ l, ∃ a, P a ∧ f a = b) : ∃ as : List α, as.map f = l ∧ ∀ a ∈ as, P a := by
  induction l with
  | nil => exact ⟨[], rfl, by simp⟩
  | cons b l ih =>
    rw [List.forall_mem_cons] at h
    obtain ⟨a, ha, rfl⟩ := h.1
    obtain ⟨as, rfl, has⟩ := ih h.2
    exact ⟨a :: as, rfl, List.forall_mem_cons.mpr ⟨ha, has⟩⟩

/-- The texts of `validate_allowlist` are those of networks of the allowlist. -/
theorem exists_networks {allowlist texts : List Text}
    (h : validateAllowlist allowlist = some texts) :
    ∃ networks : List Network, networks.map Network.text = texts ∧
      (∀ n ∈ networks, ∃ value ∈ allowlist, parseAnyNetwork value = some n) ∧
      ∀ value ∈ allowlist, ∀ n, parseAnyNetwork value = some n →
        ∃ m ∈ networks, m.text = n.text := by
  obtain ⟨ts, hts, rfl⟩ := Option.map_eq_some_iff.mp h
  have htext {value t : Text} (hvalue : ((parseAnyNetwork value).bind fun n =>
      if n.prefixLength = 0 then none else some n.text) = some t) :
      ∃ n, parseAnyNetwork value = some n ∧ n.text = t := by
    obtain ⟨n, hn, hif⟩ := Option.bind_eq_some_iff.mp hvalue
    split at hif
    · cases hif
    · exact ⟨n, hn, Option.some.inj hif⟩
  have hfrom : ∀ t ∈ ts.eraseDups, ∃ n,
      (∃ value ∈ allowlist, parseAnyNetwork value = some n) ∧ n.text = t := by
    intro t ht
    obtain ⟨value, hvalue, hparse⟩ := mem_of_mapM_eq_some hts t (List.mem_eraseDups.mp ht)
    obtain ⟨n, hn, rfl⟩ := htext hparse
    exact ⟨n, ⟨value, hvalue, hn⟩, rfl⟩
  obtain ⟨networks, hmap, hnetworks⟩ := exists_map_eq hfrom
  refine ⟨networks, hmap, hnetworks, fun value hvalue n hn => ?_⟩
  obtain ⟨t, ht, hparse⟩ := exists_of_mapM_eq_some hts value hvalue
  obtain ⟨n', hn', rfl⟩ := htext hparse
  cases hn.symm.trans hn'
  have hmem : n.text ∈ networks.map Network.text := hmap ▸ List.mem_eraseDups.mpr ht
  exact List.mem_map.mp hmem

theorem scopeId_of_text (h : m.text = n.text) (hm : m.scopeId = none) : n.scopeId = none := by
  by_contra hn
  have hpercent : '%' ∈ n.text := by
    cases n with
    | v4 i => exact absurd rfl hn
    | v6 a k =>
      obtain ⟨scope, hscope⟩ := Option.ne_none_iff_exists'.mp hn
      have hscope : a.scopeId = some scope := hscope
      simp [Network.text, Network.addressText, hscope]
  exact absurd (isWordChar_of_mem_text hm (h ▸ hpercent)) (by decide)

theorem covers_of_text (hn : n.Valid) (hm : m.Valid) (hscope : m.scopeId = none)
    (h : m.text = n.text) (f : Nft.Family) (a : Nat) : Covers m f a ↔ Covers n f a := by
  rw [← contains_ofNetwork hn, ← contains_ofNetwork hm,
    ofNetwork_of_text hm hn hscope (scopeId_of_text h hscope) h]

section
variable {allowlist : List Text} {networks : List Network}
  (hfrom : ∀ n ∈ networks, ∃ value ∈ allowlist, parseAnyNetwork value = some n)
  (hto : ∀ value ∈ allowlist, ∀ n, parseAnyNetwork value = some n →
    ∃ m ∈ networks, m.text = n.text)
include hfrom hto

theorem loadable_iff :
    Loadable allowlist ↔ (∀ n ∈ networks, n.scopeId = none) ∧ Compatible networks := by
  constructor
  · intro h
    refine ⟨fun n hn => ?_, fun n hn m hm => ?_⟩
    · obtain ⟨value, hvalue, hparse⟩ := hfrom n hn
      exact (h value hvalue n hparse).1
    · obtain ⟨value, hvalue, hparse⟩ := hfrom n hn
      obtain ⟨other, hother, hparse'⟩ := hfrom m hm
      exact (h value hvalue n hparse).2 other hother m hparse'
  · rintro ⟨hscope, hcompatible⟩ value hvalue n hn
    obtain ⟨n', hn', htext⟩ := hto value hvalue n hn
    refine ⟨scopeId_of_text htext (hscope n' hn'), fun other hother m hm => ?_⟩
    obtain ⟨m', hm', htext'⟩ := hto other hother m hm
    have hvalid {k : Network} (hk : k ∈ networks) : k.Valid := by
      obtain ⟨_, -, hparse⟩ := hfrom k hk
      exact valid_of_parseAnyNetwork hparse
    refine (hcompatible n' hn' m' hm').imp (fun h => ?_) fun h f a hcovers => h f a ?_
    · rw [← htext, ← htext', h]
    · exact ⟨(covers_of_text (valid_of_parseAnyNetwork hn) (hvalid hn') (hscope n' hn') htext
        f a).mpr hcovers.1, (covers_of_text (valid_of_parseAnyNetwork hm) (hvalid hm')
        (hscope m' hm') htext' f a).mpr hcovers.2⟩

theorem allowlisted_iff (hscope : ∀ n ∈ networks, n.scopeId = none) (p : Nft.Packet) :
    Allowlisted allowlist p ↔ ∃ n ∈ networks, Covers n p.family p.dst := by
  constructor
  · rintro ⟨value, hvalue, n, hn, hcovers⟩
    obtain ⟨m, hm, htext⟩ := hto value hvalue n hn
    obtain ⟨_, -, hparse⟩ := hfrom m hm
    exact ⟨m, hm, (covers_of_text (valid_of_parseAnyNetwork hn) (valid_of_parseAnyNetwork hparse)
      (hscope m hm) htext _ _).mpr hcovers⟩
  · rintro ⟨n, hn, hcovers⟩
    obtain ⟨value, hvalue, hparse⟩ := hfrom n hn
    exact ⟨value, hvalue, n, hparse, hcovers⟩

end

theorem enforces_rulesetTable (facts : TunnelFacts) (ingress : List Iface) {allowlist : List Text}
    (hvalid : ∀ n ∈ networks, n.Valid)
    (hallow : ∀ p, Allowlisted allowlist p ↔ ∃ n ∈ networks, Covers n p.family p.dst) :
    Enforces facts ingress allowlist (rulesetTable facts ingress networks) where
  inside p hin := by rw [passes_inside facts hvalid hin, hallow]
  outside p hout := passes_outside facts hout
  masquerades p := masquerades_rulesetTable facts

/-- The interfaces of `configuration`: the one of WireGuard is among them. -/
theorem validateConfiguration_eq {wireguard : Text} {routed allowlist ingress texts : List Text}
    (h : validateConfiguration (wireguard :: routed) allowlist = some (ingress, texts)) :
    ingress ≠ [] ∧ (∀ i ∈ ingress, isInterface i = true) ∧
      validateAllowlist allowlist = some texts := by
  unfold validateConfiguration at h
  split at h
  · next hall =>
    obtain ⟨ts, hts, heq⟩ := Option.map_eq_some_iff.mp h
    cases heq
    refine ⟨List.ne_nil_of_mem (List.mem_eraseDups.mpr (List.mem_cons_self ..)), ?_, hts⟩
    exact fun i hi => List.all_eq_true.mp hall i (List.mem_eraseDups.mp hi)
  · cases h

section
variable {facts : TunnelFacts} {wireguard : Text} {routed allowlist ingress networks : List Text}
  {text : Text}
  (hconfig : validateConfiguration (wireguard :: routed) allowlist = some (ingress, networks))
  (htext : generateRuleset facts ingress networks = some text)
include hconfig htext

/-- What nft takes is the table of the ruleset. -/
theorem load_eq_some {script : Script} (hload : Nft.load text = some script) :
    ∃ T, script = .replace T ∧ Loadable allowlist ∧ Enforces facts ingress allowlist T ∧
      ∃ nets, T = rulesetTable facts ingress nets ∧ nets.map Network.text = networks := by
  obtain ⟨hne, hall, hallow⟩ := validateConfiguration_eq hconfig
  obtain ⟨nets, rfl, hfrom, hto⟩ := exists_networks hallow
  have hvalid (n : Network) (hn : n ∈ nets) : n.Valid :=
    (hfrom n hn).elim fun _ h => valid_of_parseAnyNetwork h.2
  obtain ⟨hread, hloads⟩ := Option.filter_eq_some_iff.mp hload
  have hscope : ∀ n ∈ nets, n.scopeId = none := by
    by_contra hnot
    push Not at hnot
    cases (read_scoped htext hne hall hvalid hnot).symm.trans hread
  cases (read_ruleset htext hne hall hvalid hscope).symm.trans hread
  exact ⟨_, rfl, (loadable_iff hfrom hto).mpr
      ⟨hscope, (loads_rulesetTable facts ingress hvalid hscope).mp hloads⟩,
    enforces_rulesetTable facts ingress hvalid (allowlisted_iff hfrom hto hscope), nets, rfl, rfl⟩

theorem exists_load (hloadable : Loadable allowlist) : ∃ T, Nft.load text = some (.replace T) := by
  obtain ⟨hne, hall, hallow⟩ := validateConfiguration_eq hconfig
  obtain ⟨nets, rfl, hfrom, hto⟩ := exists_networks hallow
  have hvalid (n : Network) (hn : n ∈ nets) : n.Valid :=
    (hfrom n hn).elim fun _ h => valid_of_parseAnyNetwork h.2
  obtain ⟨hscope, hcompatible⟩ := (loadable_iff hfrom hto).mp hloadable
  refine ⟨rulesetTable facts ingress nets, ?_⟩
  rw [Nft.load, read_ruleset htext hne hall hvalid hscope, Option.filter_some]
  exact if_pos ((loads_rulesetTable facts ingress hvalid hscope).mpr hcompatible)

/-- **The ruleset.** The text of `generate_ruleset` enforces what the killswitch is for, unless
the allowlist keeps nft from taking it. -/
theorem ruleset_enforces_iff :
    (∃ T, Nft.load text = some (.replace T) ∧ Enforces facts ingress allowlist T) ↔
      Loadable allowlist := by
  constructor
  · rintro ⟨T, hload, -⟩
    obtain ⟨_, -, hloadable, -⟩ := load_eq_some hconfig htext hload
    exact hloadable
  · intro hloadable
    obtain ⟨T, hload⟩ := exists_load hconfig htext hloadable
    obtain ⟨_, heq, -, henforces, -⟩ := load_eq_some hconfig htext hload
    cases heq
    exact ⟨T, hload, henforces⟩

end

/-- The ruleset for a tunnel, with one network in the allowlist. -/
theorem ruleset_enforces_wireguard : ∃ text,
    generateRuleset ⟨true, some "wg-pia".toList, true, false, true, "tunnel_available".toList⟩
      ["wg0".toList] ["192.168.1.0/24".toList] = some text ∧
    ∃ T, Nft.load text = some (.replace T) ∧
      Enforces ⟨true, some "wg-pia".toList, true, false, true, "tunnel_available".toList⟩
        ["wg0".toList] ["192.168.1.0/24".toList] T := by
  have hconfig : validateConfiguration ["wg0".toList] ["192.168.1.0/24".toList] =
      some (["wg0".toList], ["192.168.1.0/24".toList]) := by decide +kernel
  refine ⟨_, rfl, (ruleset_enforces_iff hconfig rfl).mpr ?_⟩
  intro value hvalue n hn
  cases List.mem_singleton.mp hvalue
  have hparse : (parseAnyNetwork "192.168.1.0/24".toList).map Network.scopeId = some none := by
    decide +kernel
  rw [hn] at hparse
  refine ⟨Option.some.inj hparse, fun other hother m hm => .inl ?_⟩
  cases List.mem_singleton.mp hother
  cases hn.symm.trans hm
  rfl

/-- `configuration` takes a network and a part of it, and it takes a network with a scope; nft
takes neither ruleset. -/
theorem ruleset_refused :
    (∃ text,
      validateConfiguration ["wg0".toList] ["10.0.0.0/8".toList, "10.1.0.0/16".toList] =
        some (["wg0".toList], ["10.0.0.0/8".toList, "10.1.0.0/16".toList]) ∧
      generateRuleset .closed ["wg0".toList] ["10.0.0.0/8".toList, "10.1.0.0/16".toList] =
        some text ∧
      ¬ ∃ T, Nft.load text = some (.replace T) ∧
        Enforces .closed ["wg0".toList] ["10.0.0.0/8".toList, "10.1.0.0/16".toList] T) ∧
    ∃ text,
      validateConfiguration ["wg0".toList] ["fe80::%eth0/64".toList] =
        some (["wg0".toList], ["fe80::%eth0/64".toList]) ∧
      generateRuleset .closed ["wg0".toList] ["fe80::%eth0/64".toList] = some text ∧
      ¬ ∃ T, Nft.load text = some (.replace T) ∧
        Enforces .closed ["wg0".toList] ["fe80::%eth0/64".toList] T := by
  constructor
  · have hconfig : validateConfiguration ["wg0".toList]
        ["10.0.0.0/8".toList, "10.1.0.0/16".toList] =
          some (["wg0".toList], ["10.0.0.0/8".toList, "10.1.0.0/16".toList]) := by decide +kernel
    obtain ⟨text, htext⟩ : ∃ text, generateRuleset .closed ["wg0".toList]
        ["10.0.0.0/8".toList, "10.1.0.0/16".toList] = some text := ⟨_, rfl⟩
    refine ⟨text, hconfig, htext, ?_⟩
    rintro ⟨T, hload, -⟩
    have hwide : parseAnyNetwork "10.0.0.0/8".toList =
        some (.v4 ⟨10 * 2 ^ 24, 8, by decide, by decide⟩) := by decide +kernel
    have hpart : parseAnyNetwork "10.1.0.0/16".toList =
        some (.v4 ⟨10 * 2 ^ 24 + 2 ^ 16, 16, by decide, by decide⟩) := by decide +kernel
    obtain ⟨_, -, hloadable, -⟩ := load_eq_some hconfig htext hload
    rcases (hloadable _ (List.mem_cons_self ..) _ hwide).2 _
      (List.mem_cons_of_mem _ (List.mem_singleton_self _)) _ hpart with hsame | hapart
    · exact absurd hsame (by decide +kernel)
    · refine hapart .v4 (10 * 2 ^ 24 + 2 ^ 16) ⟨?_, ?_⟩
      · unfold Covers
        decide
      · unfold Covers
        decide
  · have hconfig : validateConfiguration ["wg0".toList] ["fe80::%eth0/64".toList] =
        some (["wg0".toList], ["fe80::%eth0/64".toList]) := by decide +kernel
    obtain ⟨text, htext⟩ : ∃ text, generateRuleset .closed ["wg0".toList]
        ["fe80::%eth0/64".toList] = some text := ⟨_, rfl⟩
    refine ⟨text, hconfig, htext, ?_⟩
    rintro ⟨T, hload, -⟩
    have hscoped : parseAnyNetwork "fe80::%eth0/64".toList =
        some (.v6 ⟨0xfe80 * 2 ^ 112, some "eth0".toList⟩ 64) := by decide +kernel
    obtain ⟨_, -, hloadable, -⟩ := load_eq_some hconfig htext hload
    cases (hloadable _ (List.mem_singleton_self _) _ hscoped).1

end ExitLane.Vpn
