import ExitLane.Egress.WireGuard

/-!
# The provider guard fails closed

Once `arm` has succeeded, the policy table has an unreachable default in both families
and nothing but owned defaults beside it, the rules at the guard's priority all lead to
that table, and the priority-zero rules are the built-in `local` rule followed by source
guards. Every command of every later call keeps this, whether it succeeds, fails or is
cut, so a guarded packet that gets as far as its guard ends in the policy table.
-/

namespace ExitLane.Egress

open Effect Net Python

/-! ## Invariants through the commands -/

section
variable {I : Host → Prop} {α : Type} {full : Host → Option Host} {A : Regime Reply Raised}
  {s : Host}

theorem preserves_system {run : Reply → Host → Except Raised α × Host} {part : Nat → Host → Host}
    (hrun : ∀ r s, I s → I (run r s).2) (hpart : ∀ k s, I s → I (part k s)) :
    Preserves I (system run part) :=
  preserves_handle (preserves_prim hrun hpart) fun _ => preserves_raise _

theorem preserves_command (h : ∀ s t, I s → full s = some t → I t) :
    Preserves I (command full) := by
  have hfull (s : Host) (hs : I s) : I ((full s).getD s) := by
    cases ht : full s with
    | none => exact hs
    | some t => exact h s t hs ht
  refine preserves_system (fun r s hs => ?_) fun k s hs => ?_
  · cases r.refused with
    | none => exact hfull s hs
    | some took =>
      cases took with
      | true => exact hfull s hs
      | false => exact hs
  · by_cases hk : k = 0
    · simpa [hk] using hs
    · simpa [hk] using hfull s hs

theorem preserves_query (f : Host → α) : Preserves I (query f) := by
  refine preserves_system (fun r s hs => ?_) fun _ _ hs => hs
  cases r.refused <;> exact hs

theorem preserves_ask (f : Reply → α) : Preserves I (ask f) :=
  preserves_system (fun _ _ hs => hs) fun _ _ hs => hs

theorem preserves_file {full : Host → Host} (h : ∀ s, I s → I (full s)) :
    Preserves I (file full) := by
  refine preserves_system (fun _ s hs => h s hs) fun k s hs => ?_
  by_cases hk : k = 0
  · simpa [hk] using hs
  · simpa [hk] using h s hs

theorem preserves_run (h : ∀ s t, I s → full s = some t → I t) : Preserves I (run full) :=
  preserves_bind (preserves_command h) fun _ => preserves_demand _ _

theorem preserves_json (f : Host → α) : Preserves I (json f) :=
  preserves_bind (preserves_query f) fun
    | some _ => preserves_pure _
    | none => preserves_raise _

theorem preserves_checkNames (names : List Iface) : Preserves I (checkNames names) :=
  preserves_demand _ _

theorem preserves_sourceAddress (a : Bits) : Preserves I (sourceAddress a) := by
  unfold sourceAddress
  split
  · exact preserves_pure _
  · exact preserves_raise _

theorem preserves_checkSource (source : Option Bits) : Preserves I (checkSource source) := by
  cases source with
  | none => exact preserves_pure _
  | some a => exact preserves_bind (preserves_sourceAddress a) fun _ => preserves_pure _

theorem preserves_validated (w : Platform) (c : EgressConfig) : Preserves I (validated w c) := by
  unfold validated
  split
  · exact preserves_pure _
  · exact preserves_raise _

theorem preserves_checkTableOwnership (f : Family) (egress : Option Iface) (others : List Iface) :
    Preserves I (checkTableOwnership f egress others) :=
  preserves_bind (preserves_json _) fun _ => preserves_demand _ _

theorem preserves_checkSourceAssignment (source : Bits) (i : Option Iface) :
    Preserves I (checkSourceAssignment source i) :=
  preserves_bind (preserves_json _) fun _ => preserves_demand _ _

/-- The inspections before a change leave the host alone. -/
theorem preserves_preflight (ingress : List Iface) (egress : Option Iface) (source : Option Bits)
    (others : List Iface) : Preserves I (preflight ingress egress source others) := by
  refine preserves_seq ?_ <| preserves_forM (fun f => ?_) _
  · exact preserves_optionally _ fun a => preserves_checkSourceAssignment a egress
  · exact preserves_seq (preserves_checkTableOwnership f egress others) <|
      preserves_bind (preserves_json _) fun _ => preserves_demand _ _

theorem preserves_interfaceExists (i : Iface) : Preserves I (interfaceExists i) := by
  unfold interfaceExists
  split
  · exact preserves_bind (preserves_query _) fun _ => preserves_pure _
  · exact preserves_pure _

theorem preserves_verifyRoute (i : Iface) (ingress : List Iface) :
    Preserves I (verifyRoute i ingress) := by
  unfold verifyRoute
  refine preserves_forM (fun j => ?_) _
  refine preserves_bind (preserves_bind (preserves_ask _) fun answer => ?_) fun _ =>
    preserves_bind (preserves_json _) fun found => ?_
  · rcases answer with _ | _ | a
    · exact preserves_raise _
    · exact preserves_raise _
    · exact preserves_pure _
  · rcases found with _ | ⟨r, route⟩
    · exact preserves_raise _
    · exact preserves_demand _ _

/-- An inspection gives what the host holds, or fails and leaves it alone. -/
theorem wp_json {f : Host → α} (hs : I s) : wpElse A (json f) (fun a t => t = s ∧ a = f s) I s := by
  refine wp_seq (R := fun answer t => t = s ∧ (answer = none ∨ answer = some (f s))) ?_ ?_
  · refine wp_handle (wp_prim (fun r _ => ?_) (fun _ _ _ => wp_raise hs) fun _ _ => hs)
    cases r.refused with
    | none => exact ⟨rfl, .inr rfl⟩
    | some _ => exact ⟨rfl, .inl rfl⟩
  · rintro answer m ⟨rfl, rfl | rfl⟩
    · exact wp_raise hs
    · exact wp_pure ⟨rfl, rfl⟩

/-- A command that has to succeed leads to its effect. -/
theorem wp_run {J : Host → Prop} (hs : J s) (hfull : ∀ t, full s = some t → J t) :
    wpElse A (run full) (fun _ t => full s = some t) J s := by
  have hpart : J ((full s).getD s) := by
    cases ht : full s with
    | none => exact hs
    | some t => exact hfull t ht
  refine wp_seq (R := fun ok t => (ok = true → full s = some t) ∧ J t) ?_ ?_
  · refine wp_handle (wp_prim (fun r _ => ?_) (fun k _ _ => wp_raise ?_) fun k _ => ?_)
    · cases r.refused with
      | none =>
        refine ⟨fun hok => ?_, hpart⟩
        cases ht : full s with
        | none => simp [ht] at hok
        | some t => rfl
      | some took =>
        cases took with
        | true => exact ⟨nofun, hpart⟩
        | false => exact ⟨nofun, hs⟩
    · split
      · exact hs
      · exact hpart
    · split
      · exact hs
      · exact hpart
  · rintro ok m ⟨hok, hm⟩
    exact wp_demand hok fun _ => hm

end

/-! ## The invariant -/

/-- `_owned_route` accepts the route, for one of the interfaces or for none. -/
def Owned (egress : List Iface) (r : Route) : Prop :=
  ∃ i ∈ none :: egress.map some, ownedRoute r i = true

theorem Owned.mono {egress egress' : List Iface} {r : Route} (hr : Owned egress r)
    (hsub : egress ⊆ egress') : Owned egress' r := by
  obtain ⟨i, hi, hown⟩ := hr
  exact ⟨i, List.cons_subset_cons _ (List.map_subset _ hsub) hi, hown⟩

theorem owned_unreachable (egress : List Iface) : Owned egress unreachableDefault :=
  ⟨none, List.mem_cons_self, by decide⟩

variable {i : Iface} {A : Regime Reply Raised} {I : Host → Prop} {h : Host}

theorem owned_provider {egress : List Iface} (hi : i ∈ egress) : Owned egress (providerDefault i) :=
  ⟨some i, List.mem_cons_of_mem _ (List.mem_map_of_mem hi), by simp [ownedRoute, providerDefault]⟩

/-- A table that has passed the check holds owned routes only. -/
theorem wp_checkTableOwnership (hI : I h)
    (f : Family) (i : Option Iface) (others : List Iface) :
    wpElse A (checkTableOwnership f i others)
      (fun _ t => t = h ∧ ∀ r ∈ h.routes f, r.table = tableId → Owned (i.toList ++ others) r)
      I h := by
  refine wp_seq_read (wp_json hI) ?_
  refine wp_demand (fun hall => ⟨rfl, fun r hr ht => ?_⟩) fun _ => hI
  have hone := List.all_eq_true.mp hall r (by simp [hr, ht])
  obtain ⟨j, hj, hown⟩ := List.any_eq_true.mp hone
  refine ⟨j, ?_, hown⟩
  cases i with
  | none => simpa using hj
  | some i => exact List.mem_cons_of_mem _ (by simpa using hj)

/-- What is on guard: the table ends in unreachable in the families `barred`, it routes over nothing
but `egress`, and the rules `held` are in place. -/
structure Guard (egress : List Iface) (barred : List Family) (held : List (Family × Rule))
    (h : Host) : Prop where
  barrier : ∀ f ∈ barred, unreachableDefault ∈ h.routes f
  routes : ∀ f, ∀ r ∈ h.routes f, r.table = tableId → Owned egress r
  level : ∀ f, ∀ r ∈ (h.rules f).rules, r.priority = rulePriority → r.table = tableId
  order : sourceOrderOk (h.rules .v4).rules false = true
  rules : ∀ x ∈ held, x.2 ∈ (h.rules x.1).rules

section
variable {egress egress' : List Iface} {barred barred' : List Family}
  {held held' : List (Family × Rule)} {h h' : Host} {f : Family} {a : Bits} {ingress : List Iface}

namespace Guard

section
variable (hg : Guard egress barred held h)
include hg

theorem mono (hegress : egress ⊆ egress')
    (hbarred : barred' ⊆ barred) (hheld : held' ⊆ held) : Guard egress' barred' held' h where
  barrier f hf := hg.barrier f (hbarred hf)
  routes f r hr ht := (hg.routes f r hr ht).mono hegress
  level := hg.level
  order := hg.order
  rules x hx := hg.rules x (hheld hx)

/-- The configuration files and links do not matter. -/
theorem of_eq (hrules : h'.rules = h.rules)
    (hroutes : h'.routes = h.routes) : Guard egress barred held h' where
  barrier := by simpa only [hroutes] using hg.barrier
  routes := by simpa only [hroutes] using hg.routes
  level := by simpa only [hrules] using hg.level
  order := by simpa only [hrules] using hg.order
  rules := by simpa only [hrules] using hg.rules

/-- A change of the routes that keeps the barrier and brings in owned routes only. -/
theorem of_routes (hrules : h'.rules = h.rules)
    (hbarrier : ∀ f, unreachableDefault ∈ h.routes f → unreachableDefault ∈ h'.routes f)
    (hnew : ∀ f, ∀ r ∈ h'.routes f, r ∈ h.routes f ∨ Owned egress r) :
    Guard egress barred held h' where
  barrier f hf := hbarrier f (hg.barrier f hf)
  routes f r hr ht := by
    rcases hnew f r hr with hold | howned
    · exact hg.routes f r hold ht
    · exact howned
  level := by simpa only [hrules] using hg.level
  order := by simpa only [hrules] using hg.order
  rules := by simpa only [hrules] using hg.rules

/-- The rules at priority zero stay as they are unless the new rule is one of them. -/
theorem addRule {r : Rule} (hadd : h.addRule f r = some h')
    (hlevel : r.priority = rulePriority → r.table = tableId)
    (horder : sourceOrderOk (h'.rules .v4).rules false = true) :
    Guard egress barred ((f, r) :: held) h' where
  barrier := by simpa only [(Host.addRule_routes hadd).1] using hg.barrier
  routes := by simpa only [(Host.addRule_routes hadd).1] using hg.routes
  level g q hq hp := by
    rcases (Host.mem_addRule hadd).mp hq with ⟨-, rfl⟩ | hold
    · exact hlevel hp
    · exact hg.level g q hold hp
  order := horder
  rules x hx := by
    rcases List.mem_cons.mp hx with rfl | hx
    · exact (Host.mem_addRule hadd).mpr (.inl ⟨rfl, rfl⟩)
    · exact (Host.mem_addRule hadd).mpr (.inr (hg.rules x hx))

theorem deleteRule {d : RuleSpec}
    (hdel : h.deleteRule f d = some h') (hheld : ∀ x ∈ held, d.agrees x.2 = false)
    (hzero : ∀ r : Rule, d.agrees r = true → r.priority ≠ 0) : Guard egress barred held h' where
  barrier := by simpa only [(Host.deleteRule_routes hdel).1] using hg.barrier
  routes := by simpa only [(Host.deleteRule_routes hdel).1] using hg.routes
  level g q hq hp := hg.level g q (Host.mem_of_mem_deleteRule hdel hq) hp
  order := by
    have hsame : (h'.rules .v4).rules.filter (·.priority == 0) =
        (h.rules .v4).rules.filter (·.priority == 0) := by
      rw [Host.deleteRule_rules hdel]
      split
      · next hf => exact hf ▸ filter_eraseP (fun r hr => by simpa using hzero r hr) _
      · rfl
    have := hg.order
    unfold sourceOrderOk at this ⊢
    rwa [hsame]
  rules x hx := Host.mem_deleteRule hdel (hheld x hx) (hg.rules x hx)

theorem replaceUnreachable
    (hrep : h.replaceRoute f unreachableDefault = some h') :
    Guard egress (f :: barred) held h' := by
  have hkeep : Guard egress barred held h' := by
    refine hg.of_routes (Host.replaceRoute_rules hrep) (fun g hm => ?_) fun g r hr => ?_
    · rw [Host.mem_replaceRoute hrep]
      by_cases hgf : g = f
      · exact .inl ⟨hgf, rfl⟩
      · exact .inr ⟨hm, fun h => absurd h hgf⟩
    · rcases (Host.mem_replaceRoute hrep).mp hr with ⟨-, rfl⟩ | ⟨hold, -⟩
      · exact .inr (owned_unreachable egress)
      · exact .inl hold
  refine { hkeep with barrier := fun g hgm => ?_ }
  rcases List.mem_cons.mp hgm with rfl | hgm
  · exact (Host.mem_replaceRoute hrep).mpr (.inl ⟨rfl, rfl⟩)
  · exact hkeep.barrier g hgm

/-- The provider default has another metric than the barrier. -/
theorem replaceProvider (hi : i ∈ egress)
    (hrep : h.replaceRoute .v4 (providerDefault i) = some h') : Guard egress barred held h' := by
  refine hg.of_routes (Host.replaceRoute_rules hrep) (fun g hm => ?_) fun g r hr => ?_
  · exact (Host.mem_replaceRoute hrep).mpr (.inr ⟨hm, fun _ => rfl⟩)
  · rcases (Host.mem_replaceRoute hrep).mp hr with ⟨-, rfl⟩ | ⟨hold, -⟩
    · exact .inr (owned_provider hi)
    · exact .inl hold

theorem deleteProvider
    (hdel : h.deleteRoute .v4 (providerDefaultSpec i) = some h') : Guard egress barred held h' := by
  refine hg.of_routes (Host.deleteRoute_rules hdel) (fun g hm => ?_) fun g r hr =>
    .inl (Host.mem_of_mem_deleteRoute hdel hr)
  exact Host.mem_deleteRoute hdel rfl hm

/-- The barrier has no link that it could go with. -/
theorem removeLink (i : Iface) : Guard egress barred held (h.removeLink i) :=
  hg.of_routes rfl (fun _ hm => Host.mem_removeLink.mpr ⟨hm, nofun⟩) fun _ _ hr =>
    .inl (Host.mem_removeLink.mp hr).1

end

end Guard

/-! ## The calls -/

/-- `p` keeps every guard over `egress`, and adds to it if it returns. -/
def Secures (egress : List Iface) (p : Act Unit) (barred' : List Family)
    (held' : List (Family × Rule)) : Prop :=
  ∀ (A : Regime Reply Raised) barred held h, Guard egress barred held h →
    wp A p (fun _ => Guard egress (barred' ++ barred) (held' ++ held))
      (fun _ => Guard egress barred held) (Guard egress barred held) h

theorem Guard.weaken (hg : Guard egress (barred' ++ barred) (held' ++ held) h) :
    Guard egress barred held h :=
  hg.mono (List.Subset.refl _) (List.subset_append_right _ _) (List.subset_append_right _ _)

namespace Secures

variable {p q : Act Unit} {barred1 barred2 : List Family} {held1 held2 : List (Family × Rule)}

theorem of_preserves (hp : ∀ barred held, Preserves (Guard egress barred held) p) :
    Secures egress p [] [] :=
  fun A barred held h => hp barred held A h

theorem preserves (hp : Secures egress p barred1 held1) (barred : List Family)
    (held : List (Family × Rule)) : Preserves (Guard egress barred held) p :=
  fun A h hg => wp_post (hp A barred held h hg) fun _ _ => Guard.weaken

theorem mono (hp : Secures egress p barred1 held1) (hbarred : barred2 ⊆ barred1)
    (hheld : held2 ⊆ held1) : Secures egress p barred2 held2 := by
  intro A barred held h hg
  refine wp_post (hp A barred held h hg) fun _ t ht => ?_
  exact ht.mono (List.Subset.refl _)
    (List.append_subset.mpr ⟨List.subset_append_of_subset_left _ hbarred,
      List.subset_append_right _ _⟩)
    (List.append_subset.mpr ⟨List.subset_append_of_subset_left _ hheld,
      List.subset_append_right _ _⟩)

theorem seq (hp : Secures egress p barred1 held1) (hq : Secures egress q barred2 held2) :
    Secures egress (p >>= fun _ => q) (barred2 ++ barred1) (held2 ++ held1) := by
  intro A barred held h hg
  refine wp_seq (hp A barred held h hg) fun _ m hm => ?_
  refine wp_mono_else (hq A _ _ m hm) (fun _ t ht => ?_) fun _ => Guard.weaken
  rwa [List.append_assoc, List.append_assoc]

/-- After a part that only keeps the guard. -/
theorem after {α : Type} {p : Act α} {g : α → Act Unit}
    (hp : ∀ barred held, Preserves (Guard egress barred held) p)
    (hg : ∀ a, Secures egress (g a) barred1 held1) : Secures egress (p >>= g) barred1 held1 :=
  fun A barred held h hguard => wp_seq (hp barred held A h hguard) fun a m => hg a A barred held m

/-- Before a part that only keeps the guard. -/
theorem before {g : Unit → Act Unit} (hp : Secures egress p barred1 held1)
    (hg : ∀ barred held, Preserves (Guard egress barred held) (g ())) :
    Secures egress (p >>= g) barred1 held1 :=
  (hp.seq (.of_preserves hg)).mono (List.Subset.refl _) (List.Subset.refl _)

theorem forM {α : Type} {g : α → Act Unit} {b : α → List Family} {r : α → List (Family × Rule)}
    (hg : ∀ a, Secures egress (g a) (b a) (r a)) (l : List α) :
    Secures egress (l.forM g) (l.reverse.flatMap b) (l.reverse.flatMap r) := by
  induction l with
  | nil => exact of_preserves fun _ _ => preserves_pure _
  | cons a l ih =>
    simp only [List.reverse_cons, List.flatMap_append, List.flatMap_singleton]
    exact (hg a).seq ih

end Secures

theorem secures_run {full : Host → Option Host} {held' : List (Family × Rule)}
    (hfull : ∀ barred held h h', Guard egress barred held h → full h = some h' →
      Guard egress (barred' ++ barred) (held' ++ held) h') :
    Secures egress (run full) barred' held' := by
  intro A barred held h hg
  refine wp_post (wp_run (J := Guard egress barred held) hg fun t ht => ?_) fun _ t ht => ?_
  · exact (hfull barred held h t hg ht).weaken
  · exact hfull barred held h t hg ht

theorem secures_replaceUnreachable (f : Family) : Secures egress (replaceUnreachable f) [f] [] :=
  secures_run fun _ _ _ _ hg hrep => hg.replaceUnreachable hrep

/-- A rule of another priority does not come between the source guards. -/
theorem order_addRule {r : Rule} {required : Bool} (hadd : h.addRule f r = some h')
    (hr : r.priority ≠ 0) (horder : sourceOrderOk (h.rules .v4).rules required = true) :
    sourceOrderOk (h'.rules .v4).rules required = true := by
  have hsame : (h'.rules .v4).rules.filter (·.priority == 0) =
      (h.rules .v4).rules.filter (·.priority == 0) := by
    rw [Host.addRule_rules hadd]
    split
    · next hf => exact hf ▸ filter_insertRule_of_ne (by simpa using hr)
    · rfl
  unfold sourceOrderOk at horder ⊢
  rwa [hsame]

theorem secures_ensureRule {e : Expected} (he : e.priority ≠ 0) (f : Family) :
    Secures egress (ensureRule e f) [] [(f, e.rule)] := by
  intro A barred held h hg
  refine wp_bind (wp_demand (fun _ => ?_) fun _ => hg)
  refine wp_seq_read (wp_json hg) ?_
  refine wp_when (fun _ => ?_) fun hpresent => ?_
  · have hadd : Secures egress (run (Host.addRule f e.rule)) [] [(f, e.rule)] :=
      secures_run fun _ _ _ _ hg hadd =>
        hg.addRule hadd (fun _ => rfl) (order_addRule hadd he hg.order)
    exact hadd A barred held h hg
  · obtain ⟨r, hr, hown⟩ := List.any_eq_true.mp (by simpa using hpresent)
    refine { hg with rules := fun x hx => ?_ }
    rcases List.mem_cons.mp hx with rfl | hx
    · have heq : r = e.rule := by simpa [ownedRule] using (Bool.and_eq_true_iff.mp hown).1
      exact heq ▸ hr
    · exact hg.rules x hx

theorem order_of_required {rules : List Rule} (h : sourceOrderOk rules true = true) :
    sourceOrderOk rules false = true := by
  unfold sourceOrderOk at *
  split at h
  · rfl
  · exact h

/-- A new source guard goes behind the built-in rule and the other guards. -/
theorem order_addSource (ha : isSource a = true) (hadd : h.addRule .v4 (sourceRule a) = some h')
    (horder : sourceOrderOk (h.rules .v4).rules true = true) :
    sourceOrderOk (h'.rules .v4).rules true = true := by
  have hlast : (h'.rules .v4).rules.filter (·.priority == 0) =
      (h.rules .v4).rules.filter (·.priority == 0) ++ [sourceRule a] := by
    rw [Host.addRule_rules hadd, if_pos rfl]
    exact filter_insertRule_self (r := sourceRule a) (h.rules .v4).ordered
  have hown : ownedSourceRule (sourceRule a) = true := by simp [ownedSourceRule, sourceRule, ha]
  unfold sourceOrderOk at horder ⊢
  rw [hlast]
  split at horder
  · cases horder
  · next first rest hzero =>
    rw [hzero]
    simpa [hown] using horder

theorem mem_of_sourcePresent {rules : List Rule} (h : sourcePresent rules a = true) :
    sourceRule a ∈ rules := by
  obtain ⟨r, hr, hown⟩ := List.any_eq_true.mp h
  obtain ⟨hsource, hsrc⟩ := Bool.and_eq_true_iff.mp hown
  rw [beq_iff_eq] at hsrc
  unfold ownedSourceRule at hsource
  rw [hsrc, Option.any_some, Bool.and_eq_true, beq_iff_eq] at hsource
  exact hsource.2 ▸ hr

theorem secures_ensureSourceRule (ha : isSource a = true) :
    Secures egress (ensureSourceRule a) [] [(.v4, sourceRule a)] := by
  intro A barred held h hg
  refine wp_seq_read (wp_json hg) ?_
  refine wp_bind (wp_demand (fun horder => ?_) fun _ => hg)
  refine wp_seq (R := fun _ => Guard egress barred held) (wp_when (fun _ => ?_) fun _ => hg) ?_
  · have hadd (t : Host) (ht : h.addRule .v4 (sourceRule a) = some t) :
        Guard egress barred held t := by
      have hnew := hg.addRule ht (fun _ => rfl) (order_of_required (order_addSource ha ht horder))
      exact hnew.mono (List.Subset.refl _) (List.Subset.refl _) (List.subset_cons_self _ _)
    exact wp_post (wp_run (J := Guard egress barred held) hg hadd) fun _ => hadd
  rintro - m hm
  refine wp_seq_read (wp_json hm) ?_
  refine wp_bind (wp_demand (fun _ => ?_) fun _ => hm)
  refine wp_demand (fun hpresent => { hm with rules := fun x hx => ?_ }) fun _ => hm
  rcases List.mem_cons.mp hx with rfl | hx
  · exact mem_of_sourcePresent hpresent
  · exact hm.rules x hx

variable (i : Iface)

/-- The rules of the guard of an ingress interface. -/
def ingressHeld : List (Family × Rule) :=
  [(.v6, (ingressRule i).rule), (.v4, (ingressRule i).rule)]

theorem secures_ensureIngress :
    Secures egress ([Family.v4, .v6].forM (ensureRule (ingressRule i))) [] (ingressHeld i) :=
  Secures.forM (secures_ensureRule (e := ingressRule i) (Nat.succ_ne_zero _)) _

def sourceHeld (a : Bits) : List (Family × Rule) := [(.v4, sourceRule a)]

/-- What `_apply_guard` puts in place. -/
def guardHeld (ingress : List Iface) (source : Option Bits) : List (Family × Rule) :=
  ingress.flatMap ingressHeld ++ source.toList.flatMap sourceHeld

/-- And for the probes of a provider. -/
def probeHeld (i : Option Iface) : List (Family × Rule) :=
  i.toList.map fun i => (.v4, (probeRule i).rule)

theorem secures_applyGuard {i : Option Iface} {source : Option Bits}
    (hsource : source.all isSource = true) :
    Secures egress (applyGuard ingress i source) [.v6, .v4]
      (probeHeld i ++ guardHeld ingress source) := by
  have hbarrier : Secures egress ([Family.v4, .v6].forM replaceUnreachable) [.v6, .v4] [] :=
    Secures.forM secures_replaceUnreachable _
  have hsources : Secures egress (Proc.optionally source ensureSourceRule) []
      (source.toList.flatMap sourceHeld) := by
    cases source with
    | none => exact .of_preserves fun _ _ => preserves_pure _
    | some a => exact secures_ensureSourceRule (by simpa using hsource)
  have hrules : Secures egress
      (ingress.forM fun i => [Family.v4, .v6].forM (ensureRule (ingressRule i))) []
      (ingress.reverse.flatMap ingressHeld) :=
    (Secures.forM secures_ensureIngress ingress).mono (List.nil_subset _) (List.Subset.refl _)
  have hprobe : Secures egress (Proc.optionally i fun i => ensureRule (probeRule i) .v4) []
      (probeHeld i) := by
    cases i with
    | none => exact .of_preserves fun _ _ => preserves_pure _
    | some i => exact secures_ensureRule (Nat.succ_ne_zero _) .v4
  refine (hbarrier.seq (hsources.seq (hrules.seq hprobe))).mono (List.Subset.refl _) fun x hx => ?_
  simpa [guardHeld, or_assoc] using hx

/-- A preflight that returns has seen a host that can be guarded. -/
theorem wp_preflight {i : Option Iface} {source : Option Bits}
    {others : List Iface} :
    wpElse A (preflight ingress i source others)
      (fun _ t => t = h ∧ Guard (i.toList ++ others) [] [] h ∧
        sourceOrderOk (h.rules .v4).rules source.isSome = true)
      (fun _ => True) h := by
  have hfamily (f : Family) : wpElse A (preflightFamily ingress i source.isSome others f)
      (fun _ t => t = h ∧ (∀ r ∈ h.routes f, r.table = tableId → Owned (i.toList ++ others) r) ∧
        preflightRulesOk h f (expectedRules ingress i others) source.isSome = true)
      (fun _ => True) h := by
    refine wp_seq (wp_checkTableOwnership trivial f i others) ?_
    rintro - m ⟨rfl, hroutes⟩
    refine wp_seq_read (wp_json trivial) ?_
    exact wp_demand (fun hok => ⟨rfl, hroutes, hok⟩) fun _ => trivial
  refine wp_seq_eq (t := h) ?_ fun _ => ?_
  · exact (preserves_optionally (I := (· = h)) source fun a =>
      preserves_checkSourceAssignment a i).through rfl fun _ _ => trivial
  refine wp_seq (hfamily .v4) ?_
  rintro - m ⟨rfl, hroutes4, hrules4⟩
  refine wp_seq (hfamily .v6) ?_
  rintro - m ⟨rfl, hroutes6, hrules6⟩
  have horder : sourceOrderOk (m.rules .v4).rules source.isSome = true := by
    simpa using (Bool.and_eq_true_iff.mp hrules4).1
  refine wp_pure ⟨rfl, ⟨nofun, fun f => ?_, fun f r hr hp => ?_, ?_, nofun⟩, horder⟩
  · cases f with
    | v4 => exact hroutes4
    | v6 => exact hroutes6
  · have hok : preflightRulesOk m f (expectedRules ingress i others) source.isSome = true := by
      cases f with
      | v4 => exact hrules4
      | v6 => exact hrules6
    have hone := List.all_eq_true.mp (Bool.and_eq_true_iff.mp hok).2 r hr
    simp only [hp, beq_self_eq_true, Bool.true_or, Bool.not_true, Bool.false_or,
      Bool.and_eq_true] at hone
    obtain ⟨e, -, hown⟩ := List.any_eq_true.mp hone.1
    have heq : r = e.rule := by simpa [ownedRule] using (Bool.and_eq_true_iff.mp hown).1
    rw [heq]
    rfl
  · cases hs : source.isSome with
    | true => exact order_of_required (hs ▸ horder)
    | false => exact hs ▸ horder

theorem wp_sourceAddress (hI : I h) (a : Bits) :
    wpElse A (sourceAddress a) (fun b t => t = h ∧ b = a ∧ isSource a = true) I h := by
  unfold sourceAddress
  split
  · next ha => exact wp_pure ⟨rfl, rfl, ha⟩
  · exact wp_raise hI

theorem wp_checkSource (hI : I h)
    (source : Option Bits) :
    wpElse A (checkSource source) (fun a t => t = h ∧ a = source ∧ source.all isSource = true)
      I h := by
  cases source with
  | none => exact wp_pure ⟨rfl, rfl, rfl⟩
  | some a =>
    refine wp_seq (wp_sourceAddress hI a) ?_
    rintro b m ⟨rfl, rfl, ha⟩
    exact wp_pure ⟨rfl, rfl, by simpa using ha⟩

theorem wp_validated (hI : I h) (w : Platform)
    (c : EgressConfig) :
    wpElse A (validated w c) (fun b t => t = h ∧ b = c ∧ c.isValid w = true) I h := by
  unfold validated
  split
  · next hc => exact wp_pure ⟨rfl, rfl, hc⟩
  · exact wp_raise hI

theorem guardHeld_eraseDups (ingress : List Iface) (source : Option Bits) :
    guardHeld ingress source ⊆ guardHeld ingress.eraseDups source := by
  intro x hx
  simpa [guardHeld, List.mem_eraseDups] using hx

theorem secures_arm (ingress : List Iface) (i : Option Iface) (source : Option Bits) :
    Secures egress (arm ingress i source) [.v6, .v4] (guardHeld ingress source) := by
  intro A barred held h hg
  refine wp_seq (wp_checkSource hg source) ?_
  rintro a m ⟨rfl, rfl, hsource⟩
  have hguard :
      Secures egress (applyGuard ingress.eraseDups i a) [.v6, .v4] (guardHeld ingress a) :=
    (secures_applyGuard hsource).mono (List.Subset.refl _)
      (List.subset_append_of_subset_right _ (guardHeld_eraseDups ingress a))
  refine Secures.after (fun _ _ => preserves_checkNames _) (fun _ => ?_) A barred held m hg
  refine .after (fun _ _ => preserves_checkNames _) fun _ => ?_
  exact .after (fun _ _ => preserves_preflight _ _ _ _) fun _ => hguard

/-- An `arm` that returns has put up the guard, whatever it found. -/
theorem wp_arm (A : Regime Reply Raised) (ingress : List Iface) (i : Option Iface)
    (source : Option Bits) (h : Host) :
    wpElse A (arm ingress i source) (fun _ => Guard i.toList [.v6, .v4] (guardHeld ingress source))
      (fun _ => True) h := by
  refine wp_seq (wp_checkSource trivial source) ?_
  rintro a m ⟨rfl, rfl, hsource⟩
  refine wp_bind (wp_demand (fun _ => ?_) fun _ => trivial)
  refine wp_bind (wp_demand (fun _ => ?_) fun _ => trivial)
  refine wp_seq wp_preflight ?_
  rintro - m ⟨rfl, hg, -⟩
  have happly : Secures (i.toList ++ []) (applyGuard ingress.eraseDups i a) [.v6, .v4]
      (probeHeld i ++ guardHeld ingress.eraseDups a) := secures_applyGuard hsource
  refine wp_mono_else (happly A [] [] m hg) (fun _ t ht => ?_) fun _ _ => trivial
  refine ht.mono (List.append_subset.mpr ⟨List.Subset.refl _, List.nil_subset _⟩)
    (List.Subset.refl _) ?_
  rw [List.append_nil]
  exact List.subset_append_of_subset_right _ (guardHeld_eraseDups ingress a)

theorem secures_armSource (a : Bits) : Secures egress (armSource i a) [.v4] (sourceHeld a) := by
  intro A barred held h hg
  refine wp_seq (wp_sourceAddress hg a) ?_
  rintro b m ⟨rfl, rfl, ha⟩
  refine Secures.after (fun _ _ => preserves_checkNames _) (fun _ => ?_) A barred held m hg
  refine .after (fun _ _ => preserves_checkSourceAssignment _ _) fun _ => ?_
  refine .after (fun _ _ => preserves_checkTableOwnership _ _ _) fun _ => ?_
  refine .after (fun _ _ => preserves_json _) fun _ => ?_
  refine .after (fun _ _ => preserves_demand _ _) fun _ => ?_
  exact (secures_replaceUnreachable .v4).seq (secures_ensureSourceRule ha)

theorem preserves_deleteProviderDefault :
    Preserves (Guard egress barred held) (deleteProviderDefault i) :=
  preserves_seq (preserves_command fun _ _ hg => hg.deleteProvider) <| preserves_pure _

theorem preserves_stopInterface : Preserves (Guard egress barred held) (stopInterface i) := by
  refine preserves_seq (preserves_checkNames _) ?_
  refine preserves_bind (preserves_interfaceExists i) fun present => ?_
  refine preserves_seq (preserves_when present ?_) <| preserves_deleteProviderDefault i
  refine preserves_bind (preserves_command fun h h' hg hdown => ?_) fun
    | true => preserves_pure _
    | false => preserves_bind (preserves_interfaceExists i) fun _ => preserves_demand _ _
  exact Host.wgDown_eq hdown ▸ hg.removeLink i

theorem preserves_setConfig (config : Option EgressConfig) :
    Preserves (Guard egress barred held) (file fun h => h.setConfig i config) :=
  preserves_file fun _ hg => hg.of_eq rfl rfl

theorem preserves_rollbackStart (previous : Option EgressConfig) :
    Preserves (Guard egress barred held) (rollbackStart i previous) := by
  refine preserves_seq (preserves_handle (preserves_stopInterface i) fun _ => ?_) <|
    preserves_setConfig i previous
  exact preserves_seq (preserves_setConfig i previous) <| preserves_raise _

theorem preserves_removeConfig : Preserves (Guard egress barred held) (removeConfig i) :=
  preserves_seq (preserves_checkNames _) <| preserves_setConfig i none

theorem secures_startBody {c : EgressConfig} {source : Bits} (hsource : isSource source = true)
    (hegress : c.interface ∈ egress) :
    Secures egress (startBody c ingress source) [.v6, .v4]
      (probeHeld (some c.interface) ++ guardHeld ingress (some source)) := by
  refine (secures_applyGuard (by simpa using hsource)).before fun barred held => ?_
  refine preserves_seq (preserves_stopInterface _) ?_
  refine preserves_seq (preserves_setConfig _ _) ?_
  refine preserves_seq (preserves_run fun h h' hg hup => ?_) ?_
  · exact hg.of_eq (Host.wgUp_eq hup).1 (Host.wgUp_eq hup).2.1
  · exact preserves_seq (preserves_run fun _ _ hg => hg.replaceProvider hegress) <|
      preserves_verifyRoute _ _

/-- The handlers of `start` keep the guard and never return. -/
theorem wp_startHandler (previous : Option EgressConfig)
    (e : Raised) (hg : Guard egress barred held h) :
    wpElse A (startHandler i previous e) (fun _ _ => False) (Guard egress barred held) h := by
  have hrollback (e' : Raised) : wpElse A (rollbackStart i previous >>= fun _ => .raise e')
      (fun (_ : Unit) _ => False) (Guard egress barred held) h :=
    wp_seq (preserves_rollbackStart i previous A h hg) fun _ _ hm => wp_raise hm
  unfold startHandler
  split
  · exact hrollback _
  · exact hrollback _
  · exact hrollback _
  · exact wp_raise hg

theorem secures_start (w : Platform) {c : EgressConfig} (ingress : List Iface)
    (hegress : c.interface ∈ egress) :
    Secures egress (start w c ingress) [.v6, .v4] (guardHeld ingress (some c.address)) := by
  intro A barred held h hg
  refine wp_seq (wp_validated hg w c) ?_
  rintro b m ⟨rfl, rfl, -⟩
  refine Secures.after (fun _ _ => preserves_checkNames _) (fun _ => ?_) A barred held m hg
  refine .after (fun _ _ => preserves_demand _ _) fun _ => ?_
  refine .after (fun _ _ => preserves_checkNames _) fun _ => ?_
  intro A barred held h hg
  refine wp_seq (wp_sourceAddress hg b.address) ?_
  rintro source m ⟨rfl, rfl, hsource⟩
  refine Secures.after (fun _ _ => preserves_preflight _ _ _ _) (fun _ => ?_) A barred held m hg
  refine .after (fun _ _ => preserves_json _) fun previous => ?_
  intro A barred held h hg
  have hbody : Secures egress (startBody b ingress.eraseDups b.address) [.v6, .v4]
      (guardHeld ingress (some b.address)) :=
    (secures_startBody hsource hegress).mono (List.Subset.refl _)
      (List.subset_append_of_subset_right _ (guardHeld_eraseDups ingress _))
  refine wp_try (hbody A barred held h hg) fun e m hm => ?_
  exact wp_post (wp_startHandler _ previous e hm) fun _ _ => False.elim

theorem preserves_deleteRules {e : Expected} (he : e.priority ≠ 0)
    (hheld : ∀ x ∈ held, e.spec.agrees x.2 = false) (f : Family) (attempts : Nat) :
    Preserves (Guard egress barred held) (deleteRules e f attempts) := by
  induction attempts with
  | zero => exact preserves_raise _
  | succ n ih =>
    refine preserves_bind (preserves_command fun h h' hg hdel => ?_) fun
      | true => ih
      | false => preserves_pure _
    refine hg.deleteRule hdel hheld fun r hr hzero => he ?_
    simp only [RuleSpec.agrees, Expected.spec, Option.all_some, Bool.and_eq_true, beq_iff_eq] at hr
    omega

/-- A removal keeps the guards of the interfaces and sources that it does not name. -/
theorem preserves_disarm (i : Option Iface)
    (hheld : ∀ x ∈ held, (∃ a, x.2 = sourceRule a) ∨ ∃ j ∉ ingress, x.2 = (ingressRule j).rule) :
    Preserves (Guard egress barred held) (disarm ingress i) := by
  have hbarrier : Preserves (Guard egress barred held)
      ([Family.v4, .v6].forM replaceUnreachable) :=
    preserves_forM (fun f => (secures_replaceUnreachable f).preserves barred held) _
  refine preserves_seq (preserves_checkNames _) ?_
  refine preserves_seq (preserves_checkNames _) ?_
  refine preserves_seq (preserves_forM (fun f => ?_) _) ?_
  · exact preserves_seq (preserves_checkTableOwnership _ _ _) <|
      preserves_bind (preserves_json _) fun _ => preserves_demand _ _
  refine preserves_seq (preserves_forM_mem fun j hj => preserves_forM (fun f => ?_) _) ?_
  · refine preserves_deleteRules (Nat.succ_ne_zero _) (fun x hx => ?_) f _
    rcases hheld x hx with ⟨a, ha⟩ | ⟨k, hk, hrule⟩
    · rw [ha]; rfl
    · have hne : ¬k = j := fun h => hk (by simpa [h] using List.mem_eraseDups.mp hj)
      simp [hrule, RuleSpec.agrees, Expected.spec, Expected.rule, ingressRule, hne]
  refine preserves_seq (preserves_optionally _ fun j => ?_) ?_
  · refine preserves_deleteRules (Nat.succ_ne_zero _) (fun x hx => ?_) .v4 _
    rcases hheld x hx with ⟨a, ha⟩ | ⟨k, -, hk⟩
    · rw [ha]; rfl
    · rw [hk]; rfl
  exact preserves_seq hbarrier <|
    preserves_optionally _ fun j => preserves_deleteProviderDefault j

end

/-! ## Runs -/

/-- The calls on `ProviderWireGuard` that change the host. -/
inductive Call where
  | arm (ingress : List Iface) (egress : Option Iface) (source : Option Bits)
  | armSource (egress : Iface) (source : Bits)
  | start (config : EgressConfig) (ingress : List Iface)
  | stopInterface (interface : Iface)
  | rollbackStart (interface : Iface) (previous : Option EgressConfig)
  | removeConfig (interface : Iface)
  | disarm (ingress : List Iface) (egress : Option Iface)

namespace Call

def proc (w : Platform) : Call → Act Unit
  | arm ingress egress source => Egress.arm ingress egress source
  | armSource egress source => Egress.armSource egress source
  | start config ingress => Egress.start w config ingress
  | stopInterface interface => Egress.stopInterface interface
  | rollbackStart interface previous => Egress.rollbackStart interface previous
  | removeConfig interface => Egress.removeConfig interface
  | disarm ingress egress => Egress.disarm ingress egress

/-- What is under guard once the call has returned. -/
def ingress : Call → List Iface
  | arm ingress _ _ | start _ ingress => ingress
  | _ => []

def sources : Call → List Bits
  | arm _ _ source => source.toList
  | armSource _ source => [source]
  | start config _ => [config.address]
  | _ => []

/-- The interface that the call may route over. -/
def egress : Call → List Iface
  | start config _ => [config.interface]
  | _ => []

/-- The ingress interfaces that the call takes out of the guard. -/
def released : Call → List Iface
  | disarm ingress _ => ingress
  | _ => []

end Call

/-- What a run has under guard: the ingress interfaces and sources of the calls that returned, and
the egress interfaces that were named. -/
structure Watch where
  ingress : List Iface
  sources : List Bits
  egress : List Iface

namespace Watch

def held (v : Watch) : List (Family × Rule) :=
  v.ingress.flatMap ingressHeld ++ v.sources.flatMap sourceHeld

/-- A removal ends the guard of the interfaces that it names, also if it fails. -/
def release (v : Watch) (c : Call) : Watch :=
  { v with
    ingress := v.ingress.filter fun i => !c.released.contains i
    egress := c.egress ++ v.egress }

/-- The watch after a call. -/
def after (v : Watch) (c : Call) (returned : Bool) : Watch :=
  if returned then
    { v.release c with
      ingress := c.ingress ++ (v.release c).ingress
      sources := c.sources ++ v.sources }
  else v.release c

end Watch

def returned {α : Type} : Outcome Raised α → Bool
  | .ok _ => true
  | _ => false

/-- The states that a run reaches after a first `arm` that returned. A call may raise or be cut at
any of its steps, so the intermediate states of a call are among them. -/
inductive Reached (w : Platform) : Watch → Host → Prop
  | armed (h : Host) (ks : List (Signal Reply Raised)) (ingress : List Iface)
      (egress : Option Iface) (source : Option Bits)
      (hok : returned (arm ingress egress source h ks).1 = true) :
      Reached w ⟨ingress, source.toList, egress.toList⟩ (arm ingress egress source h ks).2.1
  | call (v : Watch) (h : Host) (c : Call) (ks : List (Signal Reply Raised)) (hr : Reached w v h) :
      Reached w (v.after c (returned (c.proc w h ks).1)) (c.proc w h ks).2.1

/-- One call: it keeps what it does not release, and adds what it names if it returns. -/
theorem Call.wp_proc (w : Platform) (A : Regime Reply Raised) (c : Call) (v : Watch)
    (hg : Guard v.egress [.v6, .v4] v.held h) :
    wpElse A (c.proc w) (fun _ => Guard (v.release c).egress [.v6, .v4] (v.after c true).held)
      (Guard (v.release c).egress [.v6, .v4] (v.release c).held) h := by
  have hstart : Guard (v.release c).egress [.v6, .v4] (v.release c).held h := by
    refine hg.mono (List.subset_append_right _ _) (List.Subset.refl _) fun x hx => ?_
    rcases List.mem_append.mp hx with hx | hx
    · obtain ⟨i, hi, hx⟩ := List.mem_flatMap.mp hx
      exact List.mem_append_left _ (List.mem_flatMap.mpr ⟨i, List.mem_of_mem_filter hi, hx⟩)
    · exact List.mem_append_right _ hx
  have hsecured {barred : List Family}
      (hs : Secures (v.release c).egress (c.proc w) barred
        (c.ingress.flatMap ingressHeld ++ c.sources.flatMap sourceHeld)) :
      wpElse A (c.proc w) (fun _ => Guard (v.release c).egress [.v6, .v4] (v.after c true).held)
        (Guard (v.release c).egress [.v6, .v4] (v.release c).held) h := by
    refine wp_post (hs A _ _ h hstart) fun _ t ht => ?_
    refine ht.mono (List.Subset.refl _) (List.subset_append_right _ _) fun x hx => ?_
    simp only [Watch.after, Watch.held, if_true, List.flatMap_append, List.mem_append] at hx ⊢
    tauto
  cases c with
  | arm ingress egress source => exact hsecured (secures_arm ingress egress source)
  | armSource egress source =>
    exact hsecured
      ((secures_armSource egress source).mono (List.Subset.refl _) (by simp [ingress, sources]))
  | start config ingress =>
    exact hsecured (secures_start w ingress List.mem_cons_self)
  | stopInterface i => exact hsecured (.of_preserves fun _ _ => preserves_stopInterface i)
  | rollbackStart i previous =>
    exact hsecured (.of_preserves fun _ _ => preserves_rollbackStart i previous)
  | removeConfig i => exact hsecured (.of_preserves fun _ _ => preserves_removeConfig i)
  | disarm ingress egress =>
    refine preserves_disarm egress (fun x hx => ?_) A h hstart
    rcases List.mem_append.mp hx with hx | hx
    · obtain ⟨i, hi, hx⟩ := List.mem_flatMap.mp hx
      have hi : i ∉ ingress := by simpa [released] using (List.mem_filter.mp hi).2
      have hrule : x.2 = (ingressRule i).rule := by
        simp only [ingressHeld, List.mem_cons, List.not_mem_nil, or_false] at hx
        rcases hx with rfl | rfl <;> rfl
      exact .inr ⟨i, hi, hrule⟩
    · obtain ⟨a, -, hx⟩ := List.mem_flatMap.mp hx
      exact .inl ⟨a, by rw [List.mem_singleton.mp hx]⟩

/-- Every state of a run has the guard of its watch. -/
theorem Reached.guard {w : Platform} {v : Watch} (hr : Reached w v h) :
    Guard v.egress [.v6, .v4] v.held h := by
  induction hr with
  | armed h ks ingress egress source hok =>
    have hpost := (wp_arm .any ingress egress source h).holds (any_script ks)
    revert hpost hok
    cases (arm ingress egress source h ks).1 with
    | ok _ => exact fun _ hpost => hpost
    | raised _ => exact nofun
    | crashed => exact nofun
  | call v h c ks hr ih =>
    have hpost := (c.wp_proc w .any v ih).holds (any_script ks)
    revert hpost
    cases (c.proc w h ks).1 with
    | ok _ => exact id
    | raised _ => exact id
    | crashed => exact id

/-! ## Where guarded packets go -/

/-- No rule before the guard's own, nor the built-in `local` rule, has a route for the packet. -/
def Undecided (h : Host) (f : Family) (g : Rule) (p : Packet) : Prop :=
  ∀ q ∈ (h.rules f).rules, q.priority < g.priority ∨ localRule q = true →
    q.claim (h.routes f) p = none

/-- The packet ends in the policy table, at the barrier or over an owned interface. -/
def Contained (egress : List Iface) (h : Host) (f : Family) (p : Packet) : Prop :=
  ∃ r route, resolve (h.rules f).rules (h.routes f) p = some (r, route) ∧ r.table = tableId ∧
    (route.kind = .unreachable ∨ route.kind = .unicast ∧ ∃ i ∈ egress, route.dev = some i)

/-- A rule at the priority of a guard, and not the built-in one, leads to the policy table. -/
theorem Guard.table_eq {egress : List Iface} {barred : List Family} {held : List (Family × Rule)}
    {f : Family} {r : Rule} (hg : Guard egress barred held h)
    (hr : r ∈ (h.rules f).rules) (hlocal : localRule r = false)
    (hp : r.priority = rulePriority ∨ f = .v4 ∧ r.priority = 0) : r.table = tableId := by
  rcases hp with hp | ⟨rfl, hp⟩
  · exact hg.level f r hr hp
  · have hzero : r ∈ (h.rules .v4).rules.filter (·.priority == 0) := by simp [hr, hp]
    have horder := hg.order
    unfold sourceOrderOk at horder
    split at horder
    · next hnil => simp [hnil] at hzero
    · next first rest hcons =>
      rw [hcons] at hzero
      simp only [Bool.and_eq_true, List.all_eq_true] at horder
      rcases List.mem_cons.mp hzero with rfl | hrest
      · rw [hlocal] at horder
        cases horder.1
      · have hown := horder.2 r hrest
        simp only [ownedSourceRule, Option.any_eq_true, Bool.and_eq_true, beq_iff_eq] at hown
        obtain ⟨a, -, -, heq⟩ := hown
        rw [heq]
        rfl

theorem owned_fate {egress : List Iface} {r : Route} (h : Owned egress r) :
    r.kind = .unreachable ∨ r.kind = .unicast ∧ ∃ i ∈ egress, r.dev = some i := by
  obtain ⟨i, hi, hown⟩ := h
  simp only [ownedRoute, Bool.and_eq_true, Bool.or_eq_true, beq_iff_eq] at hown
  rcases hown.2 with hun | huni
  · exact .inl hun.1
  · refine .inr ⟨huni.1.1.1, ?_⟩
    obtain ⟨j, rfl⟩ := Option.isSome_iff_exists.mp huni.1.2
    exact ⟨j, by simpa using hi, huni.2⟩

/-- A packet that a guard rule selects and nothing before it resolves is contained. -/
theorem Guard.contained {egress : List Iface} {held : List (Family × Rule)} {f : Family}
    {g : Rule} {p : Packet} (hg : Guard egress [.v6, .v4] held h) (hmem : g ∈ (h.rules f).rules)
    (htable : g.table = tableId) (hp : g.priority = rulePriority ∨ f = .v4 ∧ g.priority = 0)
    (hselects : g.selects p = true) (hundecided : Undecided h f g p) : Contained egress h f p := by
  have hbarrier : unreachableDefault ∈ h.routes f := hg.barrier f (by cases f <;> decide)
  obtain ⟨route, hroute⟩ := exists_lookup hbarrier rfl (List.nil_prefix (l := p.dst))
  have hclaim : g.claim (h.routes f) p = some route := by
    rw [Rule.claim, if_pos hselects, htable]
    exact hroute
  obtain ⟨r, s, hres, hr, hrclaim, hle⟩ := resolve_le (h.rules f).ordered hmem hclaim
  have hnot : ¬(r.priority < g.priority ∨ localRule r = true) := fun hbefore => by
    rw [hundecided r hr hbefore] at hrclaim
    cases hrclaim
  have hrtable : r.table = tableId := by
    refine hg.table_eq hr (by simpa using fun h => hnot (.inr h)) ?_
    have heq : r.priority = g.priority :=
      Nat.le_antisymm hle (Nat.le_of_not_lt fun h => hnot (.inl h))
    rwa [heq]
  refine ⟨r, s, hres, hrtable, ?_⟩
  have hlookup : lookup (h.routes f) r.table p.dst = some s := by
    unfold Rule.claim at hrclaim
    split at hrclaim
    · exact hrclaim
    · cases hrclaim
  obtain ⟨hs, hst, -, -⟩ := lookup_spec hlookup
  exact owned_fate (hg.routes f s hs (hst.trans hrtable))

theorem selects_ingress {p : Packet} (hp : p.iif = some i) :
    (ingressRule i).rule.selects p = true := by
  simp [Rule.selects, Expected.rule, ingressRule, hp]

theorem selects_source {a : Bits} {p : Packet} (hp : p.src = a) :
    (sourceRule a).selects p = true := by
  simp [Rule.selects, sourceRule, hp]

/-- In every state of every run the barrier stands, the guards of the watch are installed, and a
packet that an installed guard selects is contained unless a rule before the guard resolves it. -/
theorem guard_fails_closed (w : Platform) (v : Watch) (h : Host) (hr : Reached w v h) :
    (∀ f, unreachableDefault ∈ h.routes f) ∧
    (∀ i ∈ v.ingress, ∀ f, (ingressRule i).rule ∈ (h.rules f).rules ∧
      ∀ p, p.iif = some i → Undecided h f (ingressRule i).rule p → Contained v.egress h f p) ∧
    (∀ a ∈ v.sources, sourceRule a ∈ (h.rules .v4).rules) ∧
    ∀ a, sourceRule a ∈ (h.rules .v4).rules → ∀ p, p.src = a → Undecided h .v4 (sourceRule a) p →
      Contained v.egress h .v4 p := by
  have hg := hr.guard
  have hingress (i : Iface) (hi : i ∈ v.ingress) (f : Family) :
      (ingressRule i).rule ∈ (h.rules f).rules := by
    refine hg.rules (f, (ingressRule i).rule)
      (List.mem_append_left _ (List.mem_flatMap.mpr ⟨i, hi, ?_⟩))
    cases f <;> simp [ingressHeld]
  refine ⟨fun f => hg.barrier f (by cases f <;> decide), fun i hi f => ⟨hingress i hi f, ?_⟩,
    ?_, ?_⟩
  · exact fun p hp => hg.contained (hingress i hi f) rfl (.inl rfl) (selects_ingress hp)
  · intro a ha
    exact hg.rules (.v4, sourceRule a) (List.mem_append_right _
      (List.mem_flatMap.mpr ⟨a, ha, List.mem_singleton.mpr rfl⟩))
  · exact fun a ha p hp => hg.contained ha rfl (.inr ⟨rfl, rfl⟩) (selects_source hp)

/-- The address 10.0.0.`n`. -/
def tenNet (n : Nat) : Bits := octet 10 ++ octet 0 ++ octet 0 ++ octet n

/-- The built-in rule. -/
def kernelLocal : Rule :=
  ⟨0, none, none, none, none, none, localTable, .name "kernel".toList⟩

/-- A host with the built-in rule and the address 10.0.0.1 on the link `eth0`. -/
def plainHost : Host where
  rules
    | .v4 => ⟨[kernelLocal], List.pairwise_singleton _ _⟩
    | .v6 => .empty
  routes
    | .v4 => [⟨localTable, tenNet 1, 0, .other, .link, some "eth0".toList, .name "kernel".toList⟩]
    | .v6 => []
  links := [⟨"eth0".toList, [tenNet 1]⟩, ⟨"wg0".toList, [tenNet 9]⟩]
  configs _ := none
  taken := []

/-- `plainHost` guarded for the ingress `wg0` and the source 10.0.0.2. -/
def guardedHost : Host := (arm ["wg0".toList] none (some (tenNet 2)) plainHost []).2.1

theorem reached_guardedHost (w : Platform) :
    Reached w ⟨["wg0".toList], [tenNet 2], []⟩ guardedHost :=
  .armed plainHost [] ["wg0".toList] none (some (tenNet 2)) (by decide)

/-- A packet from 10.0.0.2 to 10.0.0.3 that was to leave while an interface is torn down. -/
theorem guard_fails_closed_teardown :
    Contained [] (stopInterface "wg1".toList guardedHost [.go default, .crash 0]).2.1 .v4
      ⟨tenNet 2, tenNet 3, none, none, fun _ => false⟩ := by
  have w : Platform := ⟨fun _ => true, fun _ => true, some⟩
  have hrun : Reached w ⟨["wg0".toList], [tenNet 2], []⟩
      (stopInterface "wg1".toList guardedHost [.go default, .crash 0]).2.1 :=
    .call _ _ (.stopInterface "wg1".toList) [.go default, .crash 0] (reached_guardedHost w)
  have hguards := guard_fails_closed w _ _ hrun
  refine hguards.2.2.2 (tenNet 2) (hguards.2.2.1 _ List.mem_cons_self) _ rfl ?_
  unfold Undecided
  decide

/-- A packet from a guarded source to an address of the host itself is resolved by the built-in
rule, which shares the priority of the source guards and comes first. -/
theorem guarded_source_reaches_local :
    ∃ (w : Platform) (v : Watch) (h : Host) (a : Bits) (p : Packet), Reached w v h ∧ a ∈ v.sources ∧
      p.src = a ∧
      (∀ q ∈ (h.rules .v4).rules, q.priority < (sourceRule a).priority →
        q.claim (h.routes .v4) p = none) ∧
      ¬Contained v.egress h .v4 p := by
  refine ⟨⟨fun _ => true, fun _ => true, some⟩, _, guardedHost, tenNet 2,
    ⟨tenNet 2, tenNet 1, none, none, fun _ => false⟩, reached_guardedHost _, List.mem_cons_self,
    rfl, fun q _ hq => absurd hq (Nat.not_lt_zero _), ?_⟩
  rintro ⟨r, route, hres, htable, -⟩
  have hlocal : (resolve (guardedHost.rules .v4).rules (guardedHost.routes .v4)
      ⟨tenNet 2, tenNet 1, none, none, fun _ => false⟩).map (·.1.table) =
        some localTable := by decide
  rw [hres] at hlocal
  simp [htable, tableId, localTable] at hlocal

end ExitLane.Egress
