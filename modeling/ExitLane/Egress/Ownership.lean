import ExitLane.Egress.Guard

/-!
# The provider egress touches only what it owns

`arm`, `start` and `disarm` inspect the host before they change it. An inspection that
finds something foreign raises a conflict with everything as it was. After it has passed,
every route command meets owned defaults of the policy table, every rule that a deletion
can select is one of the rules that it names, and no later step raises a conflict.
-/

namespace ExitLane.Egress

open Effect Net Python

/-! ## What may have changed -/

/-- Since `h0` nothing was deleted but rules of `removal`, nothing was replaced or deleted by a
route command but owned defaults, and what else is missing went with one of the `links`. -/
structure Touched (h0 : Host) (egress : List Iface) (removal : Family → List Expected)
    (links : List Iface) (h : Host) : Prop where
  kept : ∀ f q, (h.rules f).rules.count q < (h0.rules f).rules.count q → ∃ e ∈ removal f, q = e.rule
  taken : ∀ x ∈ h.taken, x ∈ h0.taken ∨ x.2.table = tableId ∧ Owned egress x.2
  lost : ∀ f, ∀ q ∈ h0.routes f, q ∈ h.routes f ∨ (f, q) ∈ h.taken ∨ ∃ i ∈ links, q.dev = some i

/-- What the inspections have established, and the changes keep. -/
structure Frame (h0 : Host) (egress : List Iface) (removal : Family → List Expected)
    (links : List Iface) (sourced : Bool) (h : Host) : Prop
    extends Touched h0 egress removal links h where
  routes : ∀ f, ∀ r ∈ h.routes f, r.table = tableId → Owned egress r
  select : ∀ f, ∀ r ∈ (h.rules f).rules, ∀ e ∈ removal f, e.spec.agrees r = true → r = e.rule
  order : sourced = true → sourceOrderOk (h.rules .v4).rules true = true

section
variable {h0 h h' : Host} {egress links : List Iface} {removal : Family → List Expected}
  {sourced : Bool} {f : Family}

theorem Touched.refl : Touched h egress removal links h where
  kept _ _ hlt := absurd hlt (Nat.lt_irrefl _)
  taken _ hx := .inl hx
  lost _ _ hq := .inl hq

/-- What no later step raises. -/
def conflict : Raised := .egress .resourceConflict

namespace Frame

theorem of_eq (hf : Frame h0 egress removal links sourced h) (hrules : h'.rules = h.rules)
    (hroutes : h'.routes = h.routes) (htaken : h'.taken = h.taken) :
    Frame h0 egress removal links sourced h' where
  kept := by simpa only [hrules] using hf.kept
  taken := by simpa only [htaken] using hf.taken
  lost := by simpa only [hroutes, htaken] using hf.lost
  routes := by simpa only [hroutes] using hf.routes
  select := by simpa only [hrules] using hf.select
  order := by simpa only [hrules] using hf.order

theorem addRule {r : Rule} (hf : Frame h0 egress (fun _ => []) links sourced h)
    (hadd : h.addRule f r = some h')
    (horder : sourced = true → sourceOrderOk (h'.rules .v4).rules true = true) :
    Frame h0 egress (fun _ => []) links sourced h' where
  kept g q hlt := by
    refine hf.kept g q (Nat.lt_of_le_of_lt ?_ hlt)
    rw [Host.addRule_rules hadd]
    split
    · next hg =>
      rw [(insertRule_perm r _).count_eq, List.count_cons, hg]
      exact Nat.le_add_right _ _
    · exact Nat.le_refl _
  taken := by simpa only [(Host.addRule_routes hadd).2] using hf.taken
  lost := by
    simpa only [(Host.addRule_routes hadd).1, (Host.addRule_routes hadd).2] using hf.lost
  routes := by simpa only [(Host.addRule_routes hadd).1] using hf.routes
  select _ _ _ _ he := nomatch he
  order := horder

/-- A deletion takes the first rule that agrees, and that is the rule it names. -/
theorem deleteRule {e : Expected} (hf : Frame h0 egress removal links false h)
    (he : e ∈ removal f) (hdel : h.deleteRule f e.spec = some h') :
    Frame h0 egress removal links false h' where
  kept g q hlt := by
    rw [Host.deleteRule_rules hdel] at hlt
    split at hlt
    · next hg =>
      subst hg
      cases hagrees : e.spec.agrees q with
      | false => exact hf.kept g q (by rwa [count_eraseP_of_neg hagrees] at hlt)
      | true =>
        by_cases hq : q ∈ (h.rules g).rules
        · exact ⟨e, he, hf.select g q hq e he hagrees⟩
        · refine hf.kept g q ?_
          rw [List.count_eq_zero_of_not_mem hq]
          exact Nat.lt_of_le_of_lt (Nat.zero_le _) hlt
    · exact hf.kept g q hlt
  taken := by simpa only [(Host.deleteRule_routes hdel).2] using hf.taken
  lost := by
    simpa only [(Host.deleteRule_routes hdel).1, (Host.deleteRule_routes hdel).2] using hf.lost
  routes := by simpa only [(Host.deleteRule_routes hdel).1] using hf.routes
  select g r hr := hf.select g r (Host.mem_of_mem_deleteRule hdel hr)
  order := nofun

section
variable (hf : Frame h0 egress removal links sourced h)
include hf

/-- A route command takes routes of the table and puts owned ones there. -/
theorem of_taken {gone : List Route} (hrules : h'.rules = h.rules)
    (htaken : h'.taken = h.taken ++ gone.map (f, ·))
    (hgone : ∀ q ∈ gone, q ∈ h.routes f ∧ q.table = tableId)
    (hlost : ∀ g, ∀ q ∈ h.routes g, q ∈ h'.routes g ∨ g = f ∧ q ∈ gone)
    (hnew : ∀ g, ∀ q ∈ h'.routes g, q ∈ h.routes g ∨ Owned egress q) :
    Frame h0 egress removal links sourced h' where
  kept := by simpa only [hrules] using hf.kept
  taken x hx := by
    rw [htaken] at hx
    rcases List.mem_append.mp hx with hx | hx
    · exact hf.taken x hx
    · obtain ⟨q, hq, rfl⟩ := List.mem_map.mp hx
      obtain ⟨hq, ht⟩ := hgone q hq
      exact .inr ⟨ht, hf.routes f q hq ht⟩
  lost g q hq := by
    rw [htaken, List.mem_append]
    rcases hf.lost g q hq with hq | hq | hq
    · rcases hlost g q hq with hq | ⟨rfl, hq⟩
      · exact .inl hq
      · exact .inr (.inl (.inr (List.mem_map_of_mem hq)))
    · exact .inr (.inl (.inl hq))
    · exact .inr (.inr hq)
  routes g q hq ht := (hnew g q hq).elim (hf.routes g q · ht) id
  select := by simpa only [hrules] using hf.select
  order := by simpa only [hrules] using hf.order

/-- A route that is replaced has the key of the new one, so that it is owned. -/
theorem replaceRoute {r : Route}
    (hr : Owned egress r) (htable : r.table = tableId) (hrep : h.replaceRoute f r = some h') :
    Frame h0 egress removal links sourced h' := by
  have htaken : h'.taken = h.taken ++ ((h.routes f).filter (·.sameKey r)).map (f, ·) := by
    cases hrep
    rfl
  refine hf.of_taken (Host.replaceRoute_rules hrep) htaken (fun q hq => ?_) (fun g q hq => ?_)
    fun g q hq => ?_
  · obtain ⟨hq, hkey⟩ := List.mem_filter.mp hq
    simp only [Route.sameKey, Bool.and_eq_true, beq_iff_eq] at hkey
    exact ⟨hq, hkey.1.1.trans htable⟩
  · by_cases hkey : g = f ∧ q.sameKey r = true
    · obtain ⟨rfl, hkey⟩ := hkey
      exact .inr ⟨rfl, List.mem_filter.mpr ⟨hq, hkey⟩⟩
    · refine .inl ((Host.mem_replaceRoute hrep).mpr (.inr ⟨hq, fun hg => ?_⟩))
      simpa using fun h => hkey ⟨hg, h⟩
  · rcases (Host.mem_replaceRoute hrep).mp hq with ⟨-, rfl⟩ | ⟨hq, -⟩
    · exact .inr hr
    · exact .inl hq

theorem deleteRoute {d : RouteSpec}
    (htable : d.table = tableId) (hdel : h.deleteRoute f d = some h') :
    Frame h0 egress removal links sourced h' := by
  have htaken : h'.taken = h.taken ++ ((h.routes f).find? d.agrees).toList.map (f, ·) := by
    obtain ⟨routes, -, rfl⟩ := Option.map_eq_some_iff.mp hdel
    rfl
  refine hf.of_taken (Host.deleteRoute_rules hdel) htaken (fun q hq => ?_) (fun g q hq => ?_)
    fun g q hq => .inl (Host.mem_of_mem_deleteRoute hdel hq)
  · have hq := Option.mem_toList.mp hq
    have hagrees := List.find?_some hq
    simp only [RouteSpec.agrees, Bool.and_eq_true, beq_iff_eq] at hagrees
    exact ⟨List.mem_of_find?_eq_some hq, hagrees.1.1.1.1.symm.trans htable⟩
  · by_cases hgone : q ∈ h'.routes g
    · exact .inl hgone
    · obtain ⟨routes, hroutes, rfl⟩ := Option.map_eq_some_iff.mp hdel
      by_cases hg : g = f
      · subst hg
        have herase : routes = (h.routes g).eraseP d.agrees := by
          unfold Net.deleteRoute at hroutes
          split at hroutes
          · exact (Option.some.inj hroutes).symm
          · cases hroutes
        have hfind := find?_of_not_mem_eraseP hq (by simpa [Host.setRoutes, herase] using hgone)
        exact .inr ⟨rfl, Option.mem_toList.mpr hfind⟩
      · exact absurd hq (by simpa [Host.setRoutes, Host.take, hg] using hgone)

theorem removeLink {i : Iface} (hi : i ∈ links) :
    Frame h0 egress removal links sourced (h.removeLink i) where
  kept := hf.kept
  taken := hf.taken
  lost g q hq := by
    rcases hf.lost g q hq with hq | hq | hq
    · by_cases hdev : q.dev = some i
      · exact .inr (.inr ⟨i, hi, hdev⟩)
      · exact .inl (Host.mem_removeLink.mpr ⟨hq, hdev⟩)
    · exact .inr (.inl hq)
    · exact .inr (.inr hq)
  routes g r hr := hf.routes g r (Host.mem_removeLink.mp hr).1
  select := hf.select
  order := hf.order

end

end Frame

/-! ## The changes -/

/-- Keeps `I` and raises no conflict. -/
def Calm {α : Type} (I : Host → Prop) (p : Act α) : Prop :=
  Keeps I (fun e t => I t ∧ e ≠ conflict) p

theorem calm_system {α : Type} {I : Host → Prop} {run : Reply → Host → Except Raised α × Host}
    {part : Nat → Host → Host} (hp : Preserves I (system run part)) : Calm I (system run part) := by
  intro A s hs
  have hraised : wp A (system run part) (fun _ _ => True) (fun e _ => e ≠ conflict)
      (fun _ => True) s := by
    refine wp_handle (wp_prim (fun r _ => ?_) (fun _ e _ => ?_) fun _ _ => trivial)
    · have hne (e : Raised) (t : Host) : wp A (.raise e.system : Act α) (fun _ _ => True)
          (fun e _ => e ≠ conflict) (fun _ => True) t :=
        wp_raise (by cases e <;> simp [Raised.system, conflict])
      cases run r s with
      | mk result t =>
        cases result with
        | ok a => exact trivial
        | error e => exact hne e t
    · exact wp_raise (by cases e <;> simp [Raised.system, conflict])
  exact wp_mono (wp_and (hp A s hs) hraised) (fun _ _ h => h.1) (fun _ _ => id) fun _ h => h.1

section
variable {I : Host → Prop}

theorem calm_raise {α : Type} {e : Raised} (he : e ≠ conflict) : Calm I (.raise e : Act α) :=
  keeps_raise fun _ hs => ⟨hs, he⟩

theorem calm_demand (b : Bool) {e : Raised} (he : e ≠ conflict) : Calm I (.demand b e) :=
  keeps_demand b fun _ hs => ⟨hs, he⟩

theorem calm_command {full : Host → Option Host} (h : ∀ s t, I s → full s = some t → I t) :
    Calm I (command full) :=
  calm_system (preserves_command h)

theorem calm_file {full : Host → Host} (h : ∀ s, I s → I (full s)) : Calm I (file full) :=
  calm_system (preserves_file h)

theorem calm_run {full : Host → Option Host} (h : ∀ s t, I s → full s = some t → I t) :
    Calm I (run full) :=
  keeps_bind (calm_command h) fun _ => calm_demand _ (by decide)

theorem calm_json {α : Type} (f : Host → α) : Calm I (json f) :=
  keeps_bind (calm_system (preserves_query f)) fun
    | some _ => keeps_pure _
    | none => calm_raise (by decide)

theorem calm_read {α : Type} {A : Regime Reply Raised} {s : Host} {f : Host → α} (hs : I s) :
    wp A (json f) (fun a t => t = s ∧ a = f s) (fun e t => I t ∧ e ≠ conflict) I s :=
  wp_mono (wp_and (wp_json (I := I) hs) (calm_json f A s hs)) (fun _ _ h => h.1) (fun _ _ h => h.2)
    fun _ h => h.1

theorem calm_interfaceExists (i : Iface) : Calm I (interfaceExists i) := by
  unfold interfaceExists
  split
  · exact keeps_bind (calm_system (preserves_query _)) fun _ => keeps_pure _
  · exact keeps_pure _

theorem calm_verifyRoute (i : Iface) (ingress : List Iface) : Calm I (verifyRoute i ingress) := by
  refine keeps_forM (fun j => ?_) _
  refine keeps_bind (keeps_bind (calm_system (preserves_ask _)) fun answer => ?_) fun _ =>
    keeps_bind (calm_json _) fun found => ?_
  · rcases answer with _ | _ | a
    · exact calm_raise (by decide)
    · exact calm_raise (by decide)
    · exact keeps_pure _
  · rcases found with _ | ⟨r, route⟩
    · exact calm_raise (by decide)
    · exact calm_demand _ (by decide)

end

theorem calm_replaceUnreachable (f : Family) :
    Calm (Frame h0 egress removal links sourced) (replaceUnreachable f) :=
  calm_run fun _ _ hf hrep => hf.replaceRoute (owned_unreachable egress) rfl hrep

theorem calm_ensureRule {e : Expected} (he : e.priority ≠ 0) (f : Family) :
    Calm (Frame h0 egress (fun _ => []) links sourced) (ensureRule e f) := by
  refine keeps_bind (calm_demand _ (by decide)) fun _ => ?_
  refine keeps_bind (calm_json _) fun present => keeps_when _ (calm_run fun h h' hf hadd => ?_)
  exact hf.addRule hadd fun hs => order_addRule hadd he (hf.order hs)

/-- The checks around a new source guard pass, as the order was right before. -/
theorem calm_ensureSourceRule {a : Bits} (ha : isSource a = true) :
    Calm (Frame h0 egress (fun _ => []) links true) (ensureSourceRule a) := by
  intro A h hf
  refine wp_seq_read (calm_read hf) ?_
  refine wp_seq_eq (wp_demand (fun _ => rfl) fun hno => ?_) fun _ => ?_
  · rw [hf.order rfl] at hno
    cases hno
  refine wp_seq (keeps_when _ (calm_run fun h h' hf hadd => ?_) A h hf) fun _ m hf => ?_
  · exact hf.addRule hadd fun _ => order_addSource ha hadd (hf.order rfl)
  refine wp_seq_read (calm_read hf) ?_
  refine wp_seq_eq (wp_demand (fun _ => rfl) fun hno => ?_) fun _ => ?_
  · rw [hf.order rfl] at hno
    cases hno
  exact calm_demand _ (by decide) A m hf

theorem calm_applyGuard {ingress : List Iface} {i : Option Iface} {source : Option Bits}
    (hsource : source.all isSource = true) :
    Calm (Frame h0 egress (fun _ => []) links source.isSome) (applyGuard ingress i source) := by
  refine keeps_bind (keeps_forM calm_replaceUnreachable _) fun _ => ?_
  refine keeps_bind ?_ fun _ => ?_
  · cases source with
    | none => exact keeps_pure _
    | some a => exact calm_ensureSourceRule (by simpa using hsource)
  refine keeps_bind (keeps_forM (fun j => keeps_forM (fun f => ?_) _) _) fun _ => ?_
  · exact calm_ensureRule (Nat.succ_ne_zero _) f
  · exact keeps_optionally _ fun j => calm_ensureRule (Nat.succ_ne_zero _) .v4

theorem calm_deleteProviderDefault (i : Iface) :
    Calm (Frame h0 egress removal links sourced) (deleteProviderDefault i) :=
  keeps_bind (calm_command fun _ _ hf hdel => hf.deleteRoute rfl hdel) fun _ => keeps_pure _

theorem calm_stopInterface {i : Iface} (hi : i ∈ links) :
    Calm (Frame h0 egress removal links sourced) (stopInterface i) := by
  refine keeps_bind (calm_demand _ (by decide)) fun _ => ?_
  refine keeps_bind (calm_interfaceExists i) fun present => ?_
  refine keeps_bind (keeps_when present ?_) fun _ => calm_deleteProviderDefault i
  refine keeps_bind (calm_command fun h h' hf hdown => ?_) fun
    | true => keeps_pure _
    | false => keeps_bind (calm_interfaceExists i) fun _ => calm_demand _ (by decide)
  exact Host.wgDown_eq hdown ▸ hf.removeLink hi

theorem calm_setConfig (i : Iface) (config : Option EgressConfig) :
    Calm (Frame h0 egress removal links sourced) (file fun h => h.setConfig i config) :=
  calm_file fun _ hf => hf.of_eq rfl rfl rfl

theorem calm_rollbackStart {i : Iface} (hi : i ∈ links) (previous : Option EgressConfig) :
    Calm (Frame h0 egress removal links sourced) (rollbackStart i previous) := by
  refine keeps_bind (fun A h hf => wp_handle ?_) fun _ => calm_setConfig i previous
  refine wp_mono (calm_stopInterface hi A h hf) (fun _ _ => id) (fun e m hm => ?_) fun _ => id
  exact keeps_bind (calm_setConfig i previous) (fun _ => calm_raise hm.2) A m hm.1

theorem calm_startBody {c : EgressConfig} {ingress : List Iface} {source : Bits}
    (hsource : isSource source = true) (hegress : c.interface ∈ egress)
    (hlink : c.interface ∈ links) :
    Calm (Frame h0 egress (fun _ => []) links true) (startBody c ingress source) := by
  have hsources : (some source).all isSource = true := by simpa using hsource
  refine keeps_bind (calm_applyGuard hsources) fun _ => ?_
  refine keeps_bind (calm_stopInterface hlink) fun _ => ?_
  refine keeps_bind (calm_setConfig _ _) fun _ => ?_
  refine keeps_bind (calm_run fun h h' hf hup => ?_) fun _ => ?_
  · exact hf.of_eq (Host.wgUp_eq hup).1 (Host.wgUp_eq hup).2.1 (Host.wgUp_eq hup).2.2
  · exact keeps_bind (calm_run fun _ _ hf hrep => hf.replaceRoute (owned_provider hegress) rfl hrep)
      fun _ => calm_verifyRoute _ _

/-- A failed start raises the code it failed with. -/
theorem calm_startHandler {i : Iface} (hi : i ∈ links) (previous : Option EgressConfig) {e : Raised}
    (he : e ≠ conflict) :
    Calm (Frame h0 egress removal links sourced) (startHandler i previous e) := by
  have hrollback {e' : Raised} (he' : e' ≠ conflict) :
      Calm (Frame h0 egress removal links sourced)
        (rollbackStart i previous >>= fun _ => .raise e' : Act Unit) :=
    keeps_bind (calm_rollbackStart hi previous) fun _ => calm_raise he'
  unfold startHandler
  split
  · exact hrollback (by decide)
  · exact hrollback (by decide)
  · exact hrollback he
  · exact calm_raise he

theorem calm_deleteRules {e : Expected} {f : Family} (he : e ∈ removal f) (attempts : Nat) :
    Calm (Frame h0 egress removal links false) (deleteRules e f attempts) := by
  induction attempts with
  | zero => exact calm_raise (by decide)
  | succ n ih =>
    exact keeps_bind (calm_command fun _ _ hf hdel => hf.deleteRule he hdel) fun
      | true => ih
      | false => keeps_pure _

end

/-! ## The operations -/

/-- The operations that inspect before they change. -/
inductive Change where
  | arm (ingress : List Iface) (egress : Option Iface) (source : Option Bits)
  | start (config : EgressConfig) (ingress : List Iface)
  | disarm (ingress : List Iface) (egress : Option Iface)

namespace Change

def proc (w : Platform) : Change → Act Unit
  | arm ingress egress source => Egress.arm ingress egress source
  | start config ingress => Egress.start w config ingress
  | disarm ingress egress => Egress.disarm ingress egress

def egress : Change → List Iface
  | arm _ egress _ | disarm _ egress => egress.toList
  | start config _ => [config.interface]

/-- The rules that may be deleted. -/
def removal : Change → Family → List Expected
  | arm _ _ _, _ | start _ _, _ => []
  | disarm ingress egress, f => removalRules ingress egress f

/-- The links that may be taken down. -/
def links : Change → List Iface
  | arm _ _ _ | disarm _ _ => []
  | start config _ => [config.interface]

end Change

/-- Where an operation ends: with a conflict and the host as it was, or with owned things
touched. -/
def Leaves (c : Change) (h : Host) (e : Raised) (t : Host) : Prop :=
  (e = conflict → t.rules = h.rules ∧ t.routes = h.routes) ∧ Touched h c.egress c.removal c.links t

section
variable {A : Regime Reply Raised} {h : Host} {c : Change}

/-- An inspection ends with the host as it was. -/
theorem leaves_of_preserves {α : Type} {p : Act α} (hp : Preserves (· = h) p) :
    wp A p (fun _ t => t = h) (Leaves c h) (Touched h c.egress c.removal c.links) h := by
  refine wp_mono (hp A h rfl) (fun _ _ => id) ?_ ?_
  · rintro e t rfl
    exact ⟨fun _ => ⟨rfl, rfl⟩, .refl⟩
  · rintro t rfl
    exact .refl

/-- The same together with what the inspection has found. -/
theorem leaves_inspect {α : Type} {p : Act α} {R : α → Host → Prop} (hp : Preserves (· = h) p)
    (hR : wpElse A p R (fun _ => True) h) :
    wp A p (fun a t => t = h ∧ R a t) (Leaves c h) (Touched h c.egress c.removal c.links) h :=
  wp_mono (wp_and (leaves_of_preserves hp) hR) (fun _ _ => id) (fun _ _ ht => ht.1) fun _ ht => ht.1

theorem leaves_of_calm {sourced : Bool} {p : Act Unit}
    (hp : Calm (Frame h c.egress c.removal c.links sourced) p)
    (hf : Frame h c.egress c.removal c.links sourced h) :
    wp A p (fun _ => Touched h c.egress c.removal c.links) (Leaves c h)
      (Touched h c.egress c.removal c.links) h :=
  wp_mono (hp A h hf) (fun _ _ ht => ht.toTouched)
    (fun _ _ ht => ⟨fun he => absurd he ht.2, ht.1.toTouched⟩) fun _ ht => ht.toTouched

/-- What a preflight that returns has established. -/
theorem leaves_preflight {ingress : List Iface} {i : Option Iface} {source : Option Bits}
    (hegress : c.egress = i.toList) (hremoval : c.removal = fun _ => []) :
    wp A (preflight ingress i source [])
      (fun _ t => t = h ∧ Frame h c.egress c.removal c.links source.isSome h) (Leaves c h)
      (Touched h c.egress c.removal c.links) h := by
  refine wp_post (leaves_inspect (preserves_preflight _ _ _ _) wp_preflight)
    fun _ t ht => ⟨ht.1, ?_⟩
  obtain ⟨-, -, hg, horder⟩ := ht
  refine { toTouched := .refl, routes := fun f r hr htable => ?_, select := fun f r hr e he => ?_,
           order := fun hs => ?_ }
  · rw [hegress]
    exact (hg.routes f r hr htable).mono (by simp)
  · rw [hremoval] at he
    cases he
  · rwa [hs] at horder

/-- What an inspection before a removal has established. -/
theorem leaves_checkRemovalOwnership {ingress : List Iface} {i : Option Iface}
    (hegress : c.egress = i.toList) (hremoval : ∀ f, c.removal f ⊆ removalRules ingress i f) :
    wp A (checkRemovalOwnership ingress i)
      (fun _ t => t = h ∧ Frame h c.egress c.removal c.links false h) (Leaves c h)
      (Touched h c.egress c.removal c.links) h := by
  have hfamily (f : Family) : wp A (checkRemovalFamily ingress i f)
      (fun _ t => t = h ∧ (∀ r ∈ h.routes f, r.table = tableId → Owned c.egress r) ∧
        ∀ r ∈ (h.rules f).rules, ∀ e ∈ c.removal f, e.spec.agrees r = true → r = e.rule)
      (Leaves c h) (Touched h c.egress c.removal c.links) h := by
    refine wp_seq (leaves_inspect (preserves_checkTableOwnership f i [])
      (wp_checkTableOwnership trivial f i [])) ?_
    rintro - m ⟨-, rfl, hroutes⟩
    refine wp_seq (leaves_inspect (preserves_json _) (wp_json trivial)) ?_
    rintro ok m ⟨-, rfl, rfl⟩
    refine wp_demand (fun hok => ⟨rfl, fun r hr ht => ?_, fun r hr e he hagrees => ?_⟩) fun _ => ?_
    · rw [hegress]
      exact (hroutes r hr ht).mono (by simp)
    · have hone := List.all_eq_true.mp (List.all_eq_true.mp hok r hr) e (hremoval f he)
      simpa [hagrees] using hone
    · exact ⟨fun _ => ⟨rfl, rfl⟩, .refl⟩
  refine wp_seq (hfamily .v4) ?_
  rintro - m ⟨rfl, hroutes4, hrules4⟩
  refine wp_seq (hfamily .v6) ?_
  rintro - m ⟨rfl, hroutes6, hrules6⟩
  refine wp_pure ⟨rfl, { toTouched := .refl, routes := fun f => ?_, select := fun f => ?_,
                         order := nofun }⟩
  · cases f with
    | v4 => exact hroutes4
    | v6 => exact hroutes6
  · cases f with
    | v4 => exact hrules4
    | v6 => exact hrules6

/-- Every operation, with everything that can go wrong in it. -/
theorem Change.wp_proc (w : Platform) (c : Change) (h : Host) :
    wp A (c.proc w) (fun _ => Touched h c.egress c.removal c.links) (Leaves c h)
      (Touched h c.egress c.removal c.links) h := by
  cases c with
  | arm ingress i source =>
    refine wp_seq (leaves_inspect (preserves_checkSource source) (wp_checkSource trivial source)) ?_
    rintro a m ⟨-, rfl, rfl, hsource⟩
    refine wp_seq_eq (leaves_of_preserves (preserves_checkNames _)) fun _ => ?_
    refine wp_seq_eq (leaves_of_preserves (preserves_checkNames _)) fun _ => ?_
    refine wp_seq (leaves_preflight rfl rfl) ?_
    rintro - m ⟨rfl, hf⟩
    exact leaves_of_calm (calm_applyGuard hsource) hf
  | start config ingress =>
    refine wp_seq (leaves_inspect (preserves_validated w config) (wp_validated trivial w config)) ?_
    rintro b m ⟨-, rfl, rfl, -⟩
    refine wp_seq_eq (leaves_of_preserves (preserves_checkNames _)) fun _ => ?_
    refine wp_seq_eq (leaves_of_preserves (preserves_demand _ _)) fun _ => ?_
    refine wp_seq_eq (leaves_of_preserves (preserves_checkNames _)) fun _ => ?_
    refine wp_seq (leaves_inspect (preserves_sourceAddress b.address)
      (wp_sourceAddress trivial b.address)) ?_
    rintro source m ⟨-, rfl, rfl, hsource⟩
    refine wp_seq (leaves_preflight rfl rfl) ?_
    rintro - m ⟨rfl, hf⟩
    refine wp_seq_eq (leaves_of_preserves (preserves_json _)) fun previous => ?_
    refine leaves_of_calm (fun A h hf => wp_handle ?_) hf
    refine wp_mono (calm_startBody hsource List.mem_cons_self List.mem_cons_self A h hf)
      (fun _ _ => id) (fun e t ht => ?_) fun _ => id
    exact calm_startHandler List.mem_cons_self previous ht.2 A t ht.1
  | disarm ingress i =>
    refine wp_seq_eq (leaves_of_preserves (preserves_checkNames _)) fun _ => ?_
    refine wp_seq_eq (leaves_of_preserves (preserves_checkNames _)) fun _ => ?_
    refine wp_seq (leaves_checkRemovalOwnership (i := i) rfl fun f e he => ?_) ?_
    · simpa [Change.removal, removalRules, List.mem_eraseDups] using he
    rintro - m ⟨rfl, hf⟩
    refine leaves_of_calm ?_ hf
    refine keeps_bind (keeps_forM_mem fun j hj => keeps_forM (fun f => ?_) _) fun _ => ?_
    · refine calm_deleteRules ?_ _
      exact List.mem_append_left _ (List.mem_map_of_mem (List.mem_eraseDups.mp hj))
    refine keeps_bind ?_ fun _ => ?_
    · cases i with
      | none => exact keeps_pure _
      | some j =>
        exact calm_deleteRules (List.mem_append_right _ List.mem_cons_self) _
    refine keeps_bind (keeps_forM calm_replaceUnreachable _) fun _ => ?_
    exact keeps_optionally _ fun j => calm_deleteProviderDefault j

end

/-- Whatever fails or is cut, at every step: a conflict leaves rules and routes as they were; a rule
is missing only if a removal names it; a route command has replaced or deleted owned defaults only;
and every other route that is missing was one over the interface that `start` has taken down. -/
theorem egress_touches_owned (w : Platform) (c : Change) (h : Host)
    (ks : List (Signal Reply Raised)) :
    ((c.proc w h ks).1 = .raised (.egress .resourceConflict) →
      (c.proc w h ks).2.1.rules = h.rules ∧ (c.proc w h ks).2.1.routes = h.routes) ∧
    (∀ f q, ((c.proc w h ks).2.1.rules f).rules.count q < (h.rules f).rules.count q →
      ∃ e ∈ c.removal f, q = e.rule) ∧
    (∀ x ∈ (c.proc w h ks).2.1.taken, x ∈ h.taken ∨ x.2.table = tableId ∧ Owned c.egress x.2) ∧
    ∀ f, ∀ q ∈ h.routes f, q ∉ (c.proc w h ks).2.1.routes f →
      (f, q) ∈ (c.proc w h ks).2.1.taken ∨ ∃ i ∈ c.links, q.dev = some i := by
  have hpost := (c.wp_proc (A := .any) w h).holds (any_script ks)
  have htouched : Touched h c.egress c.removal c.links (c.proc w h ks).2.1 := by
    revert hpost
    cases (c.proc w h ks).1 with
    | ok _ => exact id
    | raised e => exact fun hpost => hpost.2
    | crashed => exact id
  refine ⟨fun hraised => ?_, htouched.kept, htouched.taken, fun f q hq hgone => ?_⟩
  · rw [hraised] at hpost
    exact hpost.1 rfl
  · exact (htouched.lost f q hq).resolve_left hgone

end ExitLane.Egress
