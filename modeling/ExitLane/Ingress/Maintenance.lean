import ExitLane.Ingress.Identity
import ExitLane.Nft.Objects
import ExitLane.Effect.Machine

/-!
# The maintenance guard

`MaintenanceGuard` protects ingress identities while their state is replaced: one table of its own
drops what enters by an armed interface or comes from an armed subnet. Every command of nft may fail
or be cancelled, before or after it has taken effect; a transaction is atomic.

* `wp_arm`: what is left of a call of `arm`, however it ends;
* `Guard.Sound`: what holds of a guard between its calls;
* `guard_monotone_exact_retryable_iff`: over every run the table only grows until `release` deletes
  it, is adopted and released only if it is exact, and a call of `arm` that failed can be repeated
  if and only if it did not extend an active guard by a transaction that took effect unnoticed.
-/

namespace ExitLane.Ingress

open Python IpAddress Effect IngressIdentity
open Nft (Table Object Header Hook)

/-! ## The policy -/

def guardTable : Text := "exitlane_recovery_guard".toList

/-- `ip saddr` of the subnet, as `identity.subnet.split("/")` gives it. -/
def IngressIdentity.source (i : IngressIdentity) : Nft.Prefix :=
  ⟨.v4, i.network.ip, i.network.prefixLength⟩

inductive GuardChain where
  | forward
  | input
  | output
  deriving DecidableEq

def GuardChain.name : GuardChain → Text
  | .forward => "forward".toList
  | .input => "input".toList
  | .output => "output".toList

def GuardChain.hook : GuardChain → Hook
  | .forward => .forward
  | .input => .input
  | .output => .output

def dropIif (i : IngressIdentity) : Nft.Rule := ⟨[.iif i.interface], .verdict .drop⟩

def dropSaddr (i : IngressIdentity) : Nft.Rule := ⟨[.saddr i.source], .verdict .drop⟩

/-- What the inner loop of `objects` appends for one identity. -/
def GuardChain.rules (c : GuardChain) (i : IngressIdentity) : List Nft.Rule :=
  (if c = .output then [] else [dropIif i]) ++ [dropSaddr i]

def GuardChain.header (c : GuardChain) (identities : List IngressIdentity) : Header :=
  ⟨c.name, .filter, c.hook, -300,
    if c = .forward ∧ identities = [] then .drop else .accept⟩

variable (identities : List IngressIdentity)

/-- The loop of `objects` over the three chains. -/
def looseObjects : List Object :=
  .table guardTable :: [GuardChain.forward, .input, .output].flatMap fun c =>
    .chain (c.header identities) :: (identities.flatMap c.rules).map (.rule c.name)

def isTable : Object → Bool
  | .table _ => true
  | _ => false

def isChain : Object → Bool
  | .chain _ => true
  | _ => false

def isRule : Object → Bool
  | .rule _ _ => true
  | _ => false

/-- `objects`: the declarations ahead of the rules. -/
def objects : List Object :=
  [isTable, isChain, isRule].flatMap fun kind => (looseObjects identities).filter kind

/-- The table that lists as `objects`. -/
def policy : Table :=
  ⟨guardTable, [], [GuardChain.forward, .input, .output].map fun c =>
    (c.header identities).chain (identities.flatMap c.rules)⟩

private theorem filter_rules {k : Object → Bool} (h : ∀ n r, k (.rule n r) = false)
    (n : Text) (rules : List Nft.Rule) : (rules.map (Object.rule n)).filter k = [] := by
  rw [List.filter_eq_nil_iff]
  intro o ho
  obtain ⟨r, -, rfl⟩ := List.mem_map.mp ho
  rw [h n r]
  exact Bool.false_ne_true

theorem objects_policy : (policy identities).objects = objects identities := by
  have hrule (n : Text) (rules : List Nft.Rule) : (rules.map (Object.rule n)).filter isRule =
      rules.map (Object.rule n) := by
    rw [List.filter_eq_self]
    intro o ho
    obtain ⟨r, -, rfl⟩ := List.mem_map.mp ho
    rfl
  have htables : (looseObjects identities).filter isTable = [.table guardTable] := by
    simp only [looseObjects, List.flatMap_cons, List.flatMap_nil, List.cons_append,
      List.append_nil, List.filter_append, List.filter_cons, isTable, Bool.false_eq_true, if_true,
      if_false, filter_rules (k := isTable) fun _ _ => rfl]
  have hchains : (looseObjects identities).filter isChain =
      [GuardChain.forward, .input, .output].map fun c => .chain (c.header identities) := by
    simp only [looseObjects, List.flatMap_cons, List.flatMap_nil, List.cons_append,
      List.append_nil, List.filter_append, List.filter_cons, isChain, Bool.false_eq_true, if_true,
      if_false, filter_rules (k := isChain) fun _ _ => rfl, List.nil_append, List.map_cons,
      List.map_nil]
  have hrules : (looseObjects identities).filter isRule =
      [GuardChain.forward, .input, .output].flatMap fun c =>
        (identities.flatMap c.rules).map (.rule c.name) := by
    simp only [looseObjects, List.flatMap_cons, List.flatMap_nil, List.cons_append,
      List.append_nil, List.filter_append, List.filter_cons, isRule, Bool.false_eq_true, if_false,
      hrule]
  simp [objects, htables, hchains, hrules, policy, Table.objects, Nft.Chain.ruleObjects,
    Header.chain, Nft.Chain.header, GuardChain.header]

theorem nodup_policy : ((policy identities).chains.map (·.name)).Nodup := by
  have hnames : (policy identities).chains.map (·.name) =
      [GuardChain.forward, .input, .output].map GuardChain.name := rfl
  rw [hnames]
  decide

/-- Adding the objects makes the policy. -/
theorem foldl_add_objects : (objects identities).foldl Nft.add none = some (policy identities) := by
  rw [← objects_policy, Nft.foldl_add_objects (nodup_policy identities)]

theorem eq_policy {T : Table} {identities : List IngressIdentity}
    (h : T.objects = objects identities) : T = policy identities :=
  Nft.eq_of_objects_eq (nodup_policy identities) (h.trans (objects_policy identities).symm)

theorem eq_of_objects_eq {l l' : List IngressIdentity} (h : objects l = objects l') : l = l' := by
  have hpolicy : policy l = policy l' := eq_policy ((objects_policy l).trans h)
  have hforward : l.flatMap GuardChain.forward.rules = l'.flatMap GuardChain.forward.rules := by
    have hhead := congrArg (fun T : Table => T.chains.head?.map (·.rules)) hpolicy
    exact Option.some.inj hhead
  clear h hpolicy
  induction l generalizing l' with
  | nil =>
    cases l' with
    | nil => rfl
    | cons j l' => cases hforward
  | cons i l ih =>
    cases l' with
    | nil => cases hforward
    | cons j l' =>
      have hrules (k : IngressIdentity) : GuardChain.forward.rules k = [dropIif k, dropSaddr k] :=
        rfl
      simp only [List.flatMap_cons, hrules, List.cons_append, List.nil_append,
        List.cons.injEq, dropIif, dropSaddr, Nft.Rule.mk.injEq, Nft.Selector.iif.injEq,
        Nft.Selector.saddr.injEq, and_true] at hforward
      obtain ⟨hiif, hsource, hrest⟩ := hforward
      have hnetwork : i.network = j.network := by
        have hip := congrArg Nft.Prefix.address hsource
        have hlength := congrArg Nft.Prefix.length hsource
        cases hi : i.network
        cases hj : j.network
        simp only [source, hi, hj] at hip hlength
        subst hip hlength
        rfl
      rw [ext_texts hiif (congrArg Interface.text hnetwork), ih hrest]

/-! ## Packets -/

/-- The packet enters by the interface of the identity, or its source lies in the subnet. -/
def IngressIdentity.Concerns (i : IngressIdentity) (p : Nft.Packet) : Prop :=
  p.iif = some i.interface ∨ i.source.contains p.family p.src = true

/-- The table drops the packet on its way through the host and into it. -/
def Drops (T : Table) (p : Nft.Packet) : Prop :=
  T.passes .forward p = false ∧ T.passes .input p = false

theorem policy_drops {l : List IngressIdentity} {i : IngressIdentity} (hi : i ∈ l)
    {p : Nft.Packet} (hp : i.Concerns p) : Drops (policy l) p := by
  have hchain (c : GuardChain) (hc : c ≠ .output) : (policy l).passes c.hook p = false := by
    have hmem : (c.header l).chain (l.flatMap c.rules) ∈ (policy l).chains :=
      List.mem_map.mpr ⟨c, by cases c <;> decide, rfl⟩
    have hrules : c.rules i = [dropIif i, dropSaddr i] := by rw [GuardChain.rules, if_neg hc]; rfl
    have hdrop : ∀ r ∈ l.flatMap c.rules, r.action = .verdict .drop := by
      intro r hr
      obtain ⟨j, -, hr⟩ := List.mem_flatMap.mp hr
      rw [GuardChain.rules, if_neg hc] at hr
      simp only [List.cons_append, List.nil_append, List.mem_cons, List.not_mem_nil,
        or_false] at hr
      rcases hr with rfl | rfl <;> rfl
    have haccepts : ((c.header l).chain (l.flatMap c.rules)).accepts (policy l) p = false := by
      rcases hp with hiif | hsource
      · refine Nft.accepts_of_drops hdrop (r := dropIif i)
          (List.mem_flatMap.mpr ⟨i, hi, by simp [hrules]⟩) ?_
        simp [dropIif, Nft.Rule.fires, Nft.Selector.holds, hiif]
      · refine Nft.accepts_of_drops hdrop (r := dropSaddr i)
          (List.mem_flatMap.mpr ⟨i, hi, by simp [hrules]⟩) ?_
        simp [dropSaddr, Nft.Rule.fires, Nft.Selector.holds, hsource]
    rw [Table.passes, List.all_eq_false]
    refine ⟨_, hmem, ?_⟩
    rw [haccepts]
    simp [Header.chain, GuardChain.header]
  exact ⟨hchain .forward (by decide), hchain .input (by decide)⟩

/-! ## The guard -/

/-- The table of the kernel and the attributes of the object. -/
structure Guard where
  table : Option Table
  identities : List IngressIdentity
  active : Bool
  deriving DecidableEq

inductive GuardCode where
  | containerRecoveryGuardFailed
  | containerRecoveryGuardUnproven
  | containerRecoveryGuardInvalid
  | cancelled
  deriving DecidableEq

abbrev GuardAct := Proc Guard Unit GuardCode

def observed : GuardAct Unit :=
  .check fun g => match g.table with
    | none => .error .containerRecoveryGuardFailed
    | some T =>
      if T.objects = objects identities then .ok () else .error .containerRecoveryGuardUnproven

/-- The transaction: the table is deleted if it is there, and added object by object. -/
def load (present : Bool) (identities : List IngressIdentity) : GuardAct Unit :=
  .atomic fun g =>
    { g with table := (objects identities).foldl Nft.add (if present then none else g.table) }

variable (g : Guard) (requested : List IngressIdentity)

def Guard.total : List IngressIdentity :=
  sorted (g.identities ++ sorted requested)

/-- The identities whose policy an existing table must be. -/
def Guard.expected : List IngressIdentity :=
  if g.active then g.identities else sorted requested

def arm : GuardAct Unit := do
  .demand (requested.length ≤ 8) .containerRecoveryGuardInvalid
  let present ← .check fun g => .ok g.table.isSome
  let g ← .look id
  .when present (observed (g.expected requested))
  .demand ((g.total requested).length ≤ 8) .containerRecoveryGuardInvalid
  -- `nft -c` changes nothing.
  .check fun _ => .ok ()
  load present (g.total requested)
  .modify fun g' => { g' with identities := g.total requested, active := true }
  observed (g.total requested)

def release : GuardAct Unit := do
  let g ← .look id
  .demand g.active .containerRecoveryGuardUnproven
  observed g.identities
  .atomic fun g => { g with table := none }
  .modify fun g => { g with active := false, identities := [] }

/-! ## What a call leaves behind -/

/-- The table is missing, or exactly the policy that the guard expects. -/
def Guard.Exact : Prop :=
  ∀ T, g.table = some T → T.objects = objects (g.expected requested)

/-- Nothing but a failing command stands in the way of the call. -/
structure Guard.Admits (g : Guard) (requested : List IngressIdentity) : Prop where
  requested_le : requested.length ≤ 8
  exact : g.Exact requested
  total_le : (g.total requested).length ≤ 8

/-- The transaction has taken effect, and the object does not know it yet. -/
def Guard.loaded : Guard :=
  { g with table := some (policy (g.total requested)) }

def Guard.armed : Guard :=
  ⟨some (policy (g.total requested)), g.total requested, true⟩

/-- The states in which a call of `arm` may stop. -/
def Guard.Cut (g' : Guard) : Prop :=
  g' = g ∨ g.Admits requested ∧ (g' = g.loaded requested ∨ g' = g.armed requested)

section Arm
variable {g g' : Guard} {requested identities : List IngressIdentity} {A : Regime Unit GuardCode}

theorem wp_observed {E : GuardCode → Guard → Prop} {C : Guard → Prop} {Q : Unit → Guard → Prop}
    (hok : ∀ T, g.table = some T → T.objects = objects identities → Q () g)
    (herror : ∀ e, E e g) (hcrash : C g) : wp A (observed identities) Q E C g := by
  refine wp_check (fun _ h => ?_) (fun e _ => herror e) (fun _ e _ => herror e) fun _ _ => hcrash
  split at h
  · cases h
  · next T hT =>
    split at h
    · next heq => exact hok T hT heq
    · cases h

/-- The transaction makes the table the policy, whether or not it was there. -/
theorem load_eq (g : Guard) (identities : List IngressIdentity) :
    (objects identities).foldl Nft.add (if g.table.isSome then none else g.table) =
      some (policy identities) := by
  rw [← foldl_add_objects]
  cases g.table <;> rfl

theorem wp_arm (g : Guard) (requested : List IngressIdentity) : wpElse A (arm requested)
    (fun _ g' => g.Admits requested ∧ g' = g.armed requested) (g.Cut requested) g := by
  have hself : g.Cut requested g := .inl rfl
  refine wp_bind (wp_demand (fun hlen => ?_) fun _ => hself)
  refine wp_seq_check hself fun present hpresent => ?_
  obtain rfl := Except.ok.inj hpresent
  refine wp_bind (wp_look ?_)
  refine wp_seq (R := fun _ g' => g.Exact requested ∧ g' = g) (wp_when ?_ ?_) ?_
  · intro hsome
    refine wp_observed (fun T hT hobs => ⟨fun U hU => ?_, rfl⟩) (fun _ => hself) hself
    rw [hT] at hU
    cases hU
    exact hobs
  · intro hnone
    refine ⟨fun T hT => ?_, rfl⟩
    rw [hT] at hnone
    cases hnone
  rintro - g ⟨hexact, rfl⟩
  refine wp_bind (wp_demand (fun htotal => ?_) fun _ => hself)
  have hadmits : g.Admits requested := ⟨by simpa using hlen, hexact, by simpa using htotal⟩
  have hloaded : g.Cut requested (g.loaded requested) := .inr ⟨hadmits, .inl rfl⟩
  have harmed : g.Cut requested (g.armed requested) := .inr ⟨hadmits, .inr rfl⟩
  refine wp_seq_check hself fun _ _ => ?_
  refine wp_seq_eq (t := g.loaded requested) (wp_atomic ?_ (fun _ _ _ => ⟨hself, ?_⟩)
    fun _ _ => ⟨hself, ?_⟩) fun _ => ?_
  · simp only [id, load_eq, Guard.loaded]
  · simp only [id, load_eq]
    exact hloaded
  · simp only [id, load_eq]
    exact hloaded
  refine wp_seq_eq (t := g.armed requested) (wp_modify rfl) fun _ => ?_
  exact wp_observed (fun _ _ _ => ⟨hadmits, rfl⟩) (fun _ => harmed) harmed

/-- No command fails. -/
def quiet : Regime Unit GuardCode := .faultFree (fun _ => True) trivial

theorem wp_arm_quiet (h : g.Admits requested) :
    wpElse quiet (arm requested) (fun _ g' => g' = g.armed requested) (fun _ => False) g := by
  have hab : Absorbs quiet (fun _ (_ : Guard) => False) (fun _ => False) := absorbs_faultFree
  refine wp_seq_eq (t := g) (wp_demand (fun _ => rfl) fun hlen => ?_) fun _ => ?_
  · exact absurd h.requested_le (by simpa using hlen)
  refine wp_seq (R := fun present g' => present = g.table.isSome ∧ g' = g)
    (hab.check (fun _ hp => ⟨(Except.ok.inj hp).symm, rfl⟩) fun _ he => by cases he) ?_
  rintro present g1 ⟨rfl, rfl⟩
  refine wp_bind (wp_look ?_)
  refine wp_seq_eq (t := g1) (wp_when (fun hsome => ?_) fun _ => rfl) fun _ => ?_
  · obtain ⟨T, hT⟩ := Option.isSome_iff_exists.mp hsome
    refine hab.check (fun _ _ => rfl) fun e he => ?_
    simp only [id, hT, if_pos (h.exact T hT)] at he
    cases he
  refine wp_seq_eq (t := g1) (wp_demand (fun _ => rfl) fun hlen => ?_) fun _ => ?_
  · exact absurd h.total_le (by simpa using hlen)
  refine wp_seq_eq (t := g1) (hab.check (fun _ _ => rfl) fun _ he => by cases he) fun _ => ?_
  refine wp_seq_eq (t := g1.loaded requested) (hab.atomic ?_) fun _ => ?_
  · simp only [id, load_eq, Guard.loaded]
  refine wp_seq_eq (t := g1.armed requested) (wp_modify rfl) fun _ => ?_
  refine hab.check (fun _ _ => rfl) fun e he => ?_
  simp only [id, Guard.armed, objects_policy, if_true] at he
  cases he

/-- The call returns if no command fails. -/
def Guard.Succeeds (g : Guard) (requested : List IngressIdentity) : Prop :=
  ∀ ks, quiet.Script ks → (arm requested g ks).1 = .ok ()

theorem succeeds_iff : g.Succeeds requested ↔ g.Admits requested := by
  constructor
  · intro h
    have hnil : quiet.Script [] := fun _ hk => absurd hk List.not_mem_nil
    have hpost := (wp_arm (A := quiet) g requested).holds hnil
    rw [h [] hnil] at hpost
    exact hpost.1
  · intro h ks hks
    obtain ⟨_, hok, -⟩ := (wp_arm_quiet h).returns hks
    exact hok

/-! ## A guard between its calls -/

/-- The object knows a sorted list of identities, none if it is not active. -/
structure Guard.Sound (g : Guard) : Prop where
  inactive : g.active = false → g.identities = []
  sorted : sorted g.identities = g.identities

theorem Guard.Sound.total_eq (h : g.Sound) (hsub : requested ⊆ g.identities) :
    g.total requested = g.identities := by
  rw [Guard.total]
  nth_rewrite 2 [← h.sorted]
  refine sorted_congr fun i => ?_
  rw [List.mem_append, mem_sorted]
  exact ⟨fun hi => hi.elim id fun hi => hsub hi, .inl⟩

theorem Guard.Sound.total_inactive (h : g.Sound) (hoff : g.active = false) :
    g.total requested = IngressIdentity.sorted requested := by
  rw [Guard.total, h.inactive hoff, List.nil_append, sorted_sorted]

theorem subset_total : requested ⊆ g.total requested := fun i hi => by
  rw [Guard.total, mem_sorted, List.mem_append, mem_sorted]
  exact .inr hi

theorem identities_subset_total : g.identities ⊆ g.total requested := fun i hi => by
  rw [Guard.total, mem_sorted, List.mem_append]
  exact .inl hi

theorem Guard.Sound.armed (g : Guard) (requested : List IngressIdentity) :
    (g.armed requested).Sound :=
  ⟨fun h => (by cases h), sorted_sorted _⟩

theorem Guard.Sound.cut (h : g.Sound) (hcut : g.Cut requested g') : g'.Sound := by
  rcases hcut with rfl | ⟨-, rfl | rfl⟩
  · exact h
  · exact ⟨h.inactive, h.sorted⟩
  · exact .armed g requested

/-! ## Repeating a call -/

theorem armed_admits (h : g.Admits requested) : (g.armed requested).Admits requested := by
  refine ⟨h.requested_le, fun T hT => ?_, ?_⟩
  · cases hT
    exact objects_policy _
  · have hsub : (g.armed requested).identities ++ IngressIdentity.sorted requested ⊆
        g.total requested := fun i hi => by
      rcases List.mem_append.mp hi with hi | hi
      · exact hi
      · exact subset_total (mem_sorted.mp hi)
    exact Nat.le_trans (length_sorted_le_of_subset hsub) h.total_le

theorem loaded_admits_iff (hs : g.Sound) (h : g.Admits requested) :
    (g.loaded requested).Admits requested ↔ ¬ (g.active = true ∧ ¬ requested ⊆ g.identities) := by
  have hexact : (g.loaded requested).Exact requested ↔
      g.total requested = g.expected requested := by
    constructor
    · exact fun h => eq_of_objects_eq ((objects_policy _).symm.trans (h _ rfl))
    · rintro heq T hT
      cases hT
      rw [objects_policy, heq]
      rfl
  have htotal : g.total requested = g.expected requested ↔
      ¬ (g.active = true ∧ ¬ requested ⊆ g.identities) := by
    unfold Guard.expected
    cases hactive : g.active with
    | false => simp [hs.total_inactive hactive]
    | true =>
      simp only [if_true, true_and, Decidable.not_not]
      exact ⟨fun heq => heq ▸ subset_total, hs.total_eq⟩
  rw [← htotal, ← hexact]
  exact ⟨fun h => h.exact, fun he => ⟨h.requested_le, he, h.total_le⟩⟩

/-- The transaction of the call has taken effect, and the call has not returned. -/
def Guard.Unnoticed (g : Guard) (requested : List IngressIdentity) (g' : Guard) : Prop :=
  g' = g.loaded requested ∧ g.active = true ∧ ¬ requested ⊆ g.identities

theorem succeeds_again_iff (hs : g.Sound) (hlen : requested.length ≤ 8)
    (htotal : (g.total requested).length ≤ 8) (hcut : g.Cut requested g') :
    g'.Succeeds requested ↔ g.Exact requested ∧ ¬ g.Unnoticed requested g' := by
  rw [succeeds_iff]
  have hsame (hexact : g.Exact requested) : ¬ g.Unnoticed requested g := by
    rintro ⟨heq, hactive, hsub⟩
    have hobs := hexact (policy (g.total requested)) (congrArg Guard.table heq)
    rw [objects_policy, Guard.expected, if_pos hactive] at hobs
    exact hsub (eq_of_objects_eq hobs ▸ subset_total)
  rcases hcut with rfl | ⟨hadmits, rfl | rfl⟩
  · exact ⟨fun h => ⟨h.exact, hsame h.exact⟩, fun h => ⟨hlen, h.1, htotal⟩⟩
  · rw [loaded_admits_iff hs hadmits]
    exact ⟨fun h => ⟨hadmits.exact, fun hu => h hu.2⟩, fun h hu => h.2 ⟨rfl, hu⟩⟩
  · refine iff_of_true (armed_admits hadmits) ⟨hadmits.exact, ?_⟩
    rintro ⟨heq, hactive, hsub⟩
    have hids : g.total requested = g.identities := congrArg Guard.identities heq
    exact hsub (hids ▸ subset_total)

end Arm

/-! ## Runs -/

inductive GuardCall where
  | arm (requested : List IngressIdentity)
  | release

def GuardCall.body : GuardCall → GuardAct Unit
  | .arm requested => Ingress.arm requested
  | .release => Ingress.release

/-- A call with the fate of its commands, or a new process with a new object. -/
inductive GuardStep where
  | call (call : GuardCall) (ks : List (Signal Unit GuardCode))
  | restart

inductive GuardEvent where
  /-- The table is the policy of a call for these identities. -/
  | armed (requested : List IngressIdentity)
  | deleted
  deriving DecidableEq

def Guard.restarted : Guard := ⟨g.table, [], false⟩

def Guard.events (g g' : Guard) : GuardCall → List GuardEvent
  | .arm requested =>
    if g'.table = some (policy (g.total requested)) then [.armed requested] else []
  | .release => if g'.table = g.table then [] else [.deleted]

def Guard.step : GuardStep → Option (Guard × List GuardEvent)
  | .call call ks =>
    let g' := (call.body g ks).2.1
    some (g', g.events g' call)
  | .restart => some (g.restarted, [])

/-- The guard of a new process over a kernel with or without a table of that name. -/
def guardMachine (table : Option Table) : Machine Guard GuardStep GuardEvent :=
  ⟨⟨table, [], false⟩, Guard.step⟩

section Runs
variable {g g' : Guard} {requested : List IngressIdentity} {past : List GuardEvent}
  {table : Option Table}

/-- The guard is active, and its table is the policy of its identities. -/
def Guard.Owned (g : Guard) : Prop :=
  g.active = true ∧ ∃ T, g.table = some T ∧ T.objects = objects g.identities

/-- The states in which a call of `release` may stop. -/
def Guard.Left (g g' : Guard) : Prop :=
  g' = g ∨ g.Owned ∧ (g' = { g with table := none } ∨ g' = ⟨none, [], false⟩)

theorem wp_release {A : Regime Unit GuardCode} (g : Guard) :
    wpElse A release (fun _ => g.Left) g.Left g := by
  have hself : g.Left g := .inl rfl
  refine wp_bind (wp_look ?_)
  refine wp_bind (wp_demand (fun hactive => ?_) fun _ => hself)
  refine wp_seq (R := fun _ g' => g.Owned ∧ g' = g)
    (wp_observed (fun T hT hobs => ⟨⟨hactive, T, hT, hobs⟩, rfl⟩) (fun _ => hself) hself) ?_
  rintro - g2 ⟨howned, rfl⟩
  have hgone : g2.Left { g2 with table := none } := .inr ⟨howned, .inl rfl⟩
  refine wp_seq_eq (t := { g2 with table := none }) (wp_atomic rfl (fun _ _ _ => ⟨hself, hgone⟩)
    fun _ _ => ⟨hself, hgone⟩) fun _ => ?_
  exact wp_modify (.inr ⟨howned, .inr rfl⟩)

theorem cut_arm (g : Guard) (requested : List IngressIdentity)
    (ks : List (Signal Unit GuardCode)) : g.Cut requested (arm requested g ks).2.1 :=
  (wp_post (wp_arm (A := .any) g requested) fun _ _ h => .inr ⟨h.1, .inr h.2⟩).always
    (any_script ks)

theorem left_release (g : Guard) (ks : List (Signal Unit GuardCode)) : g.Left (release g ks).2.1 :=
  (wp_release (A := .any) g).always (any_script ks)

/-- Every identity of a call that took effect is in the table, until the table is deleted. -/
def Guarded (g : Guard) (past : List GuardEvent) : Prop :=
  ∀ requested, Unspent (· = .deleted) past (.armed requested) →
    ∃ l, g.table = some (policy l) ∧ requested ⊆ l

/-- A transaction replaces a policy by one that holds its identities. -/
theorem expected_subset_total : g.expected requested ⊆ g.total requested := by
  unfold Guard.expected
  split
  · exact identities_subset_total
  · exact fun i hi => subset_total (mem_sorted.mp hi)

theorem Guarded.of_table (h : Guarded g past) (htable : g'.table = g.table) : Guarded g' past :=
  fun requested hr => htable ▸ h requested hr

theorem Guarded.arm (h : Guarded g past) (hcut : g.Cut requested g') :
    Guarded g' (g.events g' (.arm requested) ++ past) := by
  have hold : Guarded g' past := by
    rcases hcut with rfl | ⟨hadmits, hg'⟩
    · exact h
    · have htable : g'.table = some (policy (g.total requested)) := by
        rcases hg' with rfl | rfl <;> rfl
      intro r hr
      obtain ⟨l, hl, hsub⟩ := h r hr
      -- The transaction was sent only because the table was the policy of the expected identities.
      have hexpected : l = g.expected requested :=
        eq_of_objects_eq ((objects_policy l).symm.trans (hadmits.exact _ hl))
      exact ⟨_, htable, fun i hi => expected_subset_total (hexpected ▸ hsub hi)⟩
  simp only [Guard.events]
  split
  · next htable =>
    intro r hr
    rcases unspent_cons_iff.mp hr with heq | ⟨-, hr⟩
    · cases heq
      exact ⟨_, htable, subset_total⟩
    · exact hold r hr
  · exact hold

theorem Guarded.release (h : Guarded g past) (g' : Guard) :
    Guarded g' (g.events g' .release ++ past) := by
  simp only [Guard.events]
  split
  · next htable => exact h.of_table htable
  · intro r hr
    rcases unspent_cons_iff.mp hr with heq | ⟨hne, -⟩
    · cases heq
    · exact absurd rfl hne

theorem Guard.Sound.left (h : g.Sound) (hleft : g.Left g') : g'.Sound := by
  rcases hleft with rfl | ⟨-, rfl | rfl⟩
  · exact h
  · exact ⟨h.inactive, h.sorted⟩
  · exact ⟨fun _ => rfl, rfl⟩

theorem run_guarded (h : (guardMachine table).Run g past) : g.Sound ∧ Guarded g past := by
  refine h.invariant (I := fun g past => g.Sound ∧ Guarded g past) ⟨⟨fun _ => rfl, rfl⟩, ?_⟩ ?_
  · rintro r ⟨newer, older, heq, -⟩
    exact absurd heq (by simp)
  · rintro g past (⟨requested | -, ks⟩ | -) g' new ⟨hs, hg⟩ hstep
    · cases hstep
      have hcut := cut_arm g requested ks
      exact ⟨hs.cut hcut, hg.arm hcut⟩
    · cases hstep
      have hleft := left_release g ks
      exact ⟨hs.left hleft, hg.release _⟩
    · cases hstep
      exact ⟨⟨fun _ => rfl, rfl⟩, hg.of_table rfl⟩

/-- Over every run: what was armed stays closed until the table is deleted; it is deleted only where
it is exactly the guard's; a guard that is not active changes nothing if it finds a table that is
not the policy of the request; and a call that failed can be repeated just where its table was as
expected and it did not extend an active guard unnoticed. -/
theorem guard_monotone_exact_retryable_iff (h : (guardMachine table).Run g past) :
    (∀ requested, Unspent (· = .deleted) past (.armed requested) → ∀ i ∈ requested,
      ∀ p, i.Concerns p → ∃ T, g.table = some T ∧ Drops T p) ∧
    (∀ ks, (release g ks).2.1.table ≠ g.table → g.Owned ∧ (release g ks).2.1.table = none) ∧
    (∀ requested T, g.active = false → g.table = some T → T.objects ≠ objects (sorted requested) →
      ∀ ks, (arm requested g ks).1 ≠ .ok () ∧ (arm requested g ks).2.1 = g) ∧
    ∀ requested ks, requested.length ≤ 8 → (g.total requested).length ≤ 8 →
      (arm requested g ks).1 ≠ .ok () →
        ((arm requested g ks).2.1.Succeeds requested ↔
          g.Exact requested ∧ ¬ g.Unnoticed requested (arm requested g ks).2.1) := by
  obtain ⟨hs, hg⟩ := run_guarded h
  refine ⟨fun r hr i hi p hp => ?_, fun ks hne => ?_, fun r T hoff hT hne ks => ?_,
    fun r ks hlen htotal _ => succeeds_again_iff hs hlen htotal (cut_arm g r ks)⟩
  · obtain ⟨l, hl, hsub⟩ := hg r hr
    exact ⟨policy l, hl, policy_drops (hsub hi) hp⟩
  · rcases left_release g ks with heq | ⟨howned, heq | heq⟩
    · exact absurd (congrArg Guard.table heq) hne
    · exact ⟨howned, congrArg Guard.table heq⟩
    · exact ⟨howned, congrArg Guard.table heq⟩
  · have hrefused : ¬ g.Admits r := by
      intro hadmits
      have hobs := hadmits.exact T hT
      rw [Guard.expected, hoff] at hobs
      exact hne hobs
    refine ⟨fun hok => ?_, (cut_arm g r ks).resolve_right fun hcut => hrefused hcut.1⟩
    have hpost := (wp_arm (A := .any) g r).holds (any_script ks)
    rw [hok] at hpost
    exact hrefused hpost.1

/-! ## An extension that takes effect unnoticed -/

theorem slash_24 : 24 ≤ 32 := by decide

/-- 10.8.0.0/24 on `wg0`. -/
def wg0 : IngressIdentity :=
  ⟨"wg0".toList, ⟨10 * 2 ^ 24 + 8 * 2 ^ 16, 24, by decide, slash_24⟩, by decide, by decide,
    by decide⟩

/-- 10.9.0.0/24 on `wg1`. -/
def wg1 : IngressIdentity :=
  ⟨"wg1".toList, ⟨10 * 2 ^ 24 + 9 * 2 ^ 16, 24, by decide, slash_24⟩, by decide, by decide,
    by decide⟩

/-- The guard of `wg0`. -/
def guardOfWg0 : Guard := ⟨some (policy [wg0]), [wg0], true⟩

/-- The fourth command, the transaction, takes effect and is reported as failed. -/
def lostReply : List (Signal Unit GuardCode) :=
  [.go (), .go (), .go (), .fail 1 .containerRecoveryGuardFailed]

theorem run_guardOfWg0 : (guardMachine none).Run guardOfWg0 [.armed [wg0]] := by
  have hdrive : (guardMachine none).drive [.call (.arm [wg0]) []] (guardMachine none).init [] =
      some (guardOfWg0, [.armed [wg0]]) := by decide +kernel
  exact Machine.Run.drive .start hdrive

/-- A packet that enters by `wg0`. -/
def fromWg0 : Nft.Packet := ⟨some "wg0".toList, none, .v4, 0, 0, none, false⟩

/-- The guard of `wg0` after an extension by `wg1`. -/
def guardOfBoth : Guard := (arm [wg1] guardOfWg0 []).2.1

/-- After the extension `wg0` is closed as before, and a call that fails is repeated as the theorem
says. -/
theorem guard_of_both_drops :
    (∃ T, guardOfBoth.table = some T ∧ Drops T fromWg0) ∧
    ((arm [wg1] guardOfBoth lostReply).2.1.Succeeds [wg1] ↔ guardOfBoth.Exact [wg1] ∧
      ¬ guardOfBoth.Unnoticed [wg1] (arm [wg1] guardOfBoth lostReply).2.1) := by
  have hdrive : (guardMachine none).drive [.call (.arm [wg0]) [], .call (.arm [wg1]) []]
      (guardMachine none).init [] = some (guardOfBoth, [.armed [wg1], .armed [wg0]]) := by
    decide +kernel
  have hall := guard_monotone_exact_retryable_iff (Machine.Run.drive .start hdrive)
  exact ⟨hall.1 [wg0] ((Unspent.start _ _ _).cons nofun) wg0 List.mem_cons_self fromWg0 (.inl rfl),
    hall.2.2.2 [wg1] lostReply (by decide) (by decide +kernel) (by decide +kernel)⟩

theorem unnoticed_extension_not_retryable :
    (guardMachine none).Run guardOfWg0 [.armed [wg0]] ∧
      (arm [wg1] guardOfWg0 lostReply).1 = .raised .containerRecoveryGuardFailed ∧
      ¬ (arm [wg1] guardOfWg0 lostReply).2.1.Succeeds [wg1] := by
  refine ⟨run_guardOfWg0, by decide +kernel, fun h => ?_⟩
  have hok := h [] fun _ hk => absurd hk List.not_mem_nil
  revert hok
  decide +kernel

end Runs

end ExitLane.Ingress
