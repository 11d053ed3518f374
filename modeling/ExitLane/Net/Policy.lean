import Mathlib.Data.List.Basic
import Mathlib.Data.List.Pairwise
import Mathlib.Data.List.TakeWhile

/-!
# Policy routing

Rules are scanned in the order of their priorities. A rule that selects the packet
looks its destination up in its table; there the longest prefix wins, then the
smallest metric, and a table without a match lets the scan go on. Addresses and
prefixes are bit lists, so that a prefix contains an address if it is a prefix of it.

The commands are those of `ip`: a rule is inserted behind the rules of its priority and
deleted as the first one that agrees with the given attributes; a route is known by its
table, prefix and metric.
-/

namespace Net

inductive Family where
  | v4
  | v6
  deriving DecidableEq

/-- An address, or the fixed bits of a prefix; `[]` is the default prefix. -/
abbrev Bits := List Bool
abbrev Iface := List Char

inductive Kind where
  | unicast
  | unreachable
  | blackhole
  | prohibit
  | other
  deriving DecidableEq

/-- The protocol attribute as it is printed: absent, a number, or a known name. -/
inductive Protocol where
  | unset
  | number (n : Nat)
  | name (text : List Char)
  deriving DecidableEq

/-- The next hop: on the link, a gateway of the same family, or one of the other family. -/
inductive Hop where
  | link
  | gateway (address : Bits)
  | via (address : Bits)
  deriving DecidableEq

structure Route where
  table : Nat
  dst : Bits
  metric : Nat
  kind : Kind
  hop : Hop
  dev : Option Iface
  protocol : Protocol
  deriving DecidableEq

/-- A rule with its selectors; `extra` stands for further ones, such as a mark. -/
structure Rule where
  priority : Nat
  src : Option Bits
  dst : Option Bits
  iif : Option Iface
  oif : Option Iface
  extra : Option Nat
  table : Nat
  protocol : Protocol
  deriving DecidableEq

structure Packet where
  src : Bits
  dst : Bits
  iif : Option Iface
  oif : Option Iface
  extra : Nat → Bool

/-! ## Lookup -/

def Rule.selects (r : Rule) (p : Packet) : Bool :=
  r.src.all (·.isPrefixOf p.src) && r.dst.all (·.isPrefixOf p.dst) &&
    r.iif.all (fun i => p.iif == some i) && r.oif.all (fun i => p.oif == some i) &&
    r.extra.all p.extra

/-- The longer prefix, then the smaller metric. -/
def Route.better (a b : Route) : Bool :=
  b.dst.length < a.dst.length || (a.dst.length == b.dst.length && a.metric < b.metric)

def best : List Route → Option Route
  | [] => none
  | r :: rest =>
    match best rest with
    | none => some r
    | some s => if s.better r then some s else some r

/-- The routes of a table that contain an address. -/
def candidates (routes : List Route) (table : Nat) (dst : Bits) : List Route :=
  routes.filter fun r => r.table == table && r.dst.isPrefixOf dst

def lookup (routes : List Route) (table : Nat) (dst : Bits) : Option Route :=
  best (candidates routes table dst)

/-- What a rule makes of a packet: nothing if it does not select it or its table has no match. -/
def Rule.claim (r : Rule) (routes : List Route) (p : Packet) : Option Route :=
  if r.selects p then lookup routes r.table p.dst else none

/-- The first rule with a route for the packet, and that route. -/
def resolve (rules : List Rule) (routes : List Route) (p : Packet) : Option (Rule × Route) :=
  rules.findSome? fun r => (r.claim routes p).map (r, ·)

variable {a b : Route} {routes : List Route} {table : Nat} {dst : Bits} {rules : List Rule}
  {p : Packet} {route : Route} {α : Type}

theorem better_asymm (h : a.better b = true) : b.better a = false := by
  simp only [Route.better, Bool.or_eq_true, Bool.and_eq_true, decide_eq_true_eq, beq_iff_eq,
    Bool.or_eq_false_iff, Bool.and_eq_false_iff, decide_eq_false_iff_not, beq_eq_false_iff_ne] at *
  omega

theorem not_better_trans {c : Route} (hab : a.better b = false) (hbc : b.better c = false) :
    a.better c = false := by
  simp only [Route.better, Bool.or_eq_false_iff, Bool.and_eq_false_iff, decide_eq_false_iff_not,
    beq_eq_false_iff_ne] at *
  omega

theorem not_better_self (a : Route) : a.better a = false := by
  simp [Route.better]

theorem best_eq_none {l : List Route} : best l = none ↔ l = [] := by
  cases l with
  | nil => simp [best]
  | cons r rest =>
    simp only [best]
    split
    · simp
    · split <;> simp

/-- The best route is one of the list, and none of the list is better. -/
theorem best_spec {l : List Route} {r : Route} (h : best l = some r) :
    r ∈ l ∧ ∀ s ∈ l, s.better r = false := by
  induction l generalizing r with
  | nil => cases h
  | cons a rest ih =>
    simp only [best] at h
    split at h
    · next hnone =>
      cases h
      rw [best_eq_none] at hnone
      subst hnone
      exact ⟨List.mem_cons_self, fun s hs => by
        rw [List.mem_singleton.mp hs]
        exact not_better_self _⟩
    · next b hb =>
      obtain ⟨hmem, hbest⟩ := ih hb
      split at h
      · next hba =>
        cases h
        refine ⟨List.mem_cons_of_mem _ hmem, fun s hs => ?_⟩
        rcases List.mem_cons.mp hs with rfl | hs
        · exact better_asymm hba
        · exact hbest s hs
      · next hba =>
        cases h
        refine ⟨List.mem_cons_self, fun s hs => ?_⟩
        rcases List.mem_cons.mp hs with rfl | hs
        · exact not_better_self _
        · exact not_better_trans (hbest s hs) (by simpa using hba)

theorem mem_candidates {r : Route} :
    r ∈ candidates routes table dst ↔ r ∈ routes ∧ r.table = table ∧ r.dst <+: dst := by
  simp [candidates]

theorem lookup_spec {r : Route} (h : lookup routes table dst = some r) :
    r ∈ routes ∧ r.table = table ∧ r.dst <+: dst ∧
      ∀ s ∈ routes, s.table = table → s.dst <+: dst → s.better r = false := by
  obtain ⟨hmem, hbest⟩ := best_spec h
  obtain ⟨h1, h2, h3⟩ := mem_candidates.mp hmem
  exact ⟨h1, h2, h3, fun s hs ht hd => hbest s (mem_candidates.mpr ⟨hs, ht, hd⟩)⟩

theorem exists_lookup {r : Route} (hr : r ∈ routes) (ht : r.table = table) (hd : r.dst <+: dst) :
    ∃ s, lookup routes table dst = some s := by
  cases h : lookup routes table dst with
  | some s => exact ⟨s, rfl⟩
  | none =>
    have := mem_candidates.mpr ⟨hr, ht, hd⟩
    rw [best_eq_none.mp h] at this
    cases this

/-- A rule of the list that has a route for the packet ends the scan, at the latest. -/
theorem resolve_of_claim {g : Rule} (hg : g ∈ rules) (hclaim : g.claim routes p = some route) :
    ∃ r s, resolve rules routes p = some (r, s) := by
  cases h : resolve rules routes p with
  | some rs => exact ⟨rs.1, rs.2, rfl⟩
  | none =>
    have := List.findSome?_eq_none_iff.mp h g hg
    rw [hclaim] at this
    cases this

/-- Where a scan ends: at a rule of the list, with nothing from the rules before it. -/
theorem resolve_split {r : Rule} (h : resolve rules routes p = some (r, route)) :
    ∃ before after, rules = before ++ r :: after ∧ r.claim routes p = some route ∧
      ∀ q ∈ before, q.claim routes p = none := by
  obtain ⟨before, q, after, hsplit, hq, hbefore⟩ := List.findSome?_eq_some_iff.mp h
  obtain ⟨s, hs, heq⟩ := Option.map_eq_some_iff.mp hq
  cases heq
  exact ⟨before, after, hsplit, hs, fun q hq => Option.map_eq_none_iff.mp (hbefore q hq)⟩

/-! ## Commands on rules -/

/-- The attributes given to `ip rule del`; what is not given is not compared. -/
structure RuleSpec where
  priority : Option Nat
  dst : Option Bits
  iif : Option Iface
  oif : Option Iface
  table : Option Nat
  protocol : Option Protocol

def RuleSpec.agrees (d : RuleSpec) (r : Rule) : Bool :=
  d.priority.all (· == r.priority) && d.dst.all (r.dst == some ·) && d.iif.all (r.iif == some ·) &&
    d.oif.all (r.oif == some ·) && d.table.all (· == r.table) && d.protocol.all (· == r.protocol)

/-- Behind every rule of the same or a smaller priority number. -/
def insertRule (r : Rule) (rules : List Rule) : List Rule :=
  rules.takeWhile (fun q => q.priority ≤ r.priority) ++
    r :: rules.dropWhile fun q => q.priority ≤ r.priority

theorem insertRule_perm (r : Rule) (rules : List Rule) :
    (insertRule r rules).Perm (r :: rules) := by
  have hsplit := List.takeWhile_append_dropWhile
    (p := fun q : Rule => decide (q.priority ≤ r.priority)) (l := rules)
  refine List.perm_middle.trans ?_
  rw [hsplit]

theorem mem_insertRule {r q : Rule} : q ∈ insertRule r rules ↔ q = r ∨ q ∈ rules := by
  rw [(insertRule_perm r rules).mem_iff, List.mem_cons]

/-- In the order of priorities. -/
def Ordered (rules : List Rule) : Prop := rules.Pairwise fun a b => a.priority ≤ b.priority

theorem le_of_mem_takeWhile {r q : Rule}
    (h : q ∈ rules.takeWhile fun q => q.priority ≤ r.priority) : q.priority ≤ r.priority := by
  simpa using List.mem_takeWhile_imp h

theorem lt_of_mem_dropWhile {r q : Rule} (hordered : Ordered rules)
    (h : q ∈ rules.dropWhile fun q => q.priority ≤ r.priority) : r.priority < q.priority := by
  induction rules with
  | nil => cases h
  | cons a rest ih =>
    obtain ⟨ha, hrest⟩ := List.pairwise_cons.mp hordered
    rw [List.dropWhile_cons] at h
    split at h
    · exact ih hrest h
    · next hgt =>
      have hlt : r.priority < a.priority := by simpa using hgt
      rcases List.mem_cons.mp h with rfl | hq
      · exact hlt
      · exact Nat.lt_of_lt_of_le hlt (ha q hq)

theorem ordered_insertRule {r : Rule} (h : Ordered rules) : Ordered (insertRule r rules) := by
  have hsplit : Ordered (rules.takeWhile (fun q => q.priority ≤ r.priority) ++
      rules.dropWhile fun q => q.priority ≤ r.priority) := by
    rw [List.takeWhile_append_dropWhile]
    exact h
  obtain ⟨htake, hdrop, hcross⟩ := List.pairwise_append.mp hsplit
  refine List.pairwise_append.mpr ⟨htake, List.pairwise_cons.mpr ⟨fun q hq => ?_, hdrop⟩, ?_⟩
  · exact Nat.le_of_lt (lt_of_mem_dropWhile h hq)
  · intro a ha b hb
    rcases List.mem_cons.mp hb with rfl | hb
    · exact le_of_mem_takeWhile ha
    · exact hcross a ha b hb

/-- Among the rules of its own priority a new rule is the last one. -/
theorem filter_insertRule_self {r : Rule} (h : Ordered rules) :
    (insertRule r rules).filter (·.priority == r.priority) =
      rules.filter (·.priority == r.priority) ++ [r] := by
  have hdrop : (rules.dropWhile fun q => q.priority ≤ r.priority).filter
      (·.priority == r.priority) = [] := by
    refine List.filter_eq_nil_iff.mpr fun q hq => ?_
    have := lt_of_mem_dropWhile h hq
    simp only [beq_iff_eq]
    omega
  have hsplit : rules.filter (·.priority == r.priority) =
      (rules.takeWhile fun q => q.priority ≤ r.priority).filter (·.priority == r.priority) ++
        (rules.dropWhile fun q => q.priority ≤ r.priority).filter (·.priority == r.priority) := by
    rw [← List.filter_append, List.takeWhile_append_dropWhile]
  rw [insertRule, List.filter_append, List.filter_cons_of_pos (by simp), hdrop, hsplit, hdrop,
    List.append_nil]

theorem filter_insertRule_of_ne {r : Rule} {p : Rule → Bool} (hr : p r = false) :
    (insertRule r rules).filter p = rules.filter p := by
  rw [insertRule, List.filter_append, List.filter_cons_of_neg (by simp [hr]), ← List.filter_append,
    List.takeWhile_append_dropWhile]

theorem filter_eraseP {p d : α → Bool} (h : ∀ a, d a = true → p a = false) (l : List α) :
    (l.eraseP d).filter p = l.filter p := by
  induction l with
  | nil => rfl
  | cons a rest ih =>
    rw [List.eraseP_cons]
    cases hd : d a with
    | true => simp [h a hd]
    | false => simp [List.filter_cons, ih]

/-- An erasure takes one element that satisfies `d`, if any. -/
theorem count_eraseP_of_neg [DecidableEq α] {d : α → Bool} {q : α} (hq : d q = false) (l : List α) :
    (l.eraseP d).count q = l.count q := by
  have hfilter := filter_eraseP (p := (· == q)) (d := d)
    (fun a ha => by
      simp only [beq_eq_false_iff_ne]
      rintro rfl
      rw [hq] at ha
      cases ha) l
  rw [List.count_eq_length_filter, List.count_eq_length_filter, hfilter]

theorem find?_of_not_mem_eraseP {d : α → Bool} {q : α} {l : List α} (hq : q ∈ l)
    (hgone : q ∉ l.eraseP d) : l.find? d = some q := by
  induction l with
  | nil => cases hq
  | cons a rest ih =>
    rw [List.eraseP_cons] at hgone
    cases hd : d a with
    | true =>
      simp only [hd, cond_true] at hgone
      rcases List.mem_cons.mp hq with rfl | hq
      · simp [hd]
      · exact absurd hq hgone
    | false =>
      simp only [hd, cond_false, List.mem_cons, not_or] at hgone
      rcases List.mem_cons.mp hq with rfl | hq
      · exact absurd rfl hgone.1
      · simpa [hd] using ih hq hgone.2

/-- In an ordered list a scan ends no later than at the priority of a rule with a route. -/
theorem resolve_le {g : Rule} (hordered : Ordered rules) (hg : g ∈ rules)
    (hclaim : g.claim routes p = some route) :
    ∃ r s, resolve rules routes p = some (r, s) ∧ r ∈ rules ∧ r.claim routes p = some s ∧
      r.priority ≤ g.priority := by
  obtain ⟨r, s, hres⟩ := resolve_of_claim hg hclaim
  obtain ⟨before, after, rfl, hr, hbefore⟩ := resolve_split hres
  refine ⟨r, s, hres, by simp, hr, ?_⟩
  rcases List.mem_append.mp hg with hg | hg
  · rw [hbefore g hg] at hclaim
    cases hclaim
  · rcases List.mem_cons.mp hg with rfl | hg
    · exact Nat.le_refl _
    · exact (List.pairwise_cons.mp (List.pairwise_append.mp hordered).2.1).1 g hg

/-- The rules of one family, as the kernel keeps them. -/
structure Rpdb where
  rules : List Rule
  ordered : Ordered rules

namespace Rpdb

def empty : Rpdb := ⟨[], List.Pairwise.nil⟩

/-- `ip rule add`; an identical rule is refused. -/
def add (r : Rule) (db : Rpdb) : Option Rpdb :=
  if r ∈ db.rules then none else some ⟨insertRule r db.rules, ordered_insertRule db.ordered⟩

/-- `ip rule del`; it fails if no rule agrees. -/
def delete (d : RuleSpec) (db : Rpdb) : Option Rpdb :=
  if db.rules.any d.agrees then
    some ⟨db.rules.eraseP d.agrees, db.ordered.sublist List.eraseP_sublist⟩
  else none

variable {db db' : Rpdb} {r q : Rule} {d : RuleSpec}

theorem add_rules (h : db.add r = some db') : r ∉ db.rules ∧ db'.rules = insertRule r db.rules := by
  unfold add at h
  split at h
  · cases h
  · next hr =>
    cases h
    exact ⟨hr, rfl⟩

theorem delete_rules (h : db.delete d = some db') :
    (∃ q ∈ db.rules, d.agrees q = true) ∧ db'.rules = db.rules.eraseP d.agrees := by
  unfold delete at h
  split at h
  · next hany =>
    cases h
    exact ⟨List.any_eq_true.mp hany, rfl⟩
  · cases h

end Rpdb

/-! ## Commands on routes -/

/-- What identifies a route. -/
def Route.sameKey (a b : Route) : Bool :=
  a.table == b.table && a.dst == b.dst && a.metric == b.metric

/-- The attributes given to `ip route del`. -/
structure RouteSpec where
  table : Nat
  dst : Bits
  metric : Nat
  protocol : Protocol
  dev : Option Iface

def RouteSpec.agrees (d : RouteSpec) (r : Route) : Bool :=
  d.table == r.table && d.dst == r.dst && d.metric == r.metric && d.protocol == r.protocol &&
    d.dev.all (r.dev == some ·)

/-- `ip route replace`. -/
def replaceRoute (r : Route) (routes : List Route) : List Route :=
  routes.filter (fun q => !q.sameKey r) ++ [r]

/-- `ip route del`; it fails if no route agrees. -/
def deleteRoute (d : RouteSpec) (routes : List Route) : Option (List Route) :=
  if routes.any d.agrees then some (routes.eraseP d.agrees) else none

theorem sameKey_iff :
    a.sameKey b = true ↔ a.table = b.table ∧ a.dst = b.dst ∧ a.metric = b.metric := by
  simp [Route.sameKey, and_assoc]

theorem sameKey_symm (h : a.sameKey b = true) : b.sameKey a = true := by
  obtain ⟨ht, hd, hm⟩ := sameKey_iff.mp h
  exact sameKey_iff.mpr ⟨ht.symm, hd.symm, hm.symm⟩

theorem mem_replaceRoute {r q : Route} :
    q ∈ replaceRoute r routes ↔ q = r ∨ (q ∈ routes ∧ q.sameKey r = false) := by
  simp only [replaceRoute, List.mem_append, List.mem_filter, List.mem_singleton, Bool.not_eq_true']
  exact or_comm

theorem mem_of_mem_deleteRoute {d : RouteSpec} {q : Route} {routes' : List Route}
    (h : deleteRoute d routes = some routes') (hq : q ∈ routes') : q ∈ routes := by
  unfold deleteRoute at h
  split at h
  · cases h
    exact List.mem_of_mem_eraseP hq
  · cases h

theorem mem_deleteRoute_of_not_agrees {d : RouteSpec} {q : Route} {routes' : List Route}
    (h : deleteRoute d routes = some routes') (hd : d.agrees q = false) (hq : q ∈ routes) :
    q ∈ routes' := by
  unfold deleteRoute at h
  split at h
  · cases h
    exact (List.mem_eraseP_of_neg (by simp [hd])).mpr hq
  · cases h

/-- The routes of one family, at most one for each key. -/
structure Fib where
  routes : List Route
  keys : routes.Pairwise fun a b => a.sameKey b = false

namespace Fib

theorem keys_nil : ([] : List Route).Pairwise fun a b => a.sameKey b = false := .nil

theorem keys_append {routes : List Route} {r : Route}
    (hkeys : routes.Pairwise fun a b => a.sameKey b = false)
    (hnew : ∀ q ∈ routes, q.sameKey r = false) :
    (routes ++ [r]).Pairwise fun a b => a.sameKey b = false := by
  refine List.pairwise_append.mpr ⟨hkeys, List.pairwise_singleton _ _, fun a ha b hb => ?_⟩
  rw [List.mem_singleton.mp hb]
  exact hnew a ha

/-- `ip route add`; a route with the same key is refused. -/
def add (r : Route) (fib : Fib) : Option Fib :=
  if h : ∀ q ∈ fib.routes, q.sameKey r = false then some ⟨fib.routes ++ [r], keys_append fib.keys h⟩
  else none

/-- `ip route replace`. -/
def replace (r : Route) (fib : Fib) : Fib :=
  ⟨replaceRoute r fib.routes, keys_append (fib.keys.sublist List.filter_sublist) fun q hq => by
    simpa using (List.mem_filter.mp hq).2⟩

/-- `ip route del`; it fails if no route agrees. -/
def delete (d : RouteSpec) (fib : Fib) : Option Fib :=
  if fib.routes.any d.agrees then
    some ⟨fib.routes.eraseP d.agrees, fib.keys.sublist List.eraseP_sublist⟩
  else none

variable {fib fib' : Fib} {r q : Route} {d : RouteSpec} {p : Route → Bool}

theorem eq_of_sameKey (hq : q ∈ fib.routes) (hr : r ∈ fib.routes) (hkey : q.sameKey r = true) :
    q = r := by
  have hsymm : Std.Symm fun a b : Route => a.sameKey b = false :=
    ⟨fun a b h => by
      by_contra hba
      rw [sameKey_symm (by simpa using hba)] at h
      cases h⟩
  by_contra hne
  rw [fib.keys.forall hq hr hne] at hkey
  cases hkey

theorem add_routes (h : fib.add r = some fib') :
    (∀ q ∈ fib.routes, q.sameKey r = false) ∧ fib'.routes = fib.routes ++ [r] := by
  unfold add at h
  split at h
  · next hnew =>
    cases h
    exact ⟨hnew, rfl⟩
  · cases h

theorem delete_routes (h : fib.delete d = some fib') :
    fib'.routes = fib.routes.eraseP d.agrees := by
  unfold delete at h
  split at h
  · cases h
    rfl
  · cases h

theorem mem_add (h : fib.add r = some fib') : q ∈ fib'.routes ↔ q = r ∨ q ∈ fib.routes := by
  rw [(add_routes h).2, List.mem_append, List.mem_singleton, or_comm]

theorem mem_replace : q ∈ (fib.replace r).routes ↔ q = r ∨ (q ∈ fib.routes ∧ q.sameKey r = false) :=
  mem_replaceRoute

theorem agrees_sameKey (hq : d.agrees q = true) (hr : d.agrees r = true) : q.sameKey r = true := by
  simp only [RouteSpec.agrees, Bool.and_eq_true, beq_iff_eq] at hq hr
  exact sameKey_iff.mpr ⟨hq.1.1.1.1.symm.trans hr.1.1.1.1, hq.1.1.1.2.symm.trans hr.1.1.1.2,
    hq.1.1.2.symm.trans hr.1.1.2⟩

/-- The attributes of a deletion contain the key, so that at most one route agrees. -/
theorem mem_delete (h : fib.delete d = some fib') :
    q ∈ fib'.routes ↔ q ∈ fib.routes ∧ d.agrees q = false := by
  rw [delete_routes h]
  constructor
  · intro hq
    have hmem := List.mem_of_mem_eraseP hq
    refine ⟨hmem, ?_⟩
    by_contra hagrees
    have hagrees : d.agrees q = true := by simpa using hagrees
    obtain ⟨a, l1, l2, -, ha, hsplit, herase⟩ := List.exists_of_eraseP hmem hagrees
    have hsame : q = a := eq_of_sameKey hmem (by simp [hsplit]) (agrees_sameKey hagrees ha)
    have hself : q.sameKey q = true := sameKey_iff.mpr ⟨rfl, rfl, rfl⟩
    have hkeys := fib.keys
    rw [hsplit, ← hsame] at hkeys
    obtain ⟨-, htail, hcross⟩ := List.pairwise_append.mp hkeys
    rw [herase] at hq
    rcases List.mem_append.mp hq with hq | hq
    · rw [hcross q hq q List.mem_cons_self] at hself
      cases hself
    · rw [(List.pairwise_cons.mp htail).1 q hq] at hself
      cases hself
  · rintro ⟨hq, hd⟩
    exact (List.mem_eraseP_of_neg (by simp [hd])).mpr hq

theorem filter_add (h : fib.add r = some fib') (hr : p r = false) :
    fib'.routes.filter p = fib.routes.filter p := by
  rw [(add_routes h).2, List.filter_append]
  simp [hr]

theorem filter_replace (hr : p r = false)
    (hkey : ∀ q ∈ fib.routes, q.sameKey r = true → p q = false) :
    (fib.replace r).routes.filter p = fib.routes.filter p := by
  unfold replace replaceRoute
  rw [List.filter_append, List.filter_filter]
  simp only [List.filter_cons, hr, List.filter_nil, Bool.false_eq_true, if_false, List.append_nil]
  refine List.filter_congr fun q hq => ?_
  cases hp : p q with
  | false => rfl
  | true =>
    have hne : q.sameKey r = false := by
      by_contra hsame
      rw [hkey q hq (by simpa using hsame)] at hp
      cases hp
    simp [hne]

theorem filter_delete (h : fib.delete d = some fib') (hd : ∀ q, d.agrees q = true → p q = false) :
    fib'.routes.filter p = fib.routes.filter p := by
  rw [delete_routes h]
  exact filter_eraseP hd _

end Fib

end Net
