import ExitLane.Python.IpNetwork

/-!
# Tables of nft

A table of the family `inet` holds named sets and base chains. The rules of a chain are scanned in
their order; the first one whose selectors all hold decides, and a packet that none decides gets
the policy of the chain. A packet passes a hook if no filter chain of the hook drops it.

Only what a table says is modelled: the selectors and actions below, for packets of both families.
-/

namespace Nft

open Python IpAddress

inductive Family where
  | v4
  | v6
  deriving DecidableEq

def Family.width : Family → Nat
  | .v4 => 32
  | .v6 => 128

abbrev Name := Text

/-! ## Prefixes -/

structure Prefix where
  family : Family
  address : Nat
  length : Nat
  deriving DecidableEq

/-- The packet's address `a` of the family `f` lies in the prefix. -/
def Prefix.contains (p : Prefix) (f : Family) (a : Nat) : Bool :=
  p.family == f &&
    a / 2 ^ (p.family.width - p.length) == p.address / 2 ^ (p.family.width - p.length)

/-- The prefix of one address. -/
def Prefix.host (f : Family) (a : Nat) : Prefix := ⟨f, a, f.width⟩

/-- Two prefixes meet if one holds the address of the other. -/
def Prefix.overlaps (p q : Prefix) : Bool :=
  p.contains q.family q.address || q.contains p.family p.address

theorem Prefix.overlaps_comm (p q : Prefix) : p.overlaps q = q.overlaps p := Bool.or_comm _ _

theorem Prefix.contains_of_le {p q : Prefix} {f : Family} {a : Nat} (hle : p.length ≤ q.length)
    (hp : p.contains f a = true) (hq : q.contains f a = true) :
    p.contains q.family q.address = true := by
  simp only [Prefix.contains, Bool.and_eq_true, beq_iff_eq] at hp hq ⊢
  obtain ⟨rfl, hp⟩ := hp
  obtain ⟨hf, hq⟩ := hq
  -- The block of `p` is a multiple of the block of `q`.
  have hpow : 2 ^ (p.family.width - p.length) =
      2 ^ (p.family.width - q.length) *
        2 ^ ((p.family.width - p.length) - (p.family.width - q.length)) := by
    rw [← Nat.pow_add]
    congr 1
    omega
  rw [hf] at hq
  refine ⟨hf.symm, ?_⟩
  rw [← hp, hpow, ← Nat.div_div_eq_div_mul, ← Nat.div_div_eq_div_mul, hq]

theorem Prefix.overlaps_iff {p q : Prefix} :
    p.overlaps q = true ↔ ∃ f a, p.contains f a = true ∧ q.contains f a = true := by
  have hself (p : Prefix) : p.contains p.family p.address = true := by simp [Prefix.contains]
  rw [Prefix.overlaps, Bool.or_eq_true]
  constructor
  · rintro (h | h)
    · exact ⟨_, _, h, hself q⟩
    · exact ⟨_, _, hself p, h⟩
  · rintro ⟨f, a, hp, hq⟩
    rcases Nat.le_total p.length q.length with hle | hle
    · exact .inl (Prefix.contains_of_le hle hp hq)
    · exact .inr (Prefix.contains_of_le hle hq hp)

/-! ## Tables -/

inductive Elements where
  | names (names : List Name)
  | prefixes (prefixes : List Prefix)
  deriving DecidableEq

/-- A set of intervals takes a prefix twice, but no two prefixes that meet. -/
def Elements.disjoint : Elements → Bool
  | .names _ => true
  | .prefixes ps => ps.Pairwise fun p q => p = q ∨ p.overlaps q = false

theorem Elements.disjoint_iff {ps : List Prefix} : (Elements.prefixes ps).disjoint = true ↔
    ∀ p ∈ ps, ∀ q ∈ ps, p = q ∨ p.overlaps q = false := by
  have hsymm : Std.Symm fun p q : Prefix => p = q ∨ p.overlaps q = false :=
    ⟨fun p q h => h.imp Eq.symm fun h => Prefix.overlaps_comm p q ▸ h⟩
  rw [Elements.disjoint, decide_eq_true_eq]
  exact ⟨fun h _ hp _ hq => h.forall_of_forall (fun _ _ => .inl rfl) hp hq,
    fun h => List.pairwise_of_forall_mem_list h⟩

structure NamedSet where
  name : Name
  elements : Elements
  deriving DecidableEq

inductive Transport where
  | udp
  | tcp
  deriving DecidableEq

inductive Selector where
  | iif (name : Name)
  | iifIn (set : Name)
  | oif (name : Name)
  | nfproto (family : Family)
  | saddr (source : Prefix)
  | daddrIn (family : Family) (set : Name)
  | dport (transport : Transport) (port : Nat)
  /-- `ct state established,related`. -/
  | established
  deriving DecidableEq

inductive Verdict where
  | accept
  | drop
  deriving DecidableEq

inductive Action where
  | verdict (verdict : Verdict)
  | masquerade
  deriving DecidableEq

structure Rule where
  selectors : List Selector
  action : Action
  deriving DecidableEq

inductive Hook where
  | forward
  | input
  | output
  | postrouting
  deriving DecidableEq

inductive Kind where
  | filter
  | nat
  deriving DecidableEq

structure Chain where
  name : Name
  kind : Kind
  hook : Hook
  priority : Int
  policy : Verdict
  rules : List Rule
  deriving DecidableEq

structure Table where
  name : Name
  sets : List NamedSet
  chains : List Chain
  deriving DecidableEq

/-- The sets of the table can be built. -/
def Table.loads (T : Table) : Bool := T.sets.all (·.elements.disjoint)

/-! ## Packets -/

structure Packet where
  iif : Option Name
  oif : Option Name
  family : Family
  src : Nat
  dst : Nat
  /-- The transport protocol with its destination port. -/
  transport : Option (Transport × Nat)
  established : Bool

def Table.elements (T : Table) (set : Name) : Option Elements :=
  (T.sets.find? (·.name == set)).map (·.elements)

namespace Selector

def holds (T : Table) (p : Packet) : Selector → Bool
  | iif n => p.iif == some n
  | iifIn set =>
    match T.elements set, p.iif with
    | some (.names names), some i => names.contains i
    | _, _ => false
  | oif n => p.oif == some n
  | nfproto f => p.family == f
  | saddr source => source.contains p.family p.src
  | daddrIn f set =>
    match T.elements set with
    | some (.prefixes ps) => p.family == f && ps.any (·.contains p.family p.dst)
    | _ => false
  | dport t port => p.transport == some (t, port)
  | established => p.established

end Selector

def Rule.fires (T : Table) (p : Packet) (r : Rule) : Bool := r.selectors.all (·.holds T p)

/-- What the chain does with the packet, if one of its rules decides. -/
def Chain.decides (T : Table) (p : Packet) (c : Chain) : Option Action :=
  (c.rules.find? (·.fires T p)).map (·.action)

def Chain.accepts (T : Table) (p : Packet) (c : Chain) : Bool :=
  match c.decides T p with
  | some (.verdict v) => v == .accept
  | some .masquerade => true
  | none => c.policy == .accept

/-- No filter chain of the hook drops the packet. -/
def Table.passes (T : Table) (hook : Hook) (p : Packet) : Bool :=
  T.chains.all fun c => c.hook != hook || c.kind != .filter || c.accepts T p

/-- The packet gets a source address of the interface by which it leaves. -/
def Table.masquerades (T : Table) (p : Packet) : Bool :=
  T.chains.any fun c =>
    c.hook == .postrouting && c.kind == .nat && c.decides T p == some .masquerade

/-- The same chain with other rules. -/
def Chain.withRules (c : Chain) (rules : List Rule) : Chain := { c with rules := rules }

variable {T : Table} {p : Packet} {c : Chain}

theorem decides_singleton {ss : List Selector} {a : Action} :
    (c.withRules [⟨ss, a⟩]).decides T p = some a ↔ ss.all (·.holds T p) = true := by
  simp only [Chain.decides, Chain.withRules, List.find?_singleton, Rule.fires]
  cases ss.all (·.holds T p) <;> simp

theorem accepts_nil :
    (c.withRules []).accepts T p = (c.policy == .accept) := rfl

theorem accepts_cons {ss : List Selector} {v : Verdict} {rest : List Rule} :
    (c.withRules (⟨ss, .verdict v⟩ :: rest)).accepts T p =
      if ss.all (·.holds T p) then v == .accept else (c.withRules rest).accepts T p := by
  simp only [Chain.accepts, Chain.decides, Chain.withRules, List.find?_cons, Rule.fires]
  cases ss.all (·.holds T p) <;> rfl

/-- A chain that only drops, drops what one of its rules is about. -/
theorem accepts_of_drops (h : ∀ r ∈ c.rules, r.action = .verdict .drop) {r : Rule}
    (hr : r ∈ c.rules) (hfires : r.fires T p = true) : c.accepts T p = false := by
  rw [Chain.accepts, Chain.decides]
  cases hfind : c.rules.find? (·.fires T p) with
  | none => exact absurd hfires (List.find?_eq_none.mp hfind r hr)
  | some d =>
    rw [Option.map_some, h d (List.mem_of_find?_eq_some hfind)]
    rfl

/-- Rules that accept come first: they accept, or the others decide. -/
theorem accepts_append {allows rest : List Rule} (h : ∀ r ∈ allows, r.action = .verdict .accept) :
    (c.withRules (allows ++ rest)).accepts T p =
      (allows.any (·.fires T p) || (c.withRules rest).accepts T p) := by
  simp only [Chain.accepts, Chain.decides, Chain.withRules, List.find?_append]
  cases hfind : allows.find? (·.fires T p) with
  | none =>
    have hnone : allows.any (·.fires T p) = false := by
      simpa [List.find?_eq_none] using hfind
    simp [hnone]
  | some r =>
    have hany : allows.any (·.fires T p) = true :=
      List.any_eq_true.mpr ⟨r, List.mem_of_find?_eq_some hfind, List.find?_some hfind⟩
    simp [hany, h r (List.mem_of_find?_eq_some hfind)]

end Nft
