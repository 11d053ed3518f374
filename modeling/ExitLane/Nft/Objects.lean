import ExitLane.Nft.Table

/-!
# Tables as `nft -j` adds and lists them

A transaction adds a table object by object: the table, its base chains, their rules. A listing
gives the objects in the same order, with the rules of each chain together. For chains of distinct
names the two are inverse to each other:

* `foldl_add_objects`: adding the objects of a listing builds the table that was listed;
* `eq_of_objects_eq`: a table is known by its listing.

Handles and the `metainfo` object, which differ from one listing to the next, are left out.
-/

namespace Nft

/-- A base chain without its rules. -/
structure Header where
  name : Name
  kind : Kind
  hook : Hook
  priority : Int
  policy : Verdict
  deriving DecidableEq

def Header.chain (h : Header) (rules : List Rule) : Chain :=
  ⟨h.name, h.kind, h.hook, h.priority, h.policy, rules⟩

def Chain.header (c : Chain) : Header := ⟨c.name, c.kind, c.hook, c.priority, c.policy⟩

theorem Chain.header_chain (c : Chain) : c.header.chain c.rules = c := rfl

inductive Object where
  | table (name : Name)
  | set (set : NamedSet)
  | chain (header : Header)
  | rule (chain : Name) (rule : Rule)
  deriving DecidableEq

def Chain.ruleObjects (c : Chain) : List Object := c.rules.map (.rule c.name)

/-- `nft -j list table`. -/
def Table.objects (T : Table) : List Object :=
  .table T.name :: (T.sets.map .set ++ (T.chains.map fun c => .chain c.header) ++
    T.chains.flatMap Chain.ruleObjects)

/-- The rule goes to the end of the chain of that name. -/
def Chain.addRule (name : Name) (r : Rule) (c : Chain) : Chain :=
  if c.name = name then c.withRules (c.rules ++ [r]) else c

/-- One `add` command on the table, if there is one. A table may be added again. -/
def add : Option Table → Object → Option Table
  | none, .table name => some ⟨name, [], []⟩
  | some T, .table _ => some T
  | some T, .set s => some { T with sets := T.sets ++ [s] }
  | some T, .chain h => some { T with chains := T.chains ++ [h.chain []] }
  | some T, .rule name r => some { T with chains := T.chains.map (.addRule name r) }
  | none, _ => none

/-! ## What is added is listed -/

private theorem foldl_add_sets (T : Table) (sets : List NamedSet) :
    (sets.map .set).foldl add (some T) = some { T with sets := T.sets ++ sets } := by
  induction sets generalizing T with
  | nil => simp
  | cons s sets ih =>
    rw [List.map_cons, List.foldl_cons, add, ih]
    simp

private theorem foldl_add_chains (T : Table) (headers : List Header) :
    (headers.map .chain).foldl add (some T) =
      some { T with chains := T.chains ++ headers.map (·.chain []) } := by
  induction headers generalizing T with
  | nil => simp
  | cons h headers ih =>
    rw [List.map_cons, List.foldl_cons, add, ih]
    simp

private theorem map_addRule_of_ne {name : Name} {chains : List Chain}
    (h : ∀ c ∈ chains, c.name ≠ name) (r : Rule) : chains.map (.addRule name r) = chains := by
  have hone : ∀ c ∈ chains, Chain.addRule name r c = id c := fun c hc => if_neg (h c hc)
  rw [List.map_congr_left hone, List.map_id]

/-- Rules of one chain go to that chain. -/
private theorem foldl_add_ruleObjects {T : Table} {front back : List Chain} {h : Header}
    (hfront : ∀ c ∈ front, c.name ≠ h.name) (hback : ∀ c ∈ back, c.name ≠ h.name)
    (before rules : List Rule) (hT : T.chains = front ++ h.chain before :: back) :
    (rules.map (Object.rule h.name)).foldl add (some T) =
      some { T with chains := front ++ h.chain (before ++ rules) :: back } := by
  induction rules generalizing T before with
  | nil =>
    rw [List.append_nil, ← hT]
    rfl
  | cons r rules ih =>
    have hchain : (h.chain before).addRule h.name r = h.chain (before ++ [r]) := if_pos rfl
    have hmap : T.chains.map (.addRule h.name r) =
        front ++ h.chain (before ++ [r]) :: back := by
      rw [hT, List.map_append, List.map_cons, map_addRule_of_ne hfront, map_addRule_of_ne hback,
        hchain]
    rw [List.map_cons, List.foldl_cons, add, ih (before ++ [r]) hmap]
    simp

private theorem foldl_add_rules {T : Table} (done todo : List Chain)
    (hnodup : ((done ++ todo).map (·.name)).Nodup)
    (hT : T.chains = done ++ todo.map fun c => c.header.chain []) :
    (todo.flatMap Chain.ruleObjects).foldl add (some T) =
      some { T with chains := done ++ todo } := by
  induction todo generalizing T done with
  | nil =>
    rw [← show T.chains = done ++ [] from hT]
    rfl
  | cons c todo ih =>
    have hsplit := hnodup
    rw [List.map_append, List.map_cons, List.nodup_append, List.nodup_cons] at hsplit
    obtain ⟨-, ⟨hback, -⟩, hfront⟩ := hsplit
    have hone := foldl_add_ruleObjects (h := c.header)
      (fun d hd => hfront _ (List.mem_map_of_mem hd) _ List.mem_cons_self)
      (fun d hd heq => by
        obtain ⟨e, he, rfl⟩ := List.mem_map.mp hd
        exact hback (List.mem_map.mpr ⟨e, he, heq⟩)) [] c.rules hT
    rw [List.nil_append, Chain.header_chain] at hone
    rw [List.flatMap_cons, List.foldl_append, Chain.ruleObjects,
      show c.name = c.header.name from rfl, hone,
      ih (done ++ [c]) (by simpa using hnodup) (by simp)]
    simp

theorem foldl_add_objects {T : Table} (hnodup : (T.chains.map (·.name)).Nodup) :
    T.objects.foldl add none = some T := by
  have hheaders : (T.chains.map fun c => Object.chain c.header) =
      (T.chains.map Chain.header).map .chain := by
    rw [List.map_map]
    rfl
  rw [Table.objects, List.foldl_cons, add, List.foldl_append, List.foldl_append, foldl_add_sets,
    hheaders, foldl_add_chains, foldl_add_rules [] T.chains hnodup (by simp)]
  simp

/-! ## A table is known by its listing -/

private def Object.header? : Object → Option Header
  | .chain h => some h
  | _ => none

private theorem filterMap_objects (T : Table) :
    T.objects.filterMap Object.header? = T.chains.map Chain.header := by
  have hrules : (T.chains.flatMap Chain.ruleObjects).filterMap Object.header? = [] := by
    rw [List.filterMap_eq_nil_iff]
    intro o ho
    obtain ⟨c, -, ho⟩ := List.mem_flatMap.mp ho
    obtain ⟨r, -, rfl⟩ := List.mem_map.mp ho
    rfl
  have hsets : (T.sets.map Object.set).filterMap Object.header? = [] := by
    rw [List.filterMap_eq_nil_iff]
    intro o ho
    obtain ⟨s, -, rfl⟩ := List.mem_map.mp ho
    rfl
  rw [Table.objects, List.filterMap_cons_none rfl, List.filterMap_append, List.filterMap_append,
    hrules, hsets, List.filterMap_map]
  simp [Object.header?, Function.comp_def]

theorem eq_of_objects_eq {T U : Table} (hU : (U.chains.map (·.name)).Nodup)
    (h : T.objects = U.objects) : T = U := by
  have hnames (V : Table) : V.chains.map (·.name) =
      (V.objects.filterMap Object.header?).map (·.name) := by
    rw [filterMap_objects, List.map_map]
    rfl
  have hT : (T.chains.map (·.name)).Nodup := by rwa [hnames, h, ← hnames]
  have hbuilt := foldl_add_objects hT
  rw [h, foldl_add_objects hU] at hbuilt
  exact (Option.some.inj hbuilt).symm

end Nft
