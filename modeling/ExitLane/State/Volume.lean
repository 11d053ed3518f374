import ExitLane.Ingress.Config

/-!
# The state of the container as its validator sees it

`ContainerState.validate` runs at every start. It looks at the names of the provider files, at every
file of the WireGuard directory, and, once an ingress is configured, at the server file and the
stored subnet. What it asks of the key, the manifest, the database and the provider secrets does not
depend on the two directories and is one field here.
-/

namespace ExitLane.State
open Python IpAddress Peers Ingress

/-! ## Names -/

/-- `f"{stem}.conf"`. -/
def confName (stem : Text) : Text := stem ++ ".conf".toList

/-- The name that `mkstemp(prefix=f".{name}.")` chooses. -/
def tempName (name random : Text) : Text := '.' :: name ++ '.' :: random

/-- `path.stem` and `path.suffix` of a name. -/
def pathParts (name : Text) : Text × Text :=
  match rpartition '.' name with
  | some (stem, suffix) => if stem = [] ∨ suffix = [] then (name, []) else (stem, '.' :: suffix)
  | none => (name, [])

theorem pathParts_append {stem suffix : Text} (hstem : stem ≠ []) (hsuffix : suffix ≠ [])
    (h : '.' ∉ suffix) : pathParts (stem ++ '.' :: suffix) = (stem, '.' :: suffix) := by
  rw [pathParts, rpartition_append _ _ h]
  exact if_neg (by simp [hstem, hsuffix])

theorem pathParts_confName {stem : Text} (h : stem ≠ []) :
    pathParts (confName stem) = (stem, ".conf".toList) := by
  have hsuffix : "conf".toList ≠ [] ∧ '.' ∉ "conf".toList := by decide +kernel
  exact pathParts_append h hsuffix.1 hsuffix.2

theorem pathParts_tempName {name random : Text} (hne : random ≠ []) (h : '.' ∉ random) :
    pathParts (tempName name random) = ('.' :: name, '.' :: random) :=
  pathParts_append (List.cons_ne_nil _ _) hne h

theorem confName_inj {a b : Text} (h : confName a = confName b) : a = b :=
  List.append_cancel_right h

/-! ## Directories -/

structure Directory where
  entries : List (Text × Entry)
  nodup : (entries.map Prod.fst).Nodup

namespace Directory

def get (d : Directory) (name : Text) : Option Entry := d.entries.lookup name

variable {d : Directory} {name : Text}

theorem get_eq_some_iff {e : Entry} : d.get name = some e ↔ (name, e) ∈ d.entries :=
  lookup_eq_some_iff_mem d.nodup

/-- The directory with one more file, which replaces one of the same name. -/
def put (d : Directory) (name : Text) (e : Entry) : Directory where
  entries := (name, e) :: d.entries.filter fun item => item.1 ≠ name
  nodup := by
    rw [List.map_cons, List.nodup_cons]
    refine ⟨fun hmem => ?_, d.nodup.sublist (List.filter_sublist.map _)⟩
    obtain ⟨item, hitem, heq⟩ := List.mem_map.mp hmem
    exact absurd heq (by simpa using (List.mem_filter.mp hitem).2)

theorem entries_put (h : name ∉ d.entries.map Prod.fst) (e : Entry) :
    (d.put name e).entries = (name, e) :: d.entries := by
  refine congrArg ((name, e) :: ·) (List.filter_eq_self.mpr fun item hitem => ?_)
  have hne : item.1 ≠ name := fun heq => h (heq ▸ List.mem_map_of_mem hitem)
  simpa using hne

theorem get_put_of_ne {other : Text} (e : Entry) (h : name ∉ d.entries.map Prod.fst)
    (hne : other ≠ name) : (d.put name e).get other = d.get other := by
  rw [get, entries_put h, List.lookup_cons, beq_false_of_ne hne]
  rfl

/-- The directory holds the configurations of a store. -/
def Represents (d : Directory) (files : Files) : Prop :=
  ∀ stem, stem ≠ [] → d.get (confName stem) = files stem

end Directory

/-! ## `ContainerState` -/

/-- `_facts` of a regular file of at most `limit` bytes. -/
def factsHold (limit : Nat) : Entry → Bool
  | .file f => f.owned && f.mode &&& 0o77 == 0 && f.links == 1 && utf8Length f.text ≤ limit
  | .other => false

theorem factsHold_written (limit : Nat) (t : Text) :
    factsHold limit (written t) = decide (utf8Length t ≤ limit) := by
  simp [factsHold, written]

/-- What `validate_pair` asks of one file of the WireGuard directory. -/
def wireguardAccepted (name : Text) : Entry → Bool
  | .file f => factsHold (256 * 1024) (.file f) &&
      validatedWireguardHooks (pathParts name).1 (pathParts name).2 f.text
  | .other => false

theorem wireguardAccepted_written (name t : Text) :
    wireguardAccepted name (written t) = (decide (utf8Length t ≤ 256 * 1024) &&
      validatedWireguardHooks (pathParts name).1 (pathParts name).2 t) := by
  rw [← factsHold_written]
  rfl

def maxStateBytes : Nat := 128 * 1024 * 1024

/-- The names of the provider files. -/
def providerFiles : List Text := providerInterfaces.map confName

/-- The settings are those that `validate_pair` reads, with their defaults. -/
structure Volume where
  wireguard : Directory
  providerEgress : Directory
  /-- `none` if the value is not a Boolean. -/
  configured : Option Bool
  /-- `none` if the value is not a text. -/
  interface : Option Text
  subnet : Option Text
  /-- The checks that do not depend on the two directories. -/
  rest : Bool

namespace Volume

/-- The server file is accepted, and the stored subnet is the text of its network. -/
def ingressAccepted (v : Volume) (interface subnet : Text) : Bool :=
  isIngressName interface &&
    (v.wireguard.get (confName interface)).any fun e =>
      factsHold maxStateBytes e &&
        (fromFile interface ".conf".toList (some e)).any fun config =>
          (parseInterface config.address).any fun address => address.network.text == subnet

def validatePair (v : Volume) : Bool :=
  v.rest && v.wireguard.entries.length ≤ maxFiles &&
    v.wireguard.entries.all (fun e => wireguardAccepted e.1 e.2) &&
    match v.configured, v.interface, v.subnet with
    | some false, _, _ => true
    | some true, some interface, some subnet => v.ingressAccepted interface subnet
    | _, _, _ => false

def validate (v : Volume) : Bool :=
  (v.providerEgress.entries.all fun e =>
    providerFiles.contains e.1 && factsHold maxStateBytes e.2) && v.validatePair

end Volume

end ExitLane.State
