import ExitLane.Egress.WireGuard
import ExitLane.Python.IpAddress
import ExitLane.Recovery.Coordinator
import Mathlib.Data.List.Dedup
import Mathlib.Data.List.Lex
import Mathlib.Data.Char
import Mathlib.Data.Prod.Lex

/-!
# Ingress identities

An `IngressIdentity` names an ingress interface and its tunnel network. The source checks the two
texts when it builds one and asks for the canonical text of the network, so that the network stands
for its text here (`of_eq_ok_iff`). `ingress_identities` reads the identities of a database from its
settings.
-/

namespace ExitLane.Ingress

open Python IpAddress Effect
open Egress (isInterface)
open Recovery (Code)

theorem networkAddress_of_parseNetwork {t : Text} {n : Interface} (h : parseNetwork t = some n) :
    n.ip = n.networkAddress := by
  simpa using (Option.filter_eq_some_iff.mp h).2

structure IngressIdentity where
  interface : Text
  network : Interface
  isInterface_interface : isInterface interface = true
  ip_eq : network.ip = network.networkAddress
  prefixLength_le : network.prefixLength ≤ 31
  deriving DecidableEq

namespace IngressIdentity

def subnet (i : IngressIdentity) : Text := i.network.text

/-- `IngressIdentity(interface, subnet)`. -/
def of (interface subnet : Text) : Except Code IngressIdentity :=
  match h : parseNetwork subnet with
  | none => .error .recoveryIngressInvalid
  | some n =>
    if hn : isInterface interface = true ∧ n.prefixLength ≤ 31 ∧ n.text = subnet then
      .ok ⟨interface, n, hn.1, networkAddress_of_parseNetwork h, hn.2.1⟩
    else .error .recoveryIngressInvalid

theorem parseNetwork_subnet (i : IngressIdentity) : parseNetwork i.subnet = some i.network :=
  parseNetwork_text i.ip_eq

theorem of_eq_ok_iff {interface subnet : Text} {i : IngressIdentity} :
    of interface subnet = .ok i ↔ i.interface = interface ∧ i.subnet = subnet := by
  constructor
  · intro h
    unfold of at h
    split at h
    · cases h
    · split at h
      · next hn =>
        cases h
        exact ⟨rfl, hn.2.2⟩
      · cases h
  · rintro ⟨rfl, rfl⟩
    unfold of
    split
    · next h => exact absurd (h.symm.trans i.parseNetwork_subnet) (by simp)
    · next n h =>
      obtain rfl : i.network = n := Option.some.inj (i.parseNetwork_subnet.symm.trans h)
      exact dif_pos ⟨i.isInterface_interface, i.prefixLength_le, rfl⟩

theorem ext_texts {i j : IngressIdentity} (hinterface : i.interface = j.interface)
    (hsubnet : i.subnet = j.subnet) : i = j := by
  have hi := of_eq_ok_iff.mpr ⟨hinterface, hsubnet⟩
  rw [of_eq_ok_iff.mpr ⟨rfl, rfl⟩] at hi
  exact (Except.ok.inj hi).symm

/-! ## Order -/

/-- `(item.interface, item.subnet)`. -/
def key (i : IngressIdentity) : Text ×ₗ Text := toLex (i.interface, i.subnet)

def Before (i j : IngressIdentity) : Prop := i.key ≤ j.key

instance : DecidableRel Before := fun i j => inferInstanceAs (Decidable (i.key ≤ j.key))

theorem eq_of_key_eq {i j : IngressIdentity} (h : i.key = j.key) : i = j := by
  have hpair := toLex.injective h
  exact ext_texts (Prod.mk.inj hpair).1 (Prod.mk.inj hpair).2

instance : Std.Total Before := ⟨fun i j => le_total i.key j.key⟩

instance : IsTrans IngressIdentity Before := ⟨fun _ _ _ => le_trans⟩

/-- `tuple(sorted(set(identities), key=...))`. -/
def sorted (identities : List IngressIdentity) : List IngressIdentity :=
  identities.dedup.insertionSort Before

section Sorted
variable {l l' : List IngressIdentity}

@[simp] theorem mem_sorted {i : IngressIdentity} : i ∈ sorted l ↔ i ∈ l := by
  rw [sorted, List.mem_insertionSort, List.mem_dedup]

theorem nodup_sorted (l : List IngressIdentity) : (sorted l).Nodup :=
  (List.perm_insertionSort ..).nodup_iff.mpr (List.nodup_dedup l)

theorem pairwise_sorted (l : List IngressIdentity) : (sorted l).Pairwise Before :=
  List.pairwise_insertionSort ..

/-- Sorted lists of the same identities are equal. -/
theorem sorted_congr (h : ∀ i, i ∈ l ↔ i ∈ l') : sorted l = sorted l' := by
  have hperm : (sorted l).Perm (sorted l') := by
    rw [List.perm_ext_iff_of_nodup (nodup_sorted l) (nodup_sorted l')]
    intro i
    rw [mem_sorted, mem_sorted, h]
  exact hperm.eq_of_pairwise (fun i j _ _ hij hji => eq_of_key_eq (le_antisymm hij hji))
    (pairwise_sorted l) (pairwise_sorted l')

theorem sorted_sorted (l : List IngressIdentity) : sorted (sorted l) = sorted l :=
  sorted_congr fun _ => mem_sorted

theorem length_sorted_le_of_subset (h : l ⊆ l') : (sorted l).length ≤ l'.length :=
  (List.subperm_of_subset (nodup_sorted l) fun _ hi => h (mem_sorted.mp hi)).length_le

end Sorted

end IngressIdentity

/-! ## The identities of a database -/

/-- The four settings as `json.loads` reads them. An interface that is not a text is `none`, and so
is a subnet that is missing or not a text; `ip_network` refuses every other JSON value, a number
because it stands for a single address. -/
structure Settings where
  /-- Whether `wireguard_configured` is true. -/
  configured : Bool
  interface : Option Text
  subnet : Option Text
  /-- The routed ingress interfaces. -/
  ingress : List (Option Text)

/-- `ingress_identities`. -/
def ingressIdentities (s : Settings) : Except Code (List IngressIdentity) :=
  if s.configured then
    match s.subnet.bind parseNetwork with
    | none => .error .recoveryIngressInvalid
    | some n =>
      if 30 < n.prefixLength then .error .recoveryIngressInvalid
      else
        let interfaces := s.interface :: s.ingress
        if 32 < interfaces.length then .error .recoveryIngressInvalid
        else match interfaces.mapM fun i => i.filter isInterface with
          | none => .error .recoveryIngressInvalid
          | some names => names.eraseDups.mapM fun i => IngressIdentity.of i n.text
  else .ok []

/-- The identities of a database share a network with room for two hosts. -/
theorem prefixLength_of_ingressIdentities {s : Settings} {l : List IngressIdentity}
    (h : ingressIdentities s = .ok l) : ∀ i ∈ l, i.network.prefixLength ≤ 30 := by
  have hmapM : ∀ {names : List Text} {t : Text} {l : List IngressIdentity},
      (names.mapM fun i => IngressIdentity.of i t) = .ok l → ∀ i ∈ l, i.subnet = t := by
    intro names t
    induction names with
    | nil =>
      intro l h
      cases h
      exact fun _ hi => absurd hi List.not_mem_nil
    | cons name names ih =>
      intro l h
      rw [List.mapM_cons] at h
      obtain ⟨i, hi, h⟩ := bind_eq_ok.mp h
      obtain ⟨rest, hrest, h⟩ := bind_eq_ok.mp h
      cases h
      exact List.forall_mem_cons.mpr ⟨(IngressIdentity.of_eq_ok_iff.mp hi).2, ih hrest⟩
  unfold ingressIdentities at h
  split at h
  · split at h
    · cases h
    · next n hn =>
      split at h
      · cases h
      · next hle =>
        simp only at h
        split at h
        · cases h
        · split at h
          · cases h
          · obtain ⟨t, -, ht⟩ := Option.bind_eq_some_iff.mp hn
            intro i hi
            have hsubnet := hmapM h i hi
            have hread := i.parseNetwork_subnet
            rw [hsubnet, parseNetwork_text (networkAddress_of_parseNetwork ht)] at hread
            obtain rfl := Option.some.inj hread
            omega
  · cases h
    exact fun _ hi => absurd hi List.not_mem_nil

end ExitLane.Ingress
