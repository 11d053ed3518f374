import ExitLane.Python.Text
import Mathlib.Data.Nat.Digits.Defs

/-!
# The `ipaddress` module

Parsing and printing of addresses, interfaces and networks as the standard
library does it. The IPv4 printer and parser are inverse to each other in both
directions (`parseIPv4_text`, `parseIPv4_eq_some`): no second spelling of an
address is accepted, which is what makes a UNIQUE constraint on address text a
constraint on addresses.
-/

namespace IpAddress
open Python

/-! ## IPv4 addresses -/

def isAsciiDigit (c : Char) : Bool := 48 ≤ c.toNat && c.toNat ≤ 57

/-- `_parse_octet`. -/
def parseOctet (t : Text) : Option Nat :=
  if t.isEmpty || !t.all isAsciiDigit || 3 < t.length then none
  else if t ≠ ['0'] ∧ t.head? = some '0' then none
  else if 255 < Nat.ofDigitChars 10 t 0 then none
  else some (Nat.ofDigitChars 10 t 0)

/-- `IPv4Address(text)` as a number. -/
def parseIPv4 (t : Text) : Option Nat :=
  match t.splitOn '.' with
  | [a, b, c, d] =>
    (parseOctet a).bind fun a => (parseOctet b).bind fun b => (parseOctet c).bind fun c =>
      (parseOctet d).map fun d => ((a * 256 + b) * 256 + c) * 256 + d
  | _ => none

/-- `str` of an IPv4 address. -/
def ipv4Text (n : Nat) : Text :=
  natText (n / 16777216) ++ '.' :: (natText (n / 65536 % 256) ++
    '.' :: (natText (n / 256 % 256) ++ '.' :: natText (n % 256)))

variable {c : Char} {n : Nat} {t : Text} {max p : Nat}

theorem not_mem_natText (h : c.isDigit = false) (n : Nat) : c ∉ natText n := by
  intro hm
  have := Nat.isDigit_of_mem_toDigits (by decide) (by decide) hm
  rw [h] at this
  exact Bool.false_ne_true this

private theorem parseOctet_natText (h : n < 256) : parseOctet (natText n) = some n := by
  have key : ∀ k : Fin 256, parseOctet (natText k.val) = some k.val := by decide +kernel
  exact key ⟨n, h⟩

private theorem asciiDigit_eq (h : isAsciiDigit c = true) : ∃ k : Fin 10, c = Nat.digitChar k := by
  simp only [isAsciiDigit, Bool.and_eq_true, decide_eq_true_eq] at h
  have key : ∀ k : Fin 10, Nat.digitChar k = Char.ofNat (48 + k) := by decide
  refine ⟨⟨c.toNat - 48, by omega⟩, ?_⟩
  rw [key, show 48 + (c.toNat - 48) = c.toNat by omega, Char.ofNat_toNat]

/-- Octets have one spelling: no sign, no leading zero, no other digits. -/
private theorem parseOctet_eq_some (h : parseOctet t = some n) : t = natText n ∧ n < 256 := by
  have key1 : ∀ i : Fin 10, ∀ m ∈ parseOctet [Nat.digitChar i],
      [Nat.digitChar i] = natText m ∧ m < 256 := by decide +kernel
  have key2 : ∀ i j : Fin 10, ∀ m ∈ parseOctet [Nat.digitChar i, Nat.digitChar j],
      [Nat.digitChar i, Nat.digitChar j] = natText m ∧ m < 256 := by decide +kernel
  have key3 : ∀ i j k : Fin 10,
      ∀ m ∈ parseOctet [Nat.digitChar i, Nat.digitChar j, Nat.digitChar k],
      [Nat.digitChar i, Nat.digitChar j, Nat.digitChar k] = natText m ∧ m < 256 := by
    decide +kernel
  have hd : ∀ c ∈ t, isAsciiDigit c = true := by
    unfold parseOctet at h
    split at h
    · cases h
    · next hc => simp at hc; exact hc.1.2
  have digit (c : Char) (hc : c ∈ t) := asciiDigit_eq (hd c hc)
  match t with
  | [] => simp [parseOctet] at h
  | [a] =>
    obtain ⟨i, rfl⟩ := digit a (by simp)
    exact key1 i n h
  | [a, b] =>
    obtain ⟨i, rfl⟩ := digit a (by simp)
    obtain ⟨j, rfl⟩ := digit b (by simp)
    exact key2 i j n h
  | [a, b, c] =>
    obtain ⟨i, rfl⟩ := digit a (by simp)
    obtain ⟨j, rfl⟩ := digit b (by simp)
    obtain ⟨k, rfl⟩ := digit c (by simp)
    exact key3 i j k n h
  | a :: b :: c :: d :: rest => simp [parseOctet] at h

private theorem splitOn_octet (a : Nat) (rest : Text) :
    (natText a ++ '.' :: rest).splitOn '.' = natText a :: rest.splitOn '.' :=
  List.splitOn_append_cons_self_of_not_mem (not_mem_natText (by decide) a) rest

theorem parseIPv4_text (h : n < 2 ^ 32) : parseIPv4 (ipv4Text n) = some n := by
  have hlast : (natText (n % 256)).splitOn '.' = [natText (n % 256)] := by
    rw [List.splitOn_eq_singleton]
    exact not_mem_natText (by decide) _
  simp only [parseIPv4, ipv4Text, splitOn_octet, hlast]
  rw [parseOctet_natText (by omega), parseOctet_natText (by omega),
    parseOctet_natText (by omega), parseOctet_natText (by omega)]
  simp only [Option.bind_some, Option.map_some, Option.some.injEq]
  omega

theorem parseIPv4_eq_some (h : parseIPv4 t = some n) : t = ipv4Text n ∧ n < 2 ^ 32 := by
  have hjoin : ['.'].intercalate (t.splitOn '.') = t := List.intercalate_splitOn '.'
  unfold parseIPv4 at h
  split at h
  · next a b c d hs =>
    rw [hs] at hjoin
    simp only [Option.bind_eq_some_iff, Option.map_eq_some_iff] at h
    obtain ⟨ka, ha, kb, hb, kc, hc, kd, hd, rfl⟩ := h
    obtain ⟨rfl, la⟩ := parseOctet_eq_some ha
    obtain ⟨rfl, lb⟩ := parseOctet_eq_some hb
    obtain ⟨rfl, lc⟩ := parseOctet_eq_some hc
    obtain ⟨rfl, ld⟩ := parseOctet_eq_some hd
    refine ⟨?_, by omega⟩
    rw [← hjoin, ipv4Text]
    rw [show (((ka * 256 + kb) * 256 + kc) * 256 + kd) / 16777216 = ka by omega,
      show (((ka * 256 + kb) * 256 + kc) * 256 + kd) / 65536 % 256 = kb by omega,
      show (((ka * 256 + kb) * 256 + kc) * 256 + kd) / 256 % 256 = kc by omega,
      show (((ka * 256 + kb) * 256 + kc) * 256 + kd) % 256 = kd by omega]
    simp [List.intercalate]
  · cases h

/-- A printed address holds digits and dots only. -/
theorem mem_ipv4Text (h : c ∈ ipv4Text n) : c.isDigit = true ∨ c = '.' := by
  have digit (k : Nat) (hc : c ∈ natText k) : c.isDigit = true :=
    Nat.isDigit_of_mem_toDigits (by decide) (by decide) hc
  simp only [ipv4Text, List.mem_append, List.mem_cons] at h
  rcases h with h | h | h | h | h | h | h
  · exact Or.inl (digit _ h)
  · exact Or.inr h
  · exact Or.inl (digit _ h)
  · exact Or.inr h
  · exact Or.inl (digit _ h)
  · exact Or.inr h
  · exact Or.inl (digit _ h)

/-! ## IPv4 interfaces and networks -/

/-- An address together with the length of its network prefix. -/
structure Interface where
  ip : Nat
  prefixLength : Nat
  ip_lt : ip < 2 ^ 32
  prefixLength_le : prefixLength ≤ 32
deriving DecidableEq

variable (i : Interface)

/-- The number of addresses of the interface's network. -/
def Interface.size : Nat := 2 ^ (32 - i.prefixLength)

def Interface.networkAddress : Nat := i.ip / i.size * i.size

def Interface.broadcastAddress : Nat := i.networkAddress + i.size - 1

/-- `candidate in interface.network`. -/
def Interface.contains (candidate : Nat) : Bool :=
  candidate / i.size == i.ip / i.size

/-- `network.hosts()`; a /31 has no addresses set apart and a /32 is its own host. -/
def Interface.hosts : List Nat :=
  if i.prefixLength = 32 then [i.networkAddress]
  else if i.prefixLength = 31 then [i.networkAddress, i.networkAddress + 1]
  else List.range' (i.networkAddress + 1) (i.size - 2)

/-- `_prefix_from_prefix_string`. -/
def parsePrefixLength (max : Nat) (t : Text) : Option Nat :=
  if t.isEmpty || !t.all isAsciiDigit || 4300 < t.length then none
  else if max < Nat.ofDigitChars 10 t 0 then none
  else some (Nat.ofDigitChars 10 t 0)

/-- `_prefix_from_ip_int`, on a netmask and then on a host mask. -/
def prefixFromMask (m : Nat) : Option Nat :=
  match (List.range 33).find? fun p => 2 ^ 32 - 2 ^ (32 - p) == m with
  | some p => some p
  | none => (List.range 33).find? fun p => 2 ^ (32 - p) - 1 == m

/-- `_make_netmask` for IPv4. -/
def parseNetmask (t : Text) : Option Nat :=
  match parsePrefixLength 32 t with
  | some p => some p
  | none => (parseIPv4 t).bind prefixFromMask

theorem parsePrefixLength_le (h : parsePrefixLength max t = some p) : p ≤ max := by
  unfold parsePrefixLength at h
  split at h
  · cases h
  · split at h
    · cases h
    · cases h
      omega

private theorem prefixFromMask_le {m : Nat} (h : prefixFromMask m = some p) : p ≤ 32 := by
  have range_le {f : Nat → Bool} {q : Nat} (hq : (List.range 33).find? f = some q) : q ≤ 32 := by
    have := List.mem_range.mp (List.mem_of_find?_eq_some hq)
    omega
  unfold prefixFromMask at h
  split at h
  · next q hq =>
    cases h
    exact range_le hq
  · exact range_le h

theorem parseNetmask_le (h : parseNetmask t = some p) : p ≤ 32 := by
  unfold parseNetmask at h
  split at h
  · next q hq =>
    cases h
    exact parsePrefixLength_le hq
  · obtain ⟨m, _, hm⟩ := Option.bind_eq_some_iff.mp h
    exact prefixFromMask_le hm

/-- `IPv4Interface(text)`. -/
def parseInterface (t : Text) : Option Interface :=
  let build (address : Text) (p : Nat) (hp : p ≤ 32) : Option Interface :=
    match h : parseIPv4 address with
    | some ip => some ⟨ip, p, (parseIPv4_eq_some h).2, hp⟩
    | none => none
  match t.splitOn '/' with
  | [address] => build address 32 (by omega)
  | [address, mask] =>
    match h : parseNetmask mask with
    | some p => build address p (parseNetmask_le h)
    | none => none
  | _ => none

/-- `IPv4Network(text, strict=True)`: no host bits may be set. -/
def parseNetwork (t : Text) : Option Interface :=
  (parseInterface t).filter fun i => i.ip == i.networkAddress

/-- The interface that names one address. -/
def hostInterface (ip : Nat) (h : ip < 2 ^ 32) : Interface := ⟨ip, 32, h, by omega⟩

/-- `f"{ip}/32"`. -/
def hostText (ip : Text) : Text := ip ++ "/32".toList

theorem parsePrefixLength_natText {k : Nat} (h : k ≤ max) (hlength : (natText k).length ≤ 4300) :
    parsePrefixLength max (natText k) = some k := by
  have hdigits : (natText k).all isAsciiDigit = true := by
    rw [List.all_eq_true]
    intro c hc
    have hd : c.isDigit = true := Nat.isDigit_of_mem_toDigits (by decide) (by decide) hc
    simpa [isAsciiDigit, Char.isDigit, UInt32.le_iff_toNat_le] using hd
  have hne : (natText k).isEmpty = false := by simp [natText, Nat.toDigits_ne_nil]
  have hvalue : Nat.ofDigitChars 10 (natText k) 0 = k :=
    Nat.ofDigitChars_toDigits (by decide) (by decide)
  rw [parsePrefixLength, hdigits, hne, hvalue, if_neg (by simp; omega), if_neg (by omega)]

theorem parsePrefixLength_text {k : Nat} (hmax : max ≤ 128) (h : k ≤ max) :
    parsePrefixLength max (natText k) = some k := by
  have hlength : (natText k).length ≤ 3 := Nat.toDigits_length 10 k 3 (by decide) (by omega)
  exact parsePrefixLength_natText h (by omega)

/-- `str` of an interface: the address with the length of its prefix. -/
def Interface.text : Text := ipv4Text i.ip ++ '/' :: natText i.prefixLength

theorem slash_not_mem_ipv4Text (n : Nat) : '/' ∉ ipv4Text n := by
  intro hm
  rcases mem_ipv4Text hm with hd | hd
  · exact absurd hd (by decide)
  · exact absurd hd (by decide)

theorem parseInterface_text : parseInterface i.text = some i := by
  have hsplit : i.text.splitOn '/' = [ipv4Text i.ip, natText i.prefixLength] := by
    rw [Interface.text, List.splitOn_append_cons_self_of_not_mem (slash_not_mem_ipv4Text _),
      List.splitOn_eq_singleton (not_mem_natText (by decide) _)]
  have hmask : parseNetmask (natText i.prefixLength) = some i.prefixLength := by
    rw [parseNetmask, parsePrefixLength_text (by decide) i.prefixLength_le]
  unfold parseInterface
  simp only [hsplit]
  split
  · next p hp =>
    obtain rfl : i.prefixLength = p := Option.some.inj (hmask.symm.trans hp)
    split
    · next ip hip =>
      obtain rfl : i.ip = ip := Option.some.inj ((parseIPv4_text i.ip_lt).symm.trans hip)
      rfl
    · next hip => exact absurd (hip.symm.trans (parseIPv4_text i.ip_lt)) (by simp)
  · next hp => exact absurd (hp.symm.trans hmask) (by simp)

theorem length_ipv4Text_le (h : n < 2 ^ 32) : (ipv4Text n).length ≤ 15 := by
  have hoctet {k : Nat} (hk : k < 256) : (natText k).length ≤ 3 :=
    Nat.toDigits_length 10 k 3 (by decide) (by omega)
  have h1 := hoctet (k := n / 16777216) (by omega)
  have h2 := hoctet (k := n / 65536 % 256) (by omega)
  have h3 := hoctet (k := n / 256 % 256) (by omega)
  have h4 := hoctet (k := n % 256) (by omega)
  simp only [ipv4Text, List.length_append, List.length_cons]
  omega

theorem Interface.length_text_le : i.text.length ≤ 18 := by
  have hip := length_ipv4Text_le i.ip_lt
  have hprefix := i.prefixLength_le
  have hlength : (natText i.prefixLength).length ≤ 2 :=
    Nat.toDigits_length 10 i.prefixLength 2 (by decide) (by omega)
  simp only [Interface.text, List.length_append, List.length_cons]
  omega

/-- `interface.network`. -/
def Interface.network : Interface :=
  ⟨i.networkAddress, i.prefixLength,
    Nat.lt_of_le_of_lt (Nat.div_mul_le_self ..) i.ip_lt, i.prefixLength_le⟩

theorem parseInterface_hostText (h : n < 2 ^ 32) :
    parseInterface (hostText (ipv4Text n)) = some (hostInterface n h) := by
  rw [← parseInterface_text (hostInterface n h), Interface.text, hostText,
    show "/32".toList = '/' :: natText 32 by decide]
  rfl

variable {i : Interface}

/-- A network is read back from its text. -/
theorem parseNetwork_text (h : i.ip = i.networkAddress) : parseNetwork i.text = some i := by
  rw [parseNetwork, parseInterface_text, Option.filter_some, if_pos (by simp [h])]

theorem parseNetwork_hostText (h : n < 2 ^ 32) :
    parseNetwork (hostText (ipv4Text n)) = some (hostInterface n h) := by
  rw [parseNetwork, parseInterface_hostText h, Option.filter_some, if_pos]
  simp [hostInterface, Interface.networkAddress, Interface.size]

theorem Interface.size_pos : 0 < i.size := Nat.two_pow_pos _

/-- Address arithmetic does not wrap: a network ends inside the address space. -/
theorem Interface.lt_of_contains {c : Nat} (h : i.contains c = true) : c < 2 ^ 32 := by
  have hblocks : 2 ^ 32 = i.size * 2 ^ i.prefixLength := by
    rw [Interface.size, ← Nat.pow_add, Nat.sub_add_cancel i.prefixLength_le]
  have hlt : i.ip / i.size < 2 ^ i.prefixLength := by
    apply Nat.div_lt_of_lt_mul
    rw [← hblocks]
    exact i.ip_lt
  rw [Interface.contains, beq_iff_eq] at h
  rw [← h] at hlt
  rw [hblocks, Nat.mul_comm]
  exact (Nat.div_lt_iff_lt_mul i.size_pos).mp hlt

theorem Interface.contains_iff (c : Nat) :
    i.contains c = true ↔ i.networkAddress ≤ c ∧ c < i.networkAddress + i.size := by
  rw [Interface.contains, beq_iff_eq, Nat.div_eq_iff i.size_pos, Interface.networkAddress]
  have := i.size_pos
  omega

theorem Interface.mem_hosts {c : Nat} : c ∈ i.hosts ↔ i.contains c = true ∧
    (31 ≤ i.prefixLength ∨ (c ≠ i.networkAddress ∧ c ≠ i.broadcastAddress)) := by
  have hpos := i.size_pos
  have hlength := i.prefixLength_le
  rw [Interface.contains_iff, Interface.broadcastAddress]
  unfold Interface.hosts
  split
  · next h32 =>
    have hsize : i.size = 1 := by simp [Interface.size, h32]
    rw [List.mem_singleton]
    omega
  · split
    · next h31 =>
      have hsize : i.size = 2 := by simp [Interface.size, h31]
      simp only [List.mem_cons, List.not_mem_nil, or_false]
      omega
    · rw [List.mem_range'_1]
      omega

/-- Hosts come in increasing order. -/
theorem Interface.hosts_sorted : i.hosts.Pairwise (· < ·) := by
  unfold Interface.hosts
  split
  · exact List.pairwise_singleton ..
  · split
    · simp
    · exact List.pairwise_lt_range'

/-! ## IPv6 addresses and networks -/

def hexDigit (c : Char) : Option Nat :=
  if 48 ≤ c.toNat ∧ c.toNat ≤ 57 then some (c.toNat - 48)
  else if 65 ≤ c.toNat ∧ c.toNat ≤ 70 then some (c.toNat - 55)
  else if 97 ≤ c.toNat ∧ c.toNat ≤ 102 then some (c.toNat - 87)
  else none

/-- `_parse_hextet`. -/
def parseHextet (t : Text) : Option Nat :=
  if t.isEmpty || 4 < t.length then none
  else (t.mapM hexDigit).map fun ds => ds.foldl (fun n d => 16 * n + d) 0

def hextetsValue (parts : List Text) : Option Nat :=
  (parts.mapM parseHextet).map fun hs => hs.foldl (fun n h => 65536 * n + h) 0

/-- The parts after a trailing dotted quad has been replaced by two hextets. -/
def expandDottedQuad (parts : List Text) : Option (List Text) :=
  match parts.getLast? with
  | some last =>
    if last.contains '.' then
      (parseIPv4 last).map fun n =>
        parts.dropLast ++ [Nat.toDigits 16 (n / 65536), Nat.toDigits 16 (n % 65536)]
    else some parts
  | none => none

/-- `IPv6Address._ip_int_from_string`. -/
def parseIPv6Int (t : Text) : Option Nat :=
  if (t.splitOn ':').length < 3 then none
  else (expandDottedQuad (t.splitOn ':')).bind fun parts =>
    if 9 < parts.length then none
    else
      let n := parts.length
      match (List.range' 1 (n - 2)).filter fun k => (parts.getD k []).isEmpty with
      | [] =>
        if n ≠ 8 ∨ parts.head? = some [] ∨ parts.getLast? = some [] then none
        else hextetsValue parts
      | [skip] =>
        -- an empty first or last part is only allowed as one half of the `::`
        if parts.head? = some [] ∧ skip ≠ 1 then none
        else if parts.getLast? = some [] ∧ skip ≠ n - 2 then none
        else
          let high := if parts.head? = some [] then [] else parts.take skip
          let low := if parts.getLast? = some [] then [] else parts.drop (skip + 1)
          if 8 ≤ high.length + low.length then none
          else (hextetsValue high).bind fun hi => (hextetsValue low).map fun lo =>
            hi * 65536 ^ (8 - high.length) + lo
      | _ => none

structure IPv6Address where
  ip : Nat
  scopeId : Option Text
deriving DecidableEq

/-- `IPv6Address(text)`. -/
def parseIPv6 (t : Text) : Option IPv6Address :=
  if t.contains '/' then none
  else match Python.partition '%' t with
    | none => (parseIPv6Int t).map fun n => ⟨n, none⟩
    | some (address, scope) =>
      if scope.isEmpty || scope.contains '%' then none
      else (parseIPv6Int address).map fun n => ⟨n, some scope⟩

inductive Address where
  | v4 (ip : Nat)
  | v6 (address : IPv6Address)
deriving DecidableEq

/-- `ip_address(text)`. -/
def parseAddress (t : Text) : Option Address :=
  match parseIPv4 t with
  | some n => some (.v4 n)
  | none => (parseIPv6 t).map .v6

/-- Whether `IPv6Network(text, strict=True)` accepts the text. -/
def isIPv6Network (t : Text) : Bool :=
  match t.splitOn '/' with
  | [address] => (parseIPv6 address).isSome
  | [address, mask] =>
    match parseIPv6 address, parsePrefixLength 128 mask with
    | some a, some p => a.ip % 2 ^ (128 - p) == 0
    | _, _ => false
  | _ => false

/-- Whether `ip_network(text, strict=True)` accepts the text. -/
def isNetwork (t : Text) : Bool := (parseNetwork t).isSome || isIPv6Network t

example : (parseIPv6 "2001:db8::10.0.0.1".toList).map IPv6Address.ip =
    some 0x20010db800000000000000000a000001 := by decide

end IpAddress
