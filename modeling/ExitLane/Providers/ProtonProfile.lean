import ExitLane.Egress.WireGuard
import ExitLane.Python.IpAddress

/-!
# Proton profiles

`parse_profile` reads the text of a WireGuard profile that an administrator imports: two sections
with a fixed set of keys, each at most once, and one value of a strict form for each key.
-/

namespace ExitLane.Providers.Proton

open Egress Net Python IpAddress

/-! ## Profiles -/

/-- The 32 bits of an IPv4 address. -/
def bits (n : Nat) : Bits := (List.range 32).map fun i => n.testBit (31 - i)

/-- `ProtonProfile`; the address stands for itself with the prefix `/32`. -/
structure Profile where
  address : Nat
  privateKey : Text
  dnsAddress : Nat
  peerPublicKey : Text
  endpointHost : Text
  endpointPort : Nat
  mtu : Nat
  presharedKey : Option Text
  deriving DecidableEq

/-- What the parser takes from libraries for IPv6: whether a token is an interface of one address,
or an address, that is not multicast, unspecified, loopback or link-local. -/
structure Ipv6 where
  isInterface : Text → Bool
  isAddress : Text → Bool

/-! ## Sections -/

inductive Sect where
  | interface
  | peer
  deriving DecidableEq

abbrev Dict := List (Text × Text)

def addressKey : Text := "Address".toList
def privateKeyKey : Text := "PrivateKey".toList
def dnsKey : Text := "DNS".toList
def mtuKey : Text := "MTU".toList
def publicKeyKey : Text := "PublicKey".toList
def presharedKeyKey : Text := "PresharedKey".toList
def allowedIPsKey : Text := "AllowedIPs".toList
def endpointKey : Text := "Endpoint".toList
def keepaliveKey : Text := "PersistentKeepalive".toList

/-- `KEYS`. -/
def keys : Sect → List Text
  | .interface => [addressKey, privateKeyKey, dnsKey, mtuKey]
  | .peer => [publicKeyKey, presharedKeyKey, allowedIPsKey, endpointKey, keepaliveKey]

def header : Sect → Text
  | .interface => "[Interface]".toList
  | .peer => "[Peer]".toList

structure Sections where
  current : Option Sect
  interface : Option Dict
  peer : Option Dict
  deriving DecidableEq

namespace Sections

def empty : Sections := ⟨none, none, none⟩

def get (s : Sections) : Sect → Option Dict
  | .interface => s.interface
  | .peer => s.peer

def set (s : Sections) (d : Dict) : Sect → Sections
  | .interface => { s with interface := some d }
  | .peer => { s with peer := some d }

/-- A section begins: each once, and the interface first. -/
def enter (s : Sections) (sect : Sect) : Option Sections :=
  if (s.get sect).isSome ∨ (sect = .peer ∧ s.interface = none) then none
  else some { s.set [] sect with current := some sect }

/-- A key of the current section. -/
def add (s : Sections) (key value : Text) : Option Sections :=
  match s.current with
  | none => none
  | some sect =>
    let d := (s.get sect).getD []
    if key ∈ keys sect ∧ d.lookup key = none ∧ value ≠ [] then
      some (s.set (d ++ [(key, value)]) sect)
    else none

/-- One line of the loop, stripped and not blank. -/
def read (s : Sections) (line : Text) : Option Sections :=
  if line.head? = some '#' then some s
  else if line = header .interface then s.enter .interface
  else if line = header .peer then s.enter .peer
  else match partition '=' line with
    | none => none
    | some (key, value) => s.add (strip key) (strip value)

end Sections

/-- The sections of a text. -/
def sections (content : Text) : Option (Dict × Dict) :=
  match (contentLines content).foldlM Sections.read .empty with
  | some ⟨_, some interface, some peer⟩ => some (interface, peer)
  | _ => none

/-! ## Values -/

/-- The one IPv4 address of a list with at most one address of each version. -/
def soleAddress (parse : Text → Option Nat) (isV6 : Text → Bool) (value : Text) : Option Nat :=
  match (value.splitOn ',').map strip with
  | [a] => (parse a).filter fun n => isSource (bits n)
  | [a, b] =>
    match parse a, parse b with
    | some n, none => if isSource (bits n) && !b.isEmpty && isV6 b then some n else none
    | none, some n => if !a.isEmpty && isV6 a && isSource (bits n) then some n else none
    | _, _ => none
  | _ => none

/-- An IPv4 interface whose network is its address. -/
def parseHost (t : Text) : Option Nat :=
  (parseInterface t).bind fun i => if i.prefixLength = 32 then some i.ip else none

/-- Decimal digits of a bounded length. -/
def parseDecimal (digits : Nat) (t : Text) : Option Nat :=
  if t ≠ [] ∧ t.length ≤ digits ∧ t.all Char.isDigit then some (Nat.ofDigitChars 10 t 0) else none

/-- `allowed in ({"0.0.0.0/0"}, {"0.0.0.0/0", "::/0"})`, without repetition. -/
def allowsAll (value : Text) : Bool :=
  let v4 := "0.0.0.0/0".toList
  let v6 := "::/0".toList
  match (value.splitOn ',').map strip with
  | [a] => a == v4
  | [a, b] => (a == v4 && b == v6) || (a == v6 && b == v4)
  | _ => false

/-- A label of a host name. -/
def isLabel (t : Text) : Bool :=
  1 ≤ t.length && t.length ≤ 63 && t.all (fun c => c.isAlphanum || c == '-') &&
    t.head? != some '-' && t.getLast? != some '-'

/-- The tests on the host of an endpoint: `HOSTNAME`, and a global address if it is one. -/
def isEndpointHost (w : Platform) (host : Text) : Bool :=
  host.length ≤ 253 && (host.splitOn '.').all isLabel &&
    (!(host.all fun c => c.isDigit || c == '.') || (parseIPv4 host).isSome) &&
    (parseIPv4 host).all fun n => w.isGlobal (bits n)

/-- The host and the port of an endpoint. -/
def parseEndpoint (w : Platform) (value : Text) : Option (Text × Nat) := do
  let (host, portText) ← rpartition ':' value
  let port ← parseDecimal 5 portText
  if 1 ≤ port ∧ port ≤ 65535 ∧ isEndpointHost w host then some (host.map Char.toLower, port)
  else none

def parseMtu (value : Text) : Option Nat := do
  let mtu ← parseDecimal 4 value
  if 1280 ≤ mtu ∧ mtu ≤ 1420 then some mtu else none

/-! ## `parse_profile` -/

def maxProfileBytes : Nat := 16384

/-- Whether the text is short, ASCII and without NUL. -/
def isPlain (content : Text) : Bool :=
  content.length ≤ maxProfileBytes && content.all fun c => 0 < c.toNat && c.toNat < 128

/-- The profile of two sections. -/
def ofSections (w : Platform) (v : Ipv6) (interface peer : Dict) : Option Profile := do
  let address ← (interface.lookup addressKey).bind (soleAddress parseHost v.isInterface)
  let dns ← (interface.lookup dnsKey).bind (soleAddress parseIPv4 v.isAddress)
  let privateKey ← (interface.lookup privateKeyKey).filter fun k =>
    w.isKey k && (w.publicKey k).isSome
  let publicKey ← (peer.lookup publicKeyKey).filter w.isKey
  let allowed ← peer.lookup allowedIPsKey
  let endpoint ← (peer.lookup endpointKey).bind (parseEndpoint w)
  let mtu ← parseMtu ((interface.lookup mtuKey).getD "1380".toList)
  if (peer.lookup presharedKeyKey).all w.isKey ∧ allowsAll allowed ∧
      (peer.lookup keepaliveKey).all (· == "25".toList) then
    some ⟨address, privateKey, dns, publicKey, endpoint.1, endpoint.2, mtu,
      peer.lookup presharedKeyKey⟩
  else none

/-- `parse_profile`. -/
def parseProfile (w : Platform) (v : Ipv6) (content : Text) : Option Profile :=
  if isPlain content then
    (sections content).bind fun (interface, peer) => ofSections w v interface peer
  else none

end ExitLane.Providers.Proton
