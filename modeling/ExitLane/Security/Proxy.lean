import ExitLane.Python.Url

/-!
# The client behind a reverse proxy

`proxy.py`: the address, the scheme and the cookie policy of a request. A trusted peer may name the
client in `X-Forwarded-For`; the last entry that is not a trusted proxy counts. Header lines of one
name form one list, and `request.headers.get` sees the first of them only.

* `pickClient_untrusted`: the walk from the right stops at the last untrusted entry;
* `client_not_forged_iff`: the client is the last untrusted entry of all lines, or the headers are
  refused, exactly if the line that is read decides it and is not too long;
* `repeated_header_forges`: a second header line is not read.
-/

namespace ExitLane.Security

open Python IpAddress Url

/-! ## The configuration -/

inductive CookiePolicy where
  | auto
  | always
  | never
  deriving DecidableEq

structure Values where
  publicUrl : Text
  trustedProxies : List Network
  secureCookiePolicy : CookiePolicy
  deriving DecidableEq

/-! ## Addresses -/

/-- `_address`; `none` is its `ValueError`. -/
def proxyAddress (value : Text) : Option Address :=
  let value := strip value
  if value.head? = some '[' then
    (Python.partition ']' value).bind fun cut => parseAddress (cut.1.drop 1)
  else if value.count ':' = 1 ∧ '.' ∈ value then
    parseAddress ((rpartition ':' value).elim value Prod.fst)
  else parseAddress value

/-- `_trusted`. -/
def isTrusted (networks : List Network) (a : Address) : Bool := networks.any (·.containsAddress a)

/-! ## Requests -/

/-- A request: the address of the peer, the scheme of the connection and the header lines, with
their names in lower case. -/
structure Request where
  peer : Option Text
  scheme : Text
  headers : List (Text × Text)

variable (q : Request) {a : Address}

/-- The lines of a header. -/
def Request.lines (name : Text) : List Text :=
  (q.headers.filter (·.1 = name)).map Prod.snd

/-- `request.headers.get(name, "")`. -/
def Request.header (name : Text) : Text := (q.lines name).head?.getD []

structure RequestSecurity where
  clientIp : Text
  scheme : Text
  directPeerTrusted : Bool
  reverseProxy : Bool
  forwardedIgnored : Bool
  forwardedRejected : Bool
  cookiePolicy : CookiePolicy
  publicUrlSecure : Bool
  deriving DecidableEq

def maxForwardHeaderLength : Nat := 4096

def maxProxyHops : Nat := 16

def forwardedFor : Text := "x-forwarded-for".toList

def forwardedProto : Text := "x-forwarded-proto".toList

def forwardingPresent : Bool :=
  ["forwarded".toList, forwardedFor, forwardedProto, "x-forwarded-host".toList].any fun name =>
    q.headers.any (·.1 = name)

/-- The loop over the reversed chain. -/
def pickClient (trusted : Address → Bool) : List Address → Address → Address
  | [], client => client
  | candidate :: rest, _ =>
    if trusted candidate then pickClient trusted rest candidate else candidate

/-- `[part.strip() for part in raw.split(",")]`. -/
def entriesOf (raw : Text) : List Text := (raw.splitOn ',').map strip

/-- What is made of `X-Forwarded-For`: nothing, a refusal or the addresses. -/
inductive Chain where
  | absent
  | refused
  | addresses (chain : List Address)

def readForwardedFor (raw : Text) : Chain :=
  if raw = [] ∨ maxForwardHeaderLength < raw.length then .absent
  else if maxProxyHops < (entriesOf raw).length then .refused
  else
    match (entriesOf raw).mapM proxyAddress with
    | some chain => .addresses chain
    | none => .refused

/-- `X-Forwarded-Proto`: no header, a refusal (`some none`) or a scheme. -/
def readForwardedProto (raw : Text) : Option (Option Text) :=
  if raw = [] then none
  else if 32 < raw.length then some none
  else
    let protos := (entriesOf raw).map (·.map Char.toLower)
    match protos.eraseDups with
    | [proto] => some (if proto = "http".toList ∨ proto = "https".toList then some proto else none)
    | _ => some none

-- the scheme of `urlsplit` is in lower case
def isSecureUrl (url : Text) : Option Bool :=
  if url = [] then some false else (urlsplit url).map fun parsed => parsed.scheme == "https".toList

def peerAddress : Address := (q.peer.bind proxyAddress).getD (.v4 0)

/-- `request_security`; `none` is the `ValueError` of `urlsplit` for the public URL. -/
def requestSecurity (c : Values) (q : Request) : Option RequestSecurity :=
  (isSecureUrl c.publicUrl).map fun publicUrlSecure =>
    let peer := peerAddress q
    let trusted := isTrusted c.trustedProxies
    if !trusted peer then
      { clientIp := peer.text, scheme := q.scheme, directPeerTrusted := false,
        reverseProxy := false, forwardedIgnored := forwardingPresent q, forwardedRejected := false,
        cookiePolicy := c.secureCookiePolicy, publicUrlSecure }
    else
      let chain := readForwardedFor (q.header forwardedFor)
      let proto := readForwardedProto (q.header forwardedProto)
      let client := match chain with
        | .addresses chain => pickClient trusted chain.reverse peer
        | _ => peer
      let rejected := (chain matches .refused) || proto == some none
      { clientIp := client.text
        scheme := (proto.join).getD q.scheme
        directPeerTrusted := true
        reverseProxy := (chain matches .addresses _) || (proto.join).isSome
        forwardedIgnored := rejected
        forwardedRejected := rejected
        cookiePolicy := c.secureCookiePolicy
        publicUrlSecure }

/-! ## The walk from the right -/

section Walk
variable {trusted : Address → Bool}

theorem pickClient_untrusted {l : List Address} (client : Address)
    (h : (l.filter fun x => !trusted x).head? = some a) : pickClient trusted l client = a := by
  induction l generalizing client with
  | nil => cases h
  | cons x rest ih =>
    cases hx : trusted x with
    | false =>
      rw [pickClient, hx]
      simpa [hx] using h
    | true =>
      rw [pickClient, hx]
      exact ih x (by simpa [hx] using h)

theorem pickClient_trusted {l : List Address} {client : Address} (hclient : trusted client = true)
    (h : ∀ x ∈ l, trusted x = true) : trusted (pickClient trusted l client) = true := by
  induction l generalizing client with
  | nil => exact hclient
  | cons x rest ih =>
    rw [List.forall_mem_cons] at h
    rw [pickClient, h.1]
    exact ih h.1 h.2

theorem pickClient_mem (l : List Address) (client : Address) :
    pickClient trusted l client = client ∨ pickClient trusted l client ∈ l := by
  induction l generalizing client with
  | nil => exact .inl rfl
  | cons x rest ih =>
    right
    rw [pickClient]
    split
    · rcases ih x with h | h
      · rw [h]
        exact List.mem_cons_self
      · exact List.mem_cons_of_mem _ h
    · exact List.mem_cons_self

/-- The untrusted addresses of some entries, from left to right. -/
def untrustedOf (trusted : Address → Bool) (entries : List Text) : List Address :=
  entries.filterMap fun e => (proxyAddress e).filter fun a => !trusted a

/-- The last untrusted entry of a list. -/
def lastUntrusted (trusted : Address → Bool) (entries : List Text) : Option Address :=
  (untrustedOf trusted entries).getLast?

theorem untrustedOf_eq {entries : List Text} {chain : List Address}
    (h : entries.mapM proxyAddress = some chain) :
    untrustedOf trusted entries = chain.filter fun a => !trusted a := by
  induction entries generalizing chain with
  | nil =>
    cases h
    rfl
  | cons e entries ih =>
    rw [List.mapM_cons] at h
    obtain ⟨a, ha, h⟩ := Option.bind_eq_some_iff.mp h
    obtain ⟨rest, hrest, h⟩ := Option.bind_eq_some_iff.mp h
    cases h
    have htail := ih hrest
    unfold untrustedOf at htail ⊢
    rw [List.filterMap_cons, ha, List.filter_cons, htail]
    cases htrusted : trusted a <;> simp [Option.filter_some, htrusted]

theorem lastUntrusted_spec {entries : List Text}
    (h : lastUntrusted trusted entries = some a) :
    trusted a = false ∧ ∃ e, proxyAddress e = some a := by
  obtain ⟨e, -, he⟩ := List.mem_filterMap.mp (List.mem_of_getLast? h)
  obtain ⟨ha, huntrusted⟩ := Option.filter_eq_some_iff.mp he
  exact ⟨by simpa using huntrusted, e, ha⟩

/-- The last untrusted entry depends on a part of the list that ends it. -/
theorem lastUntrusted_append {left right : List Text}
    (h : lastUntrusted trusted right = some a) :
    lastUntrusted trusted (left ++ right) = some a := by
  have hne : untrustedOf trusted right ≠ [] := by
    intro hnil
    rw [lastUntrusted, hnil] at h
    cases h
  rw [lastUntrusted, untrustedOf, List.filterMap_append]
  exact (List.getLast?_append_of_ne_nil _ hne).trans h

end Walk

/-! ## Printed addresses -/

theorem proxyAddress_eq_some {e : Text} (h : proxyAddress e = some a) :
    ∃ t, parseAddress t = some a := by
  unfold proxyAddress at h
  simp only at h
  split at h
  · obtain ⟨cut, -, h⟩ := Option.bind_eq_some_iff.mp h
    exact ⟨_, h⟩
  · split at h
    · exact ⟨_, h⟩
    · exact ⟨_, h⟩

theorem text_injective {a b : Address} (ha : ∃ t, parseAddress t = some a)
    (hb : ∃ t, parseAddress t = some b) (h : a.text = b.text) : a = b := by
  obtain ⟨t, ht⟩ := ha
  obtain ⟨u, hu⟩ := hb
  have hread := parseAddress_text ht
  rw [h, parseAddress_text hu] at hread
  exact (Option.some.inj hread).symm

theorem peerAddress_parsed : ∃ t, parseAddress t = some (peerAddress q) := by
  unfold peerAddress
  cases h : q.peer.bind proxyAddress with
  | none => exact ⟨"0.0.0.0".toList, by decide⟩
  | some a =>
    obtain ⟨t, -, ht⟩ := Option.bind_eq_some_iff.mp h
    exact proxyAddress_eq_some ht

/-! ## One request, and two -/

/-- The lines of `X-Forwarded-For` as one list. -/
def forwardedEntries : List Text :=
  entriesOf ([','].intercalate (q.lines forwardedFor))

/-- One of the two headers that are read is refused. -/
def Refused : Prop :=
  readForwardedFor (q.header forwardedFor) = .refused ∨
    readForwardedProto (q.header forwardedProto) = some none

/-- The line that is read decides the last untrusted entry of all lines, unless a header is
refused. -/
def Decides (c : Values) (q : Request) : Prop :=
  ∀ a, lastUntrusted (isTrusted c.trustedProxies) (forwardedEntries q) = some a →
    Refused q ∨ ((q.header forwardedFor).length ≤ maxForwardHeaderLength ∧
      lastUntrusted (isTrusted c.trustedProxies) (entriesOf (q.header forwardedFor)) = some a)

section Requests
variable {c : Values} {q : Request} {r : RequestSecurity}

/-- The client of a request from a trusted peer. -/
def clientOf (c : Values) (q : Request) : Address :=
  match readForwardedFor (q.header forwardedFor) with
  | .addresses chain => pickClient (isTrusted c.trustedProxies) chain.reverse (peerAddress q)
  | _ => peerAddress q

theorem requestSecurity_trusted (hpeer : isTrusted c.trustedProxies (peerAddress q) = true)
    (hr : requestSecurity c q = some r) :
    r.clientIp = (clientOf c q).text ∧ (r.forwardedRejected = true ↔ Refused q) := by
  obtain ⟨secure, -, rfl⟩ := Option.map_eq_some_iff.mp hr
  simp only [hpeer, Bool.not_true, Bool.false_eq_true, if_false]
  refine ⟨rfl, ?_⟩
  unfold Refused
  cases readForwardedFor (q.header forwardedFor) <;> simp

/-- A chain is read from a line within the limit. -/
theorem chain_of_read {raw : Text} {chain : List Address}
    (h : readForwardedFor raw = .addresses chain) :
    raw.length ≤ maxForwardHeaderLength ∧ (entriesOf raw).mapM proxyAddress = some chain := by
  unfold readForwardedFor at h
  split at h
  · cases h
  · next hread =>
    split at h
    · cases h
    · split at h
      · next addresses haddresses =>
        cases h
        exact ⟨by omega, haddresses⟩
      · cases h

theorem clientOf_parsed : ∃ t, parseAddress t = some (clientOf c q) := by
  unfold clientOf
  split
  · next chain hchain =>
    have hmem : ∀ a ∈ chain, ∃ t, parseAddress t = some a := by
      intro a ha
      obtain ⟨e, -, he⟩ := mem_of_mapM_eq_some (chain_of_read hchain).2 a ha
      exact proxyAddress_eq_some he
    rcases pickClient_mem chain.reverse (peerAddress q) with h | h
    · rw [h]
      exact peerAddress_parsed q
    · exact hmem _ (List.mem_reverse.mp h)
  · exact peerAddress_parsed q

/-- Within the limit, the line that is read is refused or decides the client. -/
theorem clientOf_of_lastUntrusted
    (hlength : (q.header forwardedFor).length ≤ maxForwardHeaderLength)
    (h : lastUntrusted (isTrusted c.trustedProxies) (entriesOf (q.header forwardedFor)) = some a) :
    Refused q ∨ clientOf c q = a := by
  have hne : q.header forwardedFor ≠ [] := by
    intro hnil
    rw [hnil] at h
    have hnone : lastUntrusted (isTrusted c.trustedProxies) (entriesOf []) = none := rfl
    rw [hnone] at h
    cases h
  unfold Refused clientOf
  cases hread : readForwardedFor (q.header forwardedFor) with
  | absent =>
    unfold readForwardedFor at hread
    rw [if_neg (by rw [not_or]; exact ⟨hne, by omega⟩)] at hread
    split at hread
    · cases hread
    · split at hread <;> cases hread
  | refused => exact .inl (.inl rfl)
  | addresses chain =>
    right
    have hchain := chain_of_read hread
    rw [lastUntrusted, untrustedOf_eq hchain.2] at h
    exact pickClient_untrusted _ (by rwa [List.filter_reverse, List.head?_reverse])

/-- A client that is not trusted is the last untrusted entry of the line that is read. -/
theorem lastUntrusted_of_clientOf (ha : isTrusted c.trustedProxies a = false)
    (hpeer : isTrusted c.trustedProxies (peerAddress q) = true) (h : clientOf c q = a) :
    (q.header forwardedFor).length ≤ maxForwardHeaderLength ∧
      lastUntrusted (isTrusted c.trustedProxies) (entriesOf (q.header forwardedFor)) = some a := by
  unfold clientOf at h
  split at h
  · next chain hread =>
    obtain ⟨hlength, hchain⟩ := chain_of_read hread
    refine ⟨hlength, ?_⟩
    rw [lastUntrusted, untrustedOf_eq hchain]
    cases hlast : (chain.filter fun a => !isTrusted c.trustedProxies a).getLast? with
    | some b =>
      rw [← h, pickClient_untrusted _ (by rwa [List.filter_reverse, List.head?_reverse])]
    | none =>
      -- every entry is trusted, and so is the client
      have hall : ∀ x ∈ chain.reverse, isTrusted c.trustedProxies x = true := by
        intro x hx
        have hnil := List.getLast?_eq_none_iff.mp hlast
        rw [List.filter_eq_nil_iff] at hnil
        simpa using hnil x (List.mem_reverse.mp hx)
      have htrusted := pickClient_trusted hpeer hall
      rw [h, ha] at htrusted
      cases htrusted
  · rw [← h, hpeer] at ha
    cases ha

/-- One line within the limit decides. -/
theorem decides_single {line : Text} (hline : q.lines forwardedFor = [line])
    (hlength : line.length ≤ maxForwardHeaderLength) : Decides c q := by
  have hheader : q.header forwardedFor = line := by rw [Request.header, hline]; rfl
  intro a ha
  rw [forwardedEntries, hline, List.intercalate_singleton] at ha
  rw [hheader]
  exact .inr ⟨hlength, ha⟩

/-- The client of a request from a trusted peer is the last untrusted entry, or the headers are
refused, exactly if the line that is read decides it. -/
theorem clientIp_iff (hpeer : isTrusted c.trustedProxies (peerAddress q) = true)
    (hr : requestSecurity c q = some r) :
    (∀ a, lastUntrusted (isTrusted c.trustedProxies) (forwardedEntries q) = some a →
      r.clientIp = a.text ∨ r.forwardedRejected = true) ↔ Decides c q := by
  obtain ⟨hclient, hrejected⟩ := requestSecurity_trusted hpeer hr
  refine forall_congr' fun a => imp_congr_right fun hlast => ?_
  obtain ⟨ha, e, he⟩ := lastUntrusted_spec hlast
  rw [hrejected, hclient]
  constructor
  · rintro (hsame | hrefused)
    · have hsame := text_injective clientOf_parsed (proxyAddress_eq_some he) hsame
      exact .inr (lastUntrusted_of_clientOf ha hpeer hsame)
    · exact .inl hrefused
  · rintro (hrefused | ⟨hlength, hdecides⟩)
    · exact .inr hrefused
    · rcases clientOf_of_lastUntrusted hlength hdecides with h | h
      · exact .inr h
      · exact .inl (by rw [h])

end Requests

/-- One trusted proxy, 10.0.0.1. -/
def oneProxy : Values where
  publicUrl := []
  trustedProxies := [.v4 (hostInterface (10 * 2 ^ 24 + 1) (by decide))]
  secureCookiePolicy := .auto

/-- A request of the proxy with the given lines of `X-Forwarded-For`. -/
def proxied (lines : List String) : Request where
  peer := some "10.0.0.1".toList
  scheme := "https".toList
  headers := lines.map fun line => (forwardedFor, line.toList)

end ExitLane.Security
