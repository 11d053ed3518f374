import ExitLane.Egress.WireGuard
import ExitLane.Peers.Invariant

/-!
# The form of a server file

Every server file of the appliance has one form, `serverText`: the interface part that
`wireguard.create` wrote, and one block for each active row.

* `render_lines`: `_render` keeps the form;
* `sections_serverText`, `server_serverText`: what `_sections` and `_server` read off such a text;
* `read_serverText`: it is printable and within the limit of `_read`.
-/

namespace ExitLane.Peers
open Python IpAddress
open Egress (isInterface)

/-! ## Words -/

/-- A printable text without blanks, at most as long as a key. -/
def isWord (t : Text) : Bool :=
  !t.isEmpty && t.length ≤ 44 && t.all fun c => 33 ≤ c.toNat && c.toNat ≤ 126

/-- Words with single blanks between them. -/
def sentence (ws : List Text) : Text := [' '].intercalate ws

/-- A text of printable characters and blanks. -/
def Printable (t : Text) : Prop := ∀ c ∈ t, 32 ≤ c.toNat ∧ c.toNat ≤ 126

variable {t : Text} {c : Char} {n : Nat} {h : Head} {pre : Text}

theorem isWord_iff :
    isWord t = true ↔ t ≠ [] ∧ t.length ≤ 44 ∧ ∀ c ∈ t, 33 ≤ c.toNat ∧ c.toNat ≤ 126 := by
  simp [isWord, and_assoc]

theorem isSpace_of_isWord (h : isWord t = true) (hc : c ∈ t) : isSpace c = false := by
  obtain ⟨-, -, hprint⟩ := isWord_iff.mp h
  obtain ⟨h1, h2⟩ := hprint c hc
  simp only [isSpace, Bool.or_eq_false_iff, Bool.and_eq_false_iff, decide_eq_false_iff_not,
    beq_eq_false_iff_ne]
  omega

theorem isLineBreak_of_printable (h : 32 ≤ c.toNat ∧ c.toNat ≤ 126) : isLineBreak c = false := by
  simp only [isLineBreak, Bool.or_eq_false_iff, Bool.and_eq_false_iff, decide_eq_false_iff_not,
    beq_eq_false_iff_ne]
  omega

theorem Printable.noBreak (h : Printable t) : NoBreak t :=
  fun c hc => isLineBreak_of_printable (h c hc)

theorem printable_of_isWord (h : isWord t = true) : Printable t := by
  obtain ⟨-, -, hprint⟩ := isWord_iff.mp h
  exact fun c hc => ⟨by have := (hprint c hc).1; omega, (hprint c hc).2⟩

theorem Printable.append {u : Text} (ht : Printable t) (hu : Printable u) :
    Printable (t ++ u) := fun c hc => (List.mem_append.mp hc).elim (ht c) (hu c)

section Sentence
variable {ws : List Text}

theorem printable_sentence (h : ∀ t ∈ ws, isWord t = true) : Printable (sentence ws) := by
  induction ws with
  | nil => exact fun c hc => absurd hc List.not_mem_nil
  | cons t ws ih =>
    rw [List.forall_mem_cons] at h
    cases ws with
    | nil =>
      rw [sentence, List.intercalate_singleton]
      exact printable_of_isWord h.1
    | cons u ws =>
      rw [sentence, List.intercalate_cons_cons]
      refine ((printable_of_isWord h.1).append ?_).append (ih h.2)
      intro c hc
      rw [List.mem_singleton.mp hc]
      decide

theorem sentence_head (hne : ws ≠ []) (h : ∀ t ∈ ws, isWord t = true) :
    ∃ c rest, sentence ws = c :: rest ∧ isSpace c = false := by
  cases ws with
  | nil => exact absurd rfl hne
  | cons t ws =>
    rw [List.forall_mem_cons] at h
    obtain ⟨c, rest, rfl⟩ := List.exists_cons_of_ne_nil (isWord_iff.mp h.1).1
    have hc : isSpace c = false := isSpace_of_isWord h.1 List.mem_cons_self
    cases ws with
    | nil => exact ⟨c, rest, by rw [sentence, List.intercalate_singleton], hc⟩
    | cons u ws =>
      exact ⟨c, _, by rw [sentence, List.intercalate_cons_cons, List.append_assoc]; rfl, hc⟩

theorem sentence_last (hne : ws ≠ []) (h : ∀ t ∈ ws, isWord t = true) :
    ∃ c front, sentence ws = front ++ [c] ∧ isSpace c = false := by
  induction ws with
  | nil => exact absurd rfl hne
  | cons t ws ih =>
    rw [List.forall_mem_cons] at h
    cases ws with
    | nil =>
      have hne := (isWord_iff.mp h.1).1
      refine ⟨t.getLast hne, t.dropLast, ?_, isSpace_of_isWord h.1 (List.getLast_mem hne)⟩
      rw [sentence, List.intercalate_singleton, List.dropLast_append_getLast]
    | cons u ws =>
      obtain ⟨c, front, heq, hc⟩ := ih (by simp) h.2
      refine ⟨c, t ++ [' '] ++ front, ?_, hc⟩
      rw [sentence, List.intercalate_cons_cons, ← sentence, heq]
      simp

theorem isValue_sentence (hne : ws ≠ []) (h : ∀ t ∈ ws, isWord t = true) :
    IsValue (sentence ws) := by
  refine ⟨stripped_of_ends (fun c hc => ?_) (fun c hc => ?_), (printable_sentence h).noBreak⟩
  · obtain ⟨d, rest, heq, hd⟩ := sentence_head hne h
    rw [heq] at hc
    cases hc
    exact hd
  · obtain ⟨d, front, heq, hd⟩ := sentence_last hne h
    rw [heq, List.getLast?_append] at hc
    cases hc
    exact hd

theorem length_sentence_le (h : ∀ t ∈ ws, isWord t = true) :
    (sentence ws).length ≤ 45 * ws.length := by
  induction ws with
  | nil => simp [sentence, List.intercalate]
  | cons t ws ih =>
    rw [List.forall_mem_cons] at h
    have ht := (isWord_iff.mp h.1).2.1
    have hrest := ih h.2
    cases ws with
    | nil =>
      rw [sentence, List.intercalate_singleton]
      simp only [List.length_cons, List.length_nil]
      omega
    | cons u ws =>
      rw [sentence, List.intercalate_cons_cons, List.length_append, List.length_append,
        ← sentence, List.length_cons]
      simp only [List.length_cons, List.length_nil] at hrest ⊢
      omega

end Sentence

theorem sentence_singleton (t : Text) : sentence [t] = t := List.intercalate_singleton ..

theorem isValue_of_isWord (h : isWord t = true) : IsValue t := by
  rw [← sentence_singleton t]
  exact isValue_sentence (by simp) (by simpa using h)

/-! ## The interface part -/

def listenPortKey : Text := "ListenPort".toList
def postUpKey : Text := "PostUp".toList
def postDownKey : Text := "PostDown".toList

/-- The values of the three rules that `_forwarding_rules` adds with `-A` and removes with `-D`. -/
def forwardingValues (flag interface subnet : Text) : Option Text → List (List Text)
  | some vpnInterface =>
    [["iptables".toList, flag, "FORWARD".toList, "-i".toList, interface, "-o".toList, vpnInterface,
        "-j".toList, "ACCEPT".toList],
      ["iptables".toList, flag, "FORWARD".toList, "-i".toList, vpnInterface, "-o".toList, interface,
        "-m".toList, "conntrack".toList, "--ctstate".toList, "RELATED,ESTABLISHED".toList,
        "-j".toList, "ACCEPT".toList],
      ["iptables".toList, "-t".toList, "nat".toList, flag, "POSTROUTING".toList, "-o".toList,
        vpnInterface, "-j".toList, "MASQUERADE".toList]]
  | none =>
    [["iptables".toList, flag, "FORWARD".toList, "-i".toList, interface, "!".toList, "-o".toList,
        interface, "-j".toList, "ACCEPT".toList],
      ["iptables".toList, flag, "FORWARD".toList, "!".toList, "-i".toList, interface, "-o".toList,
        interface, "-m".toList, "conntrack".toList, "--ctstate".toList,
        "RELATED,ESTABLISHED".toList, "-j".toList, "ACCEPT".toList],
      ["iptables".toList, "-t".toList, "nat".toList, flag, "POSTROUTING".toList, "-s".toList,
        subnet, "!".toList, "-o".toList, interface, "-j".toList, "MASQUERADE".toList]]

/-- The lines of `_forwarding_rules`, each a name and the words of its value. -/
def forwardingRules (interface subnet : Text) (vpnInterface : Option Text) :
    List (Text × List Text) :=
  ((forwardingValues "-A".toList interface subnet vpnInterface).map fun ws => (postUpKey, ws)) ++
    (forwardingValues "-D".toList interface subnet vpnInterface).map fun ws => (postDownKey, ws)

/-- `sysctl -w net.ipv4.ip_forward=1`. -/
def sysctlWords : List Text := ["sysctl".toList, "-w".toList, "net.ipv4.ip_forward=1".toList]

/-- The values of the interface part. -/
structure Head where
  interface : Text
  address : Interface
  port : Nat
  privateKey : Text
  vpnInterface : Option Text
  deriving DecidableEq

/-- The hooks, each a name and the words of its value. -/
def Head.hooks (h : Head) : List (Text × List Text) :=
  (postUpKey, sysctlWords) :: forwardingRules h.interface h.address.network.text h.vpnInterface

def Head.values (h : Head) : List (Text × List Text) :=
  [(addressKey, [h.address.text]), (listenPortKey, [natText h.port]),
    (privateKeyKey, [h.privateKey])] ++ h.hooks

def Head.lines (h : Head) : List Text :=
  "[Interface]".toList :: h.values.map fun item => entry item.1 (sentence item.2)

/-- The lines that `_render` writes for a block. -/
def serverBlock (p : PeerBlock) : List Text :=
  [[], "[Peer]".toList, entry publicKeyKey p.publicKey, entry allowedIPsKey p.allowedIPs,
    entry persistentKeepaliveKey p.keepalive]

def serverText (h : Head) (peers : List PeerBlock) : Text :=
  unlines (h.lines ++ peers.flatMap serverBlock)

/-! ## Its words -/

theorem toNat_of_isAlphanum (h : c.isAlphanum = true) : 48 ≤ c.toNat ∧ c.toNat ≤ 122 := by
  rw [isAlphanum_iff] at h
  omega

/-- `re.fullmatch(r"[A-Za-z0-9-]{1,15}", interface)`. -/
def isIngressName (t : Text) : Bool :=
  1 ≤ t.length && t.length ≤ 15 && t.all fun c => c.isAlphanum || c == '-'

theorem isConfigName_of_isIngressName (h : isIngressName t = true) : isConfigName t = true := by
  simp only [isIngressName, isConfigName, Bool.and_eq_true, decide_eq_true_eq, List.all_eq_true,
    Bool.or_eq_true] at h ⊢
  exact ⟨⟨h.1.1, by omega⟩, fun c hc => (h.2 c hc).imp Or.inl id⟩

theorem isWord_of_isIngressName (h : isIngressName t = true) : isWord t = true := by
  simp only [isIngressName, Bool.and_eq_true, decide_eq_true_eq, List.all_eq_true,
    Bool.or_eq_true, beq_iff_eq] at h
  obtain ⟨⟨h1, h2⟩, hall⟩ := h
  refine isWord_iff.mpr ⟨by intro h0; simp [h0] at h1, by omega, fun c hc => ?_⟩
  rcases hall c hc with hc | rfl
  · have := toNat_of_isAlphanum hc
    omega
  · decide

theorem isWord_of_isInterface (h : isInterface t = true) : isWord t = true := by
  simp only [isInterface, Bool.and_eq_true, decide_eq_true_eq, List.all_eq_true,
    Bool.or_eq_true, beq_iff_eq] at h
  obtain ⟨⟨h1, h2⟩, hall⟩ := h
  refine isWord_iff.mpr ⟨by intro h0; simp [h0] at h1, by omega, fun c hc => ?_⟩
  rcases hall c hc with ((hc | rfl) | rfl) | rfl
  · have := toNat_of_isAlphanum hc
    omega
  · decide
  · decide
  · decide

theorem natText_ne_nil (n : Nat) : natText n ≠ [] := Nat.toDigits_ne_nil

theorem toNat_of_mem_natText (h : c ∈ natText n) : 33 ≤ c.toNat ∧ c.toNat ≤ 126 := by
  have hdigit := Nat.isDigit_of_mem_toDigits (by decide) (by decide) h
  have := toNat_of_isAlphanum (c := c) (by simp [Char.isAlphanum, hdigit])
  omega

theorem isWord_natText (h : n < 10 ^ 5) : isWord (natText n) = true := by
  have hlength : (natText n).length ≤ 5 := Nat.toDigits_length 10 n 5 (by decide) h
  exact isWord_iff.mpr ⟨natText_ne_nil n, by omega, fun c hc => toNat_of_mem_natText hc⟩

theorem isWord_ipv4Text (h : n < 2 ^ 32) : isWord (ipv4Text n) = true := by
  have hlength := length_ipv4Text_le h
  refine isWord_iff.mpr ⟨by simp [ipv4Text], by omega, fun c hc => ?_⟩
  rcases mem_ipv4Text hc with hd | rfl
  · have := toNat_of_isAlphanum (c := c) (by simp [Char.isAlphanum, hd])
    omega
  · decide

theorem isWord_text (i : Interface) : isWord i.text = true := by
  have hlength := i.length_text_le
  refine isWord_iff.mpr ⟨by simp [Interface.text], by omega, fun c hc => ?_⟩
  rw [Interface.text, List.mem_append, List.mem_cons] at hc
  rcases hc with hc | rfl | hc
  · exact (isWord_iff.mp (isWord_ipv4Text i.ip_lt)).2.2 c hc
  · decide
  · exact toNat_of_mem_natText hc

/-- What `create` has checked about the values of the interface part. -/
structure Head.WellFormed (h : Head) : Prop where
  interface : isIngressName h.interface = true
  prefixLength_le : h.address.prefixLength ≤ 31
  port : 1 ≤ h.port ∧ h.port ≤ 65535
  privateKey : isWord h.privateKey = true
  vpnInterface : ∀ v ∈ h.vpnInterface, isInterface v = true

theorem isWord_forwardingValues {flag interface subnet : Text} {vpnInterface : Option Text}
    (hflag : isWord flag = true) (hinterface : isWord interface = true)
    (hsubnet : isWord subnet = true) (hvpn : ∀ v ∈ vpnInterface, isWord v = true) :
    ∀ ws ∈ forwardingValues flag interface subnet vpnInterface, ws ≠ [] ∧ ws.length ≤ 14 ∧
      ∀ t ∈ ws, isWord t = true := by
  have hvpn' {v : Text} (hv : vpnInterface = some v) : isWord v = true := hvpn v hv
  cases vpnInterface with
  | none =>
    simp only [forwardingValues, List.forall_mem_cons, List.not_mem_nil, false_implies,
      implies_true, and_true, hflag, hinterface, hsubnet, ne_eq, reduceCtorEq, not_false_eq_true,
      true_and, List.length_cons, List.length_nil]
    decide +kernel
  | some v =>
    simp only [forwardingValues, List.forall_mem_cons, List.not_mem_nil, false_implies,
      implies_true, and_true, hflag, hinterface, hvpn' rfl, ne_eq, reduceCtorEq,
      not_false_eq_true, true_and, List.length_cons, List.length_nil]
    decide +kernel

theorem isKey_listenPort : IsKey listenPortKey :=
  isKey_cons (by decide +kernel)

theorem isKey_postUp : IsKey postUpKey :=
  isKey_cons (by decide +kernel)

theorem isKey_postDown : IsKey postDownKey :=
  isKey_cons (by decide +kernel)

/-- A key with the words of its value. -/
structure IsItem (item : Text × List Text) : Prop where
  key : IsKey item.1
  isWord_key : isWord item.1 = true
  ne_nil : item.2 ≠ []
  length_le : item.2.length ≤ 14
  words : ∀ t ∈ item.2, isWord t = true

namespace Head.WellFormed
variable {h : Head} (hh : h.WellFormed)
include hh

theorem hooks : ∀ item ∈ h.hooks, IsItem item := by
  have hforwarding {flag : Text} (hflag : isWord flag = true) {key : Text} (hkey : IsKey key)
      (hword : isWord key = true) :
      ∀ item ∈ (forwardingValues flag h.interface h.address.network.text h.vpnInterface).map
        (fun ws => (key, ws)), IsItem item := by
    intro item hitem
    obtain ⟨ws, hws, rfl⟩ := List.mem_map.mp hitem
    obtain ⟨hne, hlength, hwords⟩ := isWord_forwardingValues hflag
      (isWord_of_isIngressName hh.interface) (isWord_text _)
      (fun v hv => isWord_of_isInterface (hh.vpnInterface v hv)) ws hws
    exact ⟨hkey, hword, hne, hlength, hwords⟩
  rw [Head.hooks, forwardingRules, List.forall_mem_cons, List.forall_mem_append]
  refine ⟨⟨isKey_postUp, by decide +kernel, by simp [sysctlWords], by simp [sysctlWords], ?_⟩,
    hforwarding (by decide +kernel) isKey_postUp (by decide +kernel),
    hforwarding (by decide +kernel) isKey_postDown (by decide +kernel)⟩
  simp only [sysctlWords, List.forall_mem_cons, List.not_mem_nil, false_implies, implies_true,
    and_true]
  decide +kernel

theorem values : ∀ item ∈ h.values, IsItem item := by
  have hone {key t : Text} (hkey : IsKey key) (hword : isWord key = true)
      (ht : isWord t = true) : IsItem (key, [t]) :=
    ⟨hkey, hword, by simp, by simp, by simpa using ht⟩
  have hport := hh.port
  rw [Head.values, List.forall_mem_append, List.forall_mem_cons, List.forall_mem_cons,
    List.forall_mem_cons]
  exact ⟨⟨hone isKey_address (by decide +kernel) (isWord_text _),
    hone isKey_listenPort (by decide +kernel) (isWord_natText (by omega)),
    hone isKey_privateKey (by decide +kernel) hh.privateKey,
    fun _ hi => absurd hi List.not_mem_nil⟩, hh.hooks⟩

end Head.WellFormed

theorem IsItem.isValue {item : Text × List Text} (h : IsItem item) : IsValue (sentence item.2) :=
  isValue_sentence h.ne_nil h.words

/-! ## `_render` keeps the form -/

private theorem rstrip_unlines {ls front : List Text} {l : Text} (hls : ls = front ++ [l ++ [c]])
    (hc : isSpace c = false) : rstrip (unlines ls) ++ ['\n'] = unlines ls := by
  have hshape : unlines ls = (unlines front ++ l ++ [c]) ++ ['\n'] := by
    rw [hls, unlines, List.flatMap_append, ← unlines]
    simp
  have hkeep : rstrip (unlines front ++ l ++ [c]) = unlines front ++ l ++ [c] := by
    rw [rstrip, List.rdropWhile_eq_self_iff]
    intro hne
    rw [List.getLast_append_singleton, hc]
    exact Bool.false_ne_true
  rw [hshape, rstrip_append_space _ (by simp [AllSpace, isSpace]), hkeep]

theorem Head.WellFormed.rstrip_lines (hh : h.WellFormed) :
    rstrip (unlines h.lines) ++ ['\n'] = unlines h.lines := by
  have hne : h.values ≠ [] := by simp [Head.values]
  have hlast := hh.values _ (List.getLast_mem hne)
  obtain ⟨c, front, heq, hc⟩ := sentence_last hlast.ne_nil hlast.words
  have hlines : h.lines = ("[Interface]".toList :: h.values.dropLast.map fun item =>
      entry item.1 (sentence item.2)) ++
        [(h.values.getLast hne).1 ++ " = ".toList ++ front ++ [c]] := by
    rw [Head.lines]
    conv_lhs => rw [← List.dropLast_append_getLast hne]
    rw [List.map_append, List.map_singleton, entry, heq, List.append_assoc _ front,
      List.cons_append]
  exact rstrip_unlines hlines hc

theorem renderPeer_eq (p : PeerBlock) : renderPeer p = unlines (serverBlock p) := by
  unfold renderPeer serverBlock unlines
  generalize entry publicKeyKey p.publicKey = e1
  generalize entry allowedIPsKey p.allowedIPs = e2
  generalize entry persistentKeepaliveKey p.keepalive = e3
  simp

theorem render_lines (hh : h.WellFormed) (hpre : rstrip pre = rstrip (unlines h.lines))
    (peers : List PeerBlock) : render pre peers = serverText h peers := by
  have hpeers : peers.flatMap renderPeer = unlines (peers.flatMap serverBlock) := by
    rw [unlines, List.flatMap_assoc]
    exact List.flatMap_congr fun p _ => renderPeer_eq p
  rw [render, hpre, show "\n".toList = ['\n'] from rfl, hh.rstrip_lines, hpeers, serverText,
    unlines, unlines, unlines, List.flatMap_append]

/-! ## What `_server` reads -/

/-- The content lines of values written line by line. -/
theorem contentLines_values {items : List (Text × List Text)} (h : ∀ item ∈ items, IsItem item) :
    (items.map fun item => entry item.1 (sentence item.2)).flatMap contentLines =
      items.map fun item => strip (entry item.1 (sentence item.2)) := by
  induction items with
  | nil => rfl
  | cons item items ih =>
    rw [List.forall_mem_cons] at h
    rw [List.map_cons, List.flatMap_cons, contentLines_entry h.1.key h.1.isValue, ih h.2,
      List.map_cons, List.singleton_append]

theorem Head.WellFormed.contentLines_lines (hh : h.WellFormed) :
    contentLines (unlines h.lines) = "[Interface]".toList ::
      h.values.map fun item => strip (entry item.1 (sentence item.2)) := by
  have hheader : contentLines "[Interface]".toList = ["[Interface]".toList] := by decide
  rw [contentLines_unlines, Head.lines, List.flatMap_cons, hheader, contentLines_values hh.values,
    List.singleton_append]

theorem Head.WellFormed.interfacePart (hh : h.WellFormed)
    (hpre : contentLines pre = contentLines (unlines h.lines)) :
    InterfacePart pre h.address h.privateKey := by
  have hitems := hh.values
  have hheader (key : Text) (rest : List Text) : valueIn key interfaceSection []
      ("[Interface]".toList :: rest) = valueIn key interfaceSection interfaceSection rest := by
    rw [valueIn, if_pos (by decide +kernel)]
    congr 1
  have haddress : value pre addressKey interfaceSection = some h.address.text := by
    have hone := hitems (addressKey, [h.address.text]) (by simp [Head.values])
    rw [value_eq_content, hpre, hh.contentLines_lines, hheader, Head.values, List.map_append,
      List.map_cons, List.cons_append, valueIn_entry hone.key hone.isValue, if_pos ⟨rfl, rfl⟩,
      sentence_singleton]
  have hprivate : value pre privateKeyKey interfaceSection = some h.privateKey := by
    have hone := hitems (addressKey, [h.address.text]) (by simp [Head.values])
    have htwo := hitems (listenPortKey, [natText h.port]) (by simp [Head.values])
    have hthree := hitems (privateKeyKey, [h.privateKey]) (by simp [Head.values])
    have hne1 : addressKey ≠ privateKeyKey := by decide +kernel
    have hne2 : listenPortKey ≠ privateKeyKey := by decide +kernel
    rw [value_eq_content, hpre, hh.contentLines_lines, hheader, Head.values, List.map_append,
      List.map_cons, List.cons_append, valueIn_entry hone.key hone.isValue,
      if_neg fun h => hne1 h.2, List.map_cons, List.cons_append,
      valueIn_entry htwo.key htwo.isValue, if_neg fun h => hne2 h.2, List.map_cons,
      List.cons_append, valueIn_entry hthree.key hthree.isValue, if_pos ⟨rfl, rfl⟩,
      sentence_singleton]
  exact ⟨⟨_, haddress, (isWord_iff.mp (isWord_text _)).1, parseInterface_text _⟩,
    ⟨hprivate, (isWord_iff.mp hh.privateKey).1⟩, hh.prefixLength_le⟩

theorem Head.WellFormed.headerFree (hh : h.WellFormed) : HeaderFree (unlines h.lines) := by
  have hentry : ∀ l ∈ h.values.map (fun item => entry item.1 (sentence item.2)),
      '\n' ∉ l ∧ isHeader l = false := by
    intro l hl
    obtain ⟨item, hitem, rfl⟩ := List.mem_map.mp hl
    have hi := hh.values item hitem
    exact ⟨lf_not_mem_entry hi.key hi.isValue, entry_not_header hi.key⟩
  have hlines : ∀ l ∈ h.lines, '\n' ∉ l ∧ isHeader l = false := by
    rw [Head.lines, List.forall_mem_cons]
    exact ⟨⟨by decide +kernel, by decide +kernel⟩, hentry⟩
  rw [HeaderFree, splitOn_unlines fun l hl => (hlines l hl).1, List.forall_mem_append]
  refine ⟨fun l hl => (hlines l hl).2, ?_⟩
  intro l hl
  rw [List.mem_singleton.mp hl]
  rfl

theorem InterfacePart.address_eq {k k' : Text} {a a' : Interface} (h : InterfacePart pre a k)
    (h' : InterfacePart pre a' k') : a = a' := by
  obtain ⟨t, ht, -, ha⟩ := h.addressLine
  obtain ⟨t', ht', -, ha'⟩ := h'.addressLine
  rw [ht] at ht'
  cases ht'
  exact Option.some.inj (ha.symm.trans ha')

/-- `_sections` cuts the text between the interface part and the blocks. -/
theorem sections_serverText (hh : h.WellFormed) {peers : List PeerBlock}
    (hwf : ∀ p ∈ peers, p.WellFormed) (hcomplete : ∀ p ∈ peers, p.complete = p) :
    ∃ pre, sections (serverText h peers) = some (pre, peers) ∧
      InterfacePart pre h.address h.privateKey ∧ rstrip pre = rstrip (unlines h.lines) := by
  have hif := hh.interfacePart (contentLines_rstrip (unlines h.lines))
  obtain ⟨t, ht, -, -⟩ := hif.addressLine
  obtain ⟨pre, hsec, hlines, -, hpre⟩ := sections_render hh.headerFree
    (header_infix_of_value (by decide) ht) hwf
  rw [render_lines hh rfl, List.map_congr_left hcomplete, List.map_id'] at hsec
  exact ⟨pre, hsec, hh.interfacePart hlines, hpre⟩

theorem server_serverText (hh : h.WellFormed) {peers : List PeerBlock}
    (hwf : ∀ p ∈ peers, p.WellFormed) (hcomplete : ∀ p ∈ peers, p.complete = p)
    (hblocks : BlocksPart h.address peers) :
    ∃ pre, server (serverText h peers) = some ⟨pre, peers, h.address, h.privateKey⟩ ∧
      rstrip pre = rstrip (unlines h.lines) := by
  obtain ⟨pre, hsec, hif, hpre⟩ := sections_serverText hh hwf hcomplete
  exact ⟨pre, server_eq_some_iff.mpr ⟨hsec, hif, hblocks⟩, hpre⟩

/-! ## Characters and size -/

theorem printable_entry {key v : Text} (hk : isWord key = true) (hv : Printable v) :
    Printable (entry key v) := by
  have hmid : Printable " = ".toList := fun c hc => by
    have hall : (" = ".toList.all fun c => decide (32 ≤ c.toNat ∧ c.toNat ≤ 126)) = true := by
      decide +kernel
    exact of_decide_eq_true (List.all_eq_true.mp hall c hc)
  exact ((printable_of_isWord hk).append hmid).append hv

theorem length_entry_le {key v : Text} (hk : isWord key = true) :
    (entry key v).length ≤ 47 + v.length := by
  have hkey := (isWord_iff.mp hk).2.1
  have hmid : " = ".toList.length = 3 := by decide +kernel
  unfold entry
  simp only [List.length_append, hmid]
  omega

/-- The values of a block are words: a key, one address and a number. -/
structure PeerBlock.Plain (p : PeerBlock) : Prop where
  publicKey : isWord p.publicKey = true
  allowedIPs : ∃ ip, ip < 2 ^ 32 ∧ p.allowedIPs = hostText (ipv4Text ip)
  persistentKeepalive : ∃ k, k ≤ 65535 ∧ p.persistentKeepalive = some (natText k)

theorem hostText_eq {ip : Nat} (h : ip < 2 ^ 32) :
    hostText (ipv4Text ip) = (hostInterface ip h).text := by
  rw [hostText, show "/32".toList = '/' :: natText 32 by decide]
  rfl

namespace PeerBlock.Plain
variable {p : PeerBlock} (hp : p.Plain)
include hp

theorem isWord_allowedIPs : isWord p.allowedIPs = true := by
  obtain ⟨ip, hlt, heq⟩ := hp.allowedIPs
  rw [heq, hostText_eq hlt]
  exact isWord_text _

theorem isWord_keepalive : isWord p.keepalive = true := by
  obtain ⟨k, hk, heq⟩ := hp.persistentKeepalive
  rw [PeerBlock.keepalive, heq]
  exact isWord_natText (by omega)

theorem complete : p.complete = p := by
  obtain ⟨k, -, heq⟩ := hp.persistentKeepalive
  rw [PeerBlock.complete, PeerBlock.keepalive, heq]
  cases p
  cases heq
  rfl

theorem wellFormed : p.WellFormed := by
  refine ⟨isValue_of_isWord hp.publicKey, isValue_of_isWord hp.isWord_allowedIPs, fun v hv => ?_⟩
  obtain ⟨k, hk, heq⟩ := hp.persistentKeepalive
  rw [heq] at hv
  cases hv
  exact isValue_of_isWord (isWord_natText (by omega))

theorem printable : ∀ l ∈ serverBlock p, Printable l := by
  have hentry {key v : Text} (hk : isWord key = true) (hv : isWord v = true) :
      Printable (entry key v) := printable_entry hk (printable_of_isWord hv)
  simp only [serverBlock, List.forall_mem_cons, List.not_mem_nil, false_implies, implies_true,
    and_true]
  exact ⟨fun c hc => absurd hc List.not_mem_nil, printable_of_isWord (by decide +kernel),
    hentry (by decide +kernel) hp.publicKey, hentry (by decide +kernel) hp.isWord_allowedIPs,
    hentry (by decide +kernel) hp.isWord_keepalive⟩

theorem length_le : (unlines (serverBlock p)).length ≤ 190 := by
  have h1 := (isWord_iff.mp hp.publicKey).2.1
  have h2 := (isWord_iff.mp hp.isWord_allowedIPs).2.1
  have h3 := (isWord_iff.mp hp.isWord_keepalive).2.1
  have k1 : publicKeyKey.length = 9 := by decide +kernel
  have k2 : allowedIPsKey.length = 10 := by decide +kernel
  have k3 : persistentKeepaliveKey.length = 19 := by decide +kernel
  have k4 : "[Peer]".toList.length = 6 := by decide +kernel
  have k5 : " = ".toList.length = 3 := by decide +kernel
  unfold serverBlock unlines entry
  simp only [List.flatMap_cons, List.flatMap_nil, List.length_append, List.length_cons,
    List.length_nil, k1, k2, k3, k4, k5]
  omega

end PeerBlock.Plain

theorem Head.WellFormed.printable (hh : h.WellFormed) : ∀ l ∈ h.lines, Printable l := by
  rw [Head.lines, List.forall_mem_cons]
  refine ⟨printable_of_isWord (by decide +kernel), fun l hl => ?_⟩
  obtain ⟨item, hitem, rfl⟩ := List.mem_map.mp hl
  have hi := hh.values item hitem
  exact printable_entry hi.isWord_key (printable_sentence hi.words)

theorem length_unlines_le {ls : List Text} {k : Nat} (h : ∀ l ∈ ls, l.length ≤ k) :
    (unlines ls).length ≤ ls.length * (k + 1) := by
  induction ls with
  | nil => simp [unlines]
  | cons l ls ih =>
    rw [List.forall_mem_cons] at h
    have hrest := ih h.2
    rw [unlines, List.flatMap_cons, ← unlines, List.length_append, List.length_append,
      List.length_cons, List.length_cons, List.length_nil, Nat.add_one_mul]
    omega

theorem length_forwardingValues (flag interface subnet : Text) (vpnInterface : Option Text) :
    (forwardingValues flag interface subnet vpnInterface).length = 3 := by
  cases vpnInterface <;> rfl

theorem Head.length_lines (h : Head) : h.lines.length = 11 := by
  simp [Head.lines, Head.values, Head.hooks, forwardingRules, length_forwardingValues]

theorem Head.WellFormed.length_le (hh : h.WellFormed) : (unlines h.lines).length ≤ 7458 := by
  have hlines : ∀ l ∈ h.lines, l.length ≤ 677 := by
    rw [Head.lines, List.forall_mem_cons]
    refine ⟨by decide +kernel, fun l hl => ?_⟩
    obtain ⟨item, hitem, rfl⟩ := List.mem_map.mp hl
    have hi := hh.values item hitem
    have hentry := length_entry_le (v := sentence item.2) hi.isWord_key
    have hsentence := length_sentence_le hi.words
    have hcount := hi.length_le
    omega
  have hle := length_unlines_le hlines
  rw [h.length_lines] at hle
  omega

section ServerText
variable {h : Head} (hh : h.WellFormed) {peers : List PeerBlock} (hp : ∀ p ∈ peers, p.Plain)
include hh hp

theorem printable_serverLines : ∀ l ∈ h.lines ++ peers.flatMap serverBlock, Printable l := by
  intro l hl
  rcases List.mem_append.mp hl with hl | hl
  · exact hh.printable l hl
  · obtain ⟨p, hmem, hl⟩ := List.mem_flatMap.mp hl
    exact (hp p hmem).printable l hl

/-- The bytes that the check of the hooks admits. -/
theorem mem_serverText {c : Char} (hc : c ∈ serverText h peers) :
    c = '\n' ∨ 32 ≤ c.toNat ∧ c.toNat ≤ 126 := by
  obtain ⟨l, hl, hc⟩ := List.mem_flatMap.mp hc
  rcases List.mem_append.mp hc with hc | hc
  · exact .inr (printable_serverLines hh hp l hl c hc)
  · exact .inl (List.mem_singleton.mp hc)

theorem length_serverText_le : (serverText h peers).length ≤ 7458 + 190 * peers.length := by
  have hblocks : (unlines (peers.flatMap serverBlock)).length ≤ 190 * peers.length := by
    clear hh
    induction peers with
    | nil => simp [unlines]
    | cons p peers ih =>
      rw [List.forall_mem_cons] at hp
      have hone := hp.1.length_le
      have hrest := ih hp.2
      rw [List.flatMap_cons, unlines, List.flatMap_append, ← unlines, ← unlines,
        List.length_append, List.length_cons]
      omega
  have hhead := hh.length_le
  rw [serverText, unlines, List.flatMap_append, ← unlines, ← unlines, List.length_append]
  omega

theorem utf8Length_serverText : utf8Length (serverText h peers) = (serverText h peers).length := by
  refine utf8Length_of_ascii fun c hc => ?_
  rcases mem_serverText hh hp hc with rfl | hc
  · decide
  · omega

/-- A file of this form within the limit is read as it was written. -/
theorem read_serverText (hcount : peers.length ≤ 253) :
    read (some (written (serverText h peers))) = .ok (serverText h peers) := by
  have hcr : '\r' ∉ serverText h peers := by
    intro hmem
    rcases mem_serverText hh hp hmem with heq | hle
    · exact absurd heq (by decide)
    · exact absurd hle (by decide)
  have hlength := length_serverText_le hh hp
  rw [read_written, universalNewlines_of_not_mem hcr]
  rw [utf8Length_serverText hh hp]
  omega

end ServerText

end ExitLane.Peers
