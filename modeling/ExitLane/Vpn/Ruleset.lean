import ExitLane.Egress.WireGuard
import ExitLane.Nft.Text

/-!
# The ruleset of the killswitch

`generate_ruleset` writes the nft table of the killswitch as a text, with interface names and
networks spliced into it. The text is read back as the table `rulesetTable`, and the table is
evaluated on packets: from a protected interface a packet gets out to an allowlisted network or by
the interface of a protected tunnel, and nowhere else.

One thing keeps the text from being read: a network with a scope, which `ip_network` accepts and
`str` repeats.
-/

namespace ExitLane.Vpn

open Egress Net Python IpAddress

/-! ## Facts -/

/-- `TunnelFacts`. -/
structure TunnelFacts where
  available : Bool
  interface : Option Iface
  supportsIpv4 : Bool
  supportsIpv6 : Bool
  protectedEgress : Bool
  reason : Text
  deriving DecidableEq

/-- `TunnelFacts(False, reason=...)`. -/
def TunnelFacts.because (reason : String) : TunnelFacts :=
  ⟨false, none, false, false, false, reason.toList⟩

/-- `TunnelFacts(False)`. -/
def TunnelFacts.closed : TunnelFacts := .because "tunnel_unavailable"

/-- The facts while a transition is pending. -/
def TunnelFacts.inTransition : TunnelFacts := .because "provider_transition"

/-- The interface of a protected tunnel. -/
def TunnelFacts.exit (f : TunnelFacts) : Option Iface :=
  if f.available && f.protectedEgress then f.interface.filter (· ≠ []) else none

def TunnelFacts.supports (f : TunnelFacts) : Nft.Family → Bool
  | .v4 => f.supportsIpv4
  | .v6 => f.supportsIpv6

/-! ## Configuration -/

/-- `validate_allowlist`. -/
def validateAllowlist (values : List Text) : Option (List Text) :=
  (values.mapM fun value =>
    (parseAnyNetwork value).bind fun n => if n.prefixLength = 0 then none else some n.text).map
      List.eraseDups

/-- `configuration` of the interfaces and the allowlist of the settings. -/
def validateConfiguration (ingress allowlist : List Text) : Option (List Text × List Text) :=
  if ingress.all isInterface then
    (validateAllowlist allowlist).map fun networks => (ingress.eraseDups, networks)
  else none

theorem validateConfiguration_fst {ingress allowlist : List Text} {c : List Text × List Text}
    (h : validateConfiguration ingress allowlist = some c) : c.1 = ingress.eraseDups := by
  unfold validateConfiguration at h
  split at h
  · obtain ⟨networks, -, rfl⟩ := Option.map_eq_some_iff.mp h
    rfl
  · cases h

/-! ## The text -/

def tableName : Text := "exitlane_killswitch".toList

/-- `f'"{item}"'`. -/
def quote (t : Text) : Text := '"' :: (t ++ ['"'])

/-- `", ".join(items)`. -/
def commaList (items : List Text) : Text := ", ".toList.intercalate items

/-- A line that stands only if there is something to say. -/
def lineIf (c : Bool) (line : Text) : List Text := if c then [line] else []

/-- The sets: the protected interfaces, and the networks of each family if there are any. -/
def setLines (ingress v4Local v6Local : List Text) : List Text :=
  ["  set protected_ingress \x7b type ifname; elements = \x7b ".toList ++
    commaList (ingress.map quote) ++ " \x7d \x7d".toList] ++
  lineIf (!v4Local.isEmpty)
    ("  set local_v4 \x7b type ipv4_addr; flags interval; elements = \x7b ".toList ++
      commaList v4Local ++ " \x7d \x7d".toList) ++
  lineIf (!v6Local.isEmpty)
    ("  set local_v6 \x7b type ipv6_addr; flags interval; elements = \x7b ".toList ++
      commaList v6Local ++ " \x7d \x7d".toList)

variable (facts : TunnelFacts) {ingress : List Iface} {t : Text} {networks : List Network}

/-- The rules of the chain `forward`. -/
def forwardLines (v4Local v6Local : List Text) : List Text :=
  lineIf (!v4Local.isEmpty)
    "    iifname @protected_ingress ip daddr @local_v4 accept comment \"ExitLane local IPv4\"".toList ++
  lineIf (!v6Local.isEmpty)
    "    iifname @protected_ingress ip6 daddr @local_v6 accept comment \"ExitLane local IPv6\"".toList ++
  (match facts.exit with
    | none => []
    | some interface =>
      lineIf facts.supportsIpv4
        ("    iifname @protected_ingress meta nfproto ipv4 oifname ".toList ++ quote interface ++
          " accept comment \"ExitLane protected IPv4\"".toList) ++
      lineIf facts.supportsIpv6
        ("    iifname @protected_ingress meta nfproto ipv6 oifname ".toList ++ quote interface ++
          " accept comment \"ExitLane protected IPv6\"".toList)) ++
  ["    iifname @protected_ingress udp dport 53 drop comment \"ExitLane DNS leak guard\"".toList,
    "    iifname @protected_ingress tcp dport 53 drop comment \"ExitLane DNS leak guard\"".toList,
    "    iifname @protected_ingress drop comment \"ExitLane fail closed\"".toList,
    "    ct state established,related accept comment \"ExitLane return traffic\"".toList]

/-- The chain `postrouting`. -/
def natLines : List Text :=
  match facts.exit with
  | none => []
  | some interface =>
    if facts.supportsIpv4 then
      ["  chain postrouting \x7b".toList,
        "    type nat hook postrouting priority srcnat; policy accept;".toList,
        "    iifname @protected_ingress oifname ".toList ++ quote interface ++
          " masquerade comment \"ExitLane client NAT\"".toList,
        "  \x7d".toList]
    else []

/-- The lines of `generate_ruleset`, once the interface of the facts is checked. -/
def rulesetLines (ingress localAllowlist : List Text) : List Text :=
  let v4Local := localAllowlist.filter fun item => !item.contains ':'
  let v6Local := localAllowlist.filter fun item => item.contains ':'
  ["destroy table inet exitlane_killswitch".toList,
    "table inet exitlane_killswitch \x7b".toList] ++
  setLines ingress v4Local v6Local ++
  ["  chain forward \x7b".toList,
    "    type filter hook forward priority -150; policy accept;".toList] ++
  forwardLines facts v4Local v6Local ++
  ["  \x7d".toList] ++
  natLines facts ++
  ["\x7d".toList]

/-- `generate_ruleset`; `none` where it raises `KillswitchError`. -/
def generateRuleset (ingress localAllowlist : List Text) : Option Text :=
  if facts.exit.all isInterface then
    some (['\n'].intercalate (rulesetLines facts ingress localAllowlist) ++ ['\n'])
  else none

/-! ## The table -/

open Nft

def ingressSet : Nft.Name := "protected_ingress".toList
def localV4 : Nft.Name := "local_v4".toList
def localV6 : Nft.Name := "local_v6".toList

def isV6 : Network → Bool
  | .v4 _ => false
  | .v6 _ _ => true

def forwardChain (v4 v6 : List Network) : Chain where
  name := "forward".toList
  kind := .filter
  hook := .forward
  priority := -150
  policy := .accept
  rules :=
    (if v4 = [] then [] else [⟨[.iifIn ingressSet, .daddrIn .v4 localV4], .verdict .accept⟩]) ++
    (if v6 = [] then [] else [⟨[.iifIn ingressSet, .daddrIn .v6 localV6], .verdict .accept⟩]) ++
    (match facts.exit with
      | none => []
      | some x =>
        (if facts.supportsIpv4 then
          [⟨[.iifIn ingressSet, .nfproto .v4, .oif x], .verdict .accept⟩] else []) ++
        (if facts.supportsIpv6 then
          [⟨[.iifIn ingressSet, .nfproto .v6, .oif x], .verdict .accept⟩] else [])) ++
    [⟨[.iifIn ingressSet, .dport .udp 53], .verdict .drop⟩,
      ⟨[.iifIn ingressSet, .dport .tcp 53], .verdict .drop⟩,
      ⟨[.iifIn ingressSet], .verdict .drop⟩, ⟨[.established], .verdict .accept⟩]

def natChain (x : Iface) : Chain where
  name := "postrouting".toList
  kind := .nat
  hook := .postrouting
  priority := 100
  policy := .accept
  rules := [⟨[.iifIn ingressSet, .oif x], .masquerade⟩]

/-- What the text means. -/
def rulesetTable (ingress : List Text) (networks : List Network) : Table :=
  let v4 := networks.filter fun n => !isV6 n
  let v6 := networks.filter isV6
  { name := tableName
    sets := [⟨ingressSet, .names ingress⟩] ++
      (if v4 = [] then [] else [⟨localV4, .prefixes (v4.map .ofNetwork)⟩]) ++
      (if v6 = [] then [] else [⟨localV6, .prefixes (v6.map .ofNetwork)⟩])
    chains := [forwardChain facts v4 v6] ++
      (match facts.exit with
        | none => []
        | some x => if facts.supportsIpv4 then [natChain x] else []) }

theorem chains_rulesetTable (ingress : List Text) (networks : List Network) :
    (rulesetTable facts ingress networks).chains =
      forwardChain facts (networks.filter fun n => !isV6 n) (networks.filter isV6) ::
        (match facts.exit with
          | none => []
          | some x => if facts.supportsIpv4 then [natChain x] else []) := rfl

/-! ## Reading the text -/

theorem intercalate_lines {lines : List Text} (h : lines ≠ []) :
    ['\n'].intercalate lines ++ ['\n'] = lines.flatMap endLine := by
  induction lines with
  | nil => exact absurd rfl h
  | cons line lines ih =>
    cases lines with
    | nil => simp [List.intercalate, endLine]
    | cons next lines =>
      rw [List.intercalate_cons_cons, List.flatMap_cons, ← ih (List.cons_ne_nil next lines)]
      simp [endLine]

theorem isWordChar_of_isInterface {i : Iface} (h : isInterface i = true) {c : Char} (hc : c ∈ i) :
    isWordChar c = true := by
  have hall := List.all_eq_true.mp (Bool.and_eq_true_iff.mp h).2 c hc
  simp only [Bool.or_eq_true, beq_iff_eq] at hall
  rcases hall with ((hall | rfl) | rfl) | rfl
  · rw [isWordChar, hall, Bool.true_or]
  · decide
  · decide
  · decide

theorem lexes_interface {i : Iface} (h : isInterface i = true) : Lexes (quote i) [.quoted i] :=
  lexes_quoted fun hm => absurd (isWordChar_of_isInterface h hm) (by decide)

private theorem endLine_closing (t items : Text) :
    endLine (t ++ items ++ " \x7d \x7d".toList) =
      t ++ (items ++ [' ']) ++ endLine "\x7d \x7d".toList := by
  simp [endLine]

theorem lexes_closing : Lexes (endLine "\x7d \x7d".toList) [.rbrace, .rbrace, .newline] :=
  lexes_line [.rbrace, .rbrace] (by decide +kernel)

theorem reads_ingress (hne : ingress ≠ []) (hall : ∀ i ∈ ingress, isInterface i = true) :
    Reads (endLine ("  set protected_ingress \x7b type ifname; elements = \x7b ".toList ++
        commaList (ingress.map quote) ++ " \x7d \x7d".toList))
      [.block [.key .set, .word ingressSet] [.stmt [.key .type, .key .ifname],
        .block [.key .elements, .equals]
          [.stmt ((ingress.map Token.quoted).intersperse .comma)]]] := by
  have hitems : Lexes (commaList (ingress.map quote) ++ [' '])
      ((ingress.map Token.quoted).intersperse .comma) := by
    refine lexes_commas hne (fun i hi => ?_) fun i hi => ?_
    · exact (lexes_interface (hall i hi)).append (lexes_of_eval rfl)
    · exact (lexes_interface (hall i hi)).append (show Lexes [' '] [] from lexes_of_eval rfl)
  rw [endLine_closing]
  exact reads_set [.key .type, .key .ifname, .semicolon]
    (lexes_literal (by decide +kernel))
    (builds_stmt [.key .type, .key .ifname] (by simp) (by decide) (.inr rfl)) hitems
    (intersperse_ne_nil (by simpa using hne)) (isPlain_intersperse (by simp [Token.isPlain]))
    lexes_closing

/-- The networks of one family as a set. -/
theorem reads_networks {name : Nft.Name} {kind : Keyword}
    (ht : Lexes t ([.key .set, .word name, .lbrace] ++
      [.key .type, .key kind, .semicolon, .key .flags, .key .interval, .semicolon] ++
      [.key .elements, .equals, .lbrace])) (hne : networks ≠ [])
    (hscope : ∀ n ∈ networks, n.scopeId = none) :
    Reads (endLine (t ++ commaList (networks.map Network.text) ++ " \x7d \x7d".toList))
      [.block [.key .set, .word name] [.stmt [.key .type, .key kind],
        .stmt [.key .flags, .key .interval], .block [.key .elements, .equals]
          [.stmt ((networks.map fun n => Token.word n.text).intersperse .comma)]]] := by
  have hword {n : Network} (hn : n ∈ networks) {c : Char} (ts : List Token)
      (hc : isWordChar c = false)
      (hstart : ∀ tokens, Lexer.start tokens c = some ⟨.blank, ts.reverse ++ tokens⟩) :
      Lexes (n.text ++ [c]) (.word n.text :: ts) := by
    rw [← ofWord_text]
    exact lexes_word (text_ne_nil n) (fun x hx => isWordChar_of_mem_text (hscope n hn) hx) hc hstart
  have hitems : Lexes (commaList (networks.map Network.text) ++ [' '])
      ((networks.map fun n => Token.word n.text).intersperse .comma) :=
    lexes_commas hne (fun n hn => hword hn [.comma] (by decide) fun _ => rfl)
      fun n hn => hword hn [] (by decide) fun _ => rfl
  have hdecl := (builds_stmt [.key .type, .key kind] (by simp) (by simp [Token.isPlain])
    (.inr rfl)).append
    (builds_stmt [.key .flags, .key .interval] (by simp) (by decide) (.inr rfl))
  rw [endLine_closing]
  exact reads_set _ ht hdecl hitems (intersperse_ne_nil (by simpa using hne))
    (isPlain_intersperse (by simp [Token.isPlain])) lexes_closing

theorem readsBody_ingress (hne : ingress ≠ []) (hall : ∀ i ∈ ingress, isInterface i = true) :
    ReadsBody (endLine ("  set protected_ingress \x7b type ifname; elements = \x7b ".toList ++
        commaList (ingress.map quote) ++ " \x7d \x7d".toList))
      [⟨ingressSet, .names ingress⟩] [] := by
  have hnames : (ingress.map Token.quoted).mapM readName = some ingress := by
    clear hne hall
    induction ingress with
    | nil => rfl
    | cons i ingress ih => simp [readName, ih]
  refine readsBody_set (reads_ingress hne hall) ?_
  simp [readSet, readElements, readItems_intersperse (ingress.map Token.quoted)
    (by simpa using hne), hnames]

/-- A set of networks, if there are any. -/
theorem readsBody_networks (name : Nft.Name) (kind : Keyword) (f : Nft.Family)
    (ht : Lexes t ([.key .set, .word name, .lbrace] ++
      [.key .type, .key kind, .semicolon, .key .flags, .key .interval, .semicolon] ++
      [.key .elements, .equals, .lbrace]))
    (hkind : ∀ ts, readSet name [.stmt [.key .type, .key kind], .stmt [.key .flags, .key .interval],
      .block [.key .elements, .equals] [.stmt ts]] =
        (readElements (some f) ts).map fun es => ⟨name, es⟩)
    (hscope : ∀ n ∈ networks, n.scopeId = none) (hvalid : ∀ n ∈ networks, n.Valid)
    (hf : ∀ n ∈ networks, (Prefix.ofNetwork n).family = f) :
    ReadsBody ((lineIf (!(networks.map Network.text).isEmpty)
        (t ++ commaList (networks.map Network.text) ++ " \x7d \x7d".toList)).flatMap endLine)
      (if networks = [] then [] else [⟨name, .prefixes (networks.map .ofNetwork)⟩]) [] := by
  by_cases hne : networks = []
  · subst hne
    exact readsBody_nil
  · have hprefixes : (networks.map fun n => Token.word n.text).mapM (readWord f) =
        some (networks.map .ofNetwork) := by
      clear hne
      induction networks with
      | nil => rfl
      | cons n networks ih =>
        rw [List.forall_mem_cons] at hscope hvalid hf
        have hn := readPrefix_text hvalid.1 hscope.1
        rw [hf.1] at hn
        simp [readWord, hn, ih hscope.2 hvalid.2 hf.2]
    have hset := readsBody_set (s := ⟨name, .prefixes (networks.map .ofNetwork)⟩)
      (reads_networks ht hne hscope) (by
        rw [hkind]
        simp [readElements, readItems_intersperse
          (networks.map fun n => Token.word n.text) (by simpa using hne), hprefixes])
    simpa [lineIf, hne] using hset

theorem readsRules_lineIf {c : Bool} {line : Text} {rs : List Nft.Rule}
    (h : ReadsRules (endLine line) rs) :
    ReadsRules ((lineIf c line).flatMap endLine) (if c then rs else []) := by
  cases c with
  | false => exact readsRules_nil
  | true => simpa [lineIf] using h

/-- A rule that names the interface of the tunnel between two constant parts. -/
theorem readsRules_exit {x : Iface} (hx : isInterface x = true) {u : Text} (ts us : List Token)
    {r : Nft.Rule} (ht : Lexes t ts) (hu : Lexes u us) (hplain : ∀ t ∈ ts ++ us, t.isPlain = true)
    (hr : readRule (ts ++ .quoted x :: us) = some r) :
    ReadsRules (endLine (t ++ quote x ++ u)) [r] := by
  have hlex := ((ht.append (lexes_interface hx)).append hu).endLine
  refine readsRules_line (ts ++ .quoted x :: us) ?_ (fun t hm => ?_) hr
  · simpa using hlex
  · rcases List.mem_append.mp hm with hm | hm
    · exact hplain t (List.mem_append_left _ hm)
    · rcases List.mem_cons.mp hm with rfl | hm
      · rfl
      · exact hplain t (List.mem_append_right _ hm)

variable {facts : TunnelFacts}

theorem readsRules_forward (hexit : facts.exit.all isInterface = true) (v4 v6 : List Network) :
    ReadsRules ((forwardLines facts (v4.map Network.text) (v6.map Network.text)).flatMap endLine)
      (forwardChain facts v4 v6).rules := by
  have hlocal {line : Text} {r : Nft.Rule} (networks : List Network)
      (h : ReadsRules (endLine line) [r]) :
      ReadsRules ((lineIf (!(networks.map Network.text).isEmpty) line).flatMap endLine)
        (if networks = [] then [] else [r]) := by
    cases networks with
    | nil => exact readsRules_nil
    | cons n networks => simpa [lineIf] using h
  rw [forwardLines, List.flatMap_append, List.flatMap_append, List.flatMap_append]
  refine (((hlocal v4 ?_).append (hlocal v6 ?_)).append ?_).append ?_
  · exact readsRules_literal (by decide +kernel)
  · exact readsRules_literal (by decide +kernel)
  · cases hx : facts.exit with
    | none => exact readsRules_nil
    | some x =>
      rw [hx, Option.all_some] at hexit
      rw [List.flatMap_append]
      refine (readsRules_lineIf ?_).append (readsRules_lineIf ?_)
      · exact readsRules_exit hexit [.key .iifname, .at, .word ingressSet, .key .metadata,
          .key .nfproto, .key .ipv4, .key .oifname] [.key .accept, .key .comment,
          .quoted "ExitLane protected IPv4".toList] (lexes_literal (by decide +kernel))
          (lexes_literal (by decide +kernel)) (by decide) rfl
      · exact readsRules_exit hexit [.key .iifname, .at, .word ingressSet, .key .metadata,
          .key .nfproto, .key .ipv6, .key .oifname] [.key .accept, .key .comment,
          .quoted "ExitLane protected IPv6".toList] (lexes_literal (by decide +kernel))
          (lexes_literal (by decide +kernel)) (by decide) rfl
  · rw [List.flatMap_cons, List.flatMap_cons, List.flatMap_cons, List.flatMap_cons,
      List.flatMap_nil]
    refine .cons ?_ (.cons ?_ (.cons ?_ (.cons ?_ readsRules_nil)))
    · exact readsRules_literal (by decide +kernel)
    · exact readsRules_literal (by decide +kernel)
    · exact readsRules_literal (by decide +kernel)
    · exact readsRules_literal (by decide +kernel)

private theorem lexes_closeChain : Lexes (endLine "  \x7d".toList) [.rbrace, .newline] :=
  lexes_line [.rbrace] (by decide +kernel)

theorem readsBody_forward (hexit : facts.exit.all isInterface = true) (v4 v6 : List Network) :
    ReadsBody ((["  chain forward \x7b".toList,
        "    type filter hook forward priority -150; policy accept;".toList] ++
        forwardLines facts (v4.map Network.text) (v6.map Network.text) ++
        ["  \x7d".toList]).flatMap endLine)
      [] [forwardChain facts v4 v6] := by
  have hopen : Lexes (endLine "  chain forward \x7b".toList)
      [.key .chain, .word "forward".toList, .lbrace, .newline] :=
    lexes_line [.key .chain, .word "forward".toList, .lbrace]
      (by decide +kernel)
  have hheader : Lexes (endLine "    type filter hook forward priority -150; policy accept;".toList)
      [.key .type, .word "filter".toList, .key .hook, .word "forward".toList, .key .priority,
        .word "-150".toList, .semicolon, .key .policy, .key .accept, .semicolon, .newline] :=
    lexes_line [.key .type, .word "filter".toList, .key .hook, .word "forward".toList,
      .key .priority, .word "-150".toList, .semicolon, .key .policy, .key .accept, .semicolon]
      (by decide +kernel)
  have hchain := readsBody_chain (hopen.append hheader)
    (builds_newline.append (builds_header _ _ _)) (readsRules_forward hexit v4 v6) lexes_closeChain
    rfl rfl rfl rfl
  rw [List.flatMap_append, List.flatMap_append, List.flatMap_cons, List.flatMap_cons,
    List.flatMap_nil, List.append_nil, List.flatMap_cons, List.flatMap_nil, List.append_nil]
  exact hchain

theorem readsBody_nat (hexit : facts.exit.all isInterface = true) :
    ReadsBody ((natLines facts).flatMap endLine) [] (match facts.exit with
      | none => []
      | some x => if facts.supportsIpv4 then [natChain x] else []) := by
  cases hx : facts.exit with
  | none =>
    rw [natLines, hx]
    exact readsBody_nil
  | some x =>
    rw [hx, Option.all_some] at hexit
    cases h4 : facts.supportsIpv4 with
    | false =>
      rw [natLines, hx, h4]
      exact readsBody_nil
    | true =>
      have hopen : Lexes (endLine "  chain postrouting \x7b".toList)
          [.key .chain, .word "postrouting".toList, .lbrace, .newline] :=
        lexes_line [.key .chain, .word "postrouting".toList, .lbrace]
          (by decide +kernel)
      have hheader :
          Lexes (endLine "    type nat hook postrouting priority srcnat; policy accept;".toList)
          [.key .type, .word "nat".toList, .key .hook, .word "postrouting".toList, .key .priority,
            .word "srcnat".toList, .semicolon, .key .policy, .key .accept, .semicolon, .newline] :=
        lexes_line [.key .type, .word "nat".toList, .key .hook,
          .word "postrouting".toList, .key .priority, .word "srcnat".toList, .semicolon,
          .key .policy, .key .accept, .semicolon] (by decide +kernel)
      have hrule := readsRules_exit hexit (t := "    iifname @protected_ingress oifname ".toList)
        (u := " masquerade comment \"ExitLane client NAT\"".toList)
        [.key .iifname, .at, .word ingressSet, .key .oifname]
        [.key .masquerade, .key .comment, .quoted "ExitLane client NAT".toList]
        (lexes_literal (by decide +kernel)) (lexes_literal (by decide +kernel)) (by decide) rfl
      have hchain := readsBody_chain (hopen.append hheader)
        (builds_newline.append (builds_header _ _ _)) hrule lexes_closeChain rfl rfl rfl rfl
      have hlines (a b c d : Text) : [a, b, c, d].flatMap endLine =
          endLine a ++ endLine b ++ endLine c ++ endLine d := by simp
      rw [natLines, hx, h4]
      change ReadsBody ([_, _, _, _].flatMap endLine) [] [natChain x]
      rw [hlines]
      exact hchain

/-- The text of a network has a colon if it is one of IPv6. -/
theorem contains_colon {n : Network} (hvalid : n.Valid) : n.text.contains ':' = isV6 n := by
  have hdigits {k : Nat} : ':' ∉ natText k := not_mem_natText (by decide) k
  cases n with
  | v4 i =>
    have haddress : ':' ∉ ipv4Text i.networkAddress := fun hm => by
      rcases mem_ipv4Text hm with hd | hd
      · exact absurd hd (by decide)
      · exact absurd hd (by decide)
    simp [Network.text, Network.addressText, isV6, haddress, hdigits]
  | v6 a p =>
    have haddress : ':' ∈ ipv6Text a.ip := by
      by_contra hnone
      have hread := parseIPv6Int_text hvalid.1
      rw [parseIPv6Int, List.splitOn_eq_singleton hnone, if_pos (by simp)] at hread
      cases hread
    simp [Network.text, Network.addressText, isV6, haddress]

theorem filter_texts (hvalid : ∀ n ∈ networks, n.Valid) {p : Bool → Bool} :
    (networks.map Network.text).filter (fun item => p (item.contains ':')) =
      (networks.filter fun n => p (isV6 n)).map Network.text := by
  rw [List.filter_map]
  congr 1
  exact List.filter_congr fun n hn => by rw [Function.comp_apply, contains_colon (hvalid n hn)]

theorem readsBody_sets (hne : ingress ≠ []) (hall : ∀ i ∈ ingress, isInterface i = true)
    (v4 v6 : List Network) (hscope : ∀ n ∈ v4 ++ v6, n.scopeId = none)
    (hvalid : ∀ n ∈ v4 ++ v6, n.Valid) (h4 : ∀ n ∈ v4, isV6 n = false)
    (h6 : ∀ n ∈ v6, isV6 n = true) :
    ReadsBody ((setLines ingress (v4.map Network.text) (v6.map Network.text)).flatMap endLine)
      ([⟨ingressSet, .names ingress⟩] ++
        (if v4 = [] then [] else [⟨localV4, .prefixes (v4.map .ofNetwork)⟩]) ++
        (if v6 = [] then [] else [⟨localV6, .prefixes (v6.map .ofNetwork)⟩])) [] := by
  have hfamily (n : Network) : (Prefix.ofNetwork n).family = if isV6 n then .v6 else .v4 := by
    cases n <;> rfl
  rw [List.forall_mem_append] at hscope hvalid
  have hset4 := readsBody_networks localV4 .ipv4Addr .v4
    (t := "  set local_v4 \x7b type ipv4_addr; flags interval; elements = \x7b ".toList)
    (lexes_literal (by decide +kernel)) (fun _ => rfl) hscope.1 hvalid.1
    fun n hn => by rw [hfamily, h4 n hn]; rfl
  have hset6 := readsBody_networks localV6 .ipv6Addr .v6
    (t := "  set local_v6 \x7b type ipv6_addr; flags interval; elements = \x7b ".toList)
    (lexes_literal (by decide +kernel)) (fun _ => rfl) hscope.2 hvalid.2
    fun n hn => by rw [hfamily, h6 n hn]; rfl
  rw [setLines, List.flatMap_append, List.flatMap_append, List.flatMap_cons, List.flatMap_nil,
    List.append_nil]
  exact ((readsBody_ingress hne hall).append hset4).append hset6

theorem lexes_opening : Lexes (["destroy table inet exitlane_killswitch".toList,
    "table inet exitlane_killswitch \x7b".toList].flatMap endLine)
    [.key .destroy, .key .table, .key .inet, .word tableName, .newline, .key .table, .key .inet,
      .word tableName, .lbrace, .newline] := by
  have hdestroy : Lexes (endLine "destroy table inet exitlane_killswitch".toList)
      [.key .destroy, .key .table, .key .inet, .word tableName, .newline] :=
    lexes_line [.key .destroy, .key .table, .key .inet, .word tableName]
      (by decide +kernel)
  have htable : Lexes (endLine "table inet exitlane_killswitch \x7b".toList)
      [.key .table, .key .inet, .word tableName, .lbrace, .newline] :=
    lexes_line [.key .table, .key .inet, .word tableName, .lbrace]
      (by decide +kernel)
  exact hdestroy.append (htable.append lexes_nil)

theorem flatMap_pieces (opening sets header rules footer nat : List Text) (closing : Text) :
    (opening ++ sets ++ header ++ rules ++ footer ++ nat ++ [closing]).flatMap endLine =
      opening.flatMap endLine ++
      (sets.flatMap endLine ++ (header ++ rules ++ footer).flatMap endLine ++
        nat.flatMap endLine) ++ endLine closing := by
  simp only [List.flatMap_append, List.flatMap_singleton, List.append_assoc]

/-- The text of the ruleset means the table of the ruleset. -/
theorem read_ruleset {text : Text}
    (ht : generateRuleset facts ingress (networks.map Network.text) = some text)
    (hne : ingress ≠ []) (hall : ∀ i ∈ ingress, isInterface i = true)
    (hvalid : ∀ n ∈ networks, n.Valid) (hscope : ∀ n ∈ networks, n.scopeId = none) :
    Nft.read text = some (.replace (rulesetTable facts ingress networks)) := by
  unfold generateRuleset at ht
  split at ht
  · next hexit =>
    have hof {p : Network → Bool} {n : Network} (hn : n ∈ networks.filter p) :=
      (List.mem_filter.mp hn).1
    have hsets := readsBody_sets hne hall (networks.filter fun n => !isV6 n) (networks.filter isV6)
      (List.forall_mem_append.mpr ⟨fun n hn => hscope n (hof hn), fun n hn => hscope n (hof hn)⟩)
      (List.forall_mem_append.mpr ⟨fun n hn => hvalid n (hof hn), fun n hn => hvalid n (hof hn)⟩)
      (fun n hn => by simpa using (List.mem_filter.mp hn).2) fun n hn => (List.mem_filter.mp hn).2
    have hbody := (hsets.append (readsBody_forward hexit (networks.filter fun n => !isV6 n)
      (networks.filter isV6))).append (readsBody_nat hexit)
    have hclose : Lexes (endLine "\x7d".toList) [.rbrace, .newline] :=
      lexes_line [.rbrace] (by decide +kernel)
    have hread := read_table lexes_opening hbody hclose
    rw [List.append_nil, List.append_nil] at hread
    cases ht
    rw [intercalate_lines (by simp [rulesetLines]), rulesetLines]
    have h4 := filter_texts hvalid (p := fun b => !b)
    have h6 := filter_texts hvalid (p := fun b => b)
    rw [h4, h6, flatMap_pieces]
    exact hread
  · cases ht

end ExitLane.Vpn
