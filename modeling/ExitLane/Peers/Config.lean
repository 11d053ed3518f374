import ExitLane.Python.IpAddress
import Mathlib.Data.List.Infix

/-!
# WireGuard configuration texts

`_value`, `_sections`, `_render` and `_new_client`: how a server configuration
is cut into an interface part and `[Peer]` blocks, how it is written back, and
how a client configuration is written.

* `sections_render`: what `_render` writes, `_sections` reads back, with the
  default keepalive filled in and an interface part of the same content lines;
* `sections_wellFormed`: every block that `_sections` returns can be rendered;
* `value_clientText`: the three values that the validator looks up in a client
  configuration are those it was written with.
-/

namespace ExitLane.Peers
open Python IpAddress

/-! ## `_value` -/

/-- `line.startswith("[") and line.endswith("]")`. -/
def isSectionLine (line : Text) : Bool := line.head? == some '[' && line.getLast? == some ']'

/-- The loop of `_value`; `current` is the section of the lines read so far. -/
def valueIn (key sect : Text) : Text → List Text → Option Text
  | _, [] => none
  | current, line :: rest =>
    if isSectionLine line then valueIn key sect line.tail.dropLast rest
    else if current = sect then
      match partition '=' line with
      | some (name, value) =>
        if strip name = key then some (strip value) else valueIn key sect current rest
      | none => valueIn key sect current rest
    else valueIn key sect current rest

def value (configuration key sect : Text) : Option Text :=
  valueIn key sect [] ((splitlines configuration).map strip)

private theorem valueIn_content (key sect : Text) (ls : List Text) : ∀ current,
    valueIn key sect current (ls.filter fun l => !l.isEmpty) = valueIn key sect current ls := by
  induction ls with
  | nil => intro current; rfl
  | cons l ls ih =>
    intro current
    cases l with
    | nil => simp [valueIn, isSectionLine, partition, ih]
    | cons c l =>
      simp only [List.isEmpty_cons, Bool.not_false, List.filter_cons_of_pos, valueIn, ih]

/-- A lookup sees content lines only. -/
theorem value_eq_content (configuration key sect : Text) :
    value configuration key sect = valueIn key sect [] (contentLines configuration) := by
  rw [value, contentLines, valueIn_content]

private theorem valueIn_section (key sect : Text) (ls : List Text) : ∀ current v,
    valueIn key sect current ls = some v → current = sect ∨
      ∃ l ∈ ls, isSectionLine l = true ∧ l.tail.dropLast = sect := by
  induction ls with
  | nil => intro current v h; simp [valueIn] at h
  | cons l ls ih =>
    intro current v h
    rw [valueIn] at h
    split at h
    · next hl =>
      rcases ih _ _ h with he | ⟨m, hm, hs⟩
      · exact Or.inr ⟨l, List.mem_cons_self .., hl, he⟩
      · exact Or.inr ⟨m, List.mem_cons_of_mem _ hm, hs⟩
    · by_cases hc : current = sect
      · exact Or.inl hc
      · rw [if_neg hc] at h
        rcases ih _ _ h with he | ⟨m, hm, hs⟩
        · exact absurd he hc
        · exact Or.inr ⟨m, List.mem_cons_of_mem _ hm, hs⟩

variable {key v : Text} {peer : PeerBlock} {peers : List PeerBlock} {profile : Profile}
  {privateKey tunnelIp : Text}

/-- A value found in a named section lies below that section's header. -/
theorem header_infix_of_value {configuration sect : Text} (hs : sect ≠ [])
    (h : value configuration key sect = some v) : '[' :: sect ++ [']'] <:+: configuration := by
  rw [value_eq_content] at h
  rcases valueIn_section _ _ _ _ _ h with he | ⟨l, hl, hsec, he⟩
  · exact absurd he.symm hs
  · obtain ⟨-, -, -, hin⟩ := mem_contentLines hl
    simp only [isSectionLine, Bool.and_eq_true, beq_iff_eq] at hsec
    obtain ⟨rest, rfl⟩ : ∃ rest, l = '[' :: rest := by
      cases l with
      | nil => simp at hsec
      | cons c rest => simp at hsec; exact ⟨rest, by rw [hsec.1]⟩
    have hne : rest ≠ [] := by
      intro h0
      subst h0
      exact hs he.symm
    have hlast : rest.getLast hne = ']' := by
      have := hsec.2
      rw [List.getLast?_eq_some_getLast (by simp), List.getLast_cons hne] at this
      exact Option.some.inj this
    have hrest : rest = sect ++ [']'] := by
      rw [← he, ← hlast]
      exact (List.dropLast_append_getLast hne).symm
    rw [hrest] at hin
    exact hin

private theorem valueIn_infix (key sect : Text) (ls : List Text) : ∀ current v,
    valueIn key sect current ls = some v → ∃ l ∈ ls, v <:+: l := by
  induction ls with
  | nil => intro current v h; simp [valueIn] at h
  | cons l ls ih =>
    have hrest {current v} (h : valueIn key sect current ls = some v) :
        ∃ m ∈ l :: ls, v <:+: m := by
      obtain ⟨m, hm, hin⟩ := ih current v h
      exact ⟨m, List.mem_cons_of_mem _ hm, hin⟩
    intro current v h
    rw [valueIn] at h
    split at h
    · exact hrest h
    · split at h
      · split at h
        · next name rest hpartition =>
          split at h
          · cases h
            refine ⟨l, List.mem_cons_self, (infix_strip rest).trans ?_⟩
            rw [partition_eq_some hpartition]
            exact (List.suffix_cons _ _).isInfix.trans (List.suffix_append _ _).isInfix
          · exact hrest h
        · exact hrest h
      · exact hrest h

/-- A value is a part of one line. -/
theorem value_infix {configuration sect : Text} (h : value configuration key sect = some v) :
    v <:+: configuration ∧ NoBreak v := by
  rw [value_eq_content] at h
  obtain ⟨l, hl, hin⟩ := valueIn_infix _ _ _ _ _ h
  obtain ⟨-, -, hbreak, hline⟩ := mem_contentLines hl
  exact ⟨hin.trans hline, fun c hc => hbreak c (hin.subset hc)⟩

/-! ## Lines of the form `key = value` -/

/-- `f"{key} = {value}"`. -/
def entry (key v : Text) : Text := key ++ " = ".toList ++ v

/-- A key that can be looked up: stripped, no `=`, not a comment or a header. -/
structure IsKey (key : Text) : Prop where
  stripped : Stripped key
  noEquals : '=' ∉ key
  noBreak : NoBreak key
  head : ∃ c rest, key = c :: rest ∧ c ≠ '[' ∧ c ≠ '#'

theorem isKey_cons {c : Char} {rest : Text}
    (h : (strip (c :: rest) == c :: rest && !(c :: rest).contains '=' &&
      (c :: rest).all (!isLineBreak ·) && c != '[' && c != '#') = true) : IsKey (c :: rest) := by
  simp only [Bool.and_eq_true, beq_iff_eq, Bool.not_eq_true', bne_iff_ne, ne_eq] at h
  obtain ⟨⟨⟨⟨hstripped, hequals⟩, hbreak⟩, hsection⟩, hcomment⟩ := h
  refine ⟨hstripped, by simpa using hequals, fun d hd => ?_, c, rest, rfl, hsection, hcomment⟩
  simpa using List.all_eq_true.mp hbreak d hd

/-- A value that survives being written on one line and read back. -/
structure IsValue (v : Text) : Prop where
  stripped : Stripped v
  noBreak : NoBreak v

theorem isValue_of_noSpace (h : ∀ c ∈ v, isSpace c = false) : IsValue v where
  stripped := stripped_of_ends (fun c hc => h c (List.mem_of_mem_head? hc))
    (fun c hc => h c (List.mem_of_getLast? hc))
  noBreak := fun c hc => by
    cases hb : isLineBreak c with
    | false => rfl
    | true => rw [← h c hc, isSpace_of_isLineBreak hb]

/-- The line as the parsers see it: an empty value leaves a bare `=` at the end. -/
theorem strip_entry (hk : IsKey key) (hv : IsValue v) :
    strip (entry key v) = key ++ ' ' :: '=' :: (if v = [] then [] else ' ' :: v) := by
  obtain ⟨c, rest, hkey, -, -⟩ := hk.head
  have hhead : isSpace c = false := hk.stripped.head c (by rw [hkey]; rfl)
  by_cases h0 : v = []
  · subst h0
    have hstr : Stripped (key ++ " =".toList) := by
      apply stripped_of_ends
      · intro d hd
        rw [hkey] at hd
        cases hd
        exact hhead
      · intro d hd
        rw [List.getLast?_append] at hd
        cases hd
        rfl
    rw [entry, List.append_nil, show " = ".toList = " =".toList ++ [' '] from rfl,
      ← List.append_assoc, strip_append_space _ (by simp [AllSpace, isSpace]), hstr]
    rfl
  · have hstr : Stripped (entry key v) := by
      apply stripped_of_ends
      · intro d hd
        rw [entry, hkey] at hd
        cases hd
        exact hhead
      · intro d hd
        rw [entry, List.getLast?_append, List.getLast?_eq_some_getLast h0] at hd
        exact hv.stripped.last d (by rw [List.getLast?_eq_some_getLast h0]; exact hd)
    rw [hstr, if_neg h0, entry, List.append_assoc]
    rfl

theorem entry_partition (hk : IsKey key) (hv : IsValue v) :
    ∃ a b, partition '=' (strip (entry key v)) = some (a, b) ∧ strip a = key ∧ strip b = v := by
  have hsp : AllSpace [' '] := by simp [AllSpace, isSpace]
  have hne : '=' ∉ key ++ [' '] := by simp [hk.noEquals]
  refine ⟨key ++ [' '], if v = [] then [] else ' ' :: v, ?_, ?_, ?_⟩
  · rw [strip_entry hk hv, List.append_cons, partition_append _ _ hne]
  · rw [strip_append_space key hsp, hk.stripped]
  · split
    · next h0 => subst h0; rfl
    · rw [strip, lstrip, List.dropWhile_cons_of_pos (by rfl)]
      exact hv.stripped

theorem entry_head (hk : IsKey key) (hv : IsValue v) :
    ∃ c rest, strip (entry key v) = c :: rest ∧ c ≠ '[' ∧ c ≠ '#' := by
  obtain ⟨c, rest, hkey, h1, h2⟩ := hk.head
  rw [strip_entry hk hv]
  exact ⟨c, _, by rw [hkey]; rfl, h1, h2⟩

theorem noBreak_entry (hk : IsKey key) (hv : IsValue v) : NoBreak (entry key v) := by
  intro c hc
  rw [entry, List.mem_append, List.mem_append] at hc
  rcases hc with (hc | hc) | hc
  · exact hk.noBreak c hc
  · exact forall_mem_of_all (p := isLineBreak) (b := false) (by decide +kernel) c hc
  · exact hv.noBreak c hc

theorem contentLines_entry (hk : IsKey key) (hv : IsValue v) :
    contentLines (entry key v) = [strip (entry key v)] := by
  obtain ⟨c, rest, hl, -, -⟩ := entry_head hk hv
  rw [contentLines_of_noBreak (noBreak_entry hk hv), if_neg (by rw [hl]; simp)]

theorem valueIn_entry (hk : IsKey key) (hv : IsValue v) (key' sect current : Text)
    (rest : List Text) :
    valueIn key' sect current (strip (entry key v) :: rest) =
      if current = sect ∧ key = key' then some v else valueIn key' sect current rest := by
  obtain ⟨a, b, hp, ha, hb⟩ := entry_partition hk hv
  obtain ⟨c, l, hl, hc, -⟩ := entry_head hk hv
  have hsec : isSectionLine (strip (entry key v)) = false := by
    simp [isSectionLine, hl, hc]
  rw [valueIn, hsec, hp]
  simp only [Bool.false_eq_true, if_false, ha, hb]
  by_cases h1 : current = sect
  · by_cases h2 : key = key'
    · simp [h1, h2]
    · simp [h1, h2]
  · simp [h1]

/-! ## `_sections` and `_render` -/

/-- The values of one `[Peer]` block. -/
structure PeerBlock where
  publicKey : Text
  allowedIPs : Text
  persistentKeepalive : Option Text
deriving DecidableEq

/-- The dictionary that a block's loop fills. -/
structure BlockValues where
  publicKey : Option Text
  allowedIPs : Option Text
  persistentKeepalive : Option Text

def publicKeyKey : Text := "PublicKey".toList
def allowedIPsKey : Text := "AllowedIPs".toList
def persistentKeepaliveKey : Text := "PersistentKeepalive".toList

/-- `values[key] = value`, refused for a repeated or an unknown key. -/
def BlockValues.set (values : BlockValues) (key v : Text) : Option BlockValues :=
  if key = publicKeyKey ∧ values.publicKey = none then some { values with publicKey := some v }
  else if key = allowedIPsKey ∧ values.allowedIPs = none then
    some { values with allowedIPs := some v }
  else if key = persistentKeepaliveKey ∧ values.persistentKeepalive = none then
    some { values with persistentKeepalive := some v }
  else none

/-- The loop over the lines of one block. -/
def blockValues : BlockValues → List Text → Option BlockValues
  | values, [] => some values
  | values, line :: rest =>
    if line.head? = some '#' then blockValues values rest
    else match partition '=' line with
      | none => none
      | some (key, v) =>
        (values.set (strip key) (strip v)).bind fun values => blockValues values rest

def parseBlock (block : Text) : Option PeerBlock :=
  (blockValues ⟨none, none, none⟩ (contentLines block)).bind fun values =>
    match values.publicKey, values.allowedIPs with
    | some k, some a => some ⟨k, a, values.persistentKeepalive⟩
    | _, _ => none

/-- Whether `PEER_SECTION` matches at this line. The pattern is anchored at both
ends of a line and `\s*` may run on over blank lines, which no parser looks at. -/
def isHeader (line : Text) : Bool :=
  "[Peer]".toList.isPrefixOf line && (line.drop 6).all isSpace

/-- The lines before the first header, and the lines below each header. -/
def splitBlocks : List Text → List Text × List (List Text)
  | [] => ([], [])
  | line :: rest =>
    if isHeader line then ([], (splitBlocks rest).1 :: (splitBlocks rest).2)
    else (line :: (splitBlocks rest).1, (splitBlocks rest).2)

def sections (content : Text) : Option (Text × List PeerBlock) :=
  match splitBlocks (content.splitOn '\n') with
  | (_, []) => if "[Interface]".toList <:+: content then some (content, []) else none
  | (before, block :: blocks) =>
    ((block :: blocks).mapM fun ls => parseBlock (unlines ls)).map fun peers =>
      (unlines before, peers)

/-- `peer.get('PersistentKeepalive', '25')`. -/
def PeerBlock.keepalive (peer : PeerBlock) : Text := peer.persistentKeepalive.getD "25".toList

def renderPeer (peer : PeerBlock) : Text :=
  "\n[Peer]\n".toList ++ entry publicKeyKey peer.publicKey ++ "\n".toList ++
    entry allowedIPsKey peer.allowedIPs ++ "\n".toList ++
    entry persistentKeepaliveKey peer.keepalive ++ "\n".toList

def render (pre : Text) (peers : List PeerBlock) : Text :=
  rstrip pre ++ "\n".toList ++ peers.flatMap renderPeer

/-! ## Reading back what was rendered -/

/-- The texts of a block fit on their lines. -/
structure PeerBlock.WellFormed (peer : PeerBlock) : Prop where
  publicKey : IsValue peer.publicKey
  allowedIPs : IsValue peer.allowedIPs
  persistentKeepalive : ∀ v ∈ peer.persistentKeepalive, IsValue v

/-- The block with its default keepalive written out. -/
def PeerBlock.complete (peer : PeerBlock) : PeerBlock :=
  { peer with persistentKeepalive := some peer.keepalive }

/-- No line of the text is a `[Peer]` header. -/
def HeaderFree (t : Text) : Prop := ∀ l ∈ t.splitOn '\n', isHeader l = false

theorem isKey_publicKey : IsKey publicKeyKey :=
  isKey_cons (by decide +kernel)

theorem isKey_allowedIPs : IsKey allowedIPsKey :=
  isKey_cons (by decide +kernel)

theorem isKey_persistentKeepalive : IsKey persistentKeepaliveKey :=
  isKey_cons (by decide +kernel)

theorem PeerBlock.WellFormed.keepalive (h : peer.WellFormed) : IsValue peer.keepalive := by
  rw [PeerBlock.keepalive]
  cases hk : peer.persistentKeepalive with
  | none => exact isValue_of_noSpace (forall_mem_of_all (by decide +kernel))
  | some v => exact h.persistentKeepalive v hk

private def blockLines (peer : PeerBlock) : List Text :=
  [entry publicKeyKey peer.publicKey, entry allowedIPsKey peer.allowedIPs,
    entry persistentKeepaliveKey peer.keepalive]

private theorem parseBlock_blockLines (h : peer.WellFormed) :
    parseBlock (unlines (blockLines peer ++ [[]])) = some peer.complete := by
  have step {key v : Text} (hk : IsKey key) (hv : IsValue v) (values : BlockValues)
      (rest : List Text) : blockValues values (strip (entry key v) :: rest) =
        (values.set key v).bind fun values => blockValues values rest := by
    obtain ⟨a, b, hp, ha, hb⟩ := entry_partition hk hv
    obtain ⟨c, l, hl, -, hc⟩ := entry_head hk hv
    rw [blockValues, hp]
    simp [hl, hc, ha, hb]
  rw [parseBlock, contentLines_unlines]
  simp only [blockLines, List.cons_append, List.nil_append, List.flatMap_cons, List.flatMap_nil,
    contentLines_entry isKey_publicKey h.publicKey,
    contentLines_entry isKey_allowedIPs h.allowedIPs,
    contentLines_entry isKey_persistentKeepalive h.keepalive, contentLines_nil,
    List.append_nil, step isKey_publicKey h.publicKey, step isKey_allowedIPs h.allowedIPs,
    step isKey_persistentKeepalive h.keepalive]
  rfl

private theorem splitBlocks_append {a : List Text} (h : ∀ l ∈ a, isHeader l = false)
    (b : List Text) : splitBlocks (a ++ b) = (a ++ (splitBlocks b).1, (splitBlocks b).2) := by
  induction a with
  | nil => rfl
  | cons l a ih =>
    have hl := h l (List.mem_cons_self ..)
    rw [List.cons_append, splitBlocks, hl, ih fun m hm => h m (List.mem_cons_of_mem _ hm)]
    rfl

/-- A text without headers is all interface part. -/
theorem sections_of_headerFree {content : Text} (hfree : HeaderFree content)
    (hif : "[Interface]".toList <:+: content) : sections content = some (content, []) := by
  have h := splitBlocks_append hfree []
  rw [List.append_nil] at h
  rw [sections, h]
  simp only [splitBlocks, if_pos hif]

theorem lf_not_mem_entry (hk : IsKey key) (hv : IsValue v) : '\n' ∉ entry key v := by
  intro hm
  have := noBreak_entry hk hv _ hm
  exact absurd this (by decide)

theorem entry_not_header (hk : IsKey key) : isHeader (entry key v) = false := by
  obtain ⟨c, rest, rfl, hc, -⟩ := hk.head
  simp [isHeader, entry, hc.symm]

private theorem splitOn_renderPeer (h : peer.WellFormed) (rest : Text) :
    (renderPeer peer ++ rest).splitOn '\n' =
      [] :: "[Peer]".toList :: (blockLines peer ++ rest.splitOn '\n') := by
  have shape : renderPeer peer ++ rest = [] ++ '\n' :: ("[Peer]".toList ++ '\n' ::
      (entry publicKeyKey peer.publicKey ++ '\n' :: (entry allowedIPsKey peer.allowedIPs ++ '\n' ::
      (entry persistentKeepaliveKey peer.keepalive ++ '\n' :: rest)))) := by
    unfold renderPeer
    generalize entry publicKeyKey peer.publicKey = e1
    generalize entry allowedIPsKey peer.allowedIPs = e2
    generalize entry persistentKeepaliveKey peer.keepalive = e3
    simp
  rw [shape, List.splitOn_append_cons_self_of_not_mem List.not_mem_nil,
    List.splitOn_append_cons_self_of_not_mem (by decide),
    List.splitOn_append_cons_self_of_not_mem (lf_not_mem_entry isKey_publicKey h.publicKey),
    List.splitOn_append_cons_self_of_not_mem (lf_not_mem_entry isKey_allowedIPs h.allowedIPs),
    List.splitOn_append_cons_self_of_not_mem
      (lf_not_mem_entry isKey_persistentKeepalive h.keepalive)]
  rfl

private theorem splitBlocks_rendered (h : ∀ p ∈ peers, p.WellFormed) :
    splitBlocks ((peers.flatMap renderPeer).splitOn '\n') =
      ([[]], peers.map fun p => blockLines p ++ [[]]) := by
  induction peers with
  | nil => rfl
  | cons p peers ih =>
    have hp := h p (List.mem_cons_self ..)
    have hlines : ∀ l ∈ blockLines p, isHeader l = false := by
      simp only [blockLines, List.mem_cons, List.not_mem_nil, or_false]
      rintro l (rfl | rfl | rfl)
      · exact entry_not_header isKey_publicKey
      · exact entry_not_header isKey_allowedIPs
      · exact entry_not_header isKey_persistentKeepalive
    rw [List.flatMap_cons, splitOn_renderPeer hp, splitBlocks, splitBlocks,
      splitBlocks_append hlines, ih fun q hq => h q (List.mem_cons_of_mem _ hq)]
    rfl

private theorem isHeader_append {l : Text} {c : Char} (h : isHeader l = true)
    (hc : isSpace c = true) : isHeader (l ++ [c]) = true := by
  rw [isHeader, Bool.and_eq_true, List.isPrefixOf_iff_prefix] at *
  obtain ⟨⟨r, rfl⟩, hr⟩ := h
  refine ⟨⟨r ++ [c], by simp⟩, ?_⟩
  rw [List.append_assoc]
  have hdrop (u : Text) : ("[Peer]".toList ++ u).drop 6 = u := rfl
  rw [hdrop] at hr ⊢
  simp [List.all_append, hr, hc]

private theorem HeaderFree.of_append_space {w : Text} (hw : AllSpace w) : ∀ x,
    HeaderFree (x ++ w) → HeaderFree x := by
  induction w with
  | nil => intro x h; simpa using h
  | cons c w ih =>
    intro x h
    have hc : isSpace c = true := hw c (List.mem_cons_self ..)
    have hx : HeaderFree (x ++ [c]) := by
      apply ih fun d hd => hw d (List.mem_cons_of_mem _ hd)
      rwa [List.append_assoc]
    have last (z : Text) (hz : isHeader (z ++ [c]) = false) : isHeader z = false := by
      cases hh : isHeader z with
      | false => rfl
      | true => rw [← hz, isHeader_append hh hc]
    by_cases hn : c = '\n'
    · intro l hl
      apply hx l
      rw [hn, List.splitOn_append_cons_self]
      exact List.mem_append_left _ hl
    · have single (z : Text) (hz : ∀ d ∈ z, (d == '\n') = false) : '\n' ∉ z ∧ '\n' ∉ z ++ [c] := by
        have hz' : '\n' ∉ z := fun hm => by simpa using hz _ hm
        exact ⟨hz', by simpa using ⟨hz', fun e => hn e.symm⟩⟩
      rcases split_last (· == '\n') x with hno | ⟨y, b, z, rfl, hb, hz⟩
      · intro l hl
        rw [List.splitOn_eq_singleton (single x hno).1, List.mem_singleton] at hl
        rw [hl]
        apply last x (hx _ _)
        rw [List.splitOn_eq_singleton (single x hno).2]
        exact List.mem_singleton_self _
      · intro l hl
        rw [beq_iff_eq] at hb
        subst hb
        rw [List.splitOn_append_cons_self, List.splitOn_eq_singleton (single z hz).1,
          List.mem_append, List.mem_singleton] at hl
        rw [HeaderFree, List.append_assoc, List.cons_append, List.splitOn_append_cons_self,
          List.splitOn_eq_singleton (single z hz).2] at hx
        rcases hl with hl | rfl
        · exact hx l (List.mem_append_left _ hl)
        · exact last l (hx _ (by simp))

theorem HeaderFree.rstrip {t : Text} (h : HeaderFree t) : HeaderFree (rstrip t) := by
  obtain ⟨w, hw, ht⟩ := rstrip_decompose t
  rw [ht] at h
  exact HeaderFree.of_append_space hw _ h

private theorem mapM_map_eq_some {α β γ : Type} {f : β → Option γ} {g : α → β} {k : α → γ}
    {l : List α} (h : ∀ a ∈ l, f (g a) = some (k a)) : (l.map g).mapM f = some (l.map k) := by
  induction l with
  | nil => rfl
  | cons a l ih =>
    rw [List.map_cons, List.mapM_cons, h a (List.mem_cons_self ..),
      ih fun b hb => h b (List.mem_cons_of_mem _ hb)]
    rfl

/-- **Round trip.** Rendering and reading back keeps every block and every content
line of the interface part. -/
theorem sections_render {pre : Text} (hfree : HeaderFree pre)
    (hif : "[Interface]".toList <:+: rstrip pre) (hwf : ∀ p ∈ peers, p.WellFormed) :
    ∃ pre', sections (render pre peers) = some (pre', peers.map PeerBlock.complete) ∧
      contentLines pre' = contentLines pre ∧ HeaderFree pre' ∧ rstrip pre' = rstrip pre := by
  have hlf : AllSpace "\n".toList := by simp [AllSpace, isSpace]
  have hsplit : splitBlocks ((render pre peers).splitOn '\n') =
      ((rstrip pre).splitOn '\n' ++ [[]], peers.map fun p => blockLines p ++ [[]]) := by
    rw [render, List.append_assoc, show "\n".toList = ['\n'] from rfl, List.singleton_append,
      List.splitOn_append_cons_self, splitBlocks_append hfree.rstrip, splitBlocks_rendered hwf]
  cases peers with
  | nil =>
    refine ⟨render pre [], ?_, ?_, ?_, ?_⟩
    · have hin : "[Interface]".toList <:+: render pre [] := by
        rw [render, List.flatMap_nil, List.append_nil]
        exact hif.trans (List.prefix_append ..).isInfix
      rw [sections, hsplit]
      simp only [List.map_nil, if_pos hin]
    · rw [render, List.flatMap_nil, List.append_nil,
        contentLines_append_space _ (by simp [AllSpace, isSpace]), contentLines_rstrip]
    · rw [HeaderFree, render, List.flatMap_nil, List.append_nil,
        show "\n".toList = ['\n'] from rfl, List.splitOn_append_cons_self]
      intro l hl
      rcases List.mem_append.mp hl with hl | hl
      · exact hfree.rstrip l hl
      · rw [List.mem_singleton.mp hl]
        rfl
    · rw [render, List.flatMap_nil, List.append_nil, rstrip_append_space _ hlf, rstrip_rstrip]
  | cons p peers =>
    have hlines : ∀ l ∈ (rstrip pre).splitOn '\n' ++ [[]], '\n' ∉ l := by
      intro l hl
      rcases List.mem_append.mp hl with hl | hl
      · exact not_mem_of_mem_splitOn hl
      · rw [List.mem_singleton.mp hl]
        exact List.not_mem_nil
    refine ⟨unlines ((rstrip pre).splitOn '\n' ++ [[]]), ?_, ?_, ?_, ?_⟩
    · have hparse : ((p :: peers).map fun q => blockLines q ++ [[]]).mapM
          (fun ls => parseBlock (unlines ls)) = some ((p :: peers).map PeerBlock.complete) :=
        mapM_map_eq_some fun q hq => parseBlock_blockLines (hwf q hq)
      rw [List.map_cons] at hparse
      rw [sections, hsplit, List.map_cons]
      simp only [hparse, Option.map_some]
    · rw [contentLines_unlines, List.flatMap_append, ← contentLines_unlines, unlines_splitOn,
        contentLines_append_space _ (by simp [AllSpace, isSpace]), contentLines_rstrip]
      simp
    · rw [HeaderFree, splitOn_unlines hlines]
      intro l hl
      simp only [List.mem_append, List.mem_singleton] at hl
      rcases hl with (hl | rfl) | rfl
      · exact hfree.rstrip l hl
      · rfl
      · rfl
    · rw [unlines, List.flatMap_append, ← unlines, unlines_splitOn,
        show [([] : Text)].flatMap (fun l => l ++ ['\n']) = "\n".toList from rfl,
        rstrip_append_space _ hlf, show ['\n'] = "\n".toList from rfl, rstrip_append_space _ hlf,
        rstrip_rstrip]

/-! ## What the parser hands out -/

/-- Every value stored so far fits on a line. -/
private structure BlockValues.Fit (values : BlockValues) : Prop where
  publicKey : ∀ v ∈ values.publicKey, IsValue v
  allowedIPs : ∀ v ∈ values.allowedIPs, IsValue v
  persistentKeepalive : ∀ v ∈ values.persistentKeepalive, IsValue v

private theorem BlockValues.Fit.set {values next : BlockValues} (h : values.Fit) (hv : IsValue v)
    (hs : values.set key v = some next) : next.Fit := by
  unfold BlockValues.set at hs
  split at hs
  · cases hs
    exact ⟨by simpa using hv, h.allowedIPs, h.persistentKeepalive⟩
  · split at hs
    · cases hs
      exact ⟨h.publicKey, by simpa using hv, h.persistentKeepalive⟩
    · split at hs
      · cases hs
        exact ⟨h.publicKey, h.allowedIPs, by simpa using hv⟩
      · cases hs

private theorem blockValues_fit {ls : List Text} (hls : ∀ l ∈ ls, NoBreak l) :
    ∀ {values next : BlockValues}, values.Fit → blockValues values ls = some next → next.Fit := by
  induction ls with
  | nil =>
    intro values next h he
    cases he
    exact h
  | cons l ls ih =>
    intro values next h he
    have hrest : ∀ m ∈ ls, NoBreak m := fun m hm => hls m (List.mem_cons_of_mem _ hm)
    unfold blockValues at he
    split at he
    · exact ih hrest h he
    · split at he
      · cases he
      · next key v hp =>
        obtain ⟨mid, hset, hmid⟩ := Option.bind_eq_some_iff.mp he
        have hv : NoBreak v := by
          intro c hc
          apply hls l (List.mem_cons_self ..)
          rw [partition_eq_some hp]
          exact List.mem_append_right _ (List.mem_cons_of_mem _ hc)
        exact ih hrest (h.set ⟨stripped_strip v, noBreak_strip hv⟩ hset) hmid

private theorem parseBlock_wellFormed {block : Text} (h : parseBlock block = some peer) :
    peer.WellFormed := by
  rw [parseBlock, Option.bind_eq_some_iff] at h
  obtain ⟨values, hvals, hm⟩ := h
  have hfit : values.Fit :=
    blockValues_fit (fun l hl => (mem_contentLines hl).2.2.1) ⟨by simp, by simp, by simp⟩ hvals
  split at hm
  · next k a hk ha =>
    cases hm
    exact ⟨hfit.publicKey k hk, hfit.allowedIPs a ha, hfit.persistentKeepalive⟩
  · cases hm

private theorem splitBlocks_headerFree (ls : List Text) :
    (∀ l ∈ (splitBlocks ls).1, l ∈ ls ∧ isHeader l = false) ∧
      ((splitBlocks ls).2 = [] → (splitBlocks ls).1 = ls) := by
  induction ls with
  | nil => simp [splitBlocks]
  | cons l ls ih =>
    rw [splitBlocks]
    split
    · simp
    · next hl =>
      refine ⟨fun m hm => ?_, fun h => by rw [ih.2 h]⟩
      rcases List.mem_cons.mp hm with rfl | hm
      · exact ⟨List.mem_cons_self .., by simpa using hl⟩
      · exact ⟨List.mem_cons_of_mem _ (ih.1 m hm).1, (ih.1 m hm).2⟩

/-- Whatever `_sections` accepts can be rendered again. -/
theorem sections_wellFormed {content pre : Text} (h : sections content = some (pre, peers)) :
    HeaderFree pre ∧ ∀ p ∈ peers, p.WellFormed := by
  have hpre := splitBlocks_headerFree (content.splitOn '\n')
  unfold sections at h
  split at h
  · next before hsplit =>
    rw [hsplit] at hpre
    split at h
    · cases h
      refine ⟨fun l hl => (hpre.1 l ?_).2, by simp⟩
      rw [hpre.2 rfl]
      exact hl
    · cases h
  · next before block blocks hsplit =>
    rw [hsplit] at hpre
    obtain ⟨ps, hps, he⟩ := Option.map_eq_some_iff.mp h
    cases he
    refine ⟨?_, fun p hp => ?_⟩
    · intro l hl
      rw [splitOn_unlines fun m hm => not_mem_of_mem_splitOn (hpre.1 m hm).1] at hl
      rcases List.mem_append.mp hl with hl | hl
      · exact (hpre.1 l hl).2
      · rw [List.mem_singleton.mp hl]
        rfl
    · obtain ⟨ls, -, hb⟩ := mem_of_mapM_eq_some hps p hp
      exact parseBlock_wellFormed hb

/-! ## Client configurations -/

/-- The row of `wireguard_ingress_profile`. -/
structure Profile where
  endpoint : Text
  dns : Text
  allowedIps : Text
  clientKeepalive : Int
  serverKeepalive : Int
  serverPublicKey : Text
deriving DecidableEq

def privateKeyKey : Text := "PrivateKey".toList
def addressKey : Text := "Address".toList
def interfaceSection : Text := "Interface".toList
def peerSection : Text := "Peer".toList

/-- The text that `_new_client` returns. -/
def clientText (profile : Profile) (privateKey tunnelIp : Text) : Text :=
  "[Interface]\n".toList ++ entry privateKeyKey privateKey ++ "\n".toList ++
    entry addressKey (hostText tunnelIp) ++ "\n".toList ++
    entry "DNS".toList profile.dns ++ "\n".toList ++
    "\n[Peer]\n".toList ++ entry publicKeyKey profile.serverPublicKey ++ "\n".toList ++
    (entry "Endpoint".toList profile.endpoint ++ "\n".toList ++
      entry allowedIPsKey profile.allowedIps ++ "\n".toList ++
      entry persistentKeepaliveKey (intText profile.clientKeepalive) ++ "\n".toList)

theorem isKey_privateKey : IsKey privateKeyKey :=
  isKey_cons (by decide +kernel)

theorem isKey_address : IsKey addressKey :=
  isKey_cons (by decide +kernel)

theorem isKey_dns : IsKey "DNS".toList :=
  isKey_cons (by decide +kernel)

/-- The texts that `_new_client` puts in front of the server's public key, and that
key, fit on their lines. -/
structure ClientTexts (profile : Profile) (privateKey tunnelIp : Text) : Prop where
  privateKey : IsValue privateKey
  tunnelIp : IsValue (hostText tunnelIp)
  dns : IsValue profile.dns
  serverPublicKey : IsValue profile.serverPublicKey

private theorem contentLines_clientText (h : ClientTexts profile privateKey tunnelIp) :
    ∃ rest, contentLines (clientText profile privateKey tunnelIp) =
      "[Interface]".toList :: strip (entry privateKeyKey privateKey) ::
        strip (entry addressKey (hostText tunnelIp)) :: strip (entry "DNS".toList profile.dns) ::
        "[Peer]".toList :: strip (entry publicKeyKey profile.serverPublicKey) :: rest := by
  have lf : isLineBreak '\n' = true := by decide
  have hif : contentLines "[Interface]".toList = ["[Interface]".toList] := by decide
  have hpeer : contentLines "[Peer]".toList = ["[Peer]".toList] := by decide
  obtain ⟨r, shape⟩ : ∃ r, clientText profile privateKey tunnelIp = "[Interface]".toList ++ '\n' ::
      (entry privateKeyKey privateKey ++ '\n' :: (entry addressKey (hostText tunnelIp) ++ '\n' ::
      (entry "DNS".toList profile.dns ++ '\n' :: ([] ++ '\n' :: ("[Peer]".toList ++ '\n' ::
      (entry publicKeyKey profile.serverPublicKey ++ '\n' :: r)))))) := by
    unfold clientText
    generalize entry privateKeyKey privateKey = e1
    generalize entry addressKey (hostText tunnelIp) = e2
    generalize entry "DNS".toList profile.dns = e3
    generalize entry publicKeyKey profile.serverPublicKey = e4
    generalize entry "Endpoint".toList profile.endpoint ++ _ ++ _ ++ _ ++ _ ++ _ = r
    exact ⟨r, by simp⟩
  refine ⟨contentLines r, ?_⟩
  rw [shape, contentLines_append_break _ _ lf, contentLines_append_break _ _ lf,
    contentLines_append_break _ _ lf, contentLines_append_break _ _ lf,
    contentLines_append_break _ _ lf, contentLines_append_break _ _ lf,
    contentLines_append_break _ _ lf, hif, hpeer, contentLines_nil,
    contentLines_entry isKey_privateKey h.privateKey, contentLines_entry isKey_address h.tunnelIp,
    contentLines_entry isKey_dns h.dns, contentLines_entry isKey_publicKey h.serverPublicKey]
  rfl

private theorem valueIn_interfaceLine (key sect current : Text) (rest : List Text) :
    valueIn key sect current ("[Interface]".toList :: rest) =
      valueIn key sect interfaceSection rest := by
  rw [valueIn]
  rfl

private theorem valueIn_peerLine (key sect current : Text) (rest : List Text) :
    valueIn key sect current ("[Peer]".toList :: rest) = valueIn key sect peerSection rest := by
  rw [valueIn]
  rfl

/-- The three lookups of the validator in a client file, whatever the newlines. -/
theorem value_clientText (h : ClientTexts profile privateKey tunnelIp) {t : Text}
    (ht : contentLines t = contentLines (clientText profile privateKey tunnelIp)) :
    value t privateKeyKey interfaceSection = some privateKey ∧
      value t addressKey interfaceSection = some (hostText tunnelIp) ∧
      value t publicKeyKey peerSection = some profile.serverPublicKey := by
  obtain ⟨rest, hc⟩ := contentLines_clientText h
  have e1 := valueIn_entry isKey_privateKey h.privateKey
  have e2 := valueIn_entry isKey_address h.tunnelIp
  have e3 := valueIn_entry isKey_dns h.dns
  have e4 := valueIn_entry isKey_publicKey h.serverPublicKey
  simp only [value_eq_content, ht, hc, valueIn_interfaceLine, valueIn_peerLine, e1, e2, e3, e4]
  refine ⟨rfl, rfl, rfl⟩

end ExitLane.Peers
