import ExitLane.Peers.Operations
import Mathlib.Logic.Relation

/-!
# The peer store invariant

Every operation that succeeds on an accepted store leaves an accepted store
(`plan_valid`).

Two facts carry the argument. Rewriting the server file keeps the interface part,
so the rewritten file parses to the rendered blocks (`Valid.rewrite`). And every
operation changes the blocks and the active rows in the same way, which the item
lemmas state as one equivalence per operation.
-/

namespace ExitLane.Peers
open Python IpAddress
open Effect (bind_eq_ok forM_eq_ok)

variable {w : Platform} {interface : Text} {s : Store} {srv : Server} {profile : Profile}
  {row : Row} {key : Text} {peers : List PeerBlock} {r : Row} {t : Table} {p : Text}
  {replacement : PeerBlock} {d : Draw} {c : Change} {v : Validated} {profile' : Profile}

/-! ## Facts about accepted stores -/

theorem RowValid.address {files : Files} {address : Interface} {serverPublic : Text}
    (h : RowValid w files address serverPublic row) :
    ∃ ip, row.tunnelIp = ipv4Text ip ∧ ip < 2 ^ 32 ∧ assignable address ip = true := by
  obtain ⟨-, -, ⟨-, ip, -, -, -, hn, ha⟩, -⟩ := h.client
  obtain ⟨ht, hlt⟩ := parseIPv4_eq_some hn
  exact ⟨ip.ip, ht, hlt, ha⟩

private theorem valueIn_append {sect v : Text} {rest : List Text} (ls : List Text) :
    ∀ current, valueIn key sect current ls = some v →
      valueIn key sect current (ls ++ rest) = some v := by
  induction ls with
  | nil => intro current h; simp [valueIn] at h
  | cons l ls ih =>
    intro current h
    rw [List.cons_append]
    unfold valueIn at h ⊢
    split at h
    · next hl => rw [if_pos hl]; exact ih _ h
    · next hl =>
      rw [if_neg hl]
      split at h
      · next hc =>
        rw [if_pos hc]
        split at h
        · next name v' hp =>
          split at h
          · next hk => rw [if_pos hk]; exact h
          · next hk => rw [if_neg hk]; exact ih _ h
        · exact ih _ h
      · next hc => rw [if_neg hc]; exact ih _ h

private theorem splitBlocks_prefix (ls : List Text) : ∃ tail, ls = (splitBlocks ls).1 ++ tail := by
  induction ls with
  | nil => exact ⟨[], rfl⟩
  | cons l ls ih =>
    rw [splitBlocks]
    split
    · exact ⟨l :: ls, rfl⟩
    · obtain ⟨tail, ht⟩ := ih
      exact ⟨tail, by rw [List.cons_append, ← ht]⟩

/-- The interface part comes first in the file, and adds no characters but line feeds. -/
private theorem sections_pre {content pre : Text} (h : sections content = some (pre, peers)) :
    (∃ rest, contentLines content = contentLines pre ++ rest) ∧
      ∀ c ∈ pre, c ∈ content ∨ c = '\n' := by
  unfold sections at h
  split at h
  · split at h
    · cases h
      exact ⟨⟨[], by simp⟩, fun c hc => Or.inl hc⟩
    · cases h
  · next before block blocks hsplit =>
    obtain ⟨ps, -, he⟩ := Option.map_eq_some_iff.mp h
    cases he
    obtain ⟨tail, ht⟩ := splitBlocks_prefix (content.splitOn '\n')
    rw [hsplit] at ht
    have hall : contentLines content = contentLines (unlines (content.splitOn '\n')) := by
      rw [unlines_splitOn, contentLines_append_space _ (by simp [AllSpace, isSpace])]
    refine ⟨⟨tail.flatMap contentLines, ?_⟩, fun c hc => ?_⟩
    · rw [hall, ht, contentLines_unlines, contentLines_unlines, List.flatMap_append]
    · have hc' : c ∈ unlines (content.splitOn '\n') := by
        rw [ht, unlines, List.flatMap_append]
        exact List.mem_append_left _ hc
      rw [unlines_splitOn, List.mem_append, List.mem_singleton] at hc'
      exact hc'

/-- No client file is the server's: their `Address` lines differ in prefix length. -/
theorem Valid.configName_ne (h : Valid w interface s srv profile) (hr : r ∈ s.table.rows) :
    r.configName ≠ interface := by
  intro he
  obtain ⟨content, hread, hsrv⟩ := h.content
  obtain ⟨hsec, hif, -⟩ := server_eq_some_iff.mp hsrv
  obtain ⟨t, ht, -, hparse⟩ := hif.addressLine
  obtain ⟨client, hclient, ⟨t', ip, ht', hip, hlen, -, -⟩, -⟩ := (h.rows r hr).client
  rw [he, hread] at hclient
  cases hclient
  obtain ⟨rest, hrest⟩ := (sections_pre hsec).1
  rw [value_eq_content, hrest] at ht'
  rw [value_eq_content] at ht
  rw [valueIn_append _ _ ht] at ht'
  cases ht'
  rw [hparse] at hip
  cases hip
  have := hif.prefixLength_le
  omega

/-- A name without a file is not in use. -/
theorem Valid.ne_unused (h : Valid w interface s srv profile) {name : Text}
    (hnone : s.files name = none) : interface ≠ name ∧ ∀ r ∈ s.table.rows, r.configName ≠ name := by
  obtain ⟨content, hread, -⟩ := h.content
  refine ⟨fun he => ?_, fun r hr he => ?_⟩
  · rw [he, hnone] at hread
    cases hread
  · obtain ⟨client, hread, -⟩ := (h.rows r hr).client
    rw [he, hnone] at hread
    cases hread

/-! ## Rewriting the server file -/

private theorem exists_mapM {α β : Type} {f : α → Option β} {l : List α}
    (h : ∀ a ∈ l, ∃ b, f a = some b) : ∃ r, l.mapM f = some r := by
  induction l with
  | nil => exact ⟨[], rfl⟩
  | cons a l ih =>
    obtain ⟨b, hb⟩ := h a (List.mem_cons_self ..)
    obtain ⟨r, hr⟩ := ih fun c hc => h c (List.mem_cons_of_mem _ hc)
    exact ⟨b :: r, by simp [List.mapM_cons, hb, hr]⟩

private theorem isPeerAddress_host {address : Interface} {ip : Nat} {hlt : ip < 2 ^ 32}
    (h : assignable address ip = true) : isPeerAddress address (hostInterface ip hlt) = true := by
  have hnet : (hostInterface ip hlt).networkAddress = ip := by
    simp [hostInterface, Interface.networkAddress, Interface.size]
  have hin : address.contains ip = true := by
    simp only [assignable, Bool.and_eq_true] at h
    exact h.1.1
  rw [isPeerAddress, hnet, h, hin]
  rfl

/-- Blocks that carry the items of rows with assignable addresses pass the checks of `_server`. -/
theorem blocksPart_of_items {address : Interface} (hkeys : (peers.map PeerBlock.publicKey).Nodup)
    (hitems : ∀ item ∈ blockItems peers, item ∈ activeItems t.rows)
    (hrows : ∀ r ∈ t.rows, ∃ ip, r.tunnelIp = ipv4Text ip ∧ ip < 2 ^ 32 ∧
      assignable address ip = true) : BlocksPart address peers := by
  have row (p : PeerBlock) (hp : p ∈ peers) : ∃ r ∈ t.rows, ∃ ip, ∃ h : ip < 2 ^ 32,
      r.publicKey = p.publicKey ∧ r.tunnelIp = ipv4Text ip ∧
      parseNetwork p.allowedIPs = some (hostInterface ip h) ∧ assignable address ip = true := by
    have := hitems (p.publicKey, p.allowedIPs) (List.mem_map.mpr ⟨p, hp, rfl⟩)
    obtain ⟨r, hr, -, hk, ha⟩ := mem_activeItems.mp this
    obtain ⟨ip, hip, hlt, hass⟩ := hrows r hr
    rw [hip] at ha
    exact ⟨r, hr, ip, hlt, hk, hip, by rw [← ha]; exact parseNetwork_hostText hlt, hass⟩
  obtain ⟨items, hparse⟩ : ∃ items, peers.mapM (fun p => parseNetwork p.allowedIPs) =
      some items := by
    refine exists_mapM fun p hp => ?_
    obtain ⟨_, _, ip, hlt, _, _, hpp, _⟩ := row p hp
    exact ⟨_, hpp⟩
  refine ⟨⟨items, hparse, ?_, ?_⟩, hkeys⟩
  · rw [mapM_eq_some_iff] at hparse
    rw [List.all_eq_true]
    intro item hitem
    have hmem : some item ∈ peers.map fun p => parseNetwork p.allowedIPs := by
      rw [hparse]
      exact List.mem_map.mpr ⟨item, hitem, rfl⟩
    obtain ⟨p, hp, he⟩ := List.mem_map.mp hmem
    obtain ⟨_, _, ip, hlt, _, _, hpp, hass⟩ := row p hp
    rw [hpp] at he
    cases he
    exact isPeerAddress_host hass
  · -- different keys name different rows, whose addresses differ
    rw [mapM_eq_some_iff] at hparse
    have hnd : (peers.map fun p => parseNetwork p.allowedIPs).Nodup := by
      rw [List.Nodup, List.pairwise_map] at hkeys ⊢
      refine hkeys.imp_of_mem fun {p q} hp hq hne he => hne ?_
      obtain ⟨rp, hrp, ip, _, hkp, htp, hpp, -⟩ := row p hp
      obtain ⟨rq, hrq, iq, _, hkq, htq, hpq, -⟩ := row q hq
      rw [hpp, hpq] at he
      have hip : ip = iq := congrArg Interface.ip (Option.some.inj he)
      have : rp = rq := eq_of_column t.constraints.tunnelIp hrp hrq (by rw [htp, htq, hip])
      rw [← hkp, ← hkq, this]
    rw [hparse] at hnd
    exact hnd.of_map _

private theorem cr_not_mem_entry {v : Text} (hk : IsKey key) (hv : IsValue v) :
    '\r' ∉ entry key v := by
  intro hm
  exact absurd (noBreak_entry hk hv _ hm) (by decide)

private theorem cr_not_mem_render {pre : Text} (hpre : '\r' ∉ pre)
    (hwf : ∀ p ∈ peers, p.WellFormed) : '\r' ∉ render pre peers := by
  have hstrip : '\r' ∉ rstrip pre := by
    obtain ⟨v, -, hv⟩ := rstrip_decompose pre
    intro hm
    apply hpre
    rw [hv]
    exact List.mem_append_left _ hm
  have hpeer (p : PeerBlock) (hp : p.WellFormed) : '\r' ∉ renderPeer p := by
    have h1 := cr_not_mem_entry isKey_publicKey hp.publicKey
    have h2 := cr_not_mem_entry isKey_allowedIPs hp.allowedIPs
    have h3 := cr_not_mem_entry isKey_persistentKeepalive hp.keepalive
    unfold renderPeer
    simp [h1, h2, h3]
  simp only [render, List.mem_append, List.mem_flatMap, not_or, not_exists, not_and]
  exact ⟨⟨hstrip, by decide⟩, fun p hp => hpeer p (hwf p hp)⟩

/-- What a rendered server file is read as. -/
theorem Valid.render (h : Valid w interface s srv profile) (hwf : ∀ p ∈ peers, p.WellFormed) :
    universalNewlines (render srv.pre peers) = render srv.pre peers ∧
      ∃ pre', sections (render srv.pre peers) = some (pre', peers.map PeerBlock.complete) ∧
        InterfacePart pre' srv.address srv.privateKey ∧ rstrip pre' = rstrip srv.pre := by
  obtain ⟨content, hread, hsrv⟩ := h.content
  obtain ⟨hsec, hif, -⟩ := server_eq_some_iff.mp hsrv
  obtain ⟨t, ht, ht0, hparse⟩ := hif.addressLine
  have hvalue {pre : Text} (hpre : contentLines pre = contentLines srv.pre) (key : Text) :
      value pre key interfaceSection = value srv.pre key interfaceSection := by
    rw [value_eq_content, value_eq_content, hpre]
  have hheader : "[Interface]".toList <:+: rstrip srv.pre :=
    header_infix_of_value (by decide) ((hvalue (contentLines_rstrip _) addressKey).trans ht)
  have hcr : '\r' ∉ srv.pre := by
    intro hm
    rcases (sections_pre hsec).2 _ hm with hc | hc
    · obtain ⟨f, -, rfl⟩ := read_eq_ok hread
      exact cr_not_mem_universalNewlines f.text hc
    · exact absurd hc (by decide)
  obtain ⟨pre', hsec', hlines, -, hend⟩ :=
    sections_render (sections_wellFormed hsec).1 hheader hwf
  refine ⟨universalNewlines_of_not_mem (cr_not_mem_render hcr hwf), pre', hsec', ⟨?_, ?_,
    hif.prefixLength_le⟩, hend⟩
  · exact ⟨t, (hvalue hlines _).trans ht, ht0, hparse⟩
  · exact ⟨(hvalue hlines _).trans hif.privateKeyLine.1, hif.privateKeyLine.2⟩

/-- **Rewriting.** An operation may replace the server file by a rendering of new
blocks, as long as they carry the items of the new active rows. -/
theorem Valid.rewrite (h : Valid w interface s srv profile) {s' : Store}
    (hprofile : s'.profile = s.profile)
    (hfile : s'.files interface = some (written (Peers.render srv.pre peers)))
    (hsize : utf8Length (Peers.render srv.pre peers) ≤ 65536) (hwf : ∀ p ∈ peers, p.WellFormed)
    (hkeys : (peers.map PeerBlock.publicKey).Nodup)
    (hitems : ∀ item, item ∈ blockItems peers ↔ item ∈ activeItems s'.table.rows)
    (hrows : ∀ r ∈ s'.table.rows, RowValid w s'.files srv.address profile.serverPublicKey r) :
    ∃ srv', Valid w interface s' srv' profile ∧ srv'.address = srv.address := by
  obtain ⟨hnewlines, pre', hsec, hif, -⟩ := h.render hwf
  have hblocks := blocksPart_of_items hkeys (fun item hi => (hitems item).mp hi)
    fun r hr => (hrows r hr).address
  refine ⟨⟨pre', peers.map PeerBlock.complete, srv.address, srv.privateKey⟩, ⟨h.interfaceName,
    ⟨Peers.render srv.pre peers, ?_, ?_⟩, ?_, ?_, h.serverPublic, hrows⟩, rfl⟩
  · rw [hfile, read_written hsize, hnewlines]
  · rw [server_eq_some_iff]
    refine ⟨hsec, hif, ?_, ?_⟩
    · obtain ⟨items, hm, hall, hnd⟩ := hblocks.addresses
      refine ⟨items, ?_, hall, hnd⟩
      rw [mapM_eq_some_iff] at hm ⊢
      rw [← hm, List.map_map]
      rfl
    · rw [List.map_map]
      exact hkeys
  · rw [hprofile]
    exact h.profileRow
  · intro item
    rw [← hitems item, blockItems, blockItems, List.map_map]
    rfl

/-- An operation that leaves the server file alone keeps the items of active rows. -/
theorem Valid.keep (h : Valid w interface s srv profile) {s' : Store}
    (hprofile : s'.profile = s.profile) (hfile : s'.files interface = s.files interface)
    (hitems : ∀ item, item ∈ activeItems s.table.rows ↔ item ∈ activeItems s'.table.rows)
    (hrows : ∀ r ∈ s'.table.rows, RowValid w s'.files srv.address profile.serverPublicKey r) :
    Valid w interface s' srv profile where
  interfaceName := h.interfaceName
  content := by rw [hfile]; exact h.content
  profileRow := by rw [hprofile]; exact h.profileRow
  items item := (h.items item).trans (hitems item)
  serverPublic := h.serverPublic
  rows := hrows

/-! ## Texts that need no quoting -/

theorem isValue_hostText (ip : Nat) : IsValue (hostText (ipv4Text ip)) := by
  apply isValue_of_noSpace
  intro c hc
  rw [hostText, List.mem_append] at hc
  rcases hc with hc | hc
  · rcases mem_ipv4Text hc with hd | rfl
    · exact isSpace_of_isDigit hd
    · rfl
  · exact forall_mem_of_all (p := isSpace) (b := false) (by decide +kernel) c hc

theorem isValue_intText (i : Int) : IsValue (intText i) := by
  have digits (n : Nat) : ∀ c ∈ natText n, isSpace c = false := fun c hc =>
    isSpace_of_isDigit (Nat.isDigit_of_mem_toDigits (by decide) (by decide) hc)
  apply isValue_of_noSpace
  unfold intText
  split
  · intro c hc
    rcases List.mem_cons.mp hc with rfl | hc
    · rfl
    · exact digits _ c hc
  · exact digits _

theorem isValue_pubkey {k : Text} (h : w.pubkey p = some k) : IsValue k :=
  isValue_of_noSpace (w.pubkey_noSpace p k h)

private theorem isValue_dns {dns : Text} (h : validatedDnsAddress dns = true) : IsValue dns := by
  apply isValue_of_noSpace
  simp only [validatedDnsAddress, safeAsciiValue, Bool.and_eq_true, List.all_eq_true,
    Bool.not_eq_true'] at h
  exact fun c hc => (h.1.2 c hc).2

/-- A row is valid once its client file has been written for it. -/
theorem rowValid_clientText {files : Files} {address : Interface} {d : Draw} {ip : Nat}
    (hname : isConfigName row.configName = true)
    (hfile : files row.configName = some (written (clientText profile d.privateKey row.tunnelIp)))
    (hsize : utf8Length (clientText profile d.privateKey row.tunnelIp) ≤ 65536)
    (hip : row.tunnelIp = ipv4Text ip) (hlt : ip < 2 ^ 32) (hass : assignable address ip = true)
    (hkey : w.pubkey d.privateKey = some row.publicKey)
    (hdns : validatedDnsAddress profile.dns = true) {serverPrivate : Text}
    (hserver : w.pubkey serverPrivate = some profile.serverPublicKey) :
    RowValid w files address profile.serverPublicKey row := by
  have htexts : ClientTexts profile d.privateKey row.tunnelIp :=
    ⟨isValue_of_noSpace d.privateKey_noSpace, by rw [hip]; exact isValue_hostText ip,
      isValue_dns hdns, isValue_pubkey hserver⟩
  obtain ⟨hpriv, haddr, hpub⟩ := value_clientText htexts (contentLines_universalNewlines _)
  refine ⟨hname, _, by rw [hfile]; exact read_written hsize, ?_, ?_, hpub⟩
  · refine ⟨_, hostInterface ip hlt, haddr, ?_, rfl, ?_, hass⟩
    · rw [hip]
      exact parseInterface_hostText hlt
    · rw [hip]
      exact parseIPv4_text hlt
  · exact ⟨d.privateKey, hpriv, d.privateKey_ne_nil, hkey⟩

/-! ## Items under each operation -/

/-- The active items after one row was rewritten. -/
theorem mem_activeItems_update (hrow : row ∈ t.rows) (f : Row → Row) (k a : Text) :
    (k, a) ∈ activeItems (t.rows.map fun r => if r.peerId = row.peerId then f r else r) ↔
      ((f row).status = .active ∧ (f row).publicKey = k ∧ hostText (f row).tunnelIp = a) ∨
        ((k, a) ∈ activeItems t.rows ∧ k ≠ row.publicKey) := by
  simp only [mem_activeItems, List.mem_map]
  constructor
  · rintro ⟨_, ⟨r, hr, rfl⟩, h⟩
    by_cases hid : r.peerId = row.peerId
    · obtain rfl := eq_of_column t.constraints.peerId hr hrow hid
      rw [if_pos rfl] at h
      exact Or.inl h
    · rw [if_neg hid] at h
      refine Or.inr ⟨⟨r, hr, h⟩, fun hk => hid ?_⟩
      rw [eq_of_column t.constraints.publicKey hr hrow (h.2.1.trans hk)]
  · rintro (h | ⟨⟨r, hr, h⟩, hk⟩)
    · exact ⟨f row, ⟨row, hrow, if_pos rfl⟩, h⟩
    · refine ⟨r, ⟨r, hr, if_neg fun hid => hk ?_⟩, h⟩
      rw [← h.2.1, eq_of_column t.constraints.peerId hr hrow hid]

theorem mem_blockItems {k a : Text} :
    (k, a) ∈ blockItems peers ↔ ∃ p ∈ peers, p.publicKey = k ∧ p.allowedIPs = a := by
  simp [blockItems]

/-- An active row has a block, and a revoked one has none. -/
theorem Valid.block_iff (h : Valid w interface s srv profile) (hrow : row ∈ s.table.rows) :
    (∃ p ∈ srv.peers, p.publicKey = row.publicKey) ↔ row.status = .active := by
  constructor
  · rintro ⟨p, hp, hk⟩
    have := (h.items (p.publicKey, p.allowedIPs)).mp (mem_blockItems.mpr ⟨p, hp, rfl, rfl⟩)
    obtain ⟨r, hr, hactive, hkey, -⟩ := mem_activeItems.mp this
    rwa [← eq_of_column s.table.constraints.publicKey hr hrow (hkey.trans hk)]
  · intro hactive
    have := (h.items (row.publicKey, hostText row.tunnelIp)).mpr
      (mem_activeItems.mpr ⟨row, hrow, hactive, rfl, rfl⟩)
    obtain ⟨p, hp, hk, -⟩ := mem_blockItems.mp this
    exact ⟨p, hp, hk⟩

theorem mem_regeneratedPeers {v : Validated} {p : PeerBlock}
    (hp : p ∈ regeneratedPeers v row replacement) :
    p = replacement ∨ (p ∈ v.peers ∧ p.publicKey ≠ row.publicKey) := by
  have hmap (h : p ∈ v.peers.map fun peer =>
      if peer.publicKey = row.publicKey then replacement else peer) :
      p = replacement ∨ (p ∈ v.peers ∧ p.publicKey ≠ row.publicKey) := by
    obtain ⟨q, hq, rfl⟩ := List.mem_map.mp h
    split
    · exact Or.inl rfl
    · next hne => exact Or.inr ⟨hq, hne⟩
  unfold regeneratedPeers at hp
  split at hp
  · rcases List.mem_append.mp hp with hp | hp
    · exact hmap hp
    · exact Or.inl (List.mem_singleton.mp hp)
  · exact hmap hp

theorem mem_blockItems_regenerated (h : Valid w interface s srv profile) {v : Validated}
    (hv : v.peers = srv.peers) (hrow : row ∈ s.table.rows) (k a : Text) :
    (k, a) ∈ blockItems (regeneratedPeers v row replacement) ↔
      (replacement.publicKey = k ∧ replacement.allowedIPs = a) ∨
        ((k, a) ∈ blockItems srv.peers ∧ k ≠ row.publicKey) := by
  have hblock := h.block_iff hrow
  simp only [mem_blockItems]
  constructor
  · rintro ⟨p, hp, hk, ha⟩
    rcases mem_regeneratedPeers hp with rfl | ⟨hp, hne⟩
    · exact Or.inl ⟨hk, ha⟩
    · exact Or.inr ⟨⟨p, hv ▸ hp, hk, ha⟩, by rw [← hk]; exact hne⟩
  · rw [regeneratedPeers, hv]
    rintro (⟨hk, ha⟩ | ⟨⟨p, hp, hk, ha⟩, hne⟩)
    · refine ⟨replacement, ?_, hk, ha⟩
      split
      · exact List.mem_append_right _ (List.mem_singleton_self _)
      · next hs =>
        have hactive : row.status = .active := by
          cases h' : row.status with
          | active => rfl
          | revoked => exact absurd h' hs
        obtain ⟨p, hp, hpk⟩ := hblock.mpr hactive
        exact List.mem_map.mpr ⟨p, hp, if_pos hpk⟩
    · have hmem : p ∈ srv.peers.map fun peer =>
          if peer.publicKey = row.publicKey then replacement else peer :=
        List.mem_map.mpr ⟨p, hp, if_neg (by rw [hk]; exact hne)⟩
      refine ⟨p, ?_, hk, ha⟩
      split
      · exact List.mem_append_left _ hmem
      · exact hmem

/-! ## Each operation keeps the store valid -/

/-- Every file that a change writes stays within what `_read` accepts. -/
def Change.Fits (c : Change) : Prop :=
  ∀ item ∈ c.newFiles, ∀ t ∈ item.2, utf8Length t ≤ 65536

private theorem Change.Fits.two {a b x y : Text} (h : c.Fits)
    (hnew : c.newFiles = [(a, some x), (b, some y)]) :
    utf8Length x ≤ 65536 ∧ utf8Length y ≤ 65536 := by
  rw [Change.Fits, hnew] at h
  exact ⟨h (a, some x) (by simp) x rfl, h (b, some y) (by simp) y rfl⟩

theorem Valid.peers_wellFormed (h : Valid w interface s srv profile) :
    (∀ p ∈ srv.peers, p.WellFormed) ∧ (srv.peers.map PeerBlock.publicKey).Nodup := by
  obtain ⟨content, -, hsrv⟩ := h.content
  obtain ⟨hsec, -, hblocks⟩ := server_eq_some_iff.mp hsrv
  exact ⟨(sections_wellFormed hsec).2, hblocks.publicKeys⟩

/-- A key that no row has is on no block either. -/
theorem Valid.fresh_key (h : Valid w interface s srv profile)
    (hfresh : ∀ r ∈ s.table.rows, r.publicKey ≠ key) : ∀ p ∈ srv.peers, p.publicKey ≠ key := by
  intro p hp hk
  have := (h.items (p.publicKey, p.allowedIPs)).mp (mem_blockItems.mpr ⟨p, hp, rfl, rfl⟩)
  obtain ⟨r, hr, -, hkey, -⟩ := mem_activeItems.mp this
  exact hfresh r hr (hkey.trans hk)

theorem Valid.profile_eq (h : Valid w interface s srv profile) (hp : s.profile = some profile') :
    profile' = profile := by
  have := (validateProfile_eq_ok h.profileRow).1
  rw [hp] at this
  exact Option.some.inj this

theorem assignable_of_host {address : Interface} {ip : Nat} (hmem : ip ∈ address.hosts)
    (hne : ip ≠ address.ip) : ip < 2 ^ 32 ∧ assignable address ip = true := by
  obtain ⟨hin, hends⟩ := Interface.mem_hosts.mp hmem
  refine ⟨Interface.lt_of_contains hin, ?_⟩
  simp only [assignable, hin, Bool.true_and, Bool.and_eq_true, Bool.or_eq_true, bne_iff_ne,
    decide_eq_true_eq]
  exact ⟨hne, hends⟩

section
variable (h : Valid w interface s srv profile)
include h

/-- The block list that `create` renders. -/
theorem createdPeers_wellFormed (hkey : w.pubkey p = some key)
    (ip : Nat) (keepalive : Int) :
    ∀ q ∈ srv.peers ++ [⟨key, hostText (ipv4Text ip), some (intText keepalive)⟩],
      PeerBlock.WellFormed q := by
  intro q hmem
  rcases List.mem_append.mp hmem with hmem | hmem
  · exact h.peers_wellFormed.1 q hmem
  · rw [List.mem_singleton.mp hmem]
    exact ⟨isValue_pubkey hkey, isValue_hostText ip, by simpa using isValue_intText _⟩

theorem createdPeers_nodup
    (hfresh : ∀ r ∈ s.table.rows, r.publicKey ≠ key) (allowedIPs : Text) (keepalive : Option Text) :
    ((srv.peers ++ [PeerBlock.mk key allowedIPs keepalive]).map PeerBlock.publicKey).Nodup := by
  rw [List.map_append, List.nodup_append]
  refine ⟨h.peers_wellFormed.2, by simp, ?_⟩
  intro k hk k' hk'
  obtain ⟨p, hmem, rfl⟩ := List.mem_map.mp hk
  simp only [List.map_cons, List.map_nil, List.mem_singleton] at hk'
  rw [hk']
  exact h.fresh_key hfresh p hmem

theorem mem_blockItems_created
    (name description key tunnelIp : Text) (d : Draw) (keepalive : Option Text) (k a : Text) :
    (k, a) ∈ blockItems (srv.peers ++ [⟨key, hostText tunnelIp, keepalive⟩]) ↔
      (k, a) ∈ activeItems (s.table.rows ++ [newRow d name description key tunnelIp]) := by
  have hold := h.items (k, a)
  rw [mem_blockItems, mem_activeItems] at hold ⊢
  simp only [List.mem_append, List.mem_singleton, or_and_right, exists_or,
    exists_eq_left, hold, newRow, true_and]

theorem create_valid
    (hv : v = ⟨srv.pre, srv.peers, srv.address, s.table.sorted⟩) {name description : Text}
    {ip : Nat} (hp : CreatePlan w interface name description d s v c ip key profile')
    (hfile : s.files d.configName = none) (hfits : c.Fits) :
    ∃ srv', Valid w interface (s.apply c) srv' profile ∧ srv'.address = srv.address := by
  subst hv
  obtain rfl := h.profile_eq hp.profileRow
  have hfresh : ∀ r ∈ s.table.rows, r.publicKey ≠ key :=
    fun r hr => hp.fresh r (Table.mem_sorted.mpr hr)
  obtain ⟨hlt, hass⟩ := assignable_of_host hp.host.1 hp.host.2
  obtain ⟨hne, hunused⟩ := h.ne_unused hfile
  obtain ⟨hserverFits, hclientFits⟩ := hfits.two hp.newFiles
  have hfiles := s.apply_files c
  simp only [hp.newFiles, setFiles_two] at hfiles
  refine h.rewrite rfl ?_ hserverFits ?_ ?_ ?_ ?_
  · rw [hfiles, if_neg hne, if_pos rfl]
    rfl
  · exact createdPeers_wellFormed h hp.derived ip _
  · exact createdPeers_nodup h hfresh _ _
  · rintro ⟨k, a⟩
    rw [Store.apply, hp.rows]
    exact mem_blockItems_created h ..
  · intro r hr
    rw [Store.apply, hp.rows] at hr
    rcases List.mem_append.mp hr with hr | hr
    · -- an old row keeps its file: its name is neither of the two written
      apply (h.rows r hr).congr
      rw [hfiles, if_neg (hunused r hr), if_neg (h.configName_ne hr)]
    · rw [List.mem_singleton.mp hr]
      refine rowValid_clientText hp.configName ?_ hclientFits rfl hlt hass hp.derived
        (validateProfile_eq_ok h.profileRow).2 h.serverPublic
      rw [hfiles]
      exact if_pos rfl

theorem regeneratedPeers_nodup (hv : v.peers = srv.peers)
    (hrow : row ∈ s.table.rows) (hfresh : ∀ p ∈ srv.peers, p.publicKey ≠ replacement.publicKey) :
    ((regeneratedPeers v row replacement).map PeerBlock.publicKey).Nodup := by
  obtain ⟨-, hkeys⟩ := h.peers_wellFormed
  have hreplaced : ((srv.peers.map fun peer =>
      if peer.publicKey = row.publicKey then replacement else peer).map
        PeerBlock.publicKey).Nodup := by
    rw [List.map_map]
    rw [List.Nodup, List.pairwise_map] at hkeys ⊢
    refine hkeys.imp_of_mem fun {p q} hp hq hne => ?_
    simp only [Function.comp]
    by_cases h1 : p.publicKey = row.publicKey
    · have h2 : q.publicKey ≠ row.publicKey := fun e => hne (h1.trans e.symm)
      rw [if_pos h1, if_neg h2]
      exact (hfresh q hq).symm
    · rw [if_neg h1]
      split
      · exact hfresh p hp
      · exact hne
  rw [regeneratedPeers, hv]
  split
  · next hs =>
    rw [List.map_append, List.nodup_append]
    refine ⟨hreplaced, by simp, ?_⟩
    intro k hk k' hk'
    simp only [List.map_cons, List.map_nil, List.mem_singleton] at hk'
    rw [List.map_map, List.mem_map] at hk
    obtain ⟨p, hp, rfl⟩ := hk
    -- a revoked row has no block, so nothing was replaced in place
    have hno : p.publicKey ≠ row.publicKey := by
      intro e
      have := (h.block_iff hrow).mp ⟨p, hp, e⟩
      rw [hs] at this
      cases this
    simp only [Function.comp, if_neg hno]
    rw [hk']
    exact hfresh p hp
  · exact hreplaced

end

/-- A row that is rewritten keeps every other row. -/
theorem mem_update (hrow : row ∈ t.rows) {f : Row → Row}
    (hr : r ∈ t.rows.map fun r => if r.peerId = row.peerId then f r else r) :
    r = f row ∨ (r ∈ t.rows ∧ r ≠ row) := by
  obtain ⟨r', hr', rfl⟩ := List.mem_map.mp hr
  by_cases hid : r'.peerId = row.peerId
  · rw [if_pos hid, eq_of_column t.constraints.peerId hr' hrow hid]
    exact Or.inl rfl
  · rw [if_neg hid]
    exact Or.inr ⟨hr', fun e => hid (by rw [e])⟩

section
variable (h : Valid w interface s srv profile) {peerId : Text}
include h

theorem regeneratedPeers_wellFormed (hv : v.peers = srv.peers)
    (hrow : row ∈ s.table.rows) (hkey : w.pubkey p = some key) :
    ∀ q ∈ regeneratedPeers v row (replacementFor v profile' row key), PeerBlock.WellFormed q := by
  have hwf := h.peers_wellFormed.1
  obtain ⟨ip, hip, -, -⟩ := (h.rows row hrow).address
  have hrep : (replacementFor v profile' row key).WellFormed := by
    refine ⟨isValue_pubkey hkey, by rw [replacementFor, hip]; exact isValue_hostText ip, ?_⟩
    intro t ht
    simp only [replacementFor, hv, Option.mem_some_iff] at ht
    subst ht
    cases hf : srv.peers.find? fun peer => peer.publicKey == row.publicKey with
    | none => exact isValue_intText _
    | some q =>
      cases hk : q.persistentKeepalive with
      | none => simp only [Option.bind_some, hk, Option.getD_none]; exact isValue_intText _
      | some t =>
        simp only [Option.bind_some, hk, Option.getD_some]
        exact (hwf q (List.mem_of_find?_eq_some hf)).persistentKeepalive t hk
  intro q hmem
  rcases mem_regeneratedPeers hmem with rfl | ⟨hmem, -⟩
  · exact hrep
  · exact hwf q (hv ▸ hmem)

theorem regeneratedItems (hv : v.peers = srv.peers)
    (hrow : row ∈ s.table.rows) (k a : Text) :
    (k, a) ∈ blockItems (regeneratedPeers v row (replacementFor v profile' row key)) ↔
      (k, a) ∈ activeItems (s.table.rows.map fun r =>
        if r.peerId = row.peerId then regeneratedRow d key r else r) := by
  rw [mem_blockItems_regenerated h hv hrow, h.items, mem_activeItems_update hrow]
  simp [replacementFor, regeneratedRow]

theorem regenerate_valid
    (hv : v = ⟨srv.pre, srv.peers, srv.address, s.table.sorted⟩)
    (hp : RegeneratePlan w interface peerId d s v c row key profile') (hfits : c.Fits) :
    ∃ srv', Valid w interface (s.apply c) srv' profile ∧ srv'.address = srv.address := by
  subst hv
  obtain rfl := h.profile_eq hp.profileRow
  obtain ⟨hrow, rfl⟩ := hp.found
  have hfresh := h.fresh_key fun r hr => hp.fresh r (Table.mem_sorted.mpr hr)
  obtain ⟨ip, hip, hlt, hass⟩ := (h.rows row hrow).address
  have hne : interface ≠ row.configName := (h.configName_ne hrow).symm
  obtain ⟨hserverFits, hclientFits⟩ := hfits.two hp.newFiles
  have hfiles := s.apply_files c
  simp only [hp.newFiles, setFiles_two] at hfiles
  refine h.rewrite rfl ?_ hserverFits ?_ ?_ ?_ ?_
  · rw [hfiles, if_neg hne, if_pos rfl]
    rfl
  · exact regeneratedPeers_wellFormed h rfl hrow hp.derived
  · exact regeneratedPeers_nodup h rfl hrow hfresh
  · rintro ⟨k, a⟩
    rw [Store.apply, hp.rows]
    exact regeneratedItems h rfl hrow k a
  · intro r hr
    rw [Store.apply, hp.rows] at hr
    rcases mem_update hrow hr with rfl | ⟨hr, hother⟩
    · refine rowValid_clientText (h.rows row hrow).configName ?_ hclientFits hip hlt hass
        hp.derived (validateProfile_eq_ok h.profileRow).2 h.serverPublic
      rw [hfiles]
      exact if_pos rfl
    · apply (h.rows r hr).congr
      have hname : r.configName ≠ row.configName :=
        fun e => hother (eq_of_column s.table.constraints.configName hr hrow e)
      rw [hfiles, if_neg hname, if_neg (h.configName_ne hr)]

theorem revokedItems (hrow : row ∈ s.table.rows) (k a : Text) :
    (k, a) ∈ blockItems (srv.peers.filter fun p => p.publicKey ≠ row.publicKey) ↔
      (k, a) ∈ activeItems (s.table.rows.map fun r =>
        if r.peerId = row.peerId then revokedRow d r else r) := by
  have hblocks : (k, a) ∈ blockItems (srv.peers.filter fun p => p.publicKey ≠ row.publicKey) ↔
      (k, a) ∈ blockItems srv.peers ∧ k ≠ row.publicKey := by
    simp only [mem_blockItems, List.mem_filter, decide_eq_true_eq]
    constructor
    · rintro ⟨p, ⟨hp', hne⟩, rfl, rfl⟩
      exact ⟨⟨p, hp', rfl, rfl⟩, hne⟩
    · rintro ⟨⟨p, hp', rfl, rfl⟩, hne⟩
      exact ⟨p, ⟨hp', hne⟩, rfl, rfl⟩
  rw [hblocks, h.items, mem_activeItems_update hrow]
  simp [revokedRow]

theorem revoke_valid
    (hv : v = ⟨srv.pre, srv.peers, srv.address, s.table.sorted⟩)
    (hp : RevokePlan interface peerId d s v c row) (hfits : c.Fits) :
    ∃ srv', Valid w interface (s.apply c) srv' profile ∧ srv'.address = srv.address := by
  subst hv
  obtain ⟨hrow, rfl⟩ := hp.found
  obtain ⟨hwf, hkeys⟩ := h.peers_wellFormed
  have hserverFits := hfits _ (by rw [hp.newFiles]; exact List.mem_singleton_self _) _ rfl
  have hfiles := s.apply_files c
  simp only [hp.newFiles, setFiles_one] at hfiles
  refine h.rewrite rfl ?_ hserverFits ?_ ?_ ?_ ?_
  · rw [hfiles, if_pos rfl]
    rfl
  · exact fun p hmem => hwf p (List.mem_filter.mp hmem).1
  · exact hkeys.sublist (List.filter_sublist.map _)
  · rintro ⟨k, a⟩
    rw [Store.apply, hp.rows]
    exact revokedItems h hrow k a
  · intro r hr
    rw [Store.apply, hp.rows] at hr
    have hkeep (r : Row) (hr : r ∈ s.table.rows) :
        RowValid w (s.apply c).files srv.address profile.serverPublicKey r := by
      apply (h.rows r hr).congr
      rw [hfiles, if_neg (h.configName_ne hr)]
    rcases mem_update hrow hr with rfl | ⟨hr, -⟩
    · exact ⟨(hkeep row hrow).configName, (hkeep row hrow).client⟩
    · exact hkeep r hr

theorem update_valid {name description : Text}
    (hp : updateOperation peerId name description d s = .ok c) :
    Valid w interface (s.apply c) srv profile := by
  obtain ⟨-, hnew, hrows⟩ := updateOperation_eq_ok hp
  have hfiles : (s.apply c).files = s.files := by
    rw [Store.apply, hnew]
    rfl
  -- neither the validator nor the items read a column that has changed
  generalize hg : (fun r : Row => if r.peerId = peerId then renamedRow d name description r
    else r) = g at hrows
  have hcols (r : Row) : (g r).status = r.status ∧ (g r).publicKey = r.publicKey ∧
      (g r).tunnelIp = r.tunnelIp ∧ (g r).configName = r.configName := by
    subst hg
    by_cases hid : r.peerId = peerId <;> simp [hid, renamedRow]
  have hitems (item : Text × Text) :
      item ∈ activeItems s.table.rows ↔ item ∈ activeItems (s.apply c).table.rows := by
    obtain ⟨k, a⟩ := item
    simp only [Store.apply, hrows, mem_activeItems, List.mem_map, exists_exists_and_eq_and, hcols]
  refine h.keep rfl (by rw [hfiles]) hitems fun r hr => ?_
  rw [Store.apply, hrows] at hr
  obtain ⟨r', hr', rfl⟩ := List.mem_map.mp hr
  obtain ⟨-, hk, ht, hn⟩ := hcols r'
  rw [hfiles]
  have hvalid := h.rows r' hr'
  exact ⟨by rw [hn]; exact hvalid.configName, by rw [hn, hk, ht]; exact hvalid.client⟩

end

/-- `delete` removes one row. -/
theorem DeletePlan.mem_rows (hp : DeletePlan peerId s c row) :
    r ∈ (s.apply c).table.rows ↔ r ∈ s.table.rows ∧ r ≠ row := by
  obtain ⟨hrow, rfl⟩ := hp.found
  rw [Store.apply, hp.table, Table.delete, List.mem_filter, decide_eq_true_eq]
  refine and_congr_right fun hr => not_congr ⟨fun e => ?_, fun e => by rw [e]⟩
  exact eq_of_column s.table.constraints.peerId hr hrow e

theorem delete_valid (h : Valid w interface s srv profile) (hp : DeletePlan peerId s c row) :
    Valid w interface (s.apply c) srv profile := by
  obtain ⟨hrow, rfl⟩ := hp.found
  have hfiles := s.apply_files c
  simp only [hp.newFiles, setFiles_one] at hfiles
  have hmem (r : Row) : r ∈ (s.apply c).table.rows ↔ r ∈ s.table.rows ∧ r ≠ row := hp.mem_rows
  refine h.keep rfl ?_ ?_ fun r hr => ?_
  · rw [hfiles, if_neg (h.configName_ne hrow).symm]
  · rintro ⟨k, a⟩
    simp only [mem_activeItems, hmem]
    constructor
    · rintro ⟨r, hr, hactive, hk⟩
      refine ⟨r, ⟨hr, fun e => ?_⟩, hactive, hk⟩
      rw [e, hp.revoked] at hactive
      cases hactive
    · rintro ⟨r, ⟨hr, -⟩, hk⟩
      exact ⟨r, hr, hk⟩
  · obtain ⟨hr, hne⟩ := (hmem r).mp hr
    apply (h.rows r hr).congr
    have hname : r.configName ≠ row.configName :=
      fun e => hne (eq_of_column s.table.constraints.configName hr hrow e)
    rw [hfiles, if_neg hname]

/-! ## Runs -/

/-- An id is fresh when it names no file yet. Only `create` draws one. -/
def FreshId (d : Draw) (s : Store) : Operation → Prop
  | .create _ _ => s.files d.configName = none
  | _ => True

/-- What validation hands to the operation. -/
theorem Valid.validated (h : Valid w interface s srv profile)
    (hv : validateState w interface s = .ok v) :
    v = ⟨srv.pre, srv.peers, srv.address, s.table.sorted⟩ := by
  obtain ⟨srv', _, hvalid, rfl⟩ := validateState_eq_ok.mp hv
  obtain ⟨content, hread, hsrv⟩ := h.content
  obtain ⟨content', hread', hsrv'⟩ := hvalid.content
  rw [hread] at hread'
  cases hread'
  rw [hsrv] at hsrv'
  cases hsrv'
  rfl

/-- An operation names each of its files once. -/
theorem nodup_newFiles {op : Operation} (hp : plan w interface d s op = .ok c)
    (hfresh : FreshId d s op) : (c.newFiles.map Prod.fst).Nodup := by
  obtain ⟨v, hv, hplan⟩ := plan_eq_ok hp
  obtain ⟨srv, profile, hvalid, -⟩ := validateState_eq_ok.mp hv
  cases hplan with
  | create hplan =>
    simpa [hplan.newFiles] using (hvalid.ne_unused hfresh).1
  | update hplan => simp [(updateOperation_eq_ok hplan).2.1]
  | regenerate hplan =>
    simpa [hplan.newFiles] using (hvalid.configName_ne hplan.found.1).symm
  | revoke hplan => simp [hplan.newFiles]
  | delete hplan => simp [hplan.newFiles]

/-- **Step lemma.** An operation that succeeds, with a fresh id and no oversized
file, keeps the store valid. -/
theorem plan_valid (h : Valid w interface s srv profile) {op : Operation}
    (hp : plan w interface d s op = .ok c) (hfresh : FreshId d s op) (hfits : c.Fits) :
    ∃ srv', Valid w interface (s.apply c) srv' profile ∧ srv'.address = srv.address := by
  obtain ⟨v, hv, hplan⟩ := plan_eq_ok hp
  cases hplan with
  | create hplan => exact create_valid h (h.validated hv) hplan hfresh hfits
  | update hplan => exact ⟨srv, update_valid h hplan, rfl⟩
  | regenerate hplan => exact regenerate_valid h (h.validated hv) hplan hfits
  | revoke hplan => exact revoke_valid h (h.validated hv) hplan hfits
  | delete hplan => exact ⟨srv, delete_valid h hplan, rfl⟩

/-- One successful operation, with any draw whose id is fresh. -/
def Step (w : Platform) (interface : Text) (s s' : Store) : Prop :=
  ∃ op d c, plan w interface d s op = .ok c ∧ FreshId d s op ∧ s' = s.apply c

/-- A step that writes no file beyond the size that `_read` accepts. -/
def FittingStep (w : Platform) (interface : Text) (s s' : Store) : Prop :=
  ∃ op d c, plan w interface d s op = .ok c ∧ FreshId d s op ∧ c.Fits ∧ s' = s.apply c

/-- What the peer store is for: which peers the server admits, and with which keys
and addresses. -/
structure Consistent (w : Platform) (interface : Text) (s : Store) (srv : Server) : Prop where
  parsed : ∃ content, read (s.files interface) = .ok content ∧ server content = some srv
  blockKeys : (srv.peers.map PeerBlock.publicKey).Nodup
  blockOfActive : ∀ r ∈ s.table.rows, r.status = .active →
    ∃ p ∈ srv.peers, p.publicKey = r.publicKey ∧ p.allowedIPs = hostText r.tunnelIp
  activeOfBlock : ∀ p ∈ srv.peers, ∃ r ∈ s.table.rows, r.status = .active ∧
    p.publicKey = r.publicKey ∧ p.allowedIPs = hostText r.tunnelIp
  revokedHasNoBlock : ∀ r ∈ s.table.rows, r.status = .revoked →
    ∀ p ∈ srv.peers, p.publicKey ≠ r.publicKey
  address : ∀ r ∈ s.table.rows, ∃ ip, parseIPv4 r.tunnelIp = some ip ∧
    srv.address.contains ip = true ∧ ip ≠ srv.address.ip ∧
    (srv.address.prefixLength ≤ 30 →
      ip ≠ srv.address.networkAddress ∧ ip ≠ srv.address.broadcastAddress)
  addressesDistinct : ∀ r ∈ s.table.rows, ∀ r' ∈ s.table.rows, r ≠ r' →
    parseIPv4 r.tunnelIp ≠ parseIPv4 r'.tunnelIp
  clientFile : ∀ r ∈ s.table.rows, ∃ client p t ip, read (s.files r.configName) = .ok client ∧
    value client privateKeyKey interfaceSection = some p ∧ w.pubkey p = some r.publicKey ∧
    value client addressKey interfaceSection = some t ∧ parseInterface t = some ip ∧
    ip.prefixLength = 32 ∧ parseIPv4 r.tunnelIp = some ip.ip

theorem Valid.consistent (h : Valid w interface s srv profile) :
    Consistent w interface s srv where
  parsed := h.content
  blockKeys := h.peers_wellFormed.2
  blockOfActive r hr hactive := by
    have := (h.items (r.publicKey, hostText r.tunnelIp)).mpr
      (mem_activeItems.mpr ⟨r, hr, hactive, rfl, rfl⟩)
    exact mem_blockItems.mp this
  activeOfBlock p hp := by
    have := (h.items (p.publicKey, p.allowedIPs)).mp (mem_blockItems.mpr ⟨p, hp, rfl, rfl⟩)
    obtain ⟨r, hr, hactive, hk, ha⟩ := mem_activeItems.mp this
    exact ⟨r, hr, hactive, hk.symm, ha.symm⟩
  revokedHasNoBlock r hr hrevoked p hp hk := by
    have := (h.block_iff hr).mp ⟨p, hp, hk⟩
    rw [hrevoked] at this
    cases this
  address r hr := by
    obtain ⟨ip, ht, hlt, hass⟩ := (h.rows r hr).address
    simp only [assignable, Bool.and_eq_true, Bool.or_eq_true, bne_iff_ne, decide_eq_true_eq] at hass
    refine ⟨ip, by rw [ht]; exact parseIPv4_text hlt, hass.1.1, hass.1.2, fun hlen => ?_⟩
    rcases hass.2 with h31 | hends
    · omega
    · exact hends
  addressesDistinct r hr r' hr' hne he := by
    obtain ⟨ip, ht, hlt, -⟩ := (h.rows r hr).address
    obtain ⟨ip', ht', hlt', -⟩ := (h.rows r' hr').address
    rw [ht, ht', parseIPv4_text hlt, parseIPv4_text hlt'] at he
    cases he
    exact hne (eq_of_column s.table.constraints.tunnelIp hr hr' (ht.trans ht'.symm))
  clientFile r hr := by
    obtain ⟨client, hread, ⟨t, ip, ht, hip, hlen, hn, -⟩, ⟨p, hp, -, hk⟩, -⟩ := (h.rows r hr).client
    exact ⟨client, p, t, ip, hread, hp, hk, ht, hip, hlen, hn⟩

/-- **Run lemma.** Every run of successful operations that stays within the file size
limit ends in an accepted and consistent store. -/
theorem peerStore_invariant {s' : Store} (h : Accepted w interface s)
    (hrun : Relation.ReflTransGen (FittingStep w interface) s s') :
    Accepted w interface s' ∧ ∃ srv, Consistent w interface s' srv := by
  suffices hvalid : ∃ srv profile, Valid w interface s' srv profile by
    obtain ⟨srv, profile, hv⟩ := hvalid
    exact ⟨accepted_iff.mpr ⟨srv, profile, hv⟩, srv, hv.consistent⟩
  induction hrun with
  | refl => exact accepted_iff.mp h
  | tail _ hstep ih =>
    obtain ⟨srv, profile, hv⟩ := ih
    obtain ⟨op, d, c, hp, hfresh, hfits, rfl⟩ := hstep
    obtain ⟨srv', hv', -⟩ := plan_valid hv hp hfresh hfits
    exact ⟨srv', profile, hv'⟩

/-! ## A store without peers

A server file of any length up to the limit, to run `create` on. -/

section Demo

/-- Keys derived by marking the private key; injective, like the real derivation. -/
def demoPlatform : Platform where
  pubkey p := if p = [] ∨ p.any isSpace = true then none else some ('P' :: p)
  pubkey_ne_nil p := by split <;> simp
  pubkey_noSpace p k h := by
    split at h
    · cases h
    · next hp =>
      cases h
      simp only [not_or, Bool.not_eq_true, List.any_eq_false] at hp
      intro c hc
      rcases List.mem_cons.mp hc with rfl | hc
      · rfl
      · simpa using hp.2 c hc
  isOther c := c.toNat < 32

theorem demoPlatform_injective {p q k : Text} (hp : demoPlatform.pubkey p = some k)
    (hq : demoPlatform.pubkey q = some k) : p = q := by
  simp only [demoPlatform] at hp hq
  split at hp
  · cases hp
  · split at hq
    · cases hq
    · rw [← hp] at hq
      simpa using hq.symm

theorem length_demoId : (List.replicate 32 'a').length = 32 := List.length_replicate

theorem isAlphanum_demoId : ∀ c ∈ List.replicate 32 'a', c.isAlphanum = true :=
  forall_mem_of_all (by decide +kernel)

def demoDraw : Draw where
  privateKey := "client".toList
  privateKey_ne_nil := by decide
  privateKey_noSpace := forall_mem_of_all (by decide +kernel)
  peerId := List.replicate 32 'a'
  peerId_length := length_demoId
  peerId_alphanum := isAlphanum_demoId
  now := "2026-01-01T00:00:00+00:00".toList

def demoProfile : Profile where
  endpoint := "vpn.example:51820".toList
  dns := "10.0.0.1".toList
  allowedIps := "0.0.0.0/0".toList
  clientKeepalive := 25
  serverKeepalive := 25
  serverPublicKey := "Pserver".toList

def demoHead (address : Text) : Text :=
  "[Interface]\nPrivateKey = server\nAddress = ".toList ++ address

/-- A server file that ends in a comment of `n` characters. -/
def demoServerText (address : Text) (n : Nat) : Text :=
  demoHead address ++ '\n' :: '#' :: List.replicate n 'x'

def demoInterface : Text := "wg0".toList

/-- The store whose server file has the given bytes. -/
def demoStore (raw : Text) : Store where
  table := ⟨[], constraints_nil⟩
  profile := some demoProfile
  files name := if name = demoInterface then some (written raw) else none

/-- Bytes that are read as a server file of the family. -/
structure DemoFile (raw address : Text) (n : Nat) : Prop where
  translated : universalNewlines raw = demoServerText address n
  size : utf8Length raw ≤ 65536

/-- The evaluated facts about the first lines of the server file. -/
structure DemoAddress (address : Text) (i : Interface) (ip : Nat) : Prop where
  parse : parseInterface address = some i
  prefixLength : i.prefixLength ≤ 31
  nonempty : address ≠ []
  addressLine : valueIn addressKey interfaceSection [] (contentLines (demoHead address)) =
    some address
  keyLine : valueIn privateKeyKey interfaceSection [] (contentLines (demoHead address)) =
    some "server".toList
  headerFree : ∀ l ∈ (demoHead address).splitOn '\n', isHeader l = false
  noCr : '\r' ∉ demoHead address
  length : utf8Length (demoHead address) = 53
  host : i.hosts.find? (fun c => !(c == i.ip || ([] : List Nat).contains c)) = some ip

theorem demo24 : DemoAddress "10.0.0.1/24".toList ⟨167772161, 24, by decide, by decide⟩
    167772162 := by
  constructor <;> decide +kernel

theorem demo31 : DemoAddress "10.0.0.0/31".toList ⟨167772160, 31, by decide, by decide⟩
    167772161 := by
  constructor <;> decide +kernel

variable {raw address : Text} {i : Interface} {ip n : Nat}

private theorem utf8Length_replicate (n : Nat) : utf8Length (List.replicate n 'x') = n := by
  simp [utf8Length, show Char.utf8Size 'x' = 1 from rfl]

private theorem demoServerText_length (h : DemoAddress address i ip) :
    utf8Length (demoServerText address n) = 55 + n := by
  have hcons : utf8Length ('\n' :: '#' :: List.replicate n 'x') = 2 + n := by
    rw [show '\n' :: '#' :: List.replicate n 'x' = "\n#".toList ++ List.replicate n 'x' from rfl,
      utf8Length_append, utf8Length_replicate]
    rfl
  rw [demoServerText, utf8Length_append, h.length, hcons]
  omega

theorem demo_lineFeeds (h : DemoAddress address i ip) (hn : n ≤ 65481) :
    DemoFile (demoServerText address n) address n where
  translated := by
    apply universalNewlines_of_not_mem
    simp [demoServerText, h.noCr, List.mem_replicate]
  size := by
    rw [demoServerText_length h]
    omega

private theorem demo_read (hraw : DemoFile raw address n) :
    read ((demoStore raw).files demoInterface) = .ok (demoServerText address n) := by
  have hfile : (demoStore raw).files demoInterface = some (written raw) := by simp [demoStore]
  rw [hfile, read_written hraw.size, hraw.translated]

theorem demo_valid (h : DemoAddress address i ip) (hraw : DemoFile raw address n) :
    Valid demoPlatform demoInterface (demoStore raw)
      ⟨demoServerText address n, [], i, "server".toList⟩ demoProfile := by
  have hvalue {key v : Text}
      (hv : valueIn key interfaceSection [] (contentLines (demoHead address)) = some v) :
      value (demoServerText address n) key interfaceSection = some v := by
    rw [value_eq_content, demoServerText, contentLines_append_break _ _ (by decide)]
    exact valueIn_append _ _ hv
  have hsections : sections (demoServerText address n) = some (demoServerText address n, []) := by
    apply sections_of_headerFree
    · intro l hl
      have hx : '\n' ∉ '#' :: List.replicate n 'x' := by simp [List.mem_replicate]
      rw [demoServerText, List.splitOn_append_cons_self, List.splitOn_eq_singleton hx] at hl
      rcases List.mem_append.mp hl with hl | hl
      · exact h.headerFree l hl
      · rw [List.mem_singleton.mp hl]
        rfl
    · exact header_infix_of_value (by decide) (hvalue h.addressLine)
  have hserver : server (demoServerText address n) =
      some ⟨demoServerText address n, [], i, "server".toList⟩ := by
    rw [server_eq_some_iff]
    exact ⟨hsections, ⟨⟨address, hvalue h.addressLine, h.nonempty, h.parse⟩,
      ⟨hvalue h.keyLine, List.cons_ne_nil _ _⟩, h.prefixLength⟩, ⟨⟨[], rfl, rfl, by simp⟩, by simp⟩⟩
  exact ⟨by decide, ⟨_, demo_read hraw, hserver⟩, rfl, by simp [blockItems, demoStore, activeItems],
    rfl, by simp [demoStore]⟩

/-- `create` succeeds on the store and plans the two files. -/
theorem demo_plan (h : DemoAddress address i ip) (hraw : DemoFile raw address n) :
    ∃ c, plan demoPlatform demoInterface demoDraw (demoStore raw)
        (.create "laptop".toList []) = .ok c ∧
      c.table.rows = [newRow demoDraw "laptop".toList [] "Pclient".toList (ipv4Text ip)] ∧
      c.newFiles = [(demoInterface, some (render (demoServerText address n)
          [⟨"Pclient".toList, hostText (ipv4Text ip), some (intText 25)⟩])),
        (demoDraw.configName, some (clientText demoProfile "client".toList (ipv4Text ip)))] := by
  have hsorted : (demoStore raw).table.sorted = [] := by
    simp [demoStore, Table.sorted]
  have hconstraints :
      Constraints [newRow demoDraw "laptop".toList [] "Pclient".toList (ipv4Text ip)] := by
    constructor <;> simp [newRow]
  have hget : Table.get ⟨_, hconstraints⟩ demoDraw.peerId =
      .ok (newRow demoDraw "laptop".toList [] "Pclient".toList (ipv4Text ip)) := by
    simp [Table.get, Table.sorted, newRow]
  have halloc : allocate i [] = .ok (ipv4Text ip) := by
    simp only [allocate, usedAddresses, List.mapM_nil, bind_eq_ok]
    exact ⟨[], rfl, by rw [h.host]⟩
  simp only [plan, createOperation, bind_eq_ok, refuse_eq_ok, path_eq_ok, Store.getProfile_eq_ok,
    pure, Except.pure, Except.ok.injEq, Prod.exists, keypair_eq_ok]
  refine ⟨_, ⟨_, rfl, [], rfl, _, validateState_eq_ok.mpr ⟨_, _, demo_valid h hraw, rfl⟩, (), ?_,
    ipv4Text ip, ?_, _, "Pclient".toList, ⟨rfl, rfl⟩, (), ?_, demoProfile, rfl,
    clientText demoProfile "client".toList (ipv4Text ip), rfl, ⟨_, hconstraints⟩, ?_, _,
    ⟨by decide, rfl⟩, _, ⟨by decide, rfl⟩, _, hget, _, demo_read hraw, rfl⟩, rfl, rfl⟩
  · rw [hsorted]
    rfl
  · rw [hsorted]
    exact halloc
  · rw [hsorted]
    rfl
  · change Table.ofRows [newRow demoDraw "laptop".toList [] "Pclient".toList (ipv4Text ip)] = _
    rw [Table.ofRows, dif_pos hconstraints]

/-- The planned server file is longer than the old one. -/
private theorem demo_rendered_length (h : DemoAddress address i ip) (peer : PeerBlock) :
    utf8Length (render (demoServerText address (n + 1)) [peer]) =
      57 + n + utf8Length (renderPeer peer) := by
  have hlast : rstrip (demoServerText address (n + 1)) = demoServerText address (n + 1) := by
    rw [rstrip, List.rdropWhile_eq_self_iff]
    intro hne
    have hend : (demoServerText address (n + 1)).getLast hne = 'x' := by
      simp [demoServerText, List.replicate_succ']
    rw [hend]
    decide
  rw [render, hlast, utf8Length_append, utf8Length_append, demoServerText_length h,
    List.flatMap_cons, List.flatMap_nil, List.append_nil, show utf8Length "\n".toList = 1 from rfl]
  omega

end Demo

/-- The invariant at work: a first peer is created on a store of one server file. -/
theorem peerStore_invariant_create :
    ∃ s', FittingStep demoPlatform demoInterface
        (demoStore (demoServerText "10.0.0.1/24".toList 0)) s' ∧
      s'.table.rows.length = 1 ∧ Accepted demoPlatform demoInterface s' ∧
      ∃ srv, Consistent demoPlatform demoInterface s' srv := by
  obtain ⟨c, hc, hrows, hnew⟩ := demo_plan demo24 (demo_lineFeeds demo24 (Nat.zero_le _))
  have hfits : c.Fits := by
    rw [Change.Fits, hnew]
    decide +kernel
  have hstep : FittingStep demoPlatform demoInterface
      (demoStore (demoServerText "10.0.0.1/24".toList 0)) _ := ⟨_, _, c, hc, rfl, hfits, rfl⟩
  have hstart : Accepted demoPlatform demoInterface
      (demoStore (demoServerText "10.0.0.1/24".toList 0)) :=
    accepted_iff.mpr ⟨_, _, demo_valid demo24 (demo_lineFeeds demo24 (Nat.zero_le _))⟩
  refine ⟨_, hstep, ?_, peerStore_invariant hstart (Relation.ReflTransGen.single hstep)⟩
  rw [Store.apply, hrows]
  rfl

/-- On a /31 the only peer has the broadcast address, and a server file near the size
limit is pushed over it by a successful `create`. -/
theorem peerStore_invariant_fails :
    (∀ p q k, demoPlatform.pubkey p = some k → demoPlatform.pubkey q = some k → p = q) ∧
    (∃ s s' srv r ip, Accepted demoPlatform demoInterface s ∧
      Step demoPlatform demoInterface s s' ∧ Accepted demoPlatform demoInterface s' ∧
      Consistent demoPlatform demoInterface s' srv ∧ r ∈ s'.table.rows ∧
      parseIPv4 r.tunnelIp = some ip ∧ ip = srv.address.broadcastAddress) ∧
    (∃ s s', Accepted demoPlatform demoInterface s ∧ Step demoPlatform demoInterface s s' ∧
      ¬ Accepted demoPlatform demoInterface s') := by
  refine ⟨fun p q k => demoPlatform_injective, ?_, ?_⟩
  · obtain ⟨c, hc, hrows, hnew⟩ := demo_plan demo31 (demo_lineFeeds demo31 (Nat.zero_le _))
    have hfits : c.Fits := by
      rw [Change.Fits, hnew]
      decide +kernel
    have hvalid := demo_valid demo31 (demo_lineFeeds demo31 (Nat.zero_le _))
    obtain ⟨srv, hv, haddress⟩ := plan_valid hvalid hc rfl hfits
    refine ⟨_, _, srv, newRow demoDraw "laptop".toList [] "Pclient".toList (ipv4Text 167772161),
      167772161, accepted_iff.mpr ⟨_, _, hvalid⟩, ⟨_, _, c, hc, rfl, rfl⟩,
      accepted_iff.mpr ⟨_, _, hv⟩, hv.consistent, ?_, parseIPv4_text (by decide), ?_⟩
    · rw [Store.apply, hrows]
      exact List.mem_singleton_self _
    · rw [haddress]
      decide
  · obtain ⟨c, hc, -, hnew⟩ := demo_plan demo24 (demo_lineFeeds (n := 65451) demo24 (by decide))
    refine ⟨_, _, accepted_iff.mpr ⟨_, _, demo_valid demo24 (demo_lineFeeds demo24 (by decide))⟩,
      ⟨_, _, c, hc, rfl, rfl⟩, ?_⟩
    intro haccepted
    obtain ⟨srv, profile, hv⟩ := accepted_iff.mp haccepted
    obtain ⟨content, hread, -⟩ := hv.content
    rw [Store.apply_files, hnew, setFiles_two, if_neg (by decide), if_pos rfl] at hread
    rw [Option.map_some, read_oversized] at hread
    · cases hread
    · rw [demo_rendered_length demo24, show utf8Length (renderPeer _) = 78 by decide +kernel]
      decide

end ExitLane.Peers
