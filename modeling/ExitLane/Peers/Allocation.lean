import ExitLane.Peers.Frame
import Mathlib.Order.Bounds.Basic

/-!
# The server file and the address pool, exactly

Rendering is undone by parsing on every list of complete blocks (`sections_render_complete`), and
`_allocate` hands out the least address that `_assignable` allows and no row has, for every prefix
length (`allocate_of_used`, `exhausted_of_used`).
-/

namespace ExitLane.Peers
open Python IpAddress
open Effect (bind_eq_ok)

/-! ## Parsing what was rendered -/

/-- Trailing whitespace hides nothing that ends in another character. -/
theorem infix_of_append_space {t x v : Text} {c : Char} (hlast : t.getLast? = some c)
    (hc : isSpace c = false) (hv : AllSpace v) (h : t <:+: x ++ v) : t <:+: x := by
  obtain ⟨a, b, hab⟩ := h
  rcases List.append_eq_append_iff.mp hab with ⟨mid, rfl, -⟩ | ⟨mid, hat, rfl⟩
  · exact ⟨a, mid, rfl⟩
  · -- what `t` has beyond `x` is blank, and its last character is not
    cases mid using List.reverseRecOn with
    | nil => exact ⟨a, [], by simpa using hat⟩
    | append_singleton mid z =>
      have hz : isSpace z = true := hv z (by simp)
      have hend : (a ++ t).getLast? = some c := by rw [List.getLast?_append, hlast]; rfl
      rw [hat, ← List.append_assoc, List.getLast?_concat] at hend
      cases hend
      rw [hz] at hc
      cases hc

theorem infix_rstrip {t pre : Text} {c : Char} (hlast : t.getLast? = some c)
    (hc : isSpace c = false) (h : t <:+: pre) : t <:+: rstrip pre := by
  obtain ⟨v, hv, hpre⟩ := rstrip_decompose pre
  rw [hpre] at h
  exact infix_of_append_space hlast hc hv h

/-- A text that parses without blocks names its section. -/
theorem infix_of_sections {content pre : Text} (h : sections content = some (pre, [])) :
    "[Interface]".toList <:+: content := by
  unfold sections at h
  split at h
  · split at h
    · next hin => exact hin
    · cases h
  · next before block blocks hsplit =>
    obtain ⟨peers, hpeers, heq⟩ := Option.map_eq_some_iff.mp h
    cases heq
    have hlength := congrArg List.length (mapM_eq_some_iff.mp hpeers)
    simp at hlength

/-- A block with all three keys, whose values fit on their lines. -/
structure PeerBlock.Complete (peer : PeerBlock) : Prop where
  publicKey : IsValue peer.publicKey
  allowedIPs : IsValue peer.allowedIPs
  persistentKeepalive : ∃ v, peer.persistentKeepalive = some v ∧ IsValue v

theorem PeerBlock.Complete.wellFormed {peer : PeerBlock} (h : peer.Complete) : peer.WellFormed := by
  obtain ⟨v, hv, hvalue⟩ := h.persistentKeepalive
  refine ⟨h.publicKey, h.allowedIPs, fun v' hv' => ?_⟩
  rw [hv] at hv'
  cases hv'
  exact hvalue

/-- **Parsing undoes rendering.** -/
theorem sections_render_complete {pre : Text} {peers : List PeerBlock}
    (hpre : sections pre = some (pre, [])) (hpeers : ∀ p ∈ peers, p.Complete) :
    ∃ pre', sections (render pre peers) = some (pre', peers) ∧ rstrip pre' = rstrip pre := by
  have hin : "[Interface]".toList <:+: rstrip pre :=
    infix_rstrip rfl (by decide) (infix_of_sections hpre)
  obtain ⟨pre', hsec, -, -, hend⟩ := sections_render (sections_wellFormed hpre).1 hin
    fun p hp => (hpeers p hp).wellFormed
  have hcomplete : peers.map PeerBlock.complete = peers := by
    rw [map_complete_eq_self]
    intro p hp hnone
    obtain ⟨v, hv, -⟩ := (hpeers p hp).persistentKeepalive
    rw [hnone] at hv
    cases hv
  rw [hcomplete] at hsec
  exact ⟨pre', hsec, hend⟩

/-! ## The address pool -/

/-- The hosts are the addresses that `_assignable` allows, and the server's own. -/
theorem assignable_iff_host {address : Interface} {ip : Nat} :
    assignable address ip = true ↔ ip ∈ address.hosts ∧ ip ≠ address.ip := by
  rw [Interface.mem_hosts]
  simp only [assignable, Bool.and_eq_true, Bool.or_eq_true, bne_iff_ne, decide_eq_true_eq]
  tauto

/-- The first match of an increasing list is the least one. -/
theorem find?_eq_some_iff_isLeast {l : List Nat} (hl : l.Pairwise (· < ·)) {p : Nat → Bool}
    {a : Nat} : l.find? p = some a ↔ IsLeast {x | x ∈ l ∧ p x = true} a := by
  have hfirst {a : Nat} (h : l.find? p = some a) : IsLeast {x | x ∈ l ∧ p x = true} a := by
    obtain ⟨hpa, before, after, rfl, hbefore⟩ := List.find?_eq_some_iff_append.mp h
    refine ⟨⟨by simp, hpa⟩, ?_⟩
    rintro x ⟨hx, hpx⟩
    rcases List.mem_append.mp hx with hx | hx
    · have hno := hbefore x hx
      rw [hpx] at hno
      cases hno
    · rcases List.mem_cons.mp hx with rfl | hx
      · exact Nat.le_refl _
      · have hrest := (List.pairwise_append.mp hl).2.1
        exact Nat.le_of_lt ((List.pairwise_cons.mp hrest).1 x hx)
  constructor
  · exact hfirst
  · intro hleast
    cases hfind : l.find? p with
    | none => exact absurd hleast.1.2 (List.find?_eq_none.mp hfind a hleast.1.1)
    | some b => rw [(hfirst hfind).unique hleast]

/-- Every row's `tunnel_ip` is an address. -/
def Readable (rows : List Row) : Prop := ∀ r ∈ rows, parseIPv4 r.tunnelIp ≠ none

/-- The addresses that `_assignable` allows and that no row has, active or revoked. -/
def freeAddresses (address : Interface) (rows : List Row) : Set Nat :=
  {ip | assignable address ip = true ∧ ∀ r ∈ rows, parseIPv4 r.tunnelIp ≠ some ip}

theorem usedAddresses_eq_ok {rows : List Row} {used : List Nat}
    (h : usedAddresses rows = .ok used) :
    Readable rows ∧ ∀ ip, ip ∈ used ↔ ∃ r ∈ rows, parseIPv4 r.tunnelIp = some ip := by
  unfold usedAddresses at h
  split at h
  · next l hl =>
    cases h
    rw [mapM_eq_some_iff] at hl
    refine ⟨fun r hr hnone => ?_, fun ip => ?_⟩
    · have hmem : none ∈ used.map some := by
        rw [← hl, ← hnone]
        exact List.mem_map_of_mem hr
      simp at hmem
    · have hmem : some ip ∈ rows.map (fun r => parseIPv4 r.tunnelIp) ↔ ip ∈ used := by
        rw [hl]
        simp
      rw [← hmem, List.mem_map]
  · cases h

theorem exists_usedAddresses {rows : List Row} (h : Readable rows) :
    ∃ used, usedAddresses rows = .ok used := by
  have hused : rows.mapM (fun r => parseIPv4 r.tunnelIp) =
      some (rows.map fun r => (parseIPv4 r.tunnelIp).getD 0) := by
    rw [mapM_eq_some_iff, List.map_map]
    apply List.map_congr_left
    intro r hr
    obtain ⟨ip, hip⟩ := Option.ne_none_iff_exists'.mp (h r hr)
    simp [hip]
  exact ⟨_, by rw [usedAddresses, hused]⟩

section Allocate
variable {address : Interface} {rows : List Row} {used : List Nat}
  (hused : usedAddresses rows = .ok used)
include hused

/-- What the loop of `_allocate` looks for. -/
theorem candidates_eq_free :
    {ip | ip ∈ address.hosts ∧ (!(ip == address.ip || used.contains ip)) = true} =
      freeAddresses address rows := by
  ext ip
  simp only [freeAddresses, Set.mem_ofPred_eq, assignable_iff_host, Bool.not_eq_true',
    Bool.or_eq_false_iff, beq_eq_false_iff_ne, List.contains_eq_mem, decide_eq_false_iff_not,
    (usedAddresses_eq_ok hused).2, not_exists, not_and]
  tauto

theorem allocate_of_used {t : Text} :
    allocate address rows = .ok t ↔
      ∃ ip, t = ipv4Text ip ∧ IsLeast (freeAddresses address rows) ip := by
  simp only [allocate, hused, bind, Except.bind, ← candidates_eq_free hused,
    ← find?_eq_some_iff_isLeast address.hosts_sorted]
  split
  · next candidate hfind =>
    simp only [hfind, Except.ok.injEq, Option.some.injEq, exists_eq_right', eq_comm]
  · next hfind => simp only [hfind, reduceCtorEq, and_false, exists_false]

theorem exhausted_of_used :
    allocate address rows = .error (.peerError .addressPoolExhausted) ↔
      freeAddresses address rows = ∅ := by
  simp only [allocate, hused, bind, Except.bind, ← candidates_eq_free hused]
  split
  · next candidate hfind =>
    have hfree := (find?_eq_some_iff_isLeast address.hosts_sorted).mp hfind
    simp only [reduceCtorEq, false_iff]
    exact Set.Nonempty.ne_empty ⟨candidate, hfree.1⟩
  · next hfind =>
    simp only [true_iff, Set.eq_empty_iff_forall_notMem]
    rintro ip ⟨hmem, hfree⟩
    exact List.find?_eq_none.mp hfind ip hmem hfree

end Allocate

/-- A row whose `tunnel_ip` is no address stops `_allocate` before its loop. -/
theorem allocate_unreadable {address : Interface} {rows : List Row} (h : ¬ Readable rows) :
    allocate address rows = .error .exception := by
  have hused : usedAddresses rows = .error .exception := by
    unfold usedAddresses
    split
    · next used hl =>
      have hok : usedAddresses rows = .ok used := by rw [usedAddresses, hl]
      exact absurd (usedAddresses_eq_ok hok).1 h
    · rfl
  rw [allocate, hused]
  rfl

/-- **The server file and the pool.** Parsing undoes rendering, and `_allocate` is exact. -/
theorem render_parse_and_allocate_exact :
    (∀ (pre : Text) (peers : List PeerBlock), sections pre = some (pre, []) →
      (∀ p ∈ peers, p.Complete) →
      ∃ pre', sections (render pre peers) = some (pre', peers) ∧ rstrip pre' = rstrip pre) ∧
    ∀ (address : Interface) (rows : List Row),
      (∀ t, allocate address rows = .ok t ↔ Readable rows ∧
        ∃ ip, t = ipv4Text ip ∧ IsLeast (freeAddresses address rows) ip) ∧
      (allocate address rows = .error (.peerError .addressPoolExhausted) ↔
        Readable rows ∧ freeAddresses address rows = ∅) := by
  refine ⟨fun pre peers => sections_render_complete, fun address rows => ?_⟩
  by_cases hreadable : Readable rows
  · obtain ⟨used, hused⟩ := exists_usedAddresses hreadable
    simp only [hreadable, true_and]
    exact ⟨fun t => allocate_of_used hused, exhausted_of_used hused⟩
  · simp [hreadable, allocate_unreadable hreadable]

/-- The file of two peers reads back, and with both of their addresses taken the third one is given
to the next peer. -/
theorem pair_file_and_pool :
    (∃ pre', sections (render (unlines pairHead) (pairServer (some "7".toList)).peers) =
        some (pre', (pairServer (some "7".toList)).peers) ∧
      rstrip pre' = rstrip (unlines pairHead)) ∧
    allocate (pairServer none).address (pairStore []).table.rows = .ok "10.0.0.4".toList := by
  have hvalue {v : Text} (h : v.all (!isSpace ·) = true) : IsValue v :=
    isValue_of_noSpace (by simpa using h)
  refine ⟨render_parse_and_allocate_exact.1 _ _ (by decide +kernel) fun p hp => ?_, ?_⟩
  · rcases List.mem_pair.mp hp with rfl | rfl
    · exact ⟨hvalue (by decide), hvalue (by decide), _, rfl, hvalue (by decide)⟩
    · exact ⟨hvalue (by decide), hvalue (by decide), _, rfl, hvalue (by decide)⟩
  have ha : parseIPv4 (pairRow 'a' "10.0.0.2".toList).tunnelIp = some 167772162 := by decide +kernel
  have hb : parseIPv4 (pairRow 'b' "10.0.0.3".toList).tunnelIp = some 167772163 := by decide +kernel
  have hrows (a : Option Nat) : (∀ r ∈ (pairStore []).table.rows, parseIPv4 r.tunnelIp ≠ a) ↔
      some 167772162 ≠ a ∧ some 167772163 ≠ a := by
    rw [← ha, ← hb]
    exact List.forall_mem_cons.trans (and_congr_right fun _ => List.forall_mem_singleton)
  refine ((render_parse_and_allocate_exact.2 _ _).1 _).mpr ⟨?_, 167772164, by decide, ?_, ?_⟩
  · exact (hrows none).mpr ⟨nofun, nofun⟩
  · exact ⟨by decide, (hrows _).mpr ⟨by simp, by simp⟩⟩
  · rintro ip ⟨hassignable, hfree⟩
    rw [hrows, ne_eq, ne_eq, Option.some.injEq, Option.some.injEq] at hfree
    rw [assignable_iff_host, Interface.mem_hosts, Interface.contains_iff] at hassignable
    have hnetwork : (pairServer none).address.networkAddress = 167772160 := by decide
    have hown : (pairServer none).address.ip = 167772161 := rfl
    have hprefix : (pairServer none).address.prefixLength = 24 := rfl
    omega

end ExitLane.Peers
