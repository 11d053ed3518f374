import ExitLane.Peers.Rollback

/-!
# Peer mutations cut short

A crash leaves the durable effects that had happened so far: atomic replacements
and removals of files in the order in which they are made, and last the commit.
`crash_accepted_iff` says which cuts leave a store that later operations accept:
those before the first effect and those after the commit. In between, the files
and the rows disagree, and the startup path validates the store but does not
repair it (`startup_eq`).
-/

namespace ExitLane.Peers
open Python IpAddress
open Effect (bind_eq_ok forM_eq_ok)

variable {w : Platform} {interface : Text} {d : Draw} {s : Store} {c : Change} {srv : Server}
  {profile : Profile} {k : Nat} {v : Validated} {peerId : Text} {row : Row}

/-- The durable state after the first `k` effects of a change; the last is the commit. -/
def crashAfter (s : Store) (c : Change) (k : Nat) : Store :=
  if k ≤ c.newFiles.length then { s with files := setFiles s.files (c.newFiles.take k) }
  else s.apply c

/-- What the startup hook does with the peer store; it logs the errors. -/
def startup (w : Platform) (interface client : Text) (d : Draw) (s : Store) : Store :=
  match migrateLegacy w interface client d s with
  | .ok (_, s') => s'
  | .error _ => s

/-- A store with a profile is left as it is. -/
theorem startup_eq (client : Text) (h : s.profile.isSome = true) :
    startup w interface client d s = s := by
  unfold startup
  split
  · next _ s' hm =>
    simp only [migrateLegacy, h, if_true, bind_eq_ok, pure, Except.pure, Except.ok.injEq] at hm
    obtain ⟨-, -, he⟩ := hm
    cases he
    rfl
  · rfl

/-! ## Cuts between effects -/

/-- A rewritten server file that does not carry the items of the rows is refused. -/
theorem not_accepted_of_items (h : Valid w interface s srv profile) {s' : Store}
    (peers : List PeerBlock) (item : Text × Text)
    (hfile : s'.files interface = some (written (render srv.pre peers)))
    (hwf : ∀ p ∈ peers, p.WellFormed)
    (hitem : ¬ (item ∈ blockItems peers ↔ item ∈ activeItems s'.table.rows)) :
    ¬ Accepted w interface s' := by
  intro haccepted
  obtain ⟨srv', profile', h'⟩ := accepted_iff.mp haccepted
  obtain ⟨content, hread, hsrv⟩ := h'.content
  obtain ⟨hnewlines, pre', hsec, -⟩ := h.render hwf
  rw [hfile] at hread
  rw [read_written (size_of_read hread), hnewlines] at hread
  cases hread
  have hpeers : srv'.peers = peers.map PeerBlock.complete := by
    have hsec' := (server_eq_some_iff.mp hsrv).1
    rw [hsec] at hsec'
    simp only [Option.some.injEq, Prod.mk.injEq] at hsec'
    exact hsec'.2.symm
  apply hitem
  rw [← h'.items item, hpeers, blockItems, blockItems, List.map_map]
  rfl

/-- After a cut between two effects the database still has the old rows. -/
private theorem crashAfter_between (hk : k ≤ c.newFiles.length) :
    crashAfter s c k = { s with files := setFiles s.files (c.newFiles.take k) } := if_pos hk

/-- The first file of a pair is in place from the first cut on. -/
private theorem take_first {files : Files} {a b : Text} {x y : Option Text} (hk : 1 ≤ k)
    (hab : a ≠ b) : setFiles files ([(a, x), (b, y)].take k) a = x.map written := by
  match k with
  | 1 => exact if_pos rfl
  | k + 2 =>
    rw [List.take_of_length_le (by simp), setFiles_two, if_neg hab, if_pos rfl]

theorem create_cut (h : Valid w interface s srv profile)
    (hv : v = ⟨srv.pre, srv.peers, srv.address, s.table.sorted⟩) {name description key : Text}
    {ip : Nat} {profile' : Profile}
    (hp : CreatePlan w interface name description d s v c ip key profile')
    (hfile : s.files d.configName = none) (h1 : 1 ≤ k) (h2 : k ≤ c.newFiles.length) :
    ¬ Accepted w interface (crashAfter s c k) := by
  subst hv
  have hne := (h.ne_unused hfile).1
  rw [crashAfter_between h2]
  refine not_accepted_of_items h _ (key, hostText (ipv4Text ip)) ?_
    (createdPeers_wellFormed h hp.derived ip profile'.serverKeepalive) ?_
  · simp only [hp.newFiles, take_first h1 hne]
    rfl
  · -- the new key is on a block, and on no row yet
    intro hiff
    have hmem := hiff.mp (mem_blockItems.mpr
      ⟨_, List.mem_append_right _ (List.mem_singleton_self _), rfl, rfl⟩)
    obtain ⟨r, hr, -, hk, -⟩ := mem_activeItems.mp hmem
    exact hp.fresh r (Table.mem_sorted.mpr hr) hk

theorem regenerate_cut (h : Valid w interface s srv profile)
    (hv : v = ⟨srv.pre, srv.peers, srv.address, s.table.sorted⟩) {key : Text} {profile' : Profile}
    (hp : RegeneratePlan w interface peerId d s v c row key profile') (h1 : 1 ≤ k)
    (h2 : k ≤ c.newFiles.length) : ¬ Accepted w interface (crashAfter s c k) := by
  obtain ⟨hrow, -⟩ := hp.found
  have hpeers : v.peers = srv.peers := by rw [hv]
  have hne : interface ≠ row.configName := (h.configName_ne hrow).symm
  rw [crashAfter_between h2]
  refine not_accepted_of_items h (regeneratedPeers v row (replacementFor v profile' row key))
    (key, hostText row.tunnelIp) ?_ (regeneratedPeers_wellFormed h hpeers hrow hp.derived) ?_
  · simp only [hp.newFiles, take_first h1 hne]
    rw [hv]
    rfl
  · intro hiff
    have hmem := hiff.mp ((mem_blockItems_regenerated h hpeers hrow _ _).mpr (Or.inl ⟨rfl, rfl⟩))
    obtain ⟨r, hr, -, hk, -⟩ := mem_activeItems.mp hmem
    exact hp.fresh r (by rw [hv]; exact Table.mem_sorted.mpr hr) hk

theorem revoke_cut (h : Valid w interface s srv profile)
    (hv : v = ⟨srv.pre, srv.peers, srv.address, s.table.sorted⟩)
    (hp : RevokePlan interface peerId d s v c row) (h1 : 1 ≤ k) (h2 : k ≤ c.newFiles.length) :
    ¬ Accepted w interface (crashAfter s c k) := by
  subst hv
  obtain ⟨hrow, -⟩ := hp.found
  rw [crashAfter_between h2]
  refine not_accepted_of_items h (srv.peers.filter fun p => p.publicKey ≠ row.publicKey)
    (row.publicKey, hostText row.tunnelIp) ?_
    (fun p hmem => h.peers_wellFormed.1 p (List.mem_filter.mp hmem).1) ?_
  · rw [hp.newFiles] at h2 ⊢
    rw [List.take_of_length_le h1]
    exact if_pos rfl
  · -- the row is still active, but its block is gone
    intro hiff
    obtain ⟨p, hmem, hk, -⟩ := mem_blockItems.mp
      (hiff.mpr (mem_activeItems.mpr ⟨row, hrow, hp.active, rfl, rfl⟩))
    exact of_decide_eq_true (List.mem_filter.mp hmem).2 hk

theorem delete_cut (hp : DeletePlan peerId s c row) (h1 : 1 ≤ k) (h2 : k ≤ c.newFiles.length) :
    ¬ Accepted w interface (crashAfter s c k) := by
  intro haccepted
  obtain ⟨srv', profile', h'⟩ := accepted_iff.mp haccepted
  rw [crashAfter_between h2] at h'
  obtain ⟨client, hread, -⟩ := (h'.rows row hp.found.1).client
  have hgone : setFiles s.files (c.newFiles.take k) row.configName = none := by
    rw [hp.newFiles, List.take_of_length_le h1]
    exact if_pos rfl
  simp only [hgone] at hread
  cases hread

/-! ## The accepted cuts -/

/-- Every file that a published change has written is read by the next validation. -/
private theorem fits_of_accepted {op : Operation} (hp : plan w interface d s op = .ok c)
    (hfresh : FreshId d s op) (h : Accepted w interface (s.apply c)) : c.Fits := by
  obtain ⟨srv', profile', h'⟩ := accepted_iff.mp h
  intro item hitem t ht
  have hfile : (s.apply c).files item.1 = some (written t) := by
    rw [Store.apply_files, setFiles_of_mem (nodup_newFiles hp hfresh) hitem, Option.mem_def.mp ht]
    rfl
  have hserver (hn : item.1 = interface) : utf8Length t ≤ 65536 := by
    obtain ⟨content, hread, -⟩ := h'.content
    rw [← hn, hfile] at hread
    exact size_of_read hread
  have hclient (r : Row) (hr : r ∈ c.table.rows) (hn : item.1 = r.configName) :
      utf8Length t ≤ 65536 := by
    obtain ⟨content, hread, -⟩ := (h'.rows r hr).client
    rw [← hn, hfile] at hread
    exact size_of_read hread
  obtain ⟨v, hv, hplan⟩ := plan_eq_ok hp
  cases hplan with
  | @create _ _ name description key ip _ hplan =>
    simp only [hplan.newFiles, List.mem_cons, List.not_mem_nil, or_false] at hitem
    rcases hitem with rfl | rfl
    · exact hserver rfl
    · refine hclient (newRow d name description key (ipv4Text ip)) ?_ rfl
      rw [hplan.rows]
      exact List.mem_append_right _ (List.mem_singleton_self _)
  | update hplan =>
    rw [(updateOperation_eq_ok hplan).2.1] at hitem
    cases hitem
  | @regenerate _ key row _ hplan =>
    obtain ⟨hrow, rfl⟩ := hplan.found
    simp only [hplan.newFiles, List.mem_cons, List.not_mem_nil, or_false] at hitem
    rcases hitem with rfl | rfl
    · exact hserver rfl
    · refine hclient (regeneratedRow d key row) ?_ rfl
      rw [hplan.rows]
      exact List.mem_map.mpr ⟨row, hrow, if_pos rfl⟩
  | revoke hplan =>
    rw [hplan.newFiles, List.mem_singleton] at hitem
    exact hserver (by rw [hitem])
  | delete hplan =>
    rw [hplan.newFiles, List.mem_singleton] at hitem
    rw [hitem] at ht
    cases ht

/-- **Cuts.** The state that a crash leaves, once the startup path has seen it, is
accepted exactly when nothing was published or everything was. -/
theorem crash_accepted_iff {op : Operation} (hp : plan w interface d s op = .ok c)
    (hfresh : FreshId d s op) (client : Text) (d' : Draw) (k : Nat) :
    Accepted w interface (startup w interface client d' (crashAfter s c k)) ↔
      k = 0 ∨ (c.newFiles.length < k ∧ c.Fits) := by
  obtain ⟨v, hv, hplan⟩ := plan_eq_ok hp
  have hstart : Accepted w interface s := ⟨v, hv⟩
  obtain ⟨srv, profile, h⟩ := accepted_iff.mp hstart
  have hprofile : (crashAfter s c k).profile.isSome = true := by
    have : s.profile.isSome = true := by rw [(validateProfile_eq_ok h.profileRow).1]; rfl
    unfold crashAfter
    split <;> exact this
  rw [startup_eq client hprofile]
  rcases Nat.lt_or_ge c.newFiles.length k with hk | hk
  · have happ : crashAfter s c k = s.apply c := if_neg (by omega)
    rw [happ]
    constructor
    · exact fun hacc => Or.inr ⟨hk, fits_of_accepted hp hfresh hacc⟩
    · rintro (rfl | ⟨-, hfits⟩)
      · omega
      · obtain ⟨srv', h', -⟩ := plan_valid h hp hfresh hfits
        exact accepted_iff.mpr ⟨srv', profile, h'⟩
  · rcases Nat.eq_zero_or_pos k with rfl | hpos
    · simpa [crashAfter, setFiles] using hstart
    · refine iff_of_false ?_ (by omega)
      cases hplan with
      | create hplan => exact create_cut h (h.validated hv) hplan hfresh hpos hk
      | update hplan =>
        obtain ⟨-, hnew, -⟩ := updateOperation_eq_ok hplan
        rw [hnew, List.length_nil] at hk
        omega
      | regenerate hplan => exact regenerate_cut h (h.validated hv) hplan hpos hk
      | revoke hplan => exact revoke_cut h (h.validated hv) hplan hpos hk
      | delete hplan => exact delete_cut hplan hpos hk

/-- The cuts of a first `create`: the untouched store and the committed one are accepted. -/
theorem crash_accepted_create :
    ∃ c, plan demoPlatform demoInterface demoDraw
        (demoStore (demoServerText "10.0.0.1/24".toList 0)) (.create "laptop".toList []) = .ok c ∧
      ∀ k ≤ 3, Accepted demoPlatform demoInterface (startup demoPlatform demoInterface [] demoDraw
        (crashAfter (demoStore (demoServerText "10.0.0.1/24".toList 0)) c k)) ↔ k = 0 ∨ k = 3 := by
  obtain ⟨c, hc, -, hnew⟩ := demo_plan demo24 (demo_lineFeeds demo24 (Nat.zero_le _))
  have hfits : c.Fits := by
    rw [Change.Fits, hnew]
    decide +kernel
  refine ⟨c, hc, fun k hk => ?_⟩
  rw [crash_accepted_iff hc rfl, hnew]
  simp only [hfits, and_true, List.length_cons, List.length_nil]
  omega

/-- After the new server file is in place, and before the client file is, the store is refused
and stays refused when the process starts again. -/
theorem crash_not_accepted :
    ∃ c, plan demoPlatform demoInterface demoDraw
        (demoStore (demoServerText "10.0.0.1/24".toList 0)) (.create "laptop".toList []) = .ok c ∧
      Accepted demoPlatform demoInterface (demoStore (demoServerText "10.0.0.1/24".toList 0)) ∧
      ∀ client d', ¬ Accepted demoPlatform demoInterface
        (startup demoPlatform demoInterface client d'
          (crashAfter (demoStore (demoServerText "10.0.0.1/24".toList 0)) c 1)) := by
  obtain ⟨c, hc, -, hnew⟩ := demo_plan demo24 (demo_lineFeeds demo24 (Nat.zero_le _))
  have hvalid := demo_valid demo24 (demo_lineFeeds demo24 (Nat.zero_le 65481))
  refine ⟨c, hc, accepted_iff.mpr ⟨_, _, hvalid⟩, fun client d' => ?_⟩
  have hlength : 1 ≤ c.newFiles.length := by
    rw [hnew]
    decide
  rw [startup_eq client (by rw [crashAfter, if_pos hlength]; rfl)]
  obtain ⟨v, hv, hplan⟩ := plan_eq_ok hc
  cases hplan with
  | create hplan => exact create_cut hvalid (hvalid.validated hv) hplan rfl (Nat.le_refl 1) hlength

end ExitLane.Peers
