import ExitLane.Recovery.Boot

/-!
# Restores that fail before the first replacement

Until the first file of the live tree is replaced, a restore has not touched the
state (`wp_body_untouched`), and what is left to recover is at most the snapshot.
Whether the recovery and the startup after it get over the failure is decided by
what the failing step has left (`failed_restore_recovers_iff`): the handler takes
the existence of the previous tree for a complete snapshot, and removes the
transaction under a receipt that it does not know of. `Recovering` is what every
step of the recovery keeps.
-/

namespace ExitLane.Recovery
open Python Effect

section
variable {w : Platform} {P : State} {m : Machine} {A : Regime Reply Code} {backup : Backup}
  {confirmation : Text} {start : Machine}

/-- Some file of the live tree was replaced. -/
def Touched (m : Machine) : Prop := ∃ c, .replaced c ∈ m.trace

/-- The live tree means the old state, unless a file was replaced. -/
def Untouched (w : Platform) (P : State) (m : Machine) : Prop :=
  ¬ Touched m → logical w m.live = some P

theorem Touched.untouched (h : Touched m) : Untouched w P m := fun hnot => absurd h hnot

theorem Touched.mono {m' : Machine} {more : List Event} (h : Touched m)
    (htrace : m'.trace = m.trace ++ more) : Touched m' := by
  obtain ⟨c, hc⟩ := h
  exact ⟨c, by rw [htrace]; exact List.mem_append_left _ hc⟩

theorem hookProof_touched : HookProof w Touched where
  congr m m' _ _ htrace _ _ _ h :=
    Touched.mono h (show m'.trace = m.trace ++ [] by rw [htrace, List.append_nil])

theorem Touched.record (phase : Phase) (ingress : List IngressIdentity) :
    Preserves Touched (record phase ingress) :=
  preserves_record phase ingress (fun _ _ h => h) fun _ h => h.mono rfl

/-- Up to the first replacement a publication leaves the meaning of the live tree alone. -/
theorem wp_publish_untouched {source : Place} (hst : logical w m.live = some P)
    (hcold : m.live.files .databaseJournal = none) :
    wpElse A (publish w source) (fun _ => Touched) (Untouched w P) m := by
  let L (m : Machine) : Prop := logical w m.live = some P
  have hlax (m : Machine) (h : L m) : Untouched w P m := fun _ => h
  have hset (m : Machine) (f : Option File) (h : L m) : L (m.set ⟨.live, .file .databaseNew⟩ f) := h
  refine wp_seq_check (hlax m hst) fun _ _ => ?_
  refine wp_seq_check (hlax m hst) fun _ _ => ?_
  refine wp_seq (R := fun _ => L) (wp_branch (fun hsome => ?_) fun _ => wp_pure hst) ?_
  · simp [Layout.get, hcold] at hsome
  intro _ m1 h1
  refine wp_seq (R := fun _ => Touched) ?_ ?_
  · -- the database is the first file
    refine wp_seq ((preserves_branch (preserves_check _) (preserves_pure _)).through h1 hlax)
      fun _ m2 h2 => ?_
    refine wp_seq ((preserves_removeStale fun m => hset m none).through h2 hlax) fun _ m3 h3 => ?_
    refine wp_seq ((preserves_copyFile fun m _ => hset m _).through h3 hlax) fun _ m4 h4 => ?_
    refine wp_seq (R := fun _ => Touched) ?_ fun _ m5 h5 =>
      (preserves_check _).through h5 fun _ => Touched.untouched
    have hnew (l : Layout) :
        Touched { m4 with live := l, trace := m4.trace ++ [.replaced .database] } :=
      ⟨.database, by simp⟩
    exact wp_atomic (hnew _) (fun _ _ _ => ⟨hlax _ h4, (hnew _).untouched⟩) fun _ _ =>
      ⟨hlax _ h4, (hnew _).untouched⟩
  have hlive (m : Machine) (l : Layout) (_ : l.folders = m.live.folders) (h : Touched m) :
      Touched { m with live := l } := h
  have htrace (m : Machine) (c : Component) (h : Touched m) :
      Touched { m with trace := m.trace ++ [.replaced c] } := h.mono rfl
  have hrest : Preserves Touched (do
      publishFile source .masterKey .masterKeyNew
      publishFile source .manifest .manifestNew
      publishDir source .wireguard
      publishDir source .providerEgress) := by
    refine preserves_seq (preserves_publishFile _ _ hlive htrace) ?_
    refine preserves_seq (preserves_publishFile _ _ hlive htrace) ?_
    exact preserves_seq (preserves_publishDir _ hlive) <| preserves_publishDir _ hlive
  exact fun _ m2 h2 => hrest.through h2 fun _ => Touched.untouched

/-- A snapshot that returns has copied a database without a hot journal. -/
theorem wp_snapshot_cold (ht : m.txn.isSome = true) (hst : logical w m.live = some P) :
    wpElse A (snapshot w) (fun _ m' => m'.live = m.live ∧ m.live.files .databaseJournal = none)
      (fun _ => True) m := by
  have hframe : Preserves (fun m' => m'.live = m.live) (snapshot w) :=
    preserves_snapshot fun m' l h => by simpa [Machine.setLayout_live] using h
  have hcold : wpElse A (snapshot w) (fun _ _ => m.live.files .databaseJournal = none)
      (fun _ => True) m := by
    refine wp_seq (wp_snapshotPair ht hst) ?_
    rintro - m1 ⟨hcold, -⟩
    have hrest : Preserves (fun _ => m.live.files .databaseJournal = none) (do
        copyDirectory .live .previous .providerEgress
        let _ ← validateAt w .previous
        syncTree .previous) :=
      preserves_seq (preserves_copyDirectory (fun _ h => h) fun _ _ _ h => h) <|
        preserves_seq_check <| preserves_check _
    exact hrest.through hcold fun _ _ => trivial
  exact wp_mono (wp_and (hframe A m rfl) hcold) (fun _ _ => id) (fun _ _ _ => trivial)
    fun _ _ => trivial

theorem wp_install_untouched (ingress : List IngressIdentity) (ht : m.txn.isSome = true)
    (hst : logical w m.live = some P) :
    wpElse A (install w ingress) (fun _ => Untouched w P) (Untouched w P) m := by
  let L (m : Machine) : Prop := logical w m.live = some P ∧ m.txn.isSome = true
  have hlax (m : Machine) (h : L m) : Untouched w P m := fun _ => h.1
  have hL : HookProof w L :=
    ⟨fun m m' htxn _ _ _ hlive _ h => ⟨by rw [hlive]; exact h.1, by rw [htxn]; exact h.2⟩⟩
  refine wp_seq (hL.hook.through ⟨hst, ht⟩ hlax) fun _ m1 h1 => ?_
  refine wp_seq (hL.quiesce.through h1 hlax) fun _ m2 h2 => ?_
  have hsnapshot : Preserves L (snapshot w) :=
    preserves_snapshot fun m l h => by simpa [L, Machine.setLayout_live] using h
  refine wp_seq (wp_with (hsnapshot.through h2 hlax) (wp_snapshot_cold h2.2 h2.1)) ?_
  rintro - m3 ⟨h3, hlive3, hcold3⟩
  -- the worker is gone, and nobody makes the journal hot again
  let K (m : Machine) : Prop := logical w m.live = some P ∧ m.live.files .databaseJournal = none
  have hlaxK (m : Machine) (h : K m) : Untouched w P m := fun _ => h.1
  have hrecord (phase : Phase) : Preserves K (record phase ingress) :=
    preserves_record phase ingress (fun _ _ h => h) fun _ h => h
  have hhook : Preserves K hook := by
    refine preserves_hook fun m d h => ⟨by rw [logical_project]; exact h.1, ?_⟩
    unfold Machine.project
    split <;> exact h.2
  refine wp_seq ((hrecord _).through ⟨h3.1, by rw [hlive3]; exact hcold3⟩ hlaxK) fun _ m4 h4 => ?_
  refine wp_seq (hhook.through h4 hlaxK) fun _ m5 h5 => ?_
  refine wp_seq ((hrecord _).through h5 hlaxK) fun _ m6 h6 => ?_
  refine wp_seq (wp_publish_untouched h6.1 h6.2) fun _ m7 h7 => ?_
  have hT : HookProof w Touched := hookProof_touched
  have hrest : Preserves Touched (do
      record .installed ingress
      revokeSessions w
      sync
      sync
      leased
      let _ ← validateAt w .live
      reconcile
      let healthy ← health
      .demand healthy .recoveryHealthFailed
      record .validated ingress
      record .committed ingress
      reopen
      cleanup) := by
    refine preserves_seq (Touched.record _ _) ?_
    refine preserves_seq (preserves_revokeSessions fun _ _ _ h => h) ?_
    refine preserves_seq_check <| preserves_seq_check ?_
    refine preserves_seq_check <| preserves_seq_check ?_
    refine preserves_bind hT.hook fun _ => preserves_bind hT.health fun _ => ?_
    refine preserves_seq (preserves_demand _ _) ?_
    refine preserves_seq (Touched.record _ _) <| preserves_seq (Touched.record _ _) ?_
    exact preserves_seq hT.hook <| preserves_cleanup (fun _ h => h) fun _ _ h => h
  exact wp_mono_else (hrest A m7 h7) (fun _ _ => Touched.untouched) fun _ => Touched.untouched

/-- Wherever the block of `restore` stops, the state is the old one unless a file was replaced. -/
theorem wp_body_untouched {b : Backup} (ht : m.txn.isSome = true)
    (hst : logical w m.live = some P) :
    wpElse A (restoreBody w b) (fun _ => Untouched w P) (Untouched w P) m := by
  let L (m : Machine) : Prop := logical w m.live = some P ∧ m.txn.isSome = true
  have hlax (m : Machine) (h : L m) : Untouched w P m := fun _ => h.1
  have hprepare : Preserves L (prepare w b) :=
    preserves_prepare (fun m l h => by simpa [L, Machine.setLayout_live] using h)
      fun m l h => by simpa [L, Machine.setLayout_live] using h
  refine wp_seq (hprepare.through ⟨hst, ht⟩ hlax) fun ingress m1 h1 => ?_
  refine wp_seq ((preserves_record (I := L) _ _ (fun _ _ h => h) fun _ h => h).through h1 hlax)
    fun _ m2 h2 => ?_
  refine wp_seq (R := fun _ => L) (wp_modify h2) fun _ m3 h3 => ?_
  exact wp_install_untouched ingress h3.2 h3.1

/-- `restore` without its handler. -/
def attempt (w : Platform) (b : Backup) (confirmation : Text) : Act Unit := do
  openTransaction w confirmation
  restoreBody w b

/-- Without a commit it does not matter what would have been committed. -/
theorem Inv.uncommitted {C : State} (h : Inv w P C m) (hnot : wasCommitted m.trace = false) :
    Inv w P P m where
  live hall := by simpa [settledOn, hnot] using h.live hall
  phase := h.phase
  previous := h.previous
  snapshot := h.snapshot
  root := h.root
  commit hc := by rw [hnot] at hc; cases hc

theorem attempt_untouched (hstart : Start w P start) (ks : List (Signal Reply Code)) :
    Untouched w P (attempt w backup confirmation start ks).2.1 := by
  obtain ⟨inventory, hvalid⟩ := hstart.valid
  have hattempt : wp .any (attempt w backup confirmation) (fun _ => Untouched w P)
      (fun _ => Untouched w P) (Untouched w P) start := by
    refine wp_seq (wp_openTransaction hstart.txn (fun _ _ _ => hvalid.logical) confirmation) ?_
    rintro - _ rfl
    exact wp_body_untouched rfl hvalid.logical
  exact hattempt.always (any_script ks)

/-! ## The condition -/

/-- The recovery inside `restore` and the startup after it get over the failure at `m`: there is no
receipt; or `restore` knows of it, a startup could resume it, and what there is of a previous tree
is complete. -/
def Recoverable (w : Platform) (m : Machine) : Prop :=
  ∀ j, m.journal = some j → m.journalled = true ∧ Resumable w m j ∧
    ∀ l, m.layout .previous = some l → ∃ inventory, l.validate w = .ok inventory

/-- Every step may fail or be cut, but no worker is killed while it writes. -/
def gentle : Regime Reply Code where
  allows
    | .go r => r.killed = false
    | .fail k _ | .crash k => k ≠ 1
  allows_default := rfl

/-- A startup in which nothing fails opens the appliance on the state. -/
def Reopens (w : Platform) (P : State) (m : Machine) : Prop :=
  ∀ ks, calm.Script ks → ∃ inventory, (startup w m ks).1 = .ok inventory ∧
    logical w (startup w m ks).2.1.live = some P

theorem Reopens.bootable {C : State} (h : Reopens w P m) (hinv : Inv w P C m)
    (htidy : Tidy m.live) (hidle : m.worker = false) : Bootable w m := by
  obtain ⟨inventory, hok, -⟩ := h [] fun _ hk => nomatch hk
  have hpost := (wp_startup_bootable hinv htidy hidle).holds (any_script [])
  rwa [hok] at hpost

theorem Bootable.reopens {C : State} (h : Bootable w m) (hP : Startable w P) (hinv : Inv w P C m)
    (hnot : wasCommitted m.trace = false) (htidy : Tidy m.live) (hidle : m.worker = false)
    (hjournalled : m.journalled = false) : Reopens w P m := by
  intro ks hks
  obtain ⟨inventory, hok, -⟩ := (h.startup hinv htidy hidle hP).returns hks
  have hkept : Kept w P P false m := ⟨hinv.uncommitted hnot, hjournalled⟩
  have hpost := hkept.wp_startup.holds (any_script ks)
  rw [hok] at hpost
  have hlive := hpost.1.1.live (by simp [hpost.2])
  rw [settledOn, ite_self] at hlive
  exact ⟨inventory, hok, hlive⟩

/-! ## The condition is sufficient -/

/-- A receipt as the recovery of a failure at `m` leaves it. -/
structure Left (m m' : Machine) (j : Journal) : Prop where
  found : m.journal.isSome = true
  txn : m'.txn = m.txn
  receipt : j.ingress.length ≤ 32
  snapshot : j.phase.isMiddle = true → (m.layout .previous).isSome = true
  cold : j.phase.isMiddle = false → m'.live.files .databaseJournal = none

/-- What every step of the recovery of a failure at `m` keeps. -/
structure Recovering (m m' : Machine) : Prop where
  uncommitted : wasCommitted m'.trace = false
  left : ∀ j, m'.journal = some j → Left m m' j

theorem wp_quiesce_gentle {I : Machine → Prop} (hproject : ∀ m d, I m → I (m.project d))
    (hstop : ∀ m, I m → I (m.stopWorker w false)) (h : I m) :
    wpElse gentle (quiesce w) (fun _ => I) I m := by
  refine wp_seq (preserves_hook hproject gentle m h) fun _ m1 h1 => ?_
  have hpart (k : Nat) (hk : k ≠ 1) : I (if k = 0 then m1 else m1.stopWorker w (k == 1)) := by
    rw [beq_eq_false_iff_ne.mpr hk]
    split
    · exact h1
    · exact hstop m1 h1
  refine wp_prim (fun r hr => ?_) (fun k _ => hpart k) hpart
  rw [show r.killed = false from hr]
  exact hstop m1 h1

theorem Left.congr {m' n : Machine} {j : Journal} (h : Left m m' j) (htxn : n.txn = m'.txn)
    (hfiles : n.live.files = m'.live.files) : Left m n j :=
  ⟨h.found, htxn.trans h.txn, h.receipt, h.snapshot, by rw [hfiles]; exact h.cold⟩

namespace Recovering

variable {m' : Machine}

theorem refl (h : Recoverable w m) (hnot : wasCommitted m.trace = false) : Recovering m m := by
  refine ⟨hnot, fun j hj => ?_⟩
  obtain ⟨-, hresumable, -⟩ := h j hj
  refine ⟨by rw [hj]; rfl, rfl, hresumable.receipt, fun hmiddle => ?_, hresumable.cold⟩
  obtain ⟨l, _, hl, -⟩ := hresumable.snapshot hmiddle
  rw [hl]
  rfl

theorem congr {n : Machine} (h : Recovering m m') (hjournal : n.journal = m'.journal)
    (htxn : n.txn = m'.txn) (htrace : n.trace = m'.trace) (hfiles : n.live.files = m'.live.files) :
    Recovering m n :=
  ⟨by rw [htrace]; exact h.uncommitted, fun j hj => (h.left j (hjournal ▸ hj)).congr htxn hfiles⟩

theorem project (m' : Machine) (d : Option { d : Dir // d.IsEgress }) (h : Recovering m m') :
    Recovering m (m'.project d) := by
  unfold Machine.project
  split
  · exact h.congr rfl rfl rfl rfl
  · exact h

theorem stopWorker (m' : Machine) (h : Recovering m m') : Recovering m (m'.stopWorker w false) := by
  unfold Machine.stopWorker
  rw [Bool.and_false]
  exact h.congr rfl rfl rfl rfl

theorem reboot (h : Recovering m m') : Recovering m (m'.reboot w false) :=
  (h.stopWorker m').congr rfl rfl rfl rfl

theorem of_none (h : Recovering m m') (txn : Option Txn) :
    Recovering m { m' with journal := none, txn := txn } :=
  ⟨h.uncommitted, fun _ hj => nomatch hj⟩

theorem bootable (h : Recovering m m') (hm : Recoverable w m) : Bootable w m' := by
  intro j hj
  have hleft := h.left j hj
  obtain ⟨j0, hj0⟩ := Option.isSome_iff_exists.mp hleft.found
  obtain ⟨-, hresumable, hcomplete⟩ := hm j0 hj0
  refine ⟨hleft.receipt, by rw [hleft.txn]; exact hresumable.leftovers, fun hmiddle => ?_,
    hleft.cold⟩
  obtain ⟨l, hl⟩ := Option.isSome_iff_exists.mp (hleft.snapshot hmiddle)
  obtain ⟨inventory, hok⟩ := hcomplete l hl
  exact ⟨l, inventory, by rw [Machine.layout_congr (by decide) hleft.txn, hl], hok⟩

/-- From the moment the way back is recorded, the live tree does not matter. -/
theorem wp_publishPrevious (h : Recovering m m') {j : Journal} (hj : m'.journal = some j)
    (hmiddle : j.phase.isMiddle = true) :
    wpElse A (publish w .previous) (fun _ => Recovering m) (Recovering m) m' := by
  let R (n : Machine) : Prop := Recovering m n ∧ n.journal = some j
  have hlive (n : Machine) (l : Layout) (_ : l.folders = n.live.folders) (hn : R n) :
      R { n with live := l } := by
    refine ⟨⟨hn.1.uncommitted, fun j' hj' => ?_⟩, hn.2⟩
    have hleft := hn.1.left j' hj'
    refine ⟨hleft.found, hleft.txn, hleft.receipt, hleft.snapshot, fun hnot => ?_⟩
    cases hn.2.symm.trans hj'
    rw [hmiddle] at hnot
    cases hnot
  have htrace (n : Machine) (c : Component) (hn : R n) :
      R { n with trace := n.trace ++ [.replaced c] } := by
    refine ⟨⟨?_, fun j' hj' => (hn.1.left j' hj').congr rfl rfl⟩, hn.2⟩
    rw [wasCommitted_append]
    exact hn.1.uncommitted
  exact wp_mono_else (preserves_publish hlive htrace A m' ⟨h, hj⟩) (fun _ _ h => h.1) fun _ h => h.1

theorem wp_rollback (h : Recovering m m') :
    wpElse gentle (rollback w) (fun _ => Recovering m) (Recovering m) m' := by
  refine wp_seq (wp_readJournal h) ?_
  rintro receipt m' ⟨rfl, hj⟩
  let R (n : Machine) : Prop := Recovering m n ∧ n.journal = some receipt
  have hproject (n : Machine) (d : Option { d : Dir // d.IsEgress }) (hn : R n) :
      R (n.project d) :=
    ⟨hn.1.project n d, (hookProof_journal (w := w) (Q := (· = some receipt))).project n d hn.2⟩
  have hstop (n : Machine) (hn : R n) : R (n.stopWorker w false) :=
    ⟨hn.1.stopWorker n, (hookProof_journal (Q := (· = some receipt))).stopWorker n false hn.2⟩
  have hlax (n : Machine) (hn : R n) : Recovering m n := hn.1
  refine wp_closed (fun _ h1 => (preserves_hook hproject).through h1 hlax)
    (fun _ h1 => wp_else (wp_quiesce_gentle hproject hstop h1) hlax) ⟨h, hj⟩ fun m3 ⟨h3, hj3⟩ => ?_
  refine wp_seq (R := fun _ => Recovering m) (wp_branch (fun hsome => ?_) fun _ => wp_pure h3) ?_
  · have hleft := h3.left receipt hj3
    have hnew : Recovering m (recorded m3 .rollbackRequired receipt.ingress) := by
      refine ⟨wasCommitted_append _ _, fun j hj => ?_⟩
      cases hj
      refine ⟨hleft.found, hleft.txn, hleft.receipt, fun _ => ?_, fun hnot => nomatch hnot⟩
      rwa [← Machine.layout_congr (by decide) hleft.txn]
    refine wp_seq (wp_record (fun b => h3.congr rfl rfl rfl rfl) hnew) ?_
    rintro - m4 rfl
    exact hnew.wp_publishPrevious rfl rfl
  intro _ m4 h4
  refine wp_seq ((preserves_resume project (fun _ h => h.congr rfl rfl rfl rfl) false).through h4
    fun _ => id) fun _ m5 h5 => ?_
  refine wp_post (wp_cleanup_of h5 h5.of_none) ?_
  rintro - _ rfl
  exact h5.of_none none

theorem wp_handler (h : Recovering m m) (hm : Recoverable w m) (e : Code) :
    wpElse gentle (restoreHandler w e) (fun _ => Recovering m) (Recovering m) m := by
  refine wp_restoreHandler (preserves_hook project) (fun _ => wp_quiesce_gentle project stopWorker)
    (fun _ => id) (fun _ => h.wp_rollback) (fun hnot => ?_) e
  -- without a receipt the transaction directory does not matter
  have hgone (txn : Option Txn) : Recovering m { m with txn := txn } := by
    refine ⟨h.uncommitted, fun j hj => ?_⟩
    rw [(hm j hj).1] at hnot
    cases hnot
  exact wp_effect (hgone none) (fun _ _ _ => hgone _) fun _ _ => hgone _

end Recovering

/-! ## The condition is necessary -/

/-- A restore that does not know of its receipt removes the transaction under it. -/
theorem restoreHandler_unaware (h : m.journalled = false) (e : Code) :
    (restoreHandler w e m []).2.1 = { m with txn := none } := by
  unfold restoreHandler Proc.branch
  rw [if_neg (by simp [h])]
  rfl

/-- The recovery is cut at its first step. -/
theorem restoreHandler_cut (h : m.journalled = true) (e : Code) :
    (restoreHandler w e m [.crash 0]).2.1 = m := by
  unfold restoreHandler Proc.branch
  rw [if_pos h]
  rfl

/-- The recovery has ended on the receipt of its rollback. -/
def OnWayBack (m m' : Machine) : Prop :=
  m'.txn = m.txn ∧ ∃ j, m'.journal = some j ∧ j.phase = .rollbackRequired

theorem hookProof_onWayBack : HookProof w (OnWayBack m) where
  congr _ _ htxn hjournal _ _ _ _ h := ⟨htxn.trans h.1, by rw [hjournal]; exact h.2⟩

/-- A previous tree that does not validate is not published. -/
theorem wp_rollback_broken {j : Journal} (hj : m.journal = some j) (hle : j.ingress.length ≤ 32)
    (hroot : m.live.folders .recovery = true) {l : Layout} (hl : m.layout .previous = some l)
    (hbroken : ∀ inventory, l.validate w ≠ .ok inventory) :
    wpElse calm (rollback w) (fun _ => OnWayBack m) (OnWayBack m) m := by
  have hlift {α : Type} {p : Act α} {Q : α → Machine → Prop} {m' : Machine}
      (h : Completes p Q m') : wpElse calm p Q (OnWayBack m) m' :=
    wp_mono_else h (fun _ _ => id) fun _ => False.elim
  let S (m' : Machine) : Prop := m'.txn = m.txn ∧ m'.live.folders .recovery = true
  have hS : HookProof w S :=
    ⟨fun _ _ htxn _ _ _ _ hfolders h => ⟨htxn.trans h.1, by rw [hfolders]; exact h.2⟩⟩
  have hhook (m' : Machine) (h : S m') : wpElse calm hook (fun _ => S) (OnWayBack m) m' :=
    hlift (completes_hook fun d => hS.project m' d h)
  refine wp_seq_read (hlift (completes_readJournal hj hle)) ?_
  refine wp_closed hhook (fun m1 h1 => wp_seq (hhook m1 h1) fun _ m2 h2 =>
    calm_absorbs.prim fun r _ => hS.stopWorker m2 r.killed h2) ⟨rfl, hroot⟩ fun m3 h3 => ?_
  have hlayout : m3.layout .previous = some l := by rw [Machine.layout_congr (by decide) h3.1, hl]
  refine wp_seq (R := fun _ _ => False) (wp_branch (fun _ => ?_) fun hnone => ?_)
    fun _ _ => False.elim
  · refine wp_seq_eq (hlift (completes_record _ _ h3.2)) fun _ => ?_
    have hway : OnWayBack m (recorded m3 .rollbackRequired j.ingress) := ⟨h3.1, _, rfl, rfl⟩
    have hkeep : Preserves (OnWayBack m) (publish w .previous) :=
      preserves_publish (fun _ _ _ h => h) fun _ _ h => h
    refine wp_mono (wp_and (hkeep calm _ hway) (wp_publish absorbs_true (by decide)
      (Or.inr fun _ _ => trivial))) ?_ (fun _ _ h => h.1) fun _ h => h.1
    rintro - m4 ⟨-, l', st, inventory, hl', hvalid, -⟩
    cases hlayout.symm.trans hl'
    exact hbroken inventory (validate_eq_ok.mpr ⟨st, hvalid⟩)
  · rw [hlayout] at hnone
    cases hnone

theorem OnWayBack.wp_handler (h : wpElse calm (rollback w) (fun _ => OnWayBack m) (OnWayBack m) m)
    (hjournalled : m.journalled = true) (e : Code) :
    wpElse calm (restoreHandler w e) (fun _ => OnWayBack m) (OnWayBack m) m := by
  have hkeeps : HookProof w (OnWayBack m) := hookProof_onWayBack
  refine wp_restoreHandler hkeeps.hook (hkeeps.quiesce calm) (fun _ => id) (fun _ => h)
    (fun hnot => ?_) e
  rw [hjournalled] at hnot
  cases hnot

theorem Stopped.inv {C : State} (h : Stopped w P C m) : Inv w P C m :=
  h.elim (fun h => h.1) fun h => h.1.1

theorem reboot_false (m : Machine) :
    m.reboot w false = { m with worker := false, journalled := false } := by
  simp [Machine.reboot, Machine.stopWorker]

/-- What follows a failure at `m` succeeds, if no worker is killed, exactly under the condition. -/
theorem Stopped.recovers_iff {C : State} (h : Stopped w P C m)
    (hnot : wasCommitted m.trace = false) (htidy : Tidy m.live) (hP : Startable w P) (e : Code) :
    (∀ rest, gentle.Script rest → Reopens w P ((restoreHandler w e m rest).2.1.reboot w false)) ↔
      Recoverable w m := by
  have hinv (rest : List (Signal Reply Code)) :
      Inv w P C ((restoreHandler w e m rest).2.1.reboot w false) :=
    ((h.wp_handler e).always (any_script rest)).reboot false
  have htidy' (rest : List (Signal Reply Code)) :
      Tidy ((restoreHandler w e m rest).2.1.reboot w false).live :=
    Tidy.stopWorker _ false ((TidyLive.restoreHandler e _ m htidy).always (any_script rest))
  constructor
  · intro hall j hj
    have hboot (rest : List (Signal Reply Code)) (hrest : gentle.Script rest) :
        Bootable w
          { (restoreHandler w e m rest).2.1 with worker := false, journalled := false } := by
      rw [← reboot_false]
      exact (hall rest hrest).bootable (hinv rest) (htidy' rest) rfl
    have hnil (A : Regime Reply Code) : A.Script [] := fun _ hk => nomatch hk
    have hcut : gentle.Script [.crash 0] := by simp [Regime.Script, gentle]
    have hjournalled : m.journalled = true := by
      by_contra hunaware
      have hbootable := hboot [] (hnil _)
      rw [restoreHandler_unaware (by simpa using hunaware)] at hbootable
      obtain ⟨t, ht, -⟩ := (hbootable j hj).leftovers
      cases ht
    have hresumable : Resumable w m j := by
      have hbootable := hboot _ hcut
      rw [restoreHandler_cut hjournalled] at hbootable
      obtain ⟨hle, hprivate, hsnapshot, hcold⟩ := hbootable j hj
      exact ⟨hle, hprivate, hsnapshot, hcold⟩
    refine ⟨hjournalled, hresumable, fun l hl => ?_⟩
    by_contra hbroken
    have hway := (OnWayBack.wp_handler (wp_rollback_broken hj hresumable.receipt h.inv.root hl
      fun inventory hok => hbroken ⟨inventory, hok⟩) hjournalled e).always (hnil _)
    obtain ⟨htxn, j', hj', hphase⟩ := hway
    obtain ⟨l', inventory, hl', hok⟩ := (hboot [] (hnil _) j' hj').snapshot (by rw [hphase]; rfl)
    have hsame : m.layout .previous = some l' :=
      (Machine.layout_congr (by decide) htxn).symm.trans hl'
    cases hl.symm.trans hsame
    exact hbroken ⟨inventory, hok⟩
  · intro hm rest hrest
    have hend : Recovering m (restoreHandler w e m rest).2.1 :=
      ((Recovering.refl hm hnot).wp_handler hm e).always hrest
    exact (hend.reboot.bootable hm).reopens hP (hinv rest) hend.reboot.uncommitted (htidy' rest)
      rfl rfl

/-- `openTransaction` that returns has made the directories. -/
theorem openTransaction_of_ok (htxn : start.txn = none) {ks : List (Signal Reply Code)}
    (h : (openTransaction w confirmation start ks).1 = .ok ()) :
    ∃ ks', openTransaction w confirmation start ks = (.ok (), opened start, ks') := by
  have hpost := (wp_openTransaction (w := w) (I := fun _ => True) htxn (fun _ _ => trivial)
    confirmation).holds (any_script ks)
  rcases hrun : openTransaction w confirmation start ks with ⟨o, m, ks'⟩
  rw [hrun] at h hpost
  cases h
  exact ⟨ks', by rw [show m = opened start from hpost]⟩

/-- If it raises, the directories are all that there can be. -/
theorem restore_of_not_opened (backup : Backup) (htxn : start.txn = none)
    {ks : List (Signal Reply Code)} {e : Code}
    (h : (openTransaction w confirmation start ks).1 = .raised e) :
    ∃ txn, (restore w backup confirmation start ks).2.1 = { start with txn := txn } := by
  have hpost := (wp_openTransaction (w := w) (I := fun m => ∃ txn, m = { start with txn := txn })
    htxn (fun txn _ => ⟨txn, rfl⟩) confirmation).holds (any_script ks)
  rcases hrun : openTransaction w confirmation start ks with ⟨o, m, ks'⟩
  rw [hrun] at h hpost
  cases h
  rw [restore, Proc.bind_of_raised hrun]
  exact hpost

end

/-- All steps go through up to number `n`, which raises. -/
def failsAt (n : Nat) : List (Signal Reply Code) :=
  List.replicate n (.go default) ++ [.fail 0 .other]

def demoAttempt (ks : List (Signal Reply Code)) :
    Outcome Code Unit × Machine × List (Signal Reply Code) :=
  attempt demoPlatform (demoBackup [1, 66]) "RESTORE EXITLANE".toList (demoStart [1, 65]) ks

end ExitLane.Recovery
