import ExitLane.Recovery.Boot

/-!
# The first initialization

A startup of an empty root makes its directories, stages a new pair under the
receipt `init_preparing` and publishes it under `init_ready`. Every attempt leaves
one of five situations (`Initialized`), and from each of them but one the next
attempt can go on: a skeleton of directories without a receipt is refused and left
as it is. The other obstacle is a staged database that its maker had not made
private yet.
-/

namespace ExitLane.Recovery
open Python Effect

/-! ## The staged pair -/

/-- The tree that `stage_empty` builds around a new key. -/
def newTree (w : Platform) (key : Bytes) : Layout where
  folders _ := true
  files
    | .database => some ⟨w.initial, privateMode⟩
    | .masterKey => some ⟨key, privateMode⟩
    | .manifest => some ⟨w.dumpManifest (buildManifest w key), privateMode⟩
    | _ => none
  dirs _ := some .empty

/-- The state of a new appliance. -/
def newState (w : Platform) (key : Bytes) : State :=
  ⟨w.initialContent, key, w.dumpManifest (buildManifest w key), fun _ => none⟩

section
variable {w : Platform} {m : Machine} {A : Regime Reply Code} {E : Code → Machine → Prop}
  {C : Machine → Prop} {key : Bytes}

theorem newTree_valid (hkey : key.length = 32) :
    ∃ inventory, Valid w (newTree w key) (newState w key) inventory ∧
      inventory.recoveryRequired = false := by
  obtain ⟨inventory, hinspect, hrr⟩ := w.inspect_initial key hkey
  exact ⟨inventory,
    { folders := fun _ => rfl
      egress := ⟨.empty, rfl, by simp [Dir.IsEgress, Dir.empty]⟩
      pair :=
        { cold := rfl
          database := ⟨_, rfl, isPrivate_privateMode _, w.decode_initial⟩
          masterKey := ⟨_, rfl, isPrivate_privateMode _, rfl⟩
          keyLength := hkey
          files := ⟨.empty, rfl, ⟨by simp [Dir.empty], by simp [Dir.empty], by simp [Dir.empty]⟩,
            rfl⟩
          inspected := hinspect }
      manifest := ⟨_, rfl, isPrivate_privateMode _, rfl⟩
      manifestLength := w.dumpManifest_length key
      manifestMatches := w.loadManifest_dump key }, hrr⟩

theorem newState_startable (hkey : key.length = 32) : Startable w (newState w key) := by
  obtain ⟨inventory, hvalid, hrr⟩ := newTree_valid (w := w) hkey
  exact ⟨⟨_, inventory, hvalid, hrr⟩, [], w.ingress_initial⟩

theorem newTree_private (key : Bytes) : isPrivateTree (some (newTree w key)) = true := by
  simp [isPrivateTree, Layout.listing, Component.all, newTree, Dir.empty]

/-- The directories of an appliance. -/
def skeleton : Layout := ⟨fun _ => true, fun _ => none, fun _ => some .empty⟩

theorem mkSkeleton : Layout.mkFolder .backups (Layout.mkFolder .recovery
    (Layout.mkDir .providerEgress (Layout.mkDir .wireguard (Layout.mkFolder .state
      (Layout.mkFolder .config .bare))))) = skeleton := by
  simp only [Layout.mkFolder, Layout.mkDir, Layout.bare, skeleton, Layout.mk.injEq, true_and]
  constructor <;> (funext x; cases x <;> rfl)

/-- The directories are made one after the other. -/
theorem wp_makeSkeleton {α : Type} {place : Place} {S : Layout → Machine} {p : Act α}
    {Q : α → Machine → Prop} (h : Absorbs A E C) (hS : ∀ l, (S l).layout place = some l)
    (hon : ∀ l f, (S l).onLayout place f = S (f l)) (hp : wp A p Q E C (S skeleton)) :
    wp A (do
      makeFolder place .config
      makeFolder place .state
      makeDir place .wireguard
      makeDir place .providerEgress
      makeFolder place .recovery
      makeFolder place .backups
      p) Q E C (S .bare) := by
  have hfolder (l : Layout) (folder : Folder) (hf : l.folders folder = false) :
      wp A (makeFolder place folder) (fun _ m' => m' = S (l.mkFolder folder)) E C (S l) :=
    wp_create h (Or.inl (by simp [hS, hf])) fun _ => hon l _
  have hdir (l : Layout) (d : Sub) (hd : l.dirs d = none) :
      wp A (makeDir place d) (fun _ m' => m' = S (l.mkDir d)) E C (S l) :=
    wp_create h (Or.inl (by simp [hS, hd])) fun _ => hon l _
  refine wp_seq_eq (hfolder _ .config rfl) fun _ => wp_seq_eq (hfolder _ .state rfl) fun _ => ?_
  refine wp_seq_eq (hdir _ .wireguard rfl) fun _ =>
    wp_seq_eq (hdir _ .providerEgress rfl) fun _ => ?_
  refine wp_seq_eq (hfolder _ .recovery rfl) fun _ => wp_seq_eq (hfolder _ .backups rfl) fun _ => ?_
  rwa [mkSkeleton]

/-- `stage_empty` builds the whole tree, or does not return. -/
theorem wp_stageEmpty (h : Absorbs A E C) (ht : m.txn.isSome = true)
    (hpass : Passes E (m.layout .candidate = none)) :
    wp A (stageEmpty w) (fun _ m' => ∃ key : { b : Bytes // b.length = 32 },
      m' = m.setLayout .candidate (some (newTree w key.1))) E C m := by
  let S (l : Layout) : Machine := m.setLayout .candidate (some l)
  have hS (l : Layout) : (S l).layout .candidate = some l :=
    Machine.layout_setLayout (by decide) ht
  have hon (l : Layout) (f : Layout → Layout) : (S l).onLayout .candidate f = S (f l) :=
    Machine.onLayout_setLayout (by decide) ht
  have hget (l : Layout) (c : Component) : (S l).get ⟨.candidate, .file c⟩ = l.files c := by
    rw [Machine.get, hS]
    rfl
  refine wp_seq_eq (t := m) (h.check (fun _ _ => rfl) fun e he => ?_) fun _ => ?_
  · refine hpass.refuse (fun hnone => ?_) e m
    simp [hnone, require] at he
  refine wp_seq_eq (t := S .bare) (wp_create h (hpass.mono fun hnone => by simp [hnone])
    fun _ => rfl) fun _ => wp_makeSkeleton h hS hon ?_
  refine wp_seq_eq (wp_create h (Or.inl (by rw [hget]; rfl)) fun _ => hon _ _) fun _ => ?_
  refine wp_seq (R := fun _ m' => ∃ key : { b : Bytes // b.length = 32 }, m' =
    S (skeleton.set (.file .masterKey) (some ⟨key.1, privateMode⟩)))
    (h.prim fun r _ => ⟨r.token, (hon _ _).trans (by simp [Layout.set])⟩) ?_
  rintro - _ ⟨key, rfl⟩
  let keyed : Layout := skeleton.set (.file .masterKey) (some ⟨key.1, privateMode⟩)
  refine wp_seq_eq (t := S (keyed.set (.file .database) (some ⟨w.initial, defaultMode⟩)))
    (h.effect (hon _ _)) fun _ => ?_
  refine wp_seq_eq (t := S (keyed.set (.file .database) (some ⟨w.initial, privateMode⟩)))
    (h.atomic ?_) fun _ => ?_
  · rw [hget]
    exact (hon _ _).trans (by simp [Layout.set])
  refine wp_seq (wp_writeManifest h (Or.inl ⟨⟨key.1, privateMode⟩, by rw [hget]; rfl,
    isPrivate_privateMode _, key.2⟩)) ?_
  rintro - _ ⟨key', hkey', rfl⟩
  have hkey : key' = ⟨key.1, privateMode⟩ := by
    rw [hget] at hkey'
    simpa [keyed, Layout.set] using hkey'.symm
  have htree : (S (keyed.set (.file .database) (some ⟨w.initial, privateMode⟩))).set
      ⟨.candidate, .file .manifest⟩
      (some ⟨w.dumpManifest (buildManifest w key'.bytes), privateMode⟩) = S (newTree w key.1) := by
    refine (hon _ _).trans (congrArg S ?_)
    simp only [keyed, hkey, Layout.set, skeleton, newTree, Layout.mk.injEq, true_and, and_true]
    funext c
    cases c <;> rfl
  rw [htree]
  obtain ⟨inventory, hvalid, -⟩ := newTree_valid (w := w) key.2
  refine wp_seq_eq (t := S (newTree w key.1)) (wp_post (wp_validateAt h (Or.inl ⟨_, _, inventory,
    hS _, hvalid⟩)) fun _ _ h => h.1) fun _ => wp_pure ⟨key, rfl⟩

/-! ## What an attempt can leave behind -/

/-- An untouched volume. -/
structure Vacant (m : Machine) : Prop where
  live : m.live = .bare
  journal : m.journal = none
  txn : m.txn = none

/-- Directories without files and without a receipt. -/
structure Unmanifested (m : Machine) : Prop where
  journal : m.journal = none
  files : ∀ c, m.live.files c = none
  nonempty : m.live.isEmpty = false

/-- The live tree is tidy; the transaction and its receipt are given. -/
structure Framed (txn : Option Txn) (journal : Option Journal) (m : Machine) : Prop where
  tidy : Tidy m.live
  txn : m.txn = txn
  journal : m.journal = journal

/-- The pair is being staged. -/
def Staging (m : Machine) : Prop :=
  ∃ candidate, Framed (some ⟨none, candidate, none⟩) (some ⟨.initPreparing, []⟩) m

/-- The staged pair is complete. -/
def Staged (w : Platform) (key : Bytes) (m : Machine) : Prop :=
  Framed (some ⟨none, some (newTree w key), none⟩) (some ⟨.initReady, []⟩) m

/-- The new appliance, without a receipt. -/
structure Finished (w : Platform) (key : Bytes) (m : Machine) : Prop where
  tidy : Tidy m.live
  journal : m.journal = none
  state : logical w m.live = some (newState w key)

inductive Initialized (w : Platform) (m : Machine) : Prop
  | vacant (h : Vacant m)
  | unmanifested (h : Unmanifested m)
  | staging (h : Staging m)
  | staged (key : Bytes) (hkey : key.length = 32) (h : Staged w key m)
  | finished (key : Bytes) (hkey : key.length = 32) (h : Finished w key m)

namespace Framed

variable {t : Option Txn} {j : Option Journal}

theorem project (m : Machine) (d : Option { d : Dir // d.IsEgress }) (h : Framed t j m) :
    Framed t j (m.project d) := by
  refine ⟨Tidy.project m d h.tidy, by rw [project_txn, h.txn], ?_⟩
  rw [← h.journal]
  unfold Machine.project
  split <;> rfl

theorem stopWorker (m : Machine) (killed : Bool) (h : Framed t j m) :
    Framed t j (m.stopWorker w killed) := by
  obtain ⟨htxn, hjournal, -⟩ := tear_fields (w := w) m
  refine ⟨Tidy.stopWorker m killed h.tidy, ?_, ?_⟩
  · rw [← h.txn]
    unfold Machine.stopWorker
    cases m.worker && killed <;> first | rfl | assumption
  · rw [← h.journal]
    unfold Machine.stopWorker
    cases m.worker && killed <;> first | rfl | assumption

theorem hook : Preserves (Framed t j) hook := preserves_hook project

theorem quiesce : Preserves (Framed t j) (quiesce w) := preserves_quiesce project stopWorker

theorem publish {source : Place} (hne : source ≠ .live) :
    Preserves (Framed t j) (publish w source) := by
  intro A m h
  have hframe : Preserves (fun m => m.txn = t ∧ m.journal = j) (Recovery.publish w source) :=
    preserves_publish (fun _ _ _ h => h) fun _ _ h => h
  exact wp_mono (wp_and (TidyLive.publish hne A m h.tidy) (hframe A m ⟨h.txn, h.journal⟩))
    (fun _ _ h => ⟨h.1, h.2.1, h.2.2⟩) (fun _ _ h => ⟨h.1, h.2.1, h.2.2⟩)
    fun _ h => ⟨h.1, h.2.1, h.2.2⟩

end Framed

/-- The staged pair is published: `_resume` and `_cleanup` finish the initialization. -/
theorem Staged.wp_finish (hkey : key.length = 32) (h : Staged w key m)
    (hst : logical w m.live = some (newState w key)) :
    wpElse A (do let inventory ← resume w false; cleanup; return inventory)
      (fun _ => Initialized w) (Initialized w) m := by
  have hresume : Preserves (fun m => Staged w key m ∧ logical w m.live = some (newState w key))
      (resume w false) := by
    refine preserves_resume (fun m d h => ⟨h.1.project m d, ?_⟩)
      (fun m h => ⟨⟨h.1.tidy, h.1.txn, h.1.journal⟩, h.2⟩) false
    rw [logical_project]
    exact h.2
  refine wp_seq (hresume.through ⟨h, hst⟩ fun _ h => .staged key hkey h.1) fun _ m1 h1 => ?_
  refine wp_seq (R := fun _ => Initialized w) (wp_post (wp_cleanup_of (I := Initialized w)
    (.staged key hkey h1.1) fun txn => .finished key hkey ⟨h1.1.tidy, rfl, h1.2⟩)
    fun _ m' h => ?_) fun _ m2 h2 => wp_pure h2
  rw [h]
  exact .finished key hkey ⟨h1.1.tidy, rfl, h1.2⟩

theorem Staged.wp_publish (hkey : key.length = 32) (h : Staged w key m) :
    wpElse A (publish w .candidate) (fun _ m' => Staged w key m' ∧
      logical w m'.live = some (newState w key)) (Initialized w) m := by
  refine wp_mono (wp_and (Framed.publish (w := w) (by decide) A m h) (Recovery.wp_publish
    absorbs_true (by decide) (Or.inr fun _ _ => trivial))) ?_ (fun _ _ h => .staged key hkey h.1)
    fun _ h => .staged key hkey h.1
  rintro - m' ⟨hm', l, st, inventory, hl, hvalid, hpublished, -⟩
  have hlayout : m.layout .candidate = some (newTree w key) := by simp [Machine.layout, h.txn]
  rw [hlayout] at hl
  cases hl
  obtain ⟨i, hnew, -⟩ := newTree_valid (w := w) hkey
  have hst := hvalid.logical
  rw [hnew.logical] at hst
  cases hst
  exact ⟨hm', hpublished.logical hvalid⟩

theorem Staging.setCandidate (m : Machine) (l : Option Layout) (h : Staging m) :
    Staging (m.setLayout .candidate l) := by
  obtain ⟨c, hc⟩ := h
  refine ⟨l, by simpa [Machine.setLayout_live] using hc.tidy, ?_, by simpa using hc.journal⟩
  simp [Machine.setLayout, hc.txn]

/-- The pair is staged anew, and the receipt says so. -/
theorem Staging.wp_stage (h : Staging m) :
    wpElse A (stageInitial w) (fun _ m' => ∃ key, key.length = 32 ∧ Staged w key m')
      (Initialized w) m := by
  have hstage : Preserves Staging (stageEmpty w) := preserves_stageEmpty Staging.setCandidate
  obtain ⟨c, hc⟩ := h
  refine wp_seq (wp_with (hstage.through ⟨c, hc⟩ fun _ => .staging)
    (wp_stageEmpty (w := w) absorbs_true (by rw [hc.txn]; rfl) (Or.inr fun _ _ => trivial))) ?_
  rintro - m1 ⟨⟨c1, h1⟩, key, hm1⟩
  have hlayout : m1.layout .candidate = some (newTree w key.1) := by
    rw [hm1]
    exact Machine.layout_setLayout (by decide) (by rw [hc.txn]; rfl)
  have hc1 : c1 = some (newTree w key.1) := by
    rw [← hlayout]
    simp [Machine.layout, h1.txn]
  subst hc1
  have hstaging : Initialized w m1 := .staging ⟨_, h1⟩
  refine wp_seq_check hstaging fun _ _ => ?_
  have hnew : Staged w key.1 (recorded m1 .initReady []) := ⟨h1.tidy, h1.txn, rfl⟩
  refine wp_post
    (wp_record (I := Initialized w) (fun b => .staging ⟨_, h1.tidy, h1.txn, h1.journal⟩)
      (.staged key.1 key.2 hnew)) ?_
  rintro - _ rfl
  exact ⟨key.1, key.2, hnew⟩

theorem Staged.wp_recover (hkey : key.length = 32) (h : Staged w key m) :
    wpElse A (recoverTransaction w) (fun _ => Initialized w) (Initialized w) m := by
  have hlax (m : Machine) (h : Staged w key m) : Initialized w m := .staged key hkey h
  refine wp_seq (wp_readJournal (hlax m h)) ?_
  rintro receipt m ⟨rfl, hj⟩
  rw [h.journal] at hj
  cases hj
  refine wp_closed (fun _ h1 => Framed.hook.through h1 hlax)
    (fun _ h1 => Framed.quiesce.through h1 hlax) h fun m3 h3 => ?_
  exact wp_seq (Staged.wp_publish hkey h3) fun _ m4 h4 => h4.1.wp_finish hkey h4.2

theorem Staging.wp_recover (h : Staging m) :
    wpElse A (recoverTransaction w) (fun _ => Initialized w) (Initialized w) m := by
  obtain ⟨c, h⟩ := h
  have hlax (m : Machine) (h : Framed (some ⟨none, c, none⟩) (some ⟨.initPreparing, []⟩) m) :
      Initialized w m := .staging ⟨c, h⟩
  refine wp_seq (wp_readJournal (hlax m h)) ?_
  rintro receipt m ⟨rfl, hj⟩
  rw [h.journal] at hj
  cases hj
  refine wp_closed (fun _ h1 => Framed.hook.through h1 hlax)
    (fun _ h1 => Framed.quiesce.through h1 hlax) h fun m3 h3 => ?_
  -- what was staged before is removed
  refine wp_seq (R := fun _ m' => ∃ key, key.length = 32 ∧ Staged w key m' ∧
    logical w m'.live = some (newState w key)) ?_ fun _ m4 ⟨key, hkey, h4, hst⟩ =>
    h4.wp_finish hkey hst
  have hremove : Preserves Staging (.branch (fun m => (m.layout .candidate).isSome)
      (do syncTree .candidate; removeTree .candidate) (pure ())) :=
    preserves_branch (preserves_seq_check <|
      preserves_effect (fun m => Staging.setCandidate m _) fun _ m => Staging.setCandidate m _)
      (preserves_pure _)
  refine wp_seq (hremove.through ⟨c, h3⟩ fun _ => .staging) fun _ m4 h4 => ?_
  refine wp_seq h4.wp_stage fun _ m5 ⟨key, hkey, h5⟩ => ?_
  exact wp_post (h5.wp_publish hkey) fun _ _ h => ⟨key, hkey, h⟩

/-! ### The first attempt -/

/-- A creation leaves its target made or not. -/
theorem wp_create_of {I : Machine → Prop} {exists_ : Machine → Bool} {make : Machine → Machine}
    (hnot : exists_ m = false) (hm : I m) (hmade : I (make m)) :
    wpElse A (create exists_ make) (fun _ m' => m' = make m) I m := by
  have hpart (k : Nat) : I (if k = 0 || exists_ m then m else make m) := by
    split
    · exact hm
    · exact hmade
  refine wp_prim (fun _ _ => ?_) (fun k _ _ => hpart k) fun k _ => hpart k
  simp [hnot]

theorem skeleton_tidy : Tidy skeleton where
  folders _ := rfl
  files _ _ hf := nomatch hf
  dirs _ := ⟨.empty, rfl, fun _ hx => nomatch hx⟩
  paired := Or.inl rfl

theorem Vacant.wp_initializeRoot (h : Vacant m) :
    wpElse A (initializeRoot w) (fun _ m' => ∃ key, key.length = 32 ∧ Staged w key m')
      (Initialized w) m := by
  -- after the first directory the root is not empty any more
  have hpart (l : Layout) (txn : Option Txn) (b : Bool) (hfiles : l.files = Layout.bare.files)
      (hconfig : l.folders .config = true) :
      Initialized w { m with live := l, txn := txn, journalNew := b } :=
    .unmanifested ⟨h.journal, fun c => congrFun hfiles c, by simp [Layout.isEmpty, hconfig]⟩
  have hstep (l : Layout) (folder : Folder) (hfiles : l.files = Layout.bare.files)
      (hconfig : l.folders .config = true) (hnot : l.folders folder = false) :
      wpElse A (makeFolder .live folder) (fun _ m' => m' = { m with live := l.mkFolder folder })
        (Initialized w) { m with live := l } :=
    wp_create_of hnot (hpart l m.txn _ hfiles hconfig) (hpart (l.mkFolder folder) m.txn _ hfiles (by
      cases folder <;> simp [Layout.mkFolder, hconfig]))
  have hdir (l : Layout) (d : Sub) (hfiles : l.files = Layout.bare.files)
      (hconfig : l.folders .config = true) (hnot : l.dirs d = none) :
      wpElse A (makeDir .live d) (fun _ m' => m' = { m with live := l.mkDir d })
        (Initialized w) { m with live := l } :=
    wp_create_of (by simp [hnot]) (hpart l m.txn _ hfiles hconfig)
      (hpart (l.mkDir d) m.txn _ hfiles hconfig)
  have hstart : m = { m with live := .bare } := by rw [← h.live]
  refine wp_seq_eq (t := { m with live := Layout.mkFolder .config .bare }) ?_ fun _ => ?_
  · rw [hstart]
    exact wp_create_of rfl (.vacant ⟨rfl, h.journal, h.txn⟩) (hpart _ m.txn _ rfl rfl)
  refine wp_seq_eq (hstep _ .state rfl rfl rfl) fun _ => ?_
  refine wp_seq_eq (hdir _ .wireguard rfl rfl rfl) fun _ => ?_
  refine wp_seq_eq (hdir _ .providerEgress rfl rfl rfl) fun _ => ?_
  refine wp_seq_eq (hstep _ .recovery rfl rfl rfl) fun _ => ?_
  refine wp_seq_eq (hstep _ .backups rfl rfl rfl) fun _ => ?_
  rw [mkSkeleton]
  refine wp_seq_eq (t := { m with live := skeleton, txn := some ⟨none, none, none⟩ }) (wp_create_of
    (by simp [h.txn]) (hpart skeleton m.txn _ rfl rfl) (hpart skeleton _ _ rfl rfl)) fun _ => ?_
  have hnew : Staging (recorded { m with live := skeleton, txn := some ⟨none, none, none⟩ }
      .initPreparing []) := ⟨none, skeleton_tidy, rfl, rfl⟩
  exact wp_seq_eq (wp_record (fun b => hpart skeleton _ b rfl rfl) (.staging hnew)) fun _ =>
    hnew.wp_stage

/-! ### Every attempt -/

theorem Unmanifested.project (h : Unmanifested m) (d : Option { d : Dir // d.IsEgress }) :
    Unmanifested (m.project d) := by
  unfold Machine.project
  split <;> exact ⟨h.journal, h.files, h.nonempty⟩

theorem Unmanifested.stopWorker (h : Unmanifested m) (killed : Bool) :
    Unmanifested (m.stopWorker w killed) := by
  -- there is no database to tear
  have htear : m.tear w = m := by simp [Machine.tear, h.files]
  unfold Machine.stopWorker
  rw [htear, ite_self]
  exact ⟨h.journal, h.files, h.nonempty⟩

theorem Unmanifested.startWithoutReceipt : Preserves Unmanifested (startWithoutReceipt w) := by
  refine preserves_startWithoutReceipt (fun m d h => ?_) (fun m killed h => ?_) (fun m h => ?_)
    (fun m h => ?_) fun m j hj h => ?_
  · exact h.project d
  · exact h.stopWorker killed
  · exact ⟨h.journal, h.files, h.nonempty⟩
  · rw [show rollBackJournal m = m by simp [rollBackJournal, h.files]]
    exact h
  · rw [h.files] at hj
    cases hj

theorem Finished.startWithoutReceipt : Preserves (Finished w key) (startWithoutReceipt w) := by
  have hrest := ((hookProof_journal (w := w) (Q := fun j => j = none)).and (hookProof_live
    (Q := fun st => st = some (newState w key)))).startWithoutReceipt
  intro A m h
  exact wp_mono (wp_and (TidyLive.startWithoutReceipt (w := w) A m h.tidy)
    (hrest A m ⟨h.journal, h.state⟩)) (fun _ _ h => ⟨h.1, h.2.1, h.2.2⟩)
    (fun _ _ h => ⟨h.1, h.2.1, h.2.2⟩) fun _ h => ⟨h.1, h.2.1, h.2.2⟩

/-- Every attempt, wherever it stops, leaves one of the situations. -/
theorem Initialized.wp_startup (h : Initialized w m) :
    wpElse A (startup w) (fun _ => Initialized w) (Initialized w) m := by
  refine wp_try (?_ : wpElse A _ (fun _ => Initialized w) (Initialized w) m) fun _ _ h => wp_raise h
  refine wp_seq_check h fun _ _ => ?_
  have hsame (hnot : m.live.isEmpty = false) {Q : Unit → Machine → Prop} (hq : Q () m) :
      wpElse A (.branch (fun m => m.live.isEmpty) (initializeRoot w) (pure ())) Q
        (Initialized w) m := by
    refine wp_branch (fun hempty => ?_) fun _ => wp_pure hq
    rw [hnot] at hempty
    cases hempty
  cases h with
  | vacant hv =>
    refine wp_seq (R := fun _ m' => ∃ key, key.length = 32 ∧ Staged w key m')
      (wp_branch (fun _ => hv.wp_initializeRoot) fun hnot => ?_) ?_
    · rw [hv.live] at hnot
      cases hnot
    rintro - m1 ⟨key, hkey, h1⟩
    refine wp_branch (fun _ => h1.wp_recover hkey) fun hnone => ?_
    rw [h1.journal] at hnone
    cases hnone
  | unmanifested hu =>
    refine wp_seq (hsame hu.nonempty (Q := fun _ => Unmanifested) hu) fun _ m1 h1 => ?_
    refine wp_branch (fun hsome => ?_) fun _ => ?_
    · rw [h1.journal] at hsome
      cases hsome
    · exact wp_mono_else (Unmanifested.startWithoutReceipt A m1 h1) (fun _ _ => .unmanifested)
        fun _ => .unmanifested
  | staging hs =>
    obtain ⟨c, hc⟩ := hs
    refine wp_seq (hsame (TidyLive.not_isEmpty hc.tidy) (Q := fun _ => Framed _ _) hc)
      fun _ m1 h1 => wp_branch (fun _ => Staging.wp_recover ⟨c, h1⟩) fun hnone => ?_
    rw [h1.journal] at hnone
    cases hnone
  | staged key hkey hs =>
    refine wp_seq (hsame (TidyLive.not_isEmpty hs.tidy) (Q := fun _ => Staged w key) hs)
      fun _ m1 h1 => wp_branch (fun _ => h1.wp_recover hkey) fun hnone => ?_
    rw [h1.journal] at hnone
    cases hnone
  | finished key hkey hf =>
    refine wp_seq (hsame (TidyLive.not_isEmpty hf.tidy) (Q := fun _ => Finished w key) hf)
      fun _ m1 h1 => wp_branch (fun hsome => ?_) fun _ => ?_
    · rw [h1.journal] at hsome
      cases hsome
    · exact wp_mono_else (Finished.startWithoutReceipt A m1 h1) (fun _ _ => .finished key hkey)
        fun _ => .finished key hkey

theorem Unmanifested.reboot (h : Unmanifested m) (killed : Bool) :
    Unmanifested (m.reboot w killed) := by
  obtain ⟨hjournal, hfiles, hnonempty⟩ := h.stopWorker (w := w) killed
  exact ⟨hjournal, hfiles, hnonempty⟩

theorem Framed.reboot {t : Option Txn} {j : Option Journal} (h : Framed t j m) (killed : Bool) :
    Framed t j (m.reboot w killed) := by
  obtain ⟨htidy, htxn, hjournal⟩ := h.stopWorker (w := w) m killed
  exact ⟨htidy, htxn, hjournal⟩

theorem Initialized.reboot (h : Initialized w m) (killed : Bool) :
    Initialized w (m.reboot w killed) := by
  cases h with
  | vacant h =>
    have htear : m.tear w = m := by simp [Machine.tear, h.live, Layout.bare]
    refine .vacant ?_
    unfold Machine.reboot Machine.stopWorker
    rw [htear, ite_self]
    exact ⟨h.live, h.journal, h.txn⟩
  | unmanifested h => exact .unmanifested (h.reboot killed)
  | staging h =>
    obtain ⟨c, hc⟩ := h
    exact .staging ⟨c, hc.reboot killed⟩
  | staged key hkey h => exact .staged key hkey (Framed.reboot h killed)
  | finished key hkey h =>
    have hrest := ((hookProof_journal (w := w) (Q := fun j => j = none)).and (hookProof_live
      (Q := fun st => st = some (newState w key)))).stopWorker m killed ⟨h.journal, h.state⟩
    exact .finished key hkey ⟨Tidy.stopWorker m killed h.tidy, hrest.1, hrest.2⟩

/-- A volume that is given to the appliance for the first time. -/
def vacant : Machine := ⟨.bare, none, none, false, false, false, []⟩

/-- What any number of startups make of an empty volume. -/
inductive Initializing (w : Platform) : Machine → Prop
  | empty : Initializing w vacant
  | restarted {m : Machine} (killed : Bool) (ks : List (Signal Reply Code)) :
    Initializing w m → Initializing w (startup w (m.reboot w killed) ks).2.1

theorem Initializing.initialized (h : Initializing w m) : Initialized w m := by
  induction h with
  | empty => exact .vacant ⟨rfl, rfl, rfl⟩
  | @restarted m killed ks _ ih => exact ((ih.reboot killed).wp_startup).always (any_script ks)

/-! ## The next startup -/

/-- Staging and its receipt, from a transaction without a candidate. -/
theorem completes_stageInitial {j : Option Journal} (h : Framed (some ⟨none, none, none⟩) j m)
    (hidle : m.worker = false) : Completes (stageInitial w)
      (fun _ m' => m'.worker = false ∧ ∃ key, key.length = 32 ∧ Staged w key m') m := by
  have ht : m.txn.isSome = true := by rw [h.txn]; rfl
  refine wp_seq (wp_stageEmpty calm_absorbs ht (Or.inl (by simp [Machine.layout, h.txn]))) ?_
  rintro - _ ⟨key, rfl⟩
  refine wp_seq_eq (t := m.setLayout .candidate (some (newTree w key.1)))
    (calm_absorbs.check (fun _ _ => rfl) fun e he => ?_) fun _ => ?_
  · simp [Machine.layout_setLayout (show Place.candidate ≠ .live by decide) ht,
      newTree_private] at he
  refine wp_post (completes_record _ _ (h.tidy.folders _)) ?_
  rintro - _ rfl
  refine ⟨hidle, key.1, key.2, h.tidy, ?_, rfl⟩
  simp [recorded, Machine.setLayout, h.txn]

/-- A state of a new appliance. -/
def IsNew (w : Platform) (st : State) : Prop := ∃ key, key.length = 32 ∧ st = newState w key

theorem Staged.completes_publish (hkey : key.length = 32) (h : Staged w key m) {m1 : Machine}
    (hs : Still m m1) : Completes (publish w .candidate) (fun _ m' =>
      (∃ st, IsNew w st ∧ Ready w st m') ∧ ∃ t, m'.txn = some t ∧ t.isPrivate = true) m1 := by
  obtain ⟨inventory, hvalid, -⟩ := newTree_valid (w := w) hkey
  have hl : m.layout .candidate = some (newTree w key) := by simp [Machine.layout, h.txn]
  refine wp_post (hs.publish (newState_startable hkey) (by decide) hl hvalid) ?_
  rintro - m' ⟨hready, htxn⟩
  refine ⟨⟨_, ⟨key, hkey, rfl⟩, hready⟩, _, htxn.trans h.txn, ?_⟩
  rw [Txn.isPrivate, newTree_private]
  rfl

theorem Staged.completes_recover (hkey : key.length = 32) (h : Staged w key m)
    (hidle : m.worker = false) :
    Completes (recoverTransaction w) (fun _ m' => ∃ st, IsNew w st ∧ Serving w st m') m :=
  completes_recoverTransaction h.journal (Nat.zero_le _) (.refl h.tidy hidle) fun _ hs =>
    h.completes_publish hkey hs

theorem Staging.completes_recover (h : Staging m) (hidle : m.worker = false)
    (hprivate : ∀ l, m.layout .candidate = some l → isPrivateTree (some l) = true) :
    Completes (recoverTransaction w) (fun _ m' => ∃ st, IsNew w st ∧ Serving w st m') m := by
  obtain ⟨c, h⟩ := h
  refine completes_recoverTransaction h.journal (Nat.zero_le _) (.refl h.tidy hidle)
    fun m1 h1 => ?_
  have htxn1 : m1.txn = some ⟨none, c, none⟩ := h1.txn.trans h.txn
  refine wp_seq (R := fun _ m' => m'.worker = false ∧ ∃ j, Framed (some ⟨none, none, none⟩) j m')
    (wp_branch (fun hsome => ?_) fun hnone => ?_) ?_
  · obtain ⟨l, hl⟩ := Option.isSome_iff_exists.mp hsome
    have hp : isPrivateTree (some l) = true := by
      refine hprivate l ?_
      rw [← hl]
      exact (Machine.layout_congr (by decide) h1.txn).symm
    refine wp_seq_eq (t := m1) (calm_absorbs.check (fun _ _ => rfl) fun e he => ?_) fun _ => ?_
    · simp [hl, hp] at he
    · refine calm_absorbs.effect ⟨h1.idle, m1.journal, h1.tidy, ?_, rfl⟩
      simp [Machine.setLayout, htxn1]
  · have hc : c = none := by simpa [Machine.layout, htxn1] using hnone
    subst hc
    exact wp_pure ⟨h1.idle, m1.journal, h1.tidy, htxn1, rfl⟩
  rintro - m2 ⟨hidle2, j, h2⟩
  refine wp_seq (completes_stageInitial h2 hidle2) ?_
  rintro - m3 ⟨hidle3, key, hkey, h3⟩
  exact h3.completes_publish hkey (.refl h3.tidy hidle3)

theorem Vacant.completes_initializeRoot (h : Vacant m) (hidle : m.worker = false) :
    Completes (initializeRoot w)
      (fun _ m' => m'.worker = false ∧ ∃ key, key.length = 32 ∧ Staged w key m') m := by
  have hstart : m = { m with live := .bare } := by rw [← h.live]
  rw [hstart]
  refine wp_makeSkeleton (S := fun l => { m with live := l }) calm_absorbs (fun _ => rfl)
    (fun _ _ => rfl) ?_
  refine wp_seq_eq (t := { m with live := skeleton, txn := some ⟨none, none, none⟩ })
    (wp_create calm_absorbs (Or.inl (by simp [h.txn])) fun _ => rfl) fun _ => ?_
  refine wp_seq_eq (completes_record _ _ rfl) fun _ => ?_
  exact completes_stageInitial ⟨skeleton_tidy, rfl, rfl⟩ hidle

theorem Vacant.completes_startup (h : Vacant m) (hidle : m.worker = false) :
    Completes (startup w) (fun _ m' => ∃ st, IsNew w st ∧ Serving w st m') m := by
  refine wp_try (?_ : Completes _ (fun _ m' => ∃ st, IsNew w st ∧ Serving w st m') m)
    fun _ _ => False.elim
  refine wp_seq_eq (wp_leased calm_absorbs rfl) fun _ => ?_
  refine wp_seq (R := fun _ m' => m'.worker = false ∧ ∃ key : Bytes, key.length = 32 ∧
    Staged w key m') (wp_branch (fun _ => h.completes_initializeRoot hidle) fun hnot => ?_) ?_
  · rw [h.live] at hnot
    cases hnot
  rintro - m1 ⟨hidle1, key, hkey, h1⟩
  refine wp_branch (fun _ => h1.completes_recover hkey hidle1) fun hnone => ?_
  rw [h1.journal] at hnone
  cases hnone

theorem Initialized.completes_startup (h : Initialized w m) (hidle : m.worker = false)
    (hmanifest : ¬ Unmanifested m)
    (hprivate : ∀ l, m.layout .candidate = some l → isPrivateTree (some l) = true) :
    Completes (startup w) (fun _ m' => ∃ st, IsNew w st ∧ Serving w st m') m := by
  cases h with
  | vacant h => exact h.completes_startup hidle
  | unmanifested h => exact absurd h hmanifest
  | staging h =>
    obtain ⟨c, hc⟩ := h
    refine Recovery.completes_startup hc.tidy (fun _ => Staging.completes_recover ⟨c, hc⟩ hidle
      hprivate) fun hnone => ?_
    rw [hc.journal] at hnone
    cases hnone
  | staged key hkey h =>
    refine Recovery.completes_startup h.tidy (fun _ => h.completes_recover hkey hidle)
      fun hnone => ?_
    rw [h.journal] at hnone
    cases hnone
  | finished key hkey h =>
    refine Recovery.completes_startup h.tidy (fun hsome => ?_) fun _ => ?_
    · rw [h.journal] at hsome
      cases hsome
    · have hsettling : Settling w (newState w key) m :=
        ⟨h.tidy, hidle, h.state, newState_startable hkey⟩
      exact wp_post hsettling.startWithoutReceipt fun _ _ h => ⟨_, ⟨key, hkey, rfl⟩, h⟩

/-- Without a database the strict check refuses, and its refusal goes to `g`. -/
theorem Unmanifested.handleRefusal (h : Unmanifested m) {g : Code → Act StateInventory}
    (hg : ∀ e, wp calm (g e) (fun _ _ => False) (fun _ => Unmanifested) (fun _ => False) m) :
    wp calm ((validateAt w .live).handle g) (fun _ _ => False) (fun _ => Unmanifested)
      (fun _ => False) m := by
  refine wp_handle (calm_absorbs.check (fun i hok => ?_) fun e _ => hg e)
  obtain ⟨st, hvalid⟩ := validate_eq_ok.mp hok
  obtain ⟨f, hf, -⟩ := hvalid.pair.database
  rw [h.files] at hf
  cases hf

/-- A skeleton is refused, without adoption. -/
theorem Unmanifested.startup (h : Unmanifested m) :
    wp calm (startup w) (fun _ _ => False) (fun _ => Unmanifested) (fun _ => False) m := by
  have hhook {m : Machine} (h : Unmanifested m) : wp calm hook (fun _ => Unmanifested)
      (fun _ => Unmanifested) (fun _ => False) m :=
    wp_mono (completes_hook h.project) (fun _ _ => id) (fun _ _ => False.elim) fun _ => id
  refine wp_try (?_ : wp calm _ (fun _ _ => False) (fun _ => Unmanifested)
    (fun _ => False) m) fun _ _ h => wp_raise h
  refine wp_seq_eq (wp_leased calm_absorbs rfl) fun _ => ?_
  refine wp_seq_eq (t := m) (wp_branch (fun hempty => ?_) fun _ => wp_pure rfl) fun _ => ?_
  · rw [h.nonempty] at hempty
    cases hempty
  refine wp_branch (fun hsome => ?_) fun _ => ?_
  · rw [h.journal] at hsome
    cases hsome
  refine wp_seq_eq (t := m) (calm_absorbs.prim fun _ _ => rfl) fun pending => ?_
  refine wp_seq (R := fun _ _ => False) (h.handleRefusal fun e => ?_) fun _ _ => False.elim
  refine wp_seq (R := fun _ => Unmanifested) (wp_demand (fun _ => h) fun _ => h) fun _ m1 h1 => ?_
  refine wp_seq (hhook h1) fun _ m2 h2 => ?_
  refine wp_seq (R := fun _ => Unmanifested) (wp_seq (hhook h2) fun _ m3 h3 =>
    calm_absorbs.prim fun r _ => h3.stopWorker r.killed) fun _ m3 h3 => ?_
  refine wp_seq (wp_leased (Q := fun _ => Unmanifested) calm_absorbs h3) fun _ m4 h4 => ?_
  refine h4.handleRefusal fun e => ?_
  refine wp_seq (R := fun _ => Unmanifested) (wp_demand (fun _ => h4) fun _ => h4) fun _ m5 h5 => ?_
  refine wp_seq_eq (t := m5) (calm_absorbs.effect (by simp [rollBackJournal, h5.files])) fun _ => ?_
  refine wp_seq (R := fun _ _ => False) (calm_absorbs.check (fun _ hok => ?_) fun _ _ => h5)
    fun _ _ => False.elim
  simp [readDatabase, Layout.get, h5.files] at hok

/-- **The first initialization.** After any number of attempts, each of which may have raised or
died at any step, a skeleton of directories without a receipt is refused and left as it is. From
everything else, if the files of the staged tree are private, a startup in which nothing fails
completes, and the live tree is that of a new appliance with a manifest for its key. -/
theorem initialization_recovers (hm : Initializing w m) (killed : Bool)
    {ks : List (Signal Reply Code)} (hks : calm.Script ks) :
    (Unmanifested (m.reboot w killed) →
      (∃ e, (startup w (m.reboot w killed) ks).1 = .raised e) ∧
        Unmanifested (startup w (m.reboot w killed) ks).2.1) ∧
    (¬ Unmanifested (m.reboot w killed) →
      (∀ l, (m.reboot w killed).layout .candidate = some l → isPrivateTree (some l) = true) →
      (∃ inventory, (startup w (m.reboot w killed) ks).1 = .ok inventory) ∧
        ∃ st inventory, Valid w (startup w (m.reboot w killed) ks).2.1.live st inventory ∧
          st.content = w.initialContent ∧ st.wireguard = (fun _ => none) ∧
          w.loadManifest st.manifest = some (buildManifest w st.key)) := by
  have hinit := hm.initialized.reboot killed
  constructor
  · intro hu
    have hpost := (Unmanifested.startup (w := w) hu).holds hks
    revert hpost
    cases (startup w (m.reboot w killed) ks).1 with
    | ok inventory => exact False.elim
    | raised e => exact fun h => ⟨⟨e, rfl⟩, h⟩
    | crashed => exact False.elim
  · intro hmanifest hprivate
    obtain ⟨inventory, hok, st, ⟨key, hkey, rfl⟩, hserving⟩ :=
      (hinit.completes_startup (reboot_idle m killed) hmanifest hprivate).returns hks
    obtain ⟨i, hvalid, -⟩ := hserving.tidy.startable hserving.cold hserving.state
      (newState_startable hkey)
    exact ⟨⟨inventory, hok⟩, _, i, hvalid, rfl, rfl, hvalid.manifestMatches⟩

end

/-- A first attempt that died at step `n`. -/
def demoFirst (n : Nat) : Machine :=
  (startup demoPlatform (vacant.reboot demoPlatform false) (diesAt n)).2.1

theorem demo_initializing (n : Nat) : Initializing demoPlatform (demoFirst n) :=
  .restarted false (diesAt n) .empty

/-- The first attempt died in the middle of the publication. -/
theorem initialization_recovers_demo :
    (∃ inventory, (startup demoPlatform ((demoFirst 45).reboot demoPlatform false) []).1 =
      .ok inventory) ∧ ∃ st inventory,
      Valid demoPlatform
        (startup demoPlatform ((demoFirst 45).reboot demoPlatform false) []).2.1.live st inventory ∧
      st.content = demoPlatform.initialContent ∧ st.wireguard = (fun _ => none) ∧
      demoPlatform.loadManifest st.manifest = some (buildManifest demoPlatform st.key) := by
  refine (initialization_recovers (demo_initializing 45) false demo_calm).2 (fun hu => ?_)
    fun l hl => ?_
  · have hsome : ((demoFirst 45).reboot demoPlatform false).journal.isSome = true := by
      decide +kernel
    rw [hu.journal] at hsome
    cases hsome
  · have hprivate : isPrivateTree (((demoFirst 45).reboot demoPlatform false).layout .candidate) =
        true := by decide +kernel
    rwa [hl] at hprivate

/-- The first attempt died after the first directory, or when the staged database was complete but
not yet private. -/
theorem initialization_stuck :
    (Initializing demoPlatform (demoFirst 2) ∧
      (startup demoPlatform ((demoFirst 2).reboot demoPlatform false) []).1 =
        .raised .containerStateComponentMissing) ∧
    (Initializing demoPlatform (demoFirst 24) ∧
      (startup demoPlatform ((demoFirst 24).reboot demoPlatform false) []).1 =
        .raised .recoveryComponentUnsafe) :=
  ⟨⟨demo_initializing 2, by decide +kernel⟩, ⟨demo_initializing 24, by decide +kernel⟩⟩

end ExitLane.Recovery
