import ExitLane.Recovery.Files

/-!
# Restores and startups are atomic under crashes

`Inv` relates the phase of the receipt, the previous tree and the live tree in
every state that a restore or a startup can leave behind. Between the first
publication and the commit it says nothing about the live tree: what counts there
is that the previous tree, if it validates, means the old state. It validates
only when the snapshot was complete, because the projections are copied last.
`restore_atomic` follows by induction on the attempts.
-/

namespace ExitLane.Recovery
open Python Effect

/-! ## The history of receipts -/

variable (trace : List Event) {content : Content}

/-- `committed` was recorded, and `rollback_required` was not recorded after it. -/
def Committed : Prop :=
  ∃ before after, trace = before ++ .recorded .committed :: after ∧
    .recorded .rollbackRequired ∉ after

def commitStep (b : Bool) : Event → Bool
  | .recorded .committed => true
  | .recorded .rollbackRequired => false
  | _ => b

def wasCommitted : Bool := trace.foldl commitStep false

theorem wasCommitted_append (e : Event) :
    wasCommitted (trace ++ [e]) = commitStep (wasCommitted trace) e := by
  simp [wasCommitted]

theorem committed_append (e : Event) : Committed (trace ++ [e]) ↔
    e = .recorded .committed ∨ (e ≠ .recorded .rollbackRequired ∧ Committed trace) := by
  constructor
  · rintro ⟨before, after, he, hafter⟩
    rcases List.eq_nil_or_concat after with rfl | ⟨after, x, rfl⟩
    · obtain ⟨-, hlast⟩ := List.append_inj' he rfl
      exact Or.inl (by simpa using hlast)
    · rw [List.concat_eq_append, ← List.cons_append, ← List.append_assoc] at he
      obtain ⟨htrace, hlast⟩ := List.append_inj' he rfl
      simp only [List.cons.injEq, and_true] at hlast
      subst hlast
      refine Or.inr ⟨?_, before, after, htrace, ?_⟩
      · rintro rfl
        simp at hafter
      · simp at hafter
        exact hafter.1
  · rintro (rfl | ⟨hne, before, after, rfl, hafter⟩)
    · exact ⟨trace, [], rfl, by simp⟩
    · exact ⟨before, after ++ [e], by simp, by simpa [hafter] using hne.symm⟩

theorem wasCommitted_iff : wasCommitted trace = true ↔ Committed trace := by
  induction trace using List.reverseRecOn with
  | nil => simp [wasCommitted, Committed]
  | append_singleton trace e ih =>
    rw [wasCommitted_append, committed_append, ← ih]
    unfold commitStep
    split <;> simp_all

/-- The events before the way back begins. -/
def forward : List Event :=
  trace.takeWhile fun e => e ≠ .recorded .rollbackRequired

theorem mem_forward_append {e : Event} {trace : List Event} (h : e ∈ forward trace)
    (more : List Event) : e ∈ forward (trace ++ more) := by
  unfold forward at *
  rw [List.takeWhile_append]
  split
  · exact List.mem_append_left _ ((List.takeWhile_sublist _).mem h)
  · exact h

theorem forward_eq_self {trace : List Event} (h : .recorded .rollbackRequired ∉ trace) :
    forward trace = trace := by
  rw [forward, List.takeWhile_eq_self_iff]
  intro e he
  have : e ≠ .recorded .rollbackRequired := fun heq => h (heq ▸ he)
  simpa using this

/-- A state on which a startup can complete. -/
structure Startable (w : Platform) (st : State) : Prop where
  valid : ∃ l inventory, Valid w l st inventory ∧ inventory.recoveryRequired = false
  ingress : ∃ ids, w.ingress st.content = .ok ids

/-- The state that the receipts so far have settled on. -/
def settledOn (P C : State) (trace : List Event) : State := if wasCommitted trace then C else P

/-! ## The invariant -/

structure Inv (w : Platform) (P C : State) (m : Machine) : Prop where
  /-- Without a receipt, and before and after the publications, the live tree is settled. -/
  live : (∀ j, m.journal = some j → j.phase = .prepared ∨ j.phase = .committed) →
    logical w m.live = some (settledOn P C m.trace)
  phase : ∀ j, m.journal = some j → j.phase ≠ .initPreparing ∧ j.phase ≠ .initReady ∧
    (j.phase = .committed ↔ wasCommitted m.trace = true)
  previous : ∀ j, m.journal = some j → ∀ l inventory, m.layout .previous = some l →
    l.validate w = .ok inventory → logical w l = some P
  snapshot : ∀ j, m.journal = some j → j.phase ≠ .prepared → (m.layout .previous).isSome = true
  root : m.live.folders .recovery = true
  /-- A commit is recorded only after a publication and all checks of the candidate. -/
  commit : wasCommitted m.trace = true → Startable w C ∧ .replaced .database ∈ forward m.trace

section
variable {w : Platform} {P C : State} {m m' : Machine} {ingress : List IngressIdentity}
  {I : Machine → Prop} {b : Bool} {A : Regime Reply Code} {candidate : State} {phase : Phase}
  {backup : Backup} {confirmation : Text} {start : Machine}

namespace Inv

/-- The invariant looks at the meaning of the live tree, not at its bytes. -/
theorem congr (h : Inv w P C m) (htxn : m'.txn = m.txn) (hjournal : m'.journal = m.journal)
    (htrace : m'.trace = m.trace) (hlive : logical w m'.live = logical w m.live)
    (hroot : m'.live.folders = m.live.folders) : Inv w P C m' where
  live := by
    rw [hjournal, hlive, htrace]
    exact h.live
  phase := by
    rw [hjournal, htrace]
    exact h.phase
  previous := by
    rw [hjournal, Machine.layout_congr (by decide) htxn]
    exact h.previous
  snapshot := by
    rw [hjournal, Machine.layout_congr (by decide) htxn]
    exact h.snapshot
  root := by
    rw [hroot]
    exact h.root
  commit := by
    rw [htrace]
    exact h.commit

/-- Trees other than the previous one do not matter. -/
theorem setLayout (h : Inv w P C m) {place : Place} (hlive : place ≠ .live)
    (hprevious : Place.previous ≠ place) (l : Option Layout) : Inv w P C (m.setLayout place l) where
  live := by simpa [Machine.setLayout_live hlive] using h.live
  phase := by simpa using h.phase
  previous := by simpa [Machine.layout_setLayout_ne hprevious] using h.previous
  snapshot := by simpa [Machine.layout_setLayout_ne hprevious] using h.snapshot
  root := by simpa [Machine.setLayout_live hlive] using h.root
  commit := by simpa using h.commit

end Inv

theorem logical_project (m : Machine) (d : Option { d : Dir // d.IsEgress }) :
    logical w (m.project d).live = logical w m.live := by
  unfold Machine.project
  split <;> rfl

theorem image_tear (m : Machine) : (m.tear w).live.image = m.live.image := by
  unfold Machine.tear
  split
  · next f hf hj => simp [Layout.image, hj, hf]
  · rfl

theorem tear_fields (m : Machine) : (m.tear w).txn = m.txn ∧ (m.tear w).journal = m.journal ∧
    (m.tear w).trace = m.trace ∧ (m.tear w).journalled = m.journalled ∧
    (m.tear w).live.folders = m.live.folders ∧ (m.tear w).live.dirs = m.live.dirs ∧
    ∀ c, c ≠ .database → c ≠ .databaseJournal → (m.tear w).live.files c = m.live.files c := by
  unfold Machine.tear
  split
  · refine ⟨rfl, rfl, rfl, rfl, rfl, rfl, fun c h1 h2 => ?_⟩
    simp [Function.update_of_ne h1, Function.update_of_ne h2]
  · exact ⟨rfl, rfl, rfl, rfl, rfl, rfl, fun _ _ _ => rfl⟩

theorem logical_tear (m : Machine) : logical w (m.tear w).live = logical w m.live := by
  obtain ⟨-, -, -, -, -, hdirs, hfiles⟩ := tear_fields (w := w) m
  simp only [logical, image_tear, hdirs, hfiles .masterKey (by decide) (by decide),
    hfiles .manifest (by decide) (by decide)]

theorem logical_stopWorker (m : Machine) (killed : Bool) :
    logical w (m.stopWorker w killed).live = logical w m.live := by
  unfold Machine.stopWorker
  cases m.worker && killed
  · rfl
  · exact logical_tear m

section
variable {A : Regime Reply Code} {K E : Machine → Prop} {α : Type} {m : Machine}

/-- The appliance is closed before a recovery touches anything. -/
theorem wp_closed {p : Act α} {Q : α → Machine → Prop}
    (hhook : ∀ m, K m → wpElse A hook (fun _ => K) E m)
    (hquiesce : ∀ m, K m → wpElse A (quiesce w) (fun _ => K) E m) (h : K m)
    (hp : ∀ m, K m → wpElse A p Q E m) :
    wpElse A (do guard; quiesce w; resetEgress; p) Q E m :=
  wp_seq (hhook m h) fun _ m1 h1 => wp_seq (hquiesce m1 h1) fun _ m2 h2 =>
    wp_seq (hhook m2 h2) fun _ m3 h3 => hp m3 h3

/-- The handler of `restore`, if the rollback leaves `K` where it fails. -/
theorem wp_restoreHandler (hhook : Preserves K hook)
    (hquiesce : ∀ m, K m → wpElse A (quiesce w) (fun _ => K) K m) (hlax : ∀ m, K m → E m)
    (hrollback : m.journalled = true → wpElse A (rollback w) (fun _ => E) K m)
    (hremove : m.journalled = false → wpElse A removeTransaction (fun _ => E) E m) (e : Code) :
    wpElse A (restoreHandler w e) (fun _ => E) E m := by
  have hguard : Preserves K (Proc.handle (do let _ ← readJournal; guard) fun _ => pure ()) :=
    preserves_handle (preserves_seq_check hhook) fun _ => preserves_pure _
  refine wp_branch (fun hknown => ?_) fun hnot => ?_
  · refine wp_seq (R := fun _ => E) (wp_handle (wp_mono (hrollback hknown) (fun _ _ => id)
      (fun _ m1 h1 => ?_) hlax)) fun _ m1 h1 => wp_raise h1
    refine wp_seq (hguard.through h1 hlax) fun _ m2 h2 => ?_
    exact wp_seq (wp_else (wp_try (hquiesce m2 h2) fun _ _ h => wp_pure h) hlax) fun _ m3 h3 =>
      wp_raise (hlax m3 h3)
  · exact wp_seq (hremove hnot) fun _ m1 h1 => wp_raise h1

end

/-- What an invariant must not look at to survive the hooks and the worker. -/
structure HookProof (w : Platform) (I : Machine → Prop) : Prop where
  congr : ∀ m m', m'.txn = m.txn → m'.journal = m.journal → m'.trace = m.trace →
    m'.journalled = m.journalled → logical w m'.live = logical w m.live →
    m'.live.folders = m.live.folders → I m → I m'

namespace HookProof

variable {I : Machine → Prop}

section
variable (h : HookProof w I)
include h

theorem project (m : Machine) (d : Option { d : Dir // d.IsEgress })
    (hm : I m) : I (m.project d) := by
  refine h.congr m _ ?_ ?_ ?_ ?_ (logical_project m d) ?_ hm <;>
    (unfold Machine.project; split <;> rfl)

theorem stopWorker (m : Machine) (killed : Bool) (hm : I m) : I (m.stopWorker w killed) := by
  obtain ⟨htxn, hjournal, htrace, hjournalled, hfolders, -, -⟩ := tear_fields (w := w) m
  refine h.congr m _ ?_ ?_ ?_ ?_ (logical_stopWorker m killed) ?_ hm <;>
    (unfold Machine.stopWorker; cases m.worker && killed <;> first | rfl | assumption)

theorem hook : Preserves I hook := preserves_hook h.project

theorem quiesce : Preserves I (quiesce w) :=
  preserves_quiesce h.project h.stopWorker

theorem health : Preserves I health :=
  preserves_health h.project fun m hm => h.congr m _ rfl rfl rfl rfl rfl rfl hm

theorem resume (pending : Bool) : Preserves I (resume w pending) :=
  preserves_resume h.project (fun m hm => h.congr m _ rfl rfl rfl rfl rfl rfl hm) pending

end

end HookProof

theorem HookProof.closed {A : Regime Reply Code} {I E : Machine → Prop} {α : Type} {p : Act α}
    {Q : α → Machine → Prop} {m : Machine} (h : HookProof w I) (hlax : ∀ m, I m → E m) (hm : I m)
    (hp : ∀ m, I m → wpElse A p Q E m) :
    wpElse A (do guard; Recovery.quiesce w; resetEgress; p) Q E m :=
  wp_closed (fun _ h1 => h.hook.through h1 hlax) (fun _ h1 => h.quiesce.through h1 hlax) hm hp

/-! ## Receipts -/

/-- The machine after the replacement of the receipt. -/
def recorded (m : Machine) (phase : Phase) (ingress : List IngressIdentity) : Machine :=
  { m with
    journal := some ⟨phase, ingress⟩
    journalNew := false
    trace := m.trace ++ [.recorded phase] }

/-- `_record` leaves the old receipt or the new one. -/
theorem wp_record {A : Regime Reply Code} {phase : Phase}
    (hold : ∀ b, I { m with journalNew := b }) (hnew : I (recorded m phase ingress)) :
    wpElse A (record phase ingress) (fun _ m' => m' = recorded m phase ingress) I m := by
  have hm : I m := hold m.journalNew
  refine wp_seq_check hm fun _ _ => ?_
  refine wp_seq_check hm fun _ _ => ?_
  refine wp_seq (R := fun _ m' => ∃ b, m' = { m with journalNew := b }) (wp_branch (fun _ => ?_)
    fun _ => wp_pure ⟨m.journalNew, rfl⟩) ?_
  · exact wp_atomic ⟨false, rfl⟩ (fun _ _ _ => ⟨hm, hold false⟩) fun _ _ => ⟨hm, hold false⟩
  rintro - _ ⟨b, rfl⟩
  refine wp_seq_eq (t := { m with journalNew := true }) (wp_atomic rfl
    (fun _ _ _ => ⟨hold b, hold true⟩) fun _ _ => ⟨hold b, hold true⟩) fun _ => ?_
  refine wp_seq_eq (t := recorded m phase ingress) (wp_atomic rfl
    (fun _ _ _ => ⟨hold true, hnew⟩) fun _ _ => ⟨hold true, hnew⟩) fun _ => ?_
  exact wp_check_post hnew fun _ _ => rfl

theorem preserves_record (phase : Phase) (ingress : List IngressIdentity)
    (hold : ∀ m b, I m → I { m with journalNew := b })
    (hnew : ∀ m, I m → I (recorded m phase ingress)) : Preserves I (record phase ingress) := by
  intro A m hm
  exact wp_post (wp_record (fun b => hold m b hm) (hnew m hm))
    fun _ m' h => by rw [h]; exact hnew m hm

/-- The phases between the snapshot and the commit, and the rollback. -/
def Phase.isMiddle : Phase → Bool
  | .snapshotReady | .publishing | .installed | .validated | .rollbackRequired => true
  | _ => false

namespace Inv

theorem journalNew (h : Inv w P C m) (b : Bool) : Inv w P C { m with journalNew := b } :=
  h.congr rfl rfl rfl rfl rfl

theorem of_none (hjournal : m.journal = none)
    (hlive : logical w m.live = some (settledOn P C m.trace))
    (hroot : m.live.folders .recovery = true)
    (hcommit : wasCommitted m.trace = true → Startable w C ∧
      .replaced .database ∈ forward m.trace) : Inv w P C m where
  live _ := hlive
  phase j hj := by simp [hjournal] at hj
  previous j hj := by simp [hjournal] at hj
  snapshot j hj := by simp [hjournal] at hj
  root := hroot
  commit := hcommit

theorem record_prepared (h : Inv w P C m) (hjournal : m.journal = none)
    (hprevious : m.layout .previous = none) (hnot : wasCommitted m.trace = false) :
    Inv w P C (recorded m .prepared ingress) where
  live _ := by
    have := h.live (by simp [hjournal])
    simpa [recorded, settledOn, wasCommitted_append, commitStep] using this
  phase j hj := by
    cases hj
    simp [recorded, wasCommitted_append, commitStep, hnot]
  previous j _ l inventory hl := by
    rw [show (recorded m .prepared ingress).layout .previous = m.layout .previous from rfl,
      hprevious] at hl
    cases hl
  snapshot j hj hne := by
    cases hj
    exact absurd rfl hne
  root := h.root
  commit hc := by simp [recorded, wasCommitted_append, commitStep, hnot] at hc

theorem record_middle (h : Inv w P C m) {phase : Phase} (hmiddle : phase.isMiddle = true)
    (hnot : commitStep (wasCommitted m.trace) (.recorded phase) = false)
    (hprevious : ∃ l, m.layout .previous = some l ∧
      ∀ inventory, l.validate w = .ok inventory → logical w l = some P) :
    Inv w P C (recorded m phase ingress) where
  live hall := by
    rcases hall _ rfl with hp | hp <;> (change phase = _ at hp; subst hp; cases hmiddle)
  phase j hj := by
    cases hj
    simp only [recorded, wasCommitted_append, hnot, Bool.false_eq_true, iff_false]
    cases phase <;> simp [Phase.isMiddle] at hmiddle ⊢
  previous j _ l inventory hl hvalid := by
    obtain ⟨l', hl', hgood⟩ := hprevious
    rw [show (recorded m phase ingress).layout .previous = m.layout .previous from rfl, hl'] at hl
    cases hl
    exact hgood inventory hvalid
  snapshot j _ _ := by
    obtain ⟨l', hl', -⟩ := hprevious
    rw [show (recorded m phase ingress).layout .previous = m.layout .previous from rfl, hl']
    rfl
  root := h.root
  commit hc := by simp [recorded, wasCommitted_append, hnot] at hc

theorem record_committed (h : Inv w P C m) (hlive : logical w m.live = some C)
    (hstartable : Startable w C) (hforward : .replaced .database ∈ forward m.trace)
    (hprevious : ∃ l, m.layout .previous = some l ∧
      ∀ inventory, l.validate w = .ok inventory → logical w l = some P) :
    Inv w P C (recorded m .committed ingress) where
  live _ := by simpa [recorded, settledOn, wasCommitted_append, commitStep] using hlive
  phase j hj := by
    cases hj
    simp [recorded, wasCommitted_append, commitStep]
  previous j _ l inventory hl hvalid := by
    obtain ⟨l', hl', hgood⟩ := hprevious
    rw [show (recorded m .committed ingress).layout .previous = m.layout .previous from rfl,
      hl'] at hl
    cases hl
    exact hgood inventory hvalid
  snapshot j _ _ := by
    obtain ⟨l', hl', -⟩ := hprevious
    rw [show (recorded m .committed ingress).layout .previous = m.layout .previous from rfl, hl']
    rfl
  root := h.root
  commit _ := ⟨hstartable, mem_forward_append hforward _⟩

/-- While a publication may be under way, the live tree may be anything. -/
theorem change_live (h : Inv w P C m) (hmiddle : ∃ j, m.journal = some j ∧ j.phase.isMiddle = true)
    {l : Layout} (hroot : l.folders = m.live.folders) : Inv w P C { m with live := l } where
  live hall := by
    obtain ⟨j, hj, hmid⟩ := hmiddle
    rcases hall j hj with hp | hp <;> (rw [hp] at hmid; cases hmid)
  phase := h.phase
  previous := h.previous
  snapshot := h.snapshot
  root := by
    change l.folders .recovery = true
    rw [hroot]
    exact h.root
  commit := h.commit

theorem replaced (h : Inv w P C m) (c : Component) :
    Inv w P C { m with trace := m.trace ++ [.replaced c] } := by
  have hsame : wasCommitted (m.trace ++ [.replaced c]) = wasCommitted m.trace :=
    wasCommitted_append m.trace _
  refine ⟨fun hall => ?_, fun j hj => ?_, h.previous, h.snapshot, h.root, fun hc => ?_⟩
  · simpa only [settledOn, hsame] using h.live hall
  · simpa only [hsame] using h.phase j hj
  · obtain ⟨hstartable, hforward⟩ := h.commit (hsame ▸ hc)
    exact ⟨hstartable, mem_forward_append hforward _⟩

end Inv

/-- The invariant, with the value of `journalled`. -/
def Kept (w : Platform) (P C : State) (journalled : Bool) (m : Machine) : Prop :=
  Inv w P C m ∧ m.journalled = journalled

/-- A publication may be under way. -/
def Middle (w : Platform) (P C : State) (journalled : Bool) (m : Machine) : Prop :=
  Kept w P C journalled m ∧ ∃ j, m.journal = some j ∧ j.phase.isMiddle = true

theorem hookProof_kept : HookProof w (Kept w P C b) where
  congr _ _ htxn hjournal htrace hjournalled hlive hroot h :=
    ⟨h.1.congr htxn hjournal htrace hlive hroot, by rw [hjournalled]; exact h.2⟩

theorem Middle.preserves_publish {source : Place} : Preserves (Middle w P C b) (publish w source) :=
  Recovery.preserves_publish
    (fun _ _ hroot h => ⟨⟨h.1.1.change_live h.2 hroot, h.1.2⟩, h.2⟩)
    fun _ c h => ⟨⟨h.1.1.replaced c, h.1.2⟩, h.2⟩

/-- A publication that returns has given the live tree the meaning of its source. -/
theorem Middle.wp_publish (h : Middle w P C b m) (source : Place) (hne : source ≠ .live)
    (st : State)
    (hsource : ∀ l inventory, m.layout source = some l → l.validate w = .ok inventory →
      logical w l = some st) :
    wpElse A (publish w source) (fun _ m' => Middle w P C b m' ∧ logical w m'.live = some st ∧
      m'.txn = m.txn ∧ m'.journal = m.journal ∧ m'.trace = m.trace ++ publication)
      (Kept w P C b) m := by
  refine wp_mono (wp_and (Middle.preserves_publish A m h)
    (Recovery.wp_publish absorbs_true hne (Or.inr fun _ _ => trivial))) ?_
    (fun _ _ h => h.1.1) fun _ h => h.1.1
  rintro - m' ⟨hm', l, st', inventory, hl, hvalid, hpublished, hframe⟩
  have hst : logical w l = some st := hsource l inventory hl (validate_eq_ok.mpr ⟨st', hvalid⟩)
  rw [hvalid.logical] at hst
  cases hst
  refine ⟨hm', hpublished.logical hvalid, ?_, ?_, ?_⟩ <;> (rw [hframe])

/-- `_cleanup` drops the receipt before the files of the transaction. -/
theorem wp_cleanup_of (h : I m)
    (hgone : ∀ txn, I { m with journal := none, txn := txn }) :
    wpElse A cleanup (fun _ m' => m' = { m with journal := none, txn := none }) I m := by
  refine wp_seq_check h fun _ _ => ?_
  refine wp_seq_check h fun _ _ => ?_
  refine wp_seq_eq (t := { m with journal := none }) (wp_atomic rfl
    (fun _ _ _ => ⟨h, hgone m.txn⟩) fun _ _ => ⟨h, hgone m.txn⟩) fun _ => ?_
  refine wp_seq_check (hgone m.txn) fun _ _ => ?_
  refine wp_seq_eq (t := { m with journal := none, txn := none }) (wp_effect rfl
    (fun _ _ _ => hgone _) fun _ _ => hgone _) fun _ => ?_
  exact wp_check_post (hgone none) fun _ _ => rfl

/-- `_cleanup` of a settled state. -/
theorem wp_cleanup (h : Kept w P C b m) (hlive : logical w m.live = some (settledOn P C m.trace)) :
    wpElse A cleanup (fun _ m' => Kept w P C b m' ∧ m'.journal = none) (Kept w P C b) m := by
  have hgone (txn : Option Txn) : Kept w P C b { m with journal := none, txn := txn } :=
    ⟨.of_none rfl hlive h.1.root h.1.commit, h.2⟩
  refine wp_post (wp_cleanup_of h hgone) ?_
  rintro - _ rfl
  exact ⟨hgone none, rfl⟩

/-! ## The forward path -/

/-- The stages of `restore` under the receipt of phase `phase`. -/
structure Installing (w : Platform) (P C candidate : State) (ingress : List IngressIdentity)
    (phase : Phase) (m : Machine) : Prop where
  kept : Kept w P C true m
  journal : m.journal = some ⟨phase, ingress⟩
  staged : ∃ l, m.layout .candidate = some l ∧ logical w l = some candidate
  ahead : .recorded .rollbackRequired ∉ m.trace

/-- The snapshot is complete. -/
def Snapshotted (w : Platform) (P : State) (m : Machine) : Prop :=
  ∃ l, m.layout .previous = some l ∧ logical w l = some P

theorem hookProof_installing : HookProof w (Installing w P C candidate ingress phase) where
  congr m m' htxn hjournal htrace hjournalled hlive hroot h :=
    { kept := hookProof_kept.congr m m' htxn hjournal htrace hjournalled hlive hroot h.kept
      journal := by rw [hjournal]; exact h.journal
      staged := by rw [Machine.layout_congr (by decide) htxn]; exact h.staged
      ahead := by rw [htrace]; exact h.ahead }

theorem hookProof_layout (place : Place) (hne : place ≠ .live) {Q : Option Layout → Prop} :
    HookProof w fun m => Q (m.layout place) where
  congr m m' htxn _ _ _ _ _ h := by rwa [Machine.layout_congr hne htxn]

theorem hookProof_live {Q : Option State → Prop} : HookProof w fun m => Q (logical w m.live) where
  congr m m' _ _ _ _ hlive _ h := by rwa [hlive]

theorem hookProof_trace {Q : List Event → Prop} : HookProof w fun m => Q m.trace where
  congr m m' _ _ htrace _ _ _ h := by rwa [htrace]

theorem hookProof_journal {Q : Option Journal → Prop} : HookProof w fun m => Q m.journal where
  congr m m' _ hjournal _ _ _ _ h := by rwa [hjournal]

theorem wp_readJournal {A : Regime Reply Code} (h : I m) :
    wpElse A readJournal (fun j m' => m' = m ∧ m.journal = some j) I m := by
  refine wp_check_post h fun j hread => ⟨rfl, ?_⟩
  split at hread
  · cases hread
  · next j' hj =>
    split at hread
    · cases hread
      exact hj
    · cases hread

theorem HookProof.and {I J : Machine → Prop} (hI : HookProof w I) (hJ : HookProof w J) :
    HookProof w fun m => I m ∧ J m where
  congr m m' h1 h2 h3 h4 h5 h6 h :=
    ⟨hI.congr m m' h1 h2 h3 h4 h5 h6 h.1, hJ.congr m m' h1 h2 h3 h4 h5 h6 h.2⟩

/-- A tree without a directory of projections does not validate. -/
theorem not_valid_of_noEgress {l : Layout} (h : l.dirs .providerEgress = none)
    (inventory : StateInventory) : l.validate w ≠ .ok inventory := by
  intro hvalid
  obtain ⟨st, hvalid⟩ := validate_eq_ok.mp hvalid
  obtain ⟨e, he, -⟩ := hvalid.egress
  rw [h] at he
  cases he

theorem Installing.txn_isSome (h : Installing w P C candidate ingress phase m) :
    m.txn.isSome = true := by
  obtain ⟨c, hc, -⟩ := h.staged
  exact Machine.layout_isSome_txn .candidate (by decide) (by rw [hc]; rfl)

/-- Changes of the previous tree while the receipt is `prepared`. -/
theorem Installing.setPrevious (h : Installing w P C candidate ingress .prepared m)
    {l : Option Layout} (hl : ∀ l', l = some l' → ∀ inventory, l'.validate w = .ok inventory →
      logical w l' = some P) :
    Installing w P C candidate ingress .prepared (m.setLayout .previous l) where
  kept := by
    refine ⟨⟨?_, ?_, ?_, ?_, ?_, by simpa using h.kept.1.commit⟩, by simpa using h.kept.2⟩
    · simpa [Machine.setLayout_live] using h.kept.1.live
    · simpa using h.kept.1.phase
    · intro j hj l' inventory hl' hvalid
      rw [Machine.layout_setLayout (by decide) h.txn_isSome] at hl'
      exact hl l' hl' inventory hvalid
    · intro j hj hne
      rw [Machine.setLayout_journal, h.journal] at hj
      cases hj
      exact absurd rfl hne
    · simpa [Machine.setLayout_live] using h.kept.1.root
  journal := by simpa using h.journal
  staged := by
    rw [Machine.layout_setLayout_ne (by decide)]
    exact h.staged
  ahead := by simpa using h.ahead

/-- While the pair is copied, the previous tree has no directory of projections. -/
theorem preserves_pair : Preserves (fun m => Installing w P C candidate ingress .prepared m ∧
    ∀ l, m.layout .previous = some l → l.dirs .providerEgress = none) (snapshotPair w) := by
  refine preserves_snapshotPair (fun m h => ?_) fun m f hf h => ?_
  · refine ⟨h.1.setPrevious fun l' hl' inventory hvalid => ?_, fun l' hl' => ?_⟩
    · cases hl'
      exact absurd hvalid (not_valid_of_noEgress rfl inventory)
    · rw [Machine.layout_setLayout (by decide) h.1.txn_isSome] at hl'
      cases hl'
      rfl
  · have hnone (l' : Layout) (hl' : (m.layout .previous).map f = some l') :
        l'.dirs .providerEgress = none := by
      obtain ⟨l, hl, rfl⟩ := Option.map_eq_some_iff.mp hl'
      rw [hf]
      exact h.2 l hl
    refine ⟨h.1.setPrevious fun l' hl' inventory hvalid => ?_, fun l' hl' => ?_⟩
    · exact absurd hvalid (not_valid_of_noEgress (hnone l' hl') inventory)
    · rw [Machine.layout_onLayout] at hl'
      exact hnone l' hl'

/-- The projections are copied into a tree that already means the old state. -/
theorem preserves_projections : Preserves (fun m => Installing w P C candidate ingress .prepared m ∧
    Snapshotted w P m) (copyDirectory .live .previous .providerEgress) := by
  have hlocal (m : Machine) (f : Layout → Layout) (hf : ∀ l, logical w (f l) = logical w l)
      (h : Installing w P C candidate ingress .prepared m ∧ Snapshotted w P m) :
      Installing w P C candidate ingress .prepared (m.onLayout .previous f) ∧
        Snapshotted w P (m.onLayout .previous f) := by
    obtain ⟨h, l, hl, hst⟩ := h
    refine ⟨h.setPrevious fun l' hl' inventory _ => ?_, f l, ?_, by rw [hf, hst]⟩
    · rw [hl] at hl'
      cases hl'
      rw [hf, hst]
    · rw [Machine.layout_onLayout, hl]
      rfl
  exact preserves_copyDirectory (fun m => hlocal m _ fun l => rfl)
    fun name m f => hlocal m _ fun l => rfl

theorem Installing.wp_snapshot (h : Installing w P C candidate ingress .prepared m)
    (hnot : wasCommitted m.trace = false) (hnone : m.layout .previous = none) :
    wpElse A (snapshot w) (fun _ m' => Installing w P C candidate ingress .prepared m' ∧
      Snapshotted w P m') (Kept w P C true) m := by
  have hlive : logical w m.live = some P := by
    have := h.kept.1.live fun j hj => by rw [h.journal] at hj; cases hj; exact Or.inl rfl
    rwa [settledOn, hnot] at this
  refine wp_seq (R := fun _ m' => Installing w P C candidate ingress .prepared m' ∧
    Snapshotted w P m') ?_ ?_
  · refine wp_mono (wp_and (preserves_pair A m ⟨h, by simp [hnone]⟩)
      (wp_snapshotPair h.txn_isSome hlive)) (fun _ _ h => ⟨h.1.1, h.2.2⟩) (fun _ _ h => h.1.1.kept)
      fun _ h => h.1.1.kept
  intro _ m1 h1
  refine wp_seq (wp_else (preserves_projections A m1 h1) fun _ h => h.1.kept) ?_
  intro _ m2 h2
  refine wp_seq_check h2.1.kept fun _ _ => ?_
  exact wp_check_post h2.1.kept fun _ _ => h2

theorem Installing.not_committed (h : Installing w P C candidate ingress phase m)
    (hphase : phase ≠ .committed) : wasCommitted m.trace = false := by
  have := (h.kept.1.phase _ h.journal).2.2
  simpa [hphase] using this

theorem Snapshotted.previous (h : Snapshotted w P m) : ∃ l, m.layout .previous = some l ∧
    ∀ inventory, l.validate w = .ok inventory → logical w l = some P := by
  obtain ⟨l, hl, hst⟩ := h
  exact ⟨l, hl, fun _ _ => hst⟩

/-- The next receipt of the forward path. -/
theorem Installing.wp_next (h : Installing w P C candidate ingress phase m)
    (hs : Snapshotted w P m) (hphase : phase ≠ .committed) {next : Phase}
    (hmiddle : next.isMiddle = true) (hnext : next ≠ .rollbackRequired) :
    wpElse A (record next ingress) (fun _ m' => (Installing w P C candidate ingress next m' ∧
      Snapshotted w P m') ∧ m'.live = m.live ∧ m'.trace = m.trace ++ [.recorded next])
      (Kept w P C true) m := by
  have hnot : commitStep (wasCommitted m.trace) (.recorded next) = false := by
    rw [h.not_committed hphase]
    cases next <;> first | rfl | cases hmiddle
  have hnew : Kept w P C true (recorded m next ingress) :=
    ⟨h.kept.1.record_middle hmiddle hnot hs.previous, h.kept.2⟩
  refine wp_post (wp_record (fun b => ⟨h.kept.1.journalNew b, h.kept.2⟩) hnew) ?_
  rintro - _ rfl
  exact ⟨⟨⟨hnew, rfl, h.staged, by simp [recorded, h.ahead, hnext.symm]⟩, hs⟩, rfl, rfl⟩

theorem hookProof_snapshotted : HookProof w fun m =>
    Installing w P C candidate ingress phase m ∧ Snapshotted w P m where
  congr m m' htxn hjournal htrace hjournalled hlive hroot h :=
    ⟨hookProof_installing.congr m m' htxn hjournal htrace hjournalled hlive hroot h.1, by
      unfold Snapshotted
      rw [Machine.layout_congr (by decide) htxn]
      exact h.2⟩

/-- The candidate is published, and its sessions are revoked. -/
def Installed (w : Platform) (P C candidate : State) (ingress : List IngressIdentity)
    (m : Machine) : Prop :=
  (Installing w P C candidate ingress .installed m ∧ Snapshotted w P m) ∧
    logical w m.live = some C ∧ .replaced .database ∈ m.trace

theorem hookProof_installed : HookProof w (Installed w P C candidate ingress) :=
  hookProof_snapshotted.and ((hookProof_live (Q := fun st => st = some C)).and
    (hookProof_trace (Q := fun trace => .replaced .database ∈ trace)))

/-- From the receipt `prepared` on, every outcome keeps the invariant. -/
theorem Installing.wp_install (h : Installing w P C candidate ingress .prepared m)
    (hnone : m.layout .previous = none) (hC : C = candidate.revoke)
    (hcheck : ∀ l inventory, Valid w l C inventory → Startable w C) :
    wpElse A (install w ingress) (fun _ => Kept w P C true) (Kept w P C true) m := by
  have hstart : HookProof w fun m => Installing w P C candidate ingress .prepared m ∧
      m.layout .previous = none :=
    hookProof_installing.and (hookProof_layout (Q := fun l => l = none) .previous (by decide))
  refine wp_seq (hstart.hook.through ⟨h, hnone⟩ fun _ h => h.1.kept) fun _ m1 h1 => ?_
  refine wp_seq (hstart.quiesce.through h1 fun _ h => h.1.kept) fun _ m2 h2 => ?_
  refine wp_seq (h2.1.wp_snapshot (h2.1.not_committed (by decide)) h2.2) fun _ m3 h3 => ?_
  refine wp_seq (h3.1.wp_next h3.2 (by decide) rfl (by decide)) fun _ m4 h4 => ?_
  refine wp_seq (hookProof_snapshotted.hook.through h4.1 fun _ h => h.1.kept) fun _ m5 h5 => ?_
  refine wp_seq (h5.1.wp_next h5.2 (by decide) rfl (by decide)) ?_
  rintro - m6 ⟨h6, -⟩
  have hmiddle : Middle w P C true m6 := ⟨h6.1.kept, _, h6.1.journal, rfl⟩
  refine wp_seq (hmiddle.wp_publish .candidate (by decide) candidate ?_) ?_
  · intro l inventory hl _
    obtain ⟨l', hl', hst⟩ := h6.1.staged
    rw [hl] at hl'
    cases hl'
    exact hst
  rintro - m7 ⟨hm7, hlive7, htxn7, hjournal7, htrace7⟩
  have h7 : Installing w P C candidate ingress .publishing m7 :=
    { kept := hm7.1
      journal := by rw [hjournal7]; exact h6.1.journal
      staged := by rw [Machine.layout_congr (by decide) htxn7]; exact h6.1.staged
      ahead := by simp [htrace7, publication, h6.1.ahead] }
  have hs7 : Snapshotted w P m7 := by
    unfold Snapshotted
    rw [Machine.layout_congr (by decide) htxn7]
    exact h6.2
  refine wp_seq (h7.wp_next hs7 (by decide) rfl (by decide)) ?_
  rintro - m8 ⟨⟨h8, hs8⟩, hlive8, htrace8⟩
  -- the sessions of the candidate are revoked in the live database
  refine wp_seq (R := fun _ => Installed w P C candidate ingress) ?_ ?_
  · have hmiddle8 : Middle w P C true m8 := ⟨h8.kept, _, h8.journal, rfl⟩
    refine wp_mono (wp_and (preserves_revokeSessions (I := Middle w P C true)
      (fun _ _ hroot h => ⟨⟨h.1.1.change_live h.2 hroot, h.1.2⟩, h.2⟩) A m8 hmiddle8)
      (wp_revokeSessions (show logical w m8.live = some candidate by rw [hlive8]; exact hlive7)))
      ?_ (fun _ _ h => h.1.1) fun _ h => h.1.1
    rintro - m9 ⟨hm9, hlive9, htxn9, hjournal9, htrace9⟩
    refine ⟨⟨⟨hm9.1, by rw [hjournal9]; exact h8.journal, ?_, by rw [htrace9]; exact h8.ahead⟩,
      ?_⟩, by rw [hC]; exact hlive9, by simp [htrace9, htrace8, htrace7, publication]⟩
    · rw [Machine.layout_congr (by decide) htxn9]
      exact h8.staged
    · unfold Snapshotted
      rw [Machine.layout_congr (by decide) htxn9]
      exact hs8
  intro _ m9 h9
  have hkept (m : Machine) (h : Installed w P C candidate ingress m) : Kept w P C true m :=
    h.1.1.kept
  refine wp_seq ((preserves_check _).through h9 hkept) fun _ m10 h10 => ?_
  refine wp_seq ((preserves_check _).through h10 hkept) fun _ m11 h11 => ?_
  refine wp_seq ((preserves_check _).through h11 hkept) fun _ m12 h12 => ?_
  refine wp_seq (R := fun _ m' => Installed w P C candidate ingress m' ∧ Startable w C)
    (wp_mono (wp_and ((preserves_check _).through h12 hkept)
      (wp_validateAt absorbs_true (Or.inr fun _ _ => trivial))) ?_ (fun _ _ h => h.1)
      fun _ h => h.1) ?_
  · rintro inventory m13 ⟨h13, rfl, l, st, hl, hvalid⟩
    cases hl
    have hst := hvalid.logical
    rw [h13.2.1] at hst
    cases hst
    exact ⟨h13, hcheck _ _ hvalid⟩
  rintro - m13 ⟨h13, hstartable⟩
  refine wp_seq (hookProof_installed.hook.through h13 hkept) fun _ m14 h14 => ?_
  refine wp_seq (hookProof_installed.health.through h14 hkept) fun healthy m15 h15 => ?_
  refine wp_seq ((preserves_demand healthy _).through h15 hkept) fun _ m16 h16 => ?_
  refine wp_seq (h16.1.1.wp_next h16.1.2 (by decide) rfl (by decide)) ?_
  rintro - m17 ⟨⟨h17, hs17⟩, hlive17, htrace17⟩
  have hforward : .replaced .database ∈ forward m17.trace := by
    rw [forward_eq_self h17.ahead, htrace17]
    exact List.mem_append_left _ h16.2.2
  have hcommitted : Kept w P C true (recorded m17 .committed ingress) :=
    ⟨h17.kept.1.record_committed (by rw [hlive17]; exact h16.2.1) hstartable hforward
      hs17.previous, h17.kept.2⟩
  refine wp_seq (wp_record (fun b => ⟨h17.kept.1.journalNew b, h17.kept.2⟩) hcommitted) ?_
  rintro - m18 rfl
  have hsettled := (hookProof_kept (w := w) (P := P) (C := C) (b := true)).and
    (hookProof_journal (Q := fun receipt => ∃ j, receipt = some j ∧ j.phase = .committed))
  refine wp_seq (hsettled.hook.through ⟨hcommitted, _, rfl, rfl⟩ fun _ h => h.1) ?_
  rintro - m19 ⟨hm19, j, hj, hphase⟩
  refine wp_post (wp_cleanup hm19 (hm19.1.live fun j' hj' => ?_)) fun _ _ h => h.1
  rw [hj] at hj'
  cases hj'
  exact Or.inr hphase

/-! ## The way back -/

/-- The live tree has the state that the receipts have settled on. -/
def Settled (w : Platform) (P C : State) (journalled : Bool) (m : Machine) : Prop :=
  Kept w P C journalled m ∧ logical w m.live = some (settledOn P C m.trace)

theorem hookProof_settled : HookProof w (Settled w P C b) where
  congr m m' h1 h2 h3 h4 h5 h6 h :=
    ⟨hookProof_kept.congr m m' h1 h2 h3 h4 h5 h6 h.1, by rw [h3, h5]; exact h.2⟩

theorem Kept.settled (h : Kept w P C b m) {j : Journal} (hj : m.journal = some j)
    (hphase : j.phase = .prepared ∨ j.phase = .committed) : Settled w P C b m :=
  ⟨h, h.1.live fun j' hj' => by rw [hj] at hj'; cases hj'; exact hphase⟩

/-- Publishing the previous tree settles a state whose receipt is not the commit. -/
theorem Middle.wp_publishPrevious (h : Middle w P C b m) :
    wpElse A (publish w .previous) (fun _ => Settled w P C b) (Kept w P C b) m := by
  obtain ⟨j, hj, hmiddle⟩ := h.2
  refine wp_post (h.wp_publish .previous (by decide) P fun l inventory hl hvalid =>
    h.1.1.previous j hj l inventory hl hvalid) ?_
  rintro - m' ⟨hm', hlive, -, hjournal, -⟩
  have hnot : wasCommitted m'.trace = false := by
    have hiff := (hm'.1.1.phase j (by rw [hjournal, hj])).2.2
    have hne : j.phase ≠ .committed := by
      intro he
      rw [he] at hmiddle
      cases hmiddle
    simpa [hne] using hiff
  exact ⟨hm'.1, by rw [settledOn, hnot]; exact hlive⟩

theorem Settled.wp_finish (h : Settled w P C b m) {α : Type} {p : Act α}
    (hp : Preserves (Settled w P C b) p) :
    wpElse A (do let a ← p; cleanup; return a) (fun _ m' => Kept w P C b m' ∧ m'.journal = none)
      (Kept w P C b) m := by
  refine wp_seq (wp_else (hp A m h) fun _ h => h.1) ?_
  intro a m1 h1
  exact wp_seq (wp_cleanup h1.1 h1.2) fun _ m2 h2 => wp_pure h2

/-- The recovery inside `restore`. -/
theorem Kept.wp_rollback (h : Kept w P C true m) :
    wpElse A (rollback w) (fun _ => Kept w P C true) (Kept w P C true) m := by
  refine wp_seq (wp_readJournal h) ?_
  rintro receipt m ⟨rfl, hj⟩
  have hhooks := (hookProof_kept (w := w) (P := P) (C := C) (b := true)).and
    (hookProof_journal (Q := fun j => j = some receipt))
  refine hhooks.closed (fun _ h => h.1) ⟨h, hj⟩ fun m3 ⟨h3, hj3⟩ => ?_
  refine wp_seq (R := fun _ => Settled w P C true) (wp_branch (fun hsome => ?_) fun hnone => ?_) ?_
  · -- there is a snapshot
    obtain ⟨l, hl⟩ := Option.isSome_iff_exists.mp hsome
    have hnew : Kept w P C true (recorded m3 .rollbackRequired receipt.ingress) :=
      ⟨h3.1.record_middle rfl rfl ⟨l, hl, fun inventory hvalid =>
        h3.1.previous receipt hj3 l inventory hl hvalid⟩, h3.2⟩
    refine wp_seq (wp_record (fun b => ⟨h3.1.journalNew b, h3.2⟩) hnew) ?_
    rintro - m4 rfl
    exact Middle.wp_publishPrevious ⟨hnew, _, rfl, rfl⟩
  · -- nothing was published yet
    refine wp_pure (h3.settled hj3 (Or.inl ?_))
    by_contra hne
    have := h3.1.snapshot receipt hj3 hne
    rw [this] at hnone
    cases hnone
  intro _ m4 h4
  refine wp_seq (wp_else (hookProof_settled.resume false A m4 h4)
    fun _ h => h.1) fun _ m5 h5 => ?_
  exact wp_post (wp_cleanup h5.1 h5.2) fun _ _ h => h.1

/-- Where the block of `restore` can have stopped with an exception. -/
def Stopped (w : Platform) (P C : State) (m : Machine) : Prop :=
  Kept w P C true m ∨ (Kept w P C false m ∧ m.layout .previous = none ∧
    ∀ j, m.journal = some j → j.phase = .prepared)

theorem Stopped.wp_handler (h : Stopped w P C m) (e : Code) :
    wpElse A (restoreHandler w e) (fun _ => Inv w P C) (Inv w P C) m := by
  have hkeeps : HookProof w (Kept w P C true) := hookProof_kept
  refine wp_restoreHandler hkeeps.hook (hkeeps.quiesce A) (fun _ h => h.1) (fun hjournalled => ?_)
    (fun hjournalled => ?_) e
  · have hkept : Kept w P C true m := by
      rcases h with h | ⟨h, -⟩
      · exact h
      · rw [h.2] at hjournalled
        cases hjournalled
    exact wp_post hkept.wp_rollback fun _ _ h => h.1
  · -- the transaction directory goes; the receipt, if there is one, is `prepared`
    rcases h with h | ⟨h, hprevious, hphase⟩
    · rw [h.2] at hjournalled
      cases hjournalled
    have hgone (txn : Option Txn) (hnone : txn.bind Txn.previous = none) :
        Inv w P C { m with txn := txn } :=
      { live := h.1.live
        phase := h.1.phase
        previous := fun j _ l inventory hl => by
          rw [show ({ m with txn := txn } : Machine).layout .previous = none from hnone] at hl
          cases hl
        snapshot := fun j hj hne => absurd (hphase j hj) hne
        root := h.1.root
        commit := h.1.commit }
    have hpart (k : Nat) : ((m.txn.map fun t => (⟨none, t.candidate.map (·.removed k),
        t.previous.map (·.removed k)⟩ : Txn)).bind Txn.previous) = none := by
      cases ht : m.txn with
      | none => rfl
      | some t =>
        have : t.previous = none := by simpa [Machine.layout, ht] using hprevious
        simp [this]
    exact wp_effect (hgone none rfl) (fun k _ _ => hgone _ (hpart k)) fun k _ => hgone _ (hpart k)

/-! ## Whole runs -/

/-- A valid live tree without a transaction. -/
structure Start (w : Platform) (P : State) (m : Machine) : Prop where
  valid : ∃ inventory, Valid w m.live P inventory
  journal : m.journal = none
  txn : m.txn = none
  trace : m.trace = []

theorem Start.inv (h : Start w P m) : Inv w P C m := by
  obtain ⟨inventory, hvalid⟩ := h.valid
  refine .of_none h.journal ?_ (hvalid.folders _) ?_
  · rw [h.trace]
    exact hvalid.logical
  · rw [h.trace]
    exact fun hc => nomatch hc

/-- The stages before the first receipt. -/
structure Preparing (w : Platform) (P C : State) (m : Machine) : Prop where
  kept : Kept w P C false m
  journal : m.journal = none
  previous : m.layout .previous = none
  trace : m.trace = []

theorem Preparing.setLayout (h : Preparing w P C m) {place : Place} (hlive : place ≠ .live)
    (hprevious : Place.previous ≠ place) (l : Option Layout) :
    Preparing w P C (m.setLayout place l) where
  kept := ⟨h.kept.1.setLayout hlive hprevious l, by simpa using h.kept.2⟩
  journal := by simpa using h.journal
  previous := by simpa [Machine.layout_setLayout_ne hprevious] using h.previous
  trace := by simpa using h.trace

theorem Preparing.stopped (h : Preparing w P C m) : Stopped w P C m :=
  Or.inr ⟨h.kept, h.previous, by simp [h.journal]⟩

/-- What a restore of the backup commits. For an undecodable database it is never committed. -/
def Backup.restored (w : Platform) (b : Backup) : State :=
  (b.state w ((w.decode b.database).getD ⟨[], [], [], []⟩)).revoke

theorem Backup.Checked.restored_eq {b : Backup} (h : b.Checked w content) :
    b.restored w = (b.state w content).revoke := by
  rw [Backup.restored, h.decoded]
  rfl

theorem Backup.Checked.startable {b : Backup} (h : b.Checked w content)
    {l : Layout} {inventory : StateInventory} (hvalid : Valid w l (b.restored w) inventory) :
    Startable w (b.restored w) := by
  rw [h.restored_eq] at hvalid ⊢
  obtain ⟨i, hi, hrr⟩ := h.inspected
  have hinspected : w.inspect content.revoke b.masterKey b.files.contents = .ok inventory :=
    hvalid.pair.inspected
  rw [w.inspect_revoke content _ _ i hi] at hinspected
  cases hinspected
  obtain ⟨ids, hids⟩ := h.ingress
  exact ⟨⟨l, inventory, hvalid, hrr⟩, ids, (w.ingress_revoke content).trans hids⟩

theorem Preparing.wp_body {b : Backup} (h : Preparing w P (b.restored w) m)
    (ht : m.txn.isSome = true) :
    wp A (restoreBody w b) (fun _ => Inv w P (b.restored w)) (fun _ => Stopped w P (b.restored w))
      (Inv w P (b.restored w)) m := by
  generalize hC : b.restored w = C at h ⊢
  have hprepare : Preserves (Preparing w P C) (prepare w b) :=
    preserves_prepare (fun _ l h => h.setLayout (by decide) (by decide) l)
      fun _ l h => h.setLayout (by decide) (by decide) l
  refine wp_seq (wp_mono (wp_and (hprepare A m h) (wp_prepare ht)) (fun _ _ => id)
    (fun _ _ h => h.1.stopped) fun _ h => h.1.kept.1) ?_
  rintro ingress m1 ⟨h1, content, hchecked, hstaged⟩
  have hnew : Inv w P C (recorded m1 .prepared ingress) :=
    h1.kept.1.record_prepared h1.journal h1.previous (by rw [h1.trace]; rfl)
  refine wp_seq (wp_mono (wp_record (I := fun m => Kept w P C false m ∧ m.layout .previous = none ∧
    ∀ j, m.journal = some j → j.phase = .prepared) (fun b => ?_) ?_) (fun _ _ => id)
    (fun _ _ h => Or.inr h) fun _ h => h.1.1) ?_
  · exact ⟨⟨h1.kept.1.journalNew b, h1.kept.2⟩, h1.previous, by simp [h1.journal]⟩
  · refine ⟨⟨hnew, h1.kept.2⟩, h1.previous, ?_⟩
    rintro j hj
    cases hj
    rfl
  rintro - m2 rfl
  refine wp_seq_eq (t := { recorded m1 .prepared ingress with journalled := true })
    (wp_modify rfl) fun _ => ?_
  have h3 : Installing w P C (b.state w content) ingress .prepared
      { recorded m1 .prepared ingress with journalled := true } :=
    { kept := ⟨hnew.congr rfl rfl rfl rfl rfl, rfl⟩
      journal := rfl
      staged := hstaged
      ahead := by simp [recorded, h1.trace] }
  subst hC
  exact wp_mono (h3.wp_install h1.previous hchecked.restored_eq fun _ _ => hchecked.startable)
    (fun _ _ h => h.1) (fun _ _ h => Or.inl h) fun _ h => h.1

/-- The machine at the `try` of `restore`. -/
def opened (m : Machine) : Machine :=
  { m with txn := some ⟨some .bare, none, none⟩, journalled := false }

/-- The part of `restore` before its `try` makes the directories of the transaction. -/
theorem wp_openTransaction (htxn : m.txn = none)
    (h : ∀ txn : Option Txn, txn.bind Txn.previous = none → I { m with txn := txn })
    (confirmation : Text) :
    wpElse A (openTransaction w confirmation) (fun _ m' => m' = opened m) I m := by
  have hm : I m := by simpa [← htxn] using h none rfl
  refine wp_seq_check hm fun _ _ => ?_
  refine wp_bind (wp_demand (fun _ => ?_) fun _ => hm)
  refine wp_seq_check hm fun _ _ => ?_
  refine wp_seq_check hm fun _ _ => ?_
  refine wp_seq_eq (t := { m with txn := some ⟨none, none, none⟩ }) ?_ fun _ => ?_
  · refine wp_prim (fun _ _ => ?_) (fun k _ _ => ?_) fun k _ => ?_
    · simp [htxn]
    all_goals
      simp only [htxn, Option.isSome_none, Bool.or_false, decide_eq_true_eq]
      split
      · exact hm
      · exact h (some ⟨none, none, none⟩) rfl
  refine wp_seq_eq (t := { m with txn := some ⟨some .bare, none, none⟩ }) ?_ fun _ => ?_
  · refine wp_prim (fun _ _ => ?_) (fun k _ _ => ?_) fun k _ => ?_
    · exact rfl
    all_goals
      simp only [Machine.layout, Option.bind_some, Option.isSome_none, Bool.or_false,
        decide_eq_true_eq]
      split
      · exact h (some ⟨none, none, none⟩) rfl
      · exact h (some ⟨some .bare, none, none⟩) rfl
  exact wp_modify rfl

/-- The transaction directory does not matter yet. -/
theorem Start.opening (h : Start w P m) (txn : Option Txn) (journalled : Bool) :
    Inv w P C { m with txn := txn, journalled := journalled } := by
  have hinv : Inv w P C m := h.inv
  exact .of_none h.journal (hinv.live (by simp [h.journal])) hinv.root hinv.commit

theorem Start.opened (h : Start w P m) : Preparing w P C (opened m) :=
  ⟨⟨h.opening _ _, rfl⟩, h.journal, rfl, h.trace⟩

/-- Every outcome of `restore` has the invariant. -/
theorem wp_restore (h : Start w P m) (b : Backup) (confirmation : Text) :
    wpElse A (restore w b confirmation) (fun _ => Inv w P (b.restored w))
      (Inv w P (b.restored w)) m := by
  refine wp_seq (wp_openTransaction h.txn (fun txn _ => h.opening txn m.journalled) confirmation) ?_
  rintro - _ rfl
  exact wp_try (h.opened.wp_body rfl) fun e _ h => h.wp_handler e

theorem logical_rollBackJournal (m : Machine) :
    logical w (rollBackJournal m).live = logical w m.live := by
  unfold rollBackJournal
  split
  · rfl
  · next j hj => simp [logical, Layout.image, hj]

/-- SQLite's own recovery of the live database keeps its content. -/
theorem HookProof.startWithoutReceipt (h : HookProof w I) :
    Preserves I (startWithoutReceipt w) := by
  refine preserves_startWithoutReceipt h.project h.stopWorker
    (fun m hm => h.congr m _ rfl rfl rfl rfl rfl rfl hm) (fun m hm => ?_) fun m j hj hm => ?_
  · refine h.congr m _ ?_ ?_ ?_ ?_ (logical_rollBackJournal m) ?_ hm <;>
      (unfold rollBackJournal; split <;> rfl)
  · exact h.congr m _ rfl rfl rfl rfl (by simp [logical, Layout.image, hj]) rfl hm

/-- What startup does for each receipt settles the live tree. -/
theorem Kept.wp_repair (h : Kept w P C b m) {j : Journal} (hj : m.journal = some j) :
    wpElse A (repair w j.phase) (fun _ => Settled w P C b) (Kept w P C b) m := by
  have hmiddle (hphase : j.phase.isMiddle = true) : Middle w P C b m := ⟨h, j, hj, hphase⟩
  obtain ⟨hne1, hne2, -⟩ := h.1.phase j hj
  cases hphase : j.phase with
  | initPreparing => exact absurd hphase hne1
  | initReady => exact absurd hphase hne2
  | prepared => exact wp_pure (h.settled hj (Or.inl hphase))
  | committed =>
    refine wp_seq_check h fun _ _ => ?_
    exact wp_pure (h.settled hj (Or.inr hphase))
  | snapshotReady | publishing | installed | validated | rollbackRequired =>
    exact (hmiddle (by rw [hphase]; rfl)).wp_publishPrevious

/-- A startup that returns leaves no receipt. -/
theorem Kept.wp_startup (h : Kept w P C b m) :
    wpElse A (startup w) (fun _ m' => Kept w P C b m' ∧ m'.journal = none) (Kept w P C b) m := by
  refine wp_try (?_ : wpElse A _ (fun _ m' => Kept w P C b m' ∧ m'.journal = none)
    (Kept w P C b) m) fun _ _ h => wp_raise h
  refine wp_seq_check h fun _ _ => ?_
  refine wp_seq_eq (t := m) (wp_branch (fun hempty => ?_) fun _ => wp_pure rfl) fun _ => ?_
  · simp [Layout.isEmpty, h.1.root] at hempty
  refine wp_branch (fun hsome => ?_) fun hnone => ?_
  · refine wp_seq (wp_readJournal h) ?_
    rintro receipt m ⟨rfl, hj⟩
    have hhooks := (hookProof_kept (w := w) (P := P) (C := C) (b := b)).and
      (hookProof_journal (Q := fun j => j = some receipt))
    refine hhooks.closed (fun _ h => h.1) ⟨h, hj⟩ fun m3 ⟨h3, hj3⟩ => ?_
    refine wp_seq (h3.wp_repair hj3) fun _ m4 h4 => ?_
    exact h4.wp_finish (hookProof_settled.resume false)
  · have hplain := (hookProof_kept (w := w) (P := P) (C := C) (b := b)).and
      (hookProof_journal (Q := fun j => j = none))
    exact hplain.startWithoutReceipt.through ⟨h, by simpa using hnone⟩ fun _ h => h.1

/-- The machines that one restore and any number of startups after it can leave behind. -/
inductive Reachable (w : Platform) (backup : Backup) (confirmation : Text) (start : Machine) :
    Machine → Prop
  | restored (ks : List (Signal Reply Code)) :
    Reachable w backup confirmation start (restore w backup confirmation start ks).2.1
  | restarted {m : Machine} (killed : Bool) (ks : List (Signal Reply Code)) :
    Reachable w backup confirmation start m →
    Reachable w backup confirmation start (startup w (m.reboot w killed) ks).2.1

theorem Inv.reboot (h : Inv w P C m) (killed : Bool) : Inv w P C (m.reboot w killed) := by
  have hstop : HookProof w (Inv w P C) :=
    ⟨fun _ _ htxn hjournal htrace _ hlive hroot h => h.congr htxn hjournal htrace hlive hroot⟩
  exact (hstop.stopWorker m killed h).congr rfl rfl rfl rfl rfl

theorem Reachable.inv (hstart : Start w P start) (h : Reachable w backup confirmation start m) :
    Inv w P (backup.restored w) m := by
  induction h with
  | restored ks => exact (wp_restore hstart backup confirmation).always (any_script ks)
  | @restarted m killed ks _ ih =>
    have hkept : Kept w P (backup.restored w) false (m.reboot w killed) :=
      ⟨ih.reboot killed, rfl⟩
    exact (wp_mono_else hkept.wp_startup (fun _ _ h => h.1.1) fun _ h => h.1).always (any_script ks)

/-- **Restores and startups are crash-atomic.** Whenever a startup completes, the live state is
wholly the candidate with its sessions revoked, if the commit was recorded and no rollback after
it, and wholly the previous state otherwise. -/
theorem restore_atomic (hstart : Start w P start)
    (hm : Reachable w backup confirmation start m) (killed : Bool)
    (ks : List (Signal Reply Code)) {inventory : StateInventory}
    (hok : (startup w (m.reboot w killed) ks).1 = .ok inventory) :
    (Committed (startup w (m.reboot w killed) ks).2.1.trace →
      logical w (startup w (m.reboot w killed) ks).2.1.live = some (backup.restored w)) ∧
    (¬ Committed (startup w (m.reboot w killed) ks).2.1.trace →
      logical w (startup w (m.reboot w killed) ks).2.1.live = some P) := by
  have hkept : Kept w P (backup.restored w) false (m.reboot w killed) :=
    ⟨(hm.inv hstart).reboot killed, rfl⟩
  have hpost := hkept.wp_startup.holds (any_script ks)
  rw [hok] at hpost
  obtain ⟨hend, hnone⟩ := hpost
  have hlive := hend.1.live (by simp [hnone])
  rw [← wasCommitted_iff]
  constructor
  · intro hcommitted
    rw [hlive, settledOn, hcommitted]
    rfl
  · intro hnot
    rw [hlive, settledOn, Bool.eq_false_iff.mpr hnot]
    rfl

end

/-! ## A concrete appliance -/

/-- Images are a mark for a session and the letters of the other tables. -/
def demoPlatform : Platform where
  sha256 _ := []
  decode
    | [] => none
    | mark :: rest => some ⟨if mark = 0 then [] else [['s']], [], [],
        rest.map fun x => ([Char.ofNat x.toNat], [])⟩
  backup b := b
  decode_backup _ := rfl
  revoke
    | [] => []
    | _ :: rest => 0 :: rest
  decode_revoke b := by cases b <;> rfl
  torn := []
  initial := [0]
  initialContent := ⟨[], [], [], []⟩
  decode_initial := rfl
  dumpManifest _ := [1]
  loadManifest _ := some ⟨1, 1, 1, []⟩
  loadManifest_dump _ := rfl
  dumpManifest_length _ := by simp
  inspect _ _ _ := .ok ⟨1, none, []⟩
  inspect_revoke _ _ _ _ := id
  ingress c := .ok (c.other.map fun t => ⟨t.1, []⟩)
  ingress_revoke _ := rfl
  inspect_initial _ _ := ⟨_, rfl, rfl⟩
  ingress_initial := rfl

def demoKey (n : UInt8) : Bytes := List.replicate 32 n

def demoLayout (database : Bytes) : Layout where
  folders _ := true
  files
    | .database => some ⟨database, privateMode⟩
    | .masterKey => some ⟨demoKey 0, privateMode⟩
    | .manifest => some ⟨[1], privateMode⟩
    | _ => none
  dirs _ := some .empty

def demoStart (database : Bytes) : Machine :=
  ⟨demoLayout database, none, none, false, true, false, []⟩

def demoState (content : Content) : State := ⟨content, demoKey 0, [1], fun _ => none⟩

theorem demo_start {database : Bytes}
    (h : demoPlatform.decode database = some content) :
    Start demoPlatform (demoState content) (demoStart database) where
  valid := ⟨⟨1, none, []⟩,
    { folders := fun _ => rfl
      egress := ⟨.empty, rfl, by simp [Dir.IsEgress, Dir.empty]⟩
      pair :=
        { cold := rfl
          database := ⟨_, rfl, isPrivate_privateMode _, h⟩
          masterKey := ⟨_, rfl, isPrivate_privateMode _, rfl⟩
          keyLength := by simp [demoState, demoKey]
          files :=
            ⟨.empty, rfl, ⟨by simp [Dir.empty], by simp [Dir.empty], by simp [Dir.empty]⟩, rfl⟩
          inspected := rfl }
      manifest := ⟨_, rfl, isPrivate_privateMode _, rfl⟩
      manifestLength := by simp [demoState]
      manifestMatches := rfl }⟩
  journal := rfl
  txn := rfl
  trace := rfl

def demoBackup (database : Bytes) : Backup := ⟨database, demoKey 1, [], List.nodup_nil⟩

/-- All steps go through up to number `n`, and the process dies there. -/
def diesAt (n : Nat) : List (Signal Reply Code) := List.replicate n (.go default) ++ [.crash 0]

def demoRestore (ks : List (Signal Reply Code)) : Machine :=
  (restore demoPlatform (demoBackup [1, 66]) "RESTORE EXITLANE".toList (demoStart [1, 65]) ks).2.1

theorem demo_reachable (ks : List (Signal Reply Code)) : Reachable demoPlatform (demoBackup [1, 66])
    "RESTORE EXITLANE".toList (demoStart [1, 65]) (demoRestore ks) :=
  .restored ks

/-- The startup after a restore that died at step `n`. -/
def demoStartup (n : Nat) : Outcome Code StateInventory × Machine × List (Signal Reply Code) :=
  startup demoPlatform ((demoRestore (diesAt n)).reboot demoPlatform false) []

/-- At step 90 the live tree has the database of the candidate and the key of the previous state;
at step 130 the commit has been recorded. -/
theorem restore_atomic_demo :
    ((demoStartup 90).1 = .ok ⟨1, none, []⟩ ∧ logical demoPlatform (demoStartup 90).2.1.live =
      some (demoState ⟨[['s']], [], [], [(['A'], [])]⟩)) ∧
    ((demoStartup 130).1 = .ok ⟨1, none, []⟩ ∧ logical demoPlatform (demoStartup 130).2.1.live =
      some ((demoBackup [1, 66]).restored demoPlatform)) := by
  have hstart := demo_start (show demoPlatform.decode [1, 65] =
    some ⟨[['s']], [], [], [(['A'], [])]⟩ from rfl)
  have hok (n : Nat) (hn : n = 90 ∨ n = 130) : (demoStartup n).1 = .ok ⟨1, none, []⟩ := by
    rcases hn with rfl | rfl <;> decide +kernel
  have hinstance (n : Nat) (hn : n = 90 ∨ n = 130) :=
    restore_atomic hstart (demo_reachable (diesAt n)) false [] (hok n hn)
  refine ⟨⟨hok 90 (by simp), (hinstance 90 (by simp)).2 ?_⟩,
    ⟨hok 130 (by simp), (hinstance 130 (by simp)).1 ?_⟩⟩
  · rw [← wasCommitted_iff]
    decide +kernel
  · rw [← wasCommitted_iff]
    decide +kernel

end ExitLane.Recovery
