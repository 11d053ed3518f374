import ExitLane.Recovery.Atomic

/-!
# Which crashes a startup gets over

A startup in which no step fails gets over every state that restores and startups
leave behind, except for four kinds: a hot journal under the receipts `prepared`
and `committed`, a file of the transaction that is not private, a snapshot that
was not finished, and a receipt with more than 32 ingress identities.
`startup_completes_iff` says that these are all.

Two facts carry the proof. Nothing that is ever written to the live tree can be
refused for its mode or its name (`Tidy`), and a tidy tree with the meaning of a
valid one is itself valid once its journal is rolled back.
-/

namespace ExitLane.Recovery
open Python Effect

/-! ## The live tree stays tidy -/

/-- What may stand in a directory of the live tree. -/
def Sub.Fits (d : Sub) (entry : Text × File) : Prop :=
  entry.2.isPrivate = true ∧ (d = .providerEgress → entry.1 ∈ egressNames)

/-- A journal stands beside a database. -/
def Layout.Paired (l : Layout) : Prop :=
  l.files .databaseJournal = none ∨ (l.files .database).isSome = true

/-- The directories are there, and everything in them is private and has a good name. -/
structure Tidy (l : Layout) : Prop where
  folders : ∀ folder, l.folders folder = true
  files : ∀ c f, l.files c = some f → f.isPrivate = true
  dirs : ∀ d, ∃ e, l.dirs d = some e ∧ ∀ x ∈ e.entries, d.Fits x
  paired : l.Paired

/-- What stands in the directories of a valid tree. -/
theorem Valid.fits {w : Platform} {l : Layout} {st : State} {inventory : StateInventory}
    (h : Valid w l st inventory) (d : Sub) :
    ∃ e, l.dirs d = some e ∧ ∀ x ∈ e.entries, d.Fits x := by
  obtain ⟨wg, hwg, hiswg, -⟩ := h.pair.files
  obtain ⟨egress, hegress, hisegress⟩ := h.egress
  cases d with
  | wireguard => exact ⟨wg, hwg, fun x hx => ⟨hiswg.isPrivate x hx, fun hd => nomatch hd⟩⟩
  | providerEgress => exact ⟨egress, hegress, fun x hx => ⟨(hisegress x hx).2,
      fun _ => (hisegress x hx).1⟩⟩

theorem Dir.set_all {Q : Text × File → Prop} {d : Dir} {name : Text} {f : Option File}
    (hd : ∀ x ∈ d.entries, Q x) (hf : ∀ g, f = some g → Q (name, g)) :
    ∀ x ∈ (d.set name f).entries, Q x := by
  intro x hx
  cases f with
  | none => exact hd x (List.mem_filter.mp hx).1
  | some g =>
    change x ∈ (d.put name g).entries at hx
    by_cases hmem : name ∈ d.entries.map Prod.fst
    · rw [Dir.put_entries_of_mem hmem] at hx
      obtain ⟨y, hy, rfl⟩ := List.mem_map.mp hx
      split
      · exact hf g rfl
      · exact hd y hy
    · rw [Dir.put_entries hmem] at hx
      rcases List.mem_append.mp hx with hx | hx
      · exact hd x hx
      · rw [List.mem_singleton.mp hx]
        exact hf g rfl

namespace Tidy

variable {w : Platform} {l : Layout} {f : Option File}

theorem clean (h : Tidy l) : Clean l where
  files := h.files
  dirs d := by
    obtain ⟨e, he, hall⟩ := h.dirs d
    exact ⟨e, he, fun x hx => (hall x hx).1⟩

theorem egress (h : Tidy l) : ∃ d, l.dirs .providerEgress = some d ∧ d.IsEgress := by
  obtain ⟨e, he, hall⟩ := h.dirs .providerEgress
  exact ⟨e, he, fun x hx => ⟨(hall x hx).2 rfl, (hall x hx).1⟩⟩

theorem set_file (h : Tidy l) (c : Component) (hf : ∀ g, f = some g → g.isPrivate = true)
    (hpaired : (l.set (.file c) f).Paired) :
    Tidy (l.set (.file c) f) where
  folders := h.folders
  files c' g hg := by
    rw [Layout.set_file_files] at hg
    by_cases hc : c' = c
    · subst hc
      rw [Function.update_self] at hg
      exact hf g hg
    · rw [Function.update_of_ne hc] at hg
      exact h.files c' g hg
  dirs := h.dirs
  paired := hpaired

theorem set_entry (h : Tidy l) (d : Sub) (name : Text) (hf : ∀ g, f = some g → d.Fits (name, g)) :
    Tidy (l.set (.entry d name) f) where
  folders := h.folders
  files := h.files
  dirs d' := by
    by_cases hd : d' = d
    · subst hd
      obtain ⟨e, he, hall⟩ := h.dirs d'
      refine ⟨e.set name f, ?_, Dir.set_all hall hf⟩
      rw [Layout.set_entry_dirs, Function.update_self, he]
      rfl
    · rw [Layout.set_entry_dirs, Function.update_of_ne hd]
      exact h.dirs d'
  paired := h.paired

/-- A file that has nothing to do with the database. -/
theorem set_other (h : Tidy l) {c : Component} (hdb : .database ≠ c)
    (hjournal : .databaseJournal ≠ c) (hf : ∀ g, f = some g → g.isPrivate = true) :
    Tidy (l.set (.file c) f) := by
  refine h.set_file c hf ?_
  simpa [Layout.Paired, Function.update_of_ne hdb, Function.update_of_ne hjournal] using h.paired

theorem project (m : Machine) (d : Option { d : Dir // d.IsEgress }) (h : Tidy m.live) :
    Tidy (m.project d).live := by
  unfold Machine.project
  split
  · next d _ _ =>
    refine ⟨h.folders, h.files, fun d' => ?_, h.paired⟩
    cases d' with
    | wireguard => exact h.dirs .wireguard
    | providerEgress => exact ⟨d.1, rfl, fun x hx => ⟨(d.2 x hx).2, fun _ => (d.2 x hx).1⟩⟩
  · exact h

theorem tear (m : Machine) (h : Tidy m.live) : Tidy (m.tear w).live := by
  unfold Machine.tear
  split
  · next f hf _ =>
    have hp := h.files .database f hf
    refine (h.set_file .databaseJournal ?_ (Or.inr ?_)).set_file .database ?_ (Or.inr rfl)
    · rintro g ⟨⟩
      exact hp
    · change (m.live.files .database).isSome = true
      rw [hf]
      rfl
    · rintro g ⟨⟩
      exact hp
  · exact h

theorem stopWorker (m : Machine) (killed : Bool) (h : Tidy m.live) :
    Tidy (m.stopWorker w killed).live := by
  unfold Machine.stopWorker
  cases m.worker && killed
  · exact h
  · exact tear m h

theorem rollBack (m : Machine) (h : Tidy m.live) : Tidy (rollBackJournal m).live := by
  unfold rollBackJournal
  split
  · exact h
  · next j hj =>
    refine Tidy.set_file (Tidy.set_file h .database ?_ (Or.inr rfl)) .databaseJournal ?_
      (Or.inl rfl)
    · rintro g ⟨⟩
      exact h.files .databaseJournal j hj
    · rintro g ⟨⟩

end Tidy

/-- The live tree is tidy. -/
def TidyLive (m : Machine) : Prop := Tidy m.live

namespace TidyLive

variable {w : Platform}

theorem hook : Preserves TidyLive hook := preserves_hook Tidy.project

theorem quiesce : Preserves TidyLive (quiesce w) := preserves_quiesce Tidy.project Tidy.stopWorker

theorem health : Preserves TidyLive health := preserves_health Tidy.project fun _ h => h

theorem resume (pending : Bool) : Preserves TidyLive (resume w pending) :=
  preserves_resume Tidy.project (fun _ h => h) pending

theorem setLayout {place : Place} (hne : place ≠ .live) (m : Machine) (l : Option Layout)
    (h : TidyLive m) : TidyLive (m.setLayout place l) := by
  rw [TidyLive, Machine.setLayout_live hne]
  exact h

theorem record (phase : Phase) (ingress : List IngressIdentity) :
    Preserves TidyLive (record phase ingress) :=
  preserves_record phase ingress (fun _ _ h => h) fun _ h => h

theorem cleanup : Preserves TidyLive cleanup := preserves_cleanup (fun _ h => h) fun _ _ h => h

theorem snapshot : Preserves TidyLive (snapshot w) := preserves_snapshot (setLayout (by decide))

theorem revokeSessions : Preserves TidyLive (revokeSessions w) := by
  have hcommit (m : Machine) (h : TidyLive m) : TidyLive (m.set ⟨.live, .file .database⟩
      ((m.get ⟨.live, .file .database⟩).map fun f => { f with bytes := w.revoke f.bytes })) := by
    refine Tidy.set_file h .database ?_ ?_
    · intro g hg
      obtain ⟨f, hf, rfl⟩ := Option.map_eq_some_iff.mp hg
      exact Tidy.files h .database f hf
    · simpa [Layout.Paired, Layout.get] using Tidy.paired h
  refine preserves_seq_check <| preserves_effect hcommit fun k m h => ?_
  rcases k with _ | _ | k
  · exact h
  · exact Tidy.tear m h
  · exact hcommit m h

/-- The names that come into the live tree are those of a valid source. -/
theorem publish {source : Place} (hne : source ≠ .live) :
    Preserves TidyLive (publish w source) := by
  intro A m h
  refine wp_seq_check h fun _ _ => ?_
  refine wp_seq (R := fun _ m' => m' = m ∧ ∃ l, m.layout source = some l ∧ ∀ d, ∃ e,
    l.dirs d = some e ∧ ∀ x ∈ e.entries, d.Fits x) (wp_check_post h fun _ hok => ⟨rfl, ?_⟩) ?_
  · split at hok
    · cases hok
    · next l hl =>
      obtain ⟨st, hvalid⟩ := validate_eq_ok.mp hok
      exact ⟨l, hl, hvalid.fits⟩
  rintro - m ⟨rfl, l, hl, hfits⟩
  let J (m : Machine) : Prop :=
    TidyLive m ∧ m.layout source = some l ∧ m.live.files .databaseJournal = none
  have hset (slot : Slot) (m : Machine) (f : Option File) (hm : J m)
      (hslot : .file .databaseJournal ≠ slot) (hf : Tidy (m.live.set slot f)) :
      J (m.set ⟨.live, slot⟩ f) := by
    refine ⟨hf, by rw [Machine.set, Machine.layout_onLayout_ne _ hne]; exact hm.2.1, ?_⟩
    change (m.live.set slot f).files .databaseJournal = none
    cases slot with
    | file c =>
      rw [Layout.set_file_files, Function.update_of_ne fun hc => hslot (by rw [hc])]
      exact hm.2.2
    | entry d name => exact hm.2.2
  have hfile (c temporary : Component) (hdb : .database ≠ temporary)
      (hjournal : .databaseJournal ≠ temporary) (hc : .databaseJournal ≠ c) :
      Preserves J (publishFile source c temporary) := by
    have hslot : Slot.file .databaseJournal ≠ .file temporary := fun h => hjournal (by cases h; rfl)
    refine preserves_seq (preserves_branch (preserves_check _) (preserves_pure _)) ?_
    refine preserves_seq (preserves_removeStale fun m hm => hset _ m _ hm hslot
      (Tidy.set_other hm.1 hdb hjournal (by simp))) ?_
    refine preserves_seq (preserves_copyFile fun m bytes hm => hset _ m _ hm hslot
      (Tidy.set_other hm.1 hdb hjournal ?_)) ?_
    · rintro g ⟨⟩
      exact isPrivate_privateMode _
    refine preserves_seq (preserves_atomic fun m hm => ⟨?_, ?_, ?_⟩) <| preserves_check _
    · have hcold : (m.live.set (.file c) (m.live.files temporary)).files .databaseJournal =
          none := by
        rw [Layout.set_file_files, Function.update_of_ne hc]
        exact hm.2.2
      exact Tidy.set_other (Tidy.set_file hm.1 c (Tidy.files hm.1 temporary) (Or.inl hcold)) hdb
        hjournal (by simp)
    · rw [← hm.2.1]
      exact Machine.layout_congr hne rfl
    · simp [Function.update_of_ne hjournal, Function.update_of_ne hc, hm.2.2]
  have hdir (d : Sub) : Preserves J (publishDir source d) := by
    refine preserves_bind (preserves_check _) fun old => ?_
    refine preserves_seq (preserves_forM (fun name => preserves_seq_check <|
      preserves_unlink fun m hm => hset _ m _ hm (by simp)
        (Tidy.set_entry hm.1 d name (by simp))) _) ?_
    intro A m hm
    refine wp_seq_check hm fun names hnames => ?_
    obtain ⟨e, he, hall⟩ := hfits d
    rw [hm.2.1, Option.bind_some, he] at hnames
    cases hnames
    -- the loop keeps that the names still to come are those of the source
    refine wp_seq (wp_forM (fun rest m => J m ∧ ∀ name ∈ rest, d = .providerEgress →
      name ∈ egressNames) ?_ _ ⟨hm, ?_⟩) fun _ m h => (preserves_check _) A m h.1
    · rintro name rest m ⟨hm, hrest⟩
      refine wp_post (preserves_copyFile (I := J) (fun m bytes hm => hset _ m _ hm (by simp)
        (Tidy.set_entry hm.1 d name ?_)) A m hm) fun _ m hm => ⟨hm, fun n hn =>
        hrest n (List.mem_cons_of_mem _ hn)⟩
      rintro g ⟨⟩
      exact ⟨isPrivate_privateMode _, hrest name List.mem_cons_self⟩
    · intro name hname
      obtain ⟨x, hx, rfl⟩ := List.mem_map.mp hname
      exact (hall x hx).2
  refine wp_seq (R := fun _ => J) (wp_branch (fun hsome => ?_) fun hnone => ?_) ?_
  · refine wp_seq_check h fun _ _ => ?_
    have hgone : J (m.set ⟨.live, .file .databaseJournal⟩ none) := by
      refine ⟨Tidy.set_file h _ (by simp) (Or.inl rfl), ?_, rfl⟩
      rw [Machine.set, Machine.layout_onLayout_ne _ hne]
      exact hl
    exact wp_atomic hgone (fun _ _ _ => ⟨h, hgone.1⟩) fun _ _ => ⟨h, hgone.1⟩
  · exact wp_pure ⟨h, hl, by simpa [Layout.get] using hnone⟩
  have hrest : Preserves J (do
      publishFile source .database .databaseNew
      publishFile source .masterKey .masterKeyNew
      publishFile source .manifest .manifestNew
      publishDir source .wireguard
      publishDir source .providerEgress) := by
    refine preserves_seq (hfile _ _ (by decide) (by decide) (by decide)) ?_
    refine preserves_seq (hfile _ _ (by decide) (by decide) (by decide)) ?_
    refine preserves_seq (hfile _ _ (by decide) (by decide) (by decide)) ?_
    exact preserves_seq (hdir _) <| hdir _
  exact fun _ m hm => wp_mono_else (hrest A m hm) (fun _ _ h => h.1) fun _ h => h.1

theorem install (ingress : List IngressIdentity) : Preserves TidyLive (install w ingress) := by
  refine preserves_seq hook <| preserves_seq quiesce ?_
  refine preserves_seq snapshot <| preserves_seq (record _ _) ?_
  refine preserves_seq hook <| preserves_seq (record _ _) ?_
  refine preserves_seq (publish (by decide)) <| preserves_seq (record _ _) ?_
  refine preserves_seq revokeSessions <| preserves_seq_check ?_
  refine preserves_seq_check <| preserves_seq_check ?_
  refine preserves_seq_check <| preserves_seq hook ?_
  refine preserves_bind health fun _ => preserves_bind (preserves_demand _ _) fun _ => ?_
  refine preserves_seq (record _ _) <| preserves_seq (record _ _) ?_
  exact preserves_seq hook cleanup

theorem rollback : Preserves TidyLive (rollback w) := by
  refine preserves_bind (preserves_check _) fun _ => preserves_bind hook fun _ => ?_
  refine preserves_seq quiesce <| preserves_seq hook ?_
  refine preserves_seq (preserves_branch (preserves_seq (record _ _) <|
    publish (by decide)) (preserves_pure _)) ?_
  exact preserves_seq (resume _) cleanup

theorem restoreHandler (e : Code) : Preserves TidyLive (restoreHandler w e) := by
  refine preserves_branch (preserves_seq (preserves_handle rollback fun _ => ?_) <|
    preserves_raise _) (preserves_seq (preserves_effect (fun _ h => h) fun _ _ h => h) <|
    preserves_raise _)
  refine preserves_seq (preserves_handle (preserves_seq_check hook)
    fun _ => preserves_pure _) ?_
  exact preserves_seq (preserves_handle quiesce fun _ => preserves_pure _) <|
    preserves_raise _

theorem restoreBody (b : Backup) : Preserves TidyLive (restoreBody w b) := by
  refine preserves_bind (preserves_prepare (setLayout (by decide)) (setLayout (by decide)))
    fun _ => preserves_seq (record _ _) ?_
  exact preserves_seq (preserves_modify fun _ h => h) <| install _

theorem restore (b : Backup) (confirmation : Text) :
    Preserves TidyLive (restore w b confirmation) := by
  have hopen : Preserves TidyLive (openTransaction w confirmation) := by
    refine preserves_seq_check <|
      preserves_seq (preserves_demand _ _) ?_
    refine preserves_seq_check <| preserves_seq_check ?_
    refine preserves_seq (preserves_create fun _ h => h) ?_
    refine preserves_seq (preserves_create fun m => setLayout (by decide) m _) ?_
    exact preserves_modify fun _ h => h
  exact preserves_seq hopen <| preserves_handle (restoreBody b) restoreHandler

theorem startWithoutReceipt : Preserves TidyLive (startWithoutReceipt w) := by
  refine preserves_startWithoutReceipt Tidy.project Tidy.stopWorker (fun _ h => h) Tidy.rollBack
    fun m j hj h => ?_
  refine Tidy.set_file h .database ?_ (Or.inr rfl)
  rintro g ⟨⟩
  exact Tidy.files h .databaseJournal j hj

theorem stageInitial : Preserves TidyLive (stageInitial w) :=
  preserves_seq (preserves_stageEmpty (setLayout (by decide))) <|
    preserves_seq_check <| record _ _

theorem repair (phase : Phase) : Preserves TidyLive (repair w phase) := by
  cases phase with
  | initPreparing =>
    refine preserves_seq (preserves_branch (preserves_seq_check <|
      preserves_effect (fun m => setLayout (by decide) m _) fun _ m => setLayout (by decide) m _)
      (preserves_pure _)) ?_
    exact preserves_seq stageInitial <| publish (by decide)
  | initReady => exact publish (by decide)
  | committed => exact preserves_seq_check <| preserves_pure _
  | prepared => exact preserves_pure _
  | snapshotReady | publishing | installed | validated | rollbackRequired =>
    exact publish (by decide)

theorem recoverTransaction : Preserves TidyLive (recoverTransaction w) := by
  refine preserves_bind (preserves_check _) fun _ => preserves_bind hook fun _ => ?_
  refine preserves_seq quiesce <| preserves_seq hook ?_
  refine preserves_bind (repair _) fun _ => preserves_bind (resume _) fun _ => ?_
  exact preserves_seq cleanup <| preserves_pure _

theorem not_isEmpty {m : Machine} (h : TidyLive m) : m.live.isEmpty = false := by
  simp [Layout.isEmpty, Tidy.folders h]

theorem startup : Preserves TidyLive (startup w) := by
  refine preserves_handle ?_ fun e => preserves_raise _
  refine preserves_seq_check ?_
  refine preserves_seq (fun A m h => wp_branch (fun hempty => ?_) fun _ => wp_pure h) ?_
  · rw [h.not_isEmpty] at hempty
    cases hempty
  · exact preserves_branch recoverTransaction startWithoutReceipt

end TidyLive

/-! ## Tidy trees and validation -/

section
variable {w : Platform} {l : Layout} {st : State} {m : Machine} {inventory : StateInventory}
  {m0 : Machine} {Q : StateInventory → Machine → Prop} {P C : State} {j : Journal}
  {A : Regime Reply Code} {backup : Backup} {confirmation : Text} {start : Machine}

theorem Valid.tidy (h : Valid w l st inventory)
    (hfiles : ∀ c f, l.files c = some f → f.isPrivate = true) : Tidy l :=
  ⟨h.folders, hfiles, h.fits, Or.inl h.pair.cold⟩

theorem Dir.length_eq_of_contents {d e : Dir} (h : d.contents = e.contents) :
    d.entries.length = e.entries.length := by
  have hmem (name : Text) : name ∈ d.entries.map Prod.fst ↔ name ∈ e.entries.map Prod.fst := by
    have hname := congrFun h name
    rw [Dir.mem_names_iff, Dir.mem_names_iff, ← Option.isSome_map (f := File.bytes),
      ← Option.isSome_map (f := File.bytes)]
    exact iff_of_eq (congrArg (fun o : Option Bytes => o.isSome = true) hname)
  have hperm := (List.perm_ext_iff_of_nodup d.nodup e.nodup).mpr hmem
  simpa using hperm.length_eq

/-- A tidy tree with the meaning of a valid one is valid, unless its journal is hot. -/
theorem Tidy.valid (h : Tidy l) (hcold : l.files .databaseJournal = none)
    (hst : logical w l = some st) {l' : Layout} (hvalid : Valid w l' st inventory) :
    Valid w l st inventory := by
  obtain ⟨himage, hkey, hmanifest, hwireguard⟩ := logical_eq_some_iff.mp hst
  obtain ⟨key, hk, hkb⟩ := Option.map_eq_some_iff.mp hkey
  obtain ⟨manifest, hm, hmb⟩ := Option.map_eq_some_iff.mp hmanifest
  obtain ⟨d, hd, hdc⟩ := Option.map_eq_some_iff.mp hwireguard
  obtain ⟨d', hd', hwg, hcontents⟩ := hvalid.pair.files
  have hsame : d.contents = d'.contents := hdc.trans hcontents.symm
  have hentries : ∀ x ∈ d.entries, Sub.wireguard.Fits x := by
    obtain ⟨d1, hd1, hall⟩ := h.dirs .wireguard
    rw [hd] at hd1
    cases hd1
    exact hall
  have hdatabase : ∃ f, l.files .database = some f ∧ f.isPrivate = true ∧
      w.decode f.bytes = some st.content := by
    rw [Layout.image, hcold] at himage
    cases hf : l.files .database with
    | none => simp [hf] at himage
    | some f => exact ⟨f, rfl, h.files _ f hf, by simpa [hf] using himage⟩
  have hiswg : d.IsWireguard :=
    { count := by rw [Dir.length_eq_of_contents hsame]; exact hwg.count
      isPrivate := fun x hx => (hentries x hx).1
      size := by
        rintro ⟨name, f⟩ hx
        have hname := congrFun hsame name
        rw [Dir.contents, Dir.get_eq_of_mem hx, Option.map_some] at hname
        obtain ⟨g, hg, hbytes⟩ := Option.map_eq_some_iff.mp hname.symm
        have := hwg.size _ (Dir.mem_of_get hg)
        rwa [hbytes] at this }
  exact
    { folders := h.folders
      egress := h.egress
      pair :=
        { cold := hcold
          database := hdatabase
          masterKey := ⟨key, hk, h.files _ key hk, hkb⟩
          keyLength := hvalid.pair.keyLength
          files := ⟨d, hd, hiswg, hdc⟩
          inspected := hvalid.pair.inspected }
      manifest := ⟨manifest, hm, h.files _ manifest hm, hmb⟩
      manifestLength := hvalid.manifestLength
      manifestMatches := hvalid.manifestMatches }

theorem Tidy.startable (h : Tidy l) (hcold : l.files .databaseJournal = none)
    (hst : logical w l = some st) (hstartable : Startable w st) :
    ∃ inventory, Valid w l st inventory ∧ inventory.recoveryRequired = false := by
  obtain ⟨l', inventory, hvalid, hrr⟩ := hstartable.valid
  exact ⟨inventory, h.valid hcold hst hvalid, hrr⟩

/-- With a hot journal, exactly the repair of `recover_database` is called for. -/
theorem Tidy.validate_hot (h : Tidy m.live) {j : File} (hj : m.live.files .databaseJournal = some j)
    (hst : logical w m.live = some st) (hstartable : Startable w st) :
    m.live.validate w = .error .containerStateSqliteRecoveryRequired := by
  have hrolled : rollBackJournal m =
      (m.set ⟨.live, .file .database⟩ (some j)).set ⟨.live, .file .databaseJournal⟩ none := by
    simp only [rollBackJournal, hj]
  have hcold : (rollBackJournal m).live.files .databaseJournal = none := by simp [hrolled]
  obtain ⟨inventory, hvalid, -⟩ := (Tidy.rollBack m h).startable hcold
    (by rw [logical_rollBackJournal]; exact hst) hstartable
  obtain ⟨db, hdb⟩ := Option.isSome_iff_exists.mp (h.paired.resolve_left (by simp [hj]))
  exact Recovery.validate_hot hvalid (by simp [hrolled]) (by simp [hrolled]) (by simp [hrolled])
    (by simp [hrolled]) ⟨db, hdb, h.files _ db hdb⟩ ⟨j, hj, h.files _ j hj⟩

/-! ## A startup in which no step fails -/

/-- No step fails, and the worker reports health. -/
def calm : Regime Reply Code := .faultFree (fun r => r.healthy = true) rfl

theorem calm_absorbs {E : Code → Machine → Prop} {C : Machine → Prop} : Absorbs calm E C :=
  absorbs_faultFree

/-- Without a fault the procedure returns, and then `Q` holds. -/
def Completes {α : Type} (p : Act α) (Q : α → Machine → Prop) (m : Machine) : Prop :=
  wp calm p Q (fun _ _ => False) (fun _ => False) m

/-- What hooks leave alone while there is no worker. -/
structure Still (m0 m : Machine) : Prop where
  tidy : Tidy m.live
  idle : m.worker = false
  files : m.live.files = m0.live.files
  wireguard : m.live.dirs .wireguard = m0.live.dirs .wireguard
  txn : m.txn = m0.txn
  journal : m.journal = m0.journal

namespace Still

variable {m0 : Machine}

theorem refl (h : Tidy m.live) (hidle : m.worker = false) : Still m m :=
  ⟨h, hidle, rfl, rfl, rfl, rfl⟩

theorem logical (h : Still m0 m) : logical w m.live = logical w m0.live := by
  simp only [Recovery.logical, Layout.image, h.files, h.wireguard]

theorem project (m : Machine) (d : Option { d : Dir // d.IsEgress }) (h : Still m0 m) :
    Still m0 (m.project d) := by
  have htidy := Tidy.project m d h.tidy
  revert htidy
  unfold Machine.project
  split
  · exact fun htidy => ⟨htidy, h.idle, h.files, h.wireguard, h.txn, h.journal⟩
  · exact fun _ => h

theorem stopWorker (m : Machine) (killed : Bool) (h : Still m0 m) :
    Still m0 (m.stopWorker w killed) := by
  unfold Machine.stopWorker
  rw [h.idle]
  exact ⟨h.tidy, rfl, h.files, h.wireguard, h.txn, h.journal⟩

end Still

theorem completes_hook {I : Machine → Prop} (h : ∀ d, I (m.project d)) :
    Completes hook (fun _ => I) m :=
  wp_seq (calm_absorbs.prim fun r _ => h r.egress) fun _ _ hm =>
    calm_absorbs.check (fun _ _ => hm) fun _ he => nomatch he

/-- A receipt is written if its directory is there. -/
theorem completes_record (phase : Phase) (ingress : List IngressIdentity)
    (h : m.live.folders .recovery = true) :
    Completes (record phase ingress) (fun _ m' => m' = recorded m phase ingress) m := by
  refine wp_seq_eq (wp_leased calm_absorbs rfl) fun _ => ?_
  refine wp_seq_eq (t := m) (calm_absorbs.check (fun _ _ => rfl) fun e he => by simp [h] at he)
    fun _ => ?_
  refine wp_seq (R := fun _ m' => ∃ b, m' = { m with journalNew := b }) (wp_branch
    (fun _ => calm_absorbs.atomic ⟨false, rfl⟩) fun _ => wp_pure ⟨m.journalNew, rfl⟩) ?_
  rintro - _ ⟨b, rfl⟩
  refine wp_seq_eq (calm_absorbs.atomic rfl) fun _ =>
    wp_seq_eq (calm_absorbs.atomic rfl) fun _ => ?_
  exact wp_sync calm_absorbs rfl

theorem Still.hook (h : Still m0 m) : Completes hook (fun _ => Still m0) m :=
  completes_hook fun d => h.project m d

theorem Still.quiesce (h : Still m0 m) : Completes (quiesce w) (fun _ => Still m0) m :=
  wp_seq h.hook fun _ m hm => calm_absorbs.prim fun r _ => hm.stopWorker m r.killed

/-- A machine without a worker whose live tree has a state that can be started. -/
structure Settling (w : Platform) (st : State) (m : Machine) : Prop where
  tidy : Tidy m.live
  idle : m.worker = false
  state : logical w m.live = some st
  startable : Startable w st

/-- And its database needs no repair. -/
structure Ready (w : Platform) (st : State) (m : Machine) : Prop extends Settling w st m where
  cold : m.live.files .databaseJournal = none

/-- The appliance is open on the state. -/
structure Serving (w : Platform) (st : State) (m : Machine) : Prop where
  tidy : Tidy m.live
  state : logical w m.live = some st
  cold : m.live.files .databaseJournal = none

theorem Settling.still (h : Settling w st m0) (hs : Still m0 m) : Settling w st m :=
  ⟨hs.tidy, hs.idle, by rw [hs.logical]; exact h.state, h.startable⟩

theorem Ready.still (h : Ready w st m0) (hs : Still m0 m) : Ready w st m :=
  ⟨h.toSettling.still hs, by rw [hs.files]; exact h.cold⟩

theorem Ready.valid (h : Ready w st m) :
    ∃ inventory, Valid w m.live st inventory ∧ inventory.recoveryRequired = false :=
  h.tidy.startable h.cold h.state h.startable

theorem Serving.project (m : Machine) (d : Option { d : Dir // d.IsEgress })
    (h : Serving w st m) : Serving w st (m.project d) := by
  refine ⟨Tidy.project m d h.tidy, by rw [logical_project]; exact h.state, ?_⟩
  unfold Machine.project
  split <;> exact h.cold

theorem project_txn (m : Machine) (d : Option { d : Dir // d.IsEgress }) :
    (m.project d).txn = m.txn := by
  unfold Machine.project
  split <;> rfl

/-- `_resume` opens the appliance. -/
theorem Ready.resume (h : Ready w st m) (pending : Bool) :
    Completes (resume w pending) (fun _ m' => Serving w st m' ∧ m'.txn = m.txn) m := by
  obtain ⟨inventory, hvalid, hrr⟩ := h.valid
  have hok := validate_eq_ok.mpr ⟨st, hvalid⟩
  refine wp_seq (R := fun i m' => m' = m ∧ i = inventory) (calm_absorbs.check (fun i hi => ?_)
    fun e he => ?_) ?_
  · simp only [Machine.layout_live, hok] at hi
    cases hi
    exact ⟨rfl, rfl⟩
  · simp only [Machine.layout_live, hok] at he
    cases he
  rintro _ m ⟨rfl, rfl⟩
  refine wp_seq (R := fun _ => Still m) (wp_demand (fun _ => .refl h.tidy h.idle) (by simp [hrr]))
    fun _ m1 h1 => wp_seq h1.hook fun _ m2 h2 => ?_
  refine wp_seq (R := fun _ => Still m) ?_ fun _ m3 h3 => ?_
  · cases pending
    · exact wp_pure h2
    · exact h2.hook
  -- from here on there is a worker
  let S (m' : Machine) : Prop := Serving w st m' ∧ m'.txn = m.txn
  refine wp_seq (R := fun healthy m' => healthy = true ∧ S m') (wp_seq h3.hook fun _ m4 h4 =>
    calm_absorbs.prim ?_) ?_
  · rintro r ⟨_, ⟨⟩, hr⟩
    have h4' := h.still h4
    exact ⟨hr, ⟨h4'.tidy, h4'.state, h4'.cold⟩, h4.txn⟩
  rintro _ m5 ⟨rfl, h5⟩
  refine wp_seq (R := fun _ => S) (wp_pure h5) fun _ m6 h6 => ?_
  exact wp_seq (completes_hook (I := S) fun d => ⟨h6.1.project m6 d, by rw [project_txn, h6.2]⟩)
    fun _ m7 h7 => wp_pure h7

theorem Ready.validateAt (h : Ready w st m) :
    Completes (validateAt w .live) (fun _ m' => m' = m) m := by
  obtain ⟨inventory, hvalid, -⟩ := h.valid
  exact wp_post (wp_validateAt calm_absorbs (Or.inl ⟨m.live, st, inventory, rfl, hvalid⟩))
    fun _ _ h => h.1

/-- A read-only connection reads the content of the state. -/
theorem Ready.readDatabase (h : Ready w st m) :
    (readDatabase m .live).bind w.decode = some st.content := by
  have hcold := h.cold
  have hread : Recovery.readDatabase m .live = m.live.image := by
    simp only [Recovery.readDatabase, Machine.get_live, Layout.get, Layout.image, hcold]
    cases m.live.files .database <;> rfl
  rw [hread]
  exact (logical_eq_some_iff.mp h.state).1

theorem Ready.ingressIdentities (h : Ready w st m) :
    Completes (ingressIdentities w .live) (fun _ m' => m' = m) m := by
  obtain ⟨ids, hids⟩ := h.startable.ingress
  refine calm_absorbs.check (fun _ _ => rfl) fun e he => ?_
  simp only [h.readDatabase, hids] at he
  cases he

/-- What `_sync_tree` accepts. -/
def Txn.isPrivate (t : Txn) : Bool :=
  isPrivateTree t.archive && isPrivateTree t.candidate && isPrivateTree t.previous

theorem completes_cleanup {t : Txn} (ht : m.txn = some t) (hp : t.isPrivate = true) :
    Completes cleanup (fun _ m' => m'.live = m.live) m := by
  have hsynced : Completes syncTransaction (fun _ m' => m'.live = m.live) m := by
    refine calm_absorbs.check (fun _ _ => rfl) fun e he => ?_
    rw [Txn.isPrivate] at hp
    simp [ht, hp] at he
  refine wp_seq (wp_leased (Q := fun _ m' => m' = m) calm_absorbs rfl) ?_
  rintro - m rfl
  refine wp_seq hsynced fun _ m1 h1 => wp_seq (R := fun _ m' => m'.live = m.live)
    (calm_absorbs.atomic h1) fun _ m2 h2 => ?_
  refine wp_seq (wp_sync (Q := fun _ m' => m'.live = m.live) calm_absorbs h2) fun _ m3 h3 => ?_
  exact wp_seq (R := fun _ m' => m'.live = m.live) (calm_absorbs.effect h3) fun _ m4 h4 =>
    wp_sync calm_absorbs h4

theorem Settling.rollBack (h : Settling w st m) : Ready w st (rollBackJournal m) where
  tidy := Tidy.rollBack m h.tidy
  idle := by
    rw [← h.idle]
    unfold rollBackJournal
    split <;> rfl
  state := by rw [logical_rollBackJournal]; exact h.state
  startable := h.startable
  cold := by
    unfold rollBackJournal
    split
    · assumption
    · simp

/-- The refusal of a hot journal leads to `p`. -/
theorem Settling.validateHot (h : Settling w st m) {j : File}
    (hj : m.live.files .databaseJournal = some j) {p : Act StateInventory}
    (hp : Completes p Q m) :
    Completes ((validateAt w .live).handle fun e => do
      .demand (e == .containerStateSqliteRecoveryRequired) e
      p) Q m := by
  have hhot := h.tidy.validate_hot hj h.state h.startable
  refine wp_handle (calm_absorbs.check (fun i hok => ?_) fun e he => ?_)
  · simp only [Machine.layout_live, hhot] at hok
    cases hok
  · simp only [Machine.layout_live, hhot] at he
    cases he
    exact wp_seq (R := fun _ m' => m' = m) (wp_pure rfl) (by rintro - m rfl; exact hp)

theorem Settling.recoverDatabase (h : Settling w st m) {j : File}
    (hj : m.live.files .databaseJournal = some j) :
    Completes (recoverDatabase w) (fun _ => Ready w st) m := by
  have hready := h.rollBack
  refine h.validateHot hj ?_
  refine wp_seq_eq (t := rollBackJournal m) (calm_absorbs.effect rfl) fun _ => ?_
  refine wp_seq_eq (t := rollBackJournal m) (calm_absorbs.check (fun _ _ => rfl)
    fun e he => ?_) fun _ => ?_
  · simp [hready.readDatabase] at he
  exact wp_post hready.validateAt (by rintro - m rfl; exact hready)

theorem Settling.startWithoutReceipt (h : Settling w st m) :
    Completes (startWithoutReceipt w) (fun _ => Serving w st) m := by
  refine wp_seq_eq (t := m) (calm_absorbs.prim fun _ _ => rfl) fun pending => ?_
  refine wp_seq (R := fun _ => Ready w st) ?_ ?_
  · cases hj : m.live.files .databaseJournal with
    | none =>
      have hready : Ready w st m := ⟨h, hj⟩
      exact wp_handle (wp_mono hready.validateAt (by rintro - m rfl; exact hready)
        (fun _ _ => False.elim) fun _ => id)
    | some j =>
      refine h.validateHot hj ?_
      refine wp_seq (Still.refl h.tidy h.idle).hook fun _ m1 h1 =>
        wp_seq h1.quiesce fun _ m2 h2 => ?_
      refine wp_seq (wp_leased (Q := fun _ m' => m' = m2) calm_absorbs rfl) ?_
      rintro - m2 rfl
      exact (h.still h2).recoverDatabase (by rw [h2.files]; exact hj)
  intro _ m1 h1
  refine wp_seq h1.ingressIdentities ?_
  rintro - m1 rfl
  refine wp_seq (Still.refl h1.tidy h1.idle).hook fun _ m2 h2 => ?_
  refine wp_seq h2.quiesce fun _ m3 h3 => wp_seq h3.hook fun _ m4 h4 => ?_
  exact wp_post ((h1.still h4).resume pending) fun _ _ h => h.1

/-- Publishing a valid tree with a state that can be started. -/
theorem Still.publish (hs : Still m0 m) (hstartable : Startable w st)
    {source : Place} (hne : source ≠ .live) {l : Layout} (hl : m0.layout source = some l)
    (hvalid : Valid w l st inventory) :
    Completes (publish w source) (fun _ m' => Ready w st m' ∧ m'.txn = m0.txn) m := by
  have hlayout : m.layout source = some l := by rw [Machine.layout_congr hne hs.txn, hl]
  refine wp_mono (wp_and (TidyLive.publish (w := w) hne calm m hs.tidy)
    (wp_publish calm_absorbs hne (Or.inl ⟨hs.tidy.clean, l, st, inventory, hlayout, hvalid⟩)))
    ?_ (fun _ _ h => h.2) fun _ h => h.2
  rintro - m' ⟨htidy, l', st', inventory', hl', hvalid', hpublished, hframe⟩
  rw [hlayout] at hl'
  cases hl'
  have hst := (hpublished.valid hvalid hs.tidy.folders).logical
  exact ⟨⟨⟨htidy, by rw [hframe]; exact hs.idle, hst, hstartable⟩, hpublished.cold⟩,
    by rw [hframe]; exact hs.txn⟩

/-! ## The condition -/

/-- What a startup needs of a receipt and of the transaction it belongs to. -/
structure Resumable (w : Platform) (m : Machine) (j : Journal) : Prop where
  /-- `_read_journal` accepts the receipt. -/
  receipt : j.ingress.length ≤ 32
  /-- The leftovers of the transaction are private. -/
  leftovers : ∃ t, m.txn = some t ∧ t.isPrivate = true
  /-- Where the live tree is replaced, the snapshot is complete. -/
  snapshot : j.phase.isMiddle = true → ∃ l inventory, m.layout .previous = some l ∧
    l.validate w = .ok inventory
  /-- Where it is not, its database needs no repair. -/
  cold : j.phase.isMiddle = false → m.live.files .databaseJournal = none

/-- Every receipt can be resumed. -/
def Bootable (w : Platform) (m : Machine) : Prop := ∀ j, m.journal = some j → Resumable w m j

theorem Inv.startable (h : Inv w P C m) (hP : Startable w P) :
    Startable w (settledOn P C m.trace) := by
  unfold settledOn
  split
  · next hc => exact (h.commit hc).1
  · exact hP

/-- The repair for a receipt that can be resumed. -/
theorem Resumable.repair (h : Resumable w m0 j) (hinv : Inv w P C m0)
    (hj : m0.journal = some j) (hP : Startable w P) (hs : Still m0 m) :
    Completes (repair w j.phase) (fun _ m' => (∃ st, Ready w st m') ∧ m'.txn = m0.txn) m := by
  obtain ⟨hne1, hne2, -⟩ := hinv.phase j hj
  have hsettled (hmiddle : j.phase.isMiddle = false) :
      Ready w (settledOn P C m0.trace) m := by
    refine ⟨⟨hs.tidy, hs.idle, ?_, hinv.startable hP⟩, by rw [hs.files]; exact h.cold hmiddle⟩
    rw [hs.logical]
    refine hinv.live fun j' hj' => ?_
    rw [hj] at hj'
    cases hj'
    revert hmiddle hne1 hne2
    cases j.phase <;> simp [Phase.isMiddle]
  have hpublish (hmiddle : j.phase.isMiddle = true) : Completes (publish w .previous)
      (fun _ m' => (∃ st, Ready w st m') ∧ m'.txn = m0.txn) m := by
    obtain ⟨l, inventory, hl, hok⟩ := h.snapshot hmiddle
    obtain ⟨st, hvalid⟩ := validate_eq_ok.mp hok
    have hst := hinv.previous j hj l inventory hl hok
    rw [hvalid.logical] at hst
    cases hst
    exact wp_post (hs.publish hP (by decide) hl hvalid) fun _ _ h => ⟨⟨_, h.1⟩, h.2⟩
  cases hphase : j.phase with
  | initPreparing => exact absurd hphase hne1
  | initReady => exact absurd hphase hne2
  | prepared => exact wp_pure ⟨⟨_, hsettled (by rw [hphase]; rfl)⟩, hs.txn⟩
  | committed =>
    have hready := hsettled (by rw [hphase]; rfl)
    exact wp_seq hready.validateAt (by rintro - m rfl; exact wp_pure ⟨⟨_, hready⟩, hs.txn⟩)
  | snapshotReady | publishing | installed | validated | rollbackRequired =>
    exact hpublish (by rw [hphase]; rfl)

/-- The receipt is read if it is short enough. -/
theorem completes_readJournal (hj : m.journal = some j) (hle : j.ingress.length ≤ 32) :
    Completes readJournal (fun j' m' => m' = m ∧ j' = j) m := by
  refine calm_absorbs.check (fun receipt hok => ?_) fun e he => ?_
  · simp only [hj, hle, ↓reduceIte, Except.ok.injEq] at hok
    exact ⟨rfl, hok.symm⟩
  · simp [hj, hle] at he

/-- A startup with a receipt, given what the repair for its phase does. -/
theorem completes_recoverTransaction (hj : m.journal = some j) (hle : j.ingress.length ≤ 32)
    (hstill : Still m m) {Q : State → Prop}
    (hrepair : ∀ m1, Still m m1 → Completes (repair w j.phase) (fun _ m' =>
      (∃ st, Q st ∧ Ready w st m') ∧ ∃ t, m'.txn = some t ∧ t.isPrivate = true) m1) :
    Completes (recoverTransaction w) (fun _ m' => ∃ st, Q st ∧ Serving w st m') m := by
  refine wp_seq_read (completes_readJournal hj hle) ?_
  refine wp_seq hstill.hook fun _ m1 h1 => wp_seq h1.quiesce fun _ m2 h2 => ?_
  refine wp_seq h2.hook fun _ m3 h3 => wp_seq (hrepair m3 h3) ?_
  rintro - m4 ⟨⟨st, hst, h4⟩, t, htxn4, hp⟩
  refine wp_seq (h4.resume false) fun _ m5 ⟨h5, htxn5⟩ => ?_
  refine wp_seq (completes_cleanup (htxn5.trans htxn4) hp) fun _ m6 hlive => wp_pure ⟨st, hst, ?_⟩
  exact ⟨by rw [hlive]; exact h5.tidy, by rw [hlive]; exact h5.state, by rw [hlive]; exact h5.cold⟩

/-- A startup of a tree with its directories; what its root lacks is not made. -/
theorem completes_startup (htidy : Tidy m.live)
    (hsome : m.journal.isSome = true → Completes (recoverTransaction w) Q m)
    (hnone : m.journal.isSome = false → Completes (startWithoutReceipt w) Q m) :
    Completes (startup w) Q m := by
  refine wp_try (?_ : Completes _ Q m) fun _ _ => False.elim
  refine wp_seq (wp_leased (Q := fun _ m' => m' = m) calm_absorbs rfl) ?_
  rintro - m rfl
  refine wp_seq_eq (t := m) (wp_branch (fun hempty => ?_) fun _ => wp_pure rfl) fun _ => ?_
  · rw [TidyLive.not_isEmpty htidy] at hempty
    cases hempty
  exact wp_branch hsome hnone

/-- A startup gets over everything that the condition allows. -/
theorem Bootable.startup (h : Bootable w m) (hinv : Inv w P C m) (htidy : Tidy m.live)
    (hidle : m.worker = false) (hP : Startable w P) :
    Completes (startup w) (fun _ m' => ∃ st, Serving w st m') m := by
  refine completes_startup htidy (fun hsome => ?_) fun hnone => ?_
  · obtain ⟨j, hj⟩ := Option.isSome_iff_exists.mp hsome
    have hresumable := h j hj
    obtain ⟨t, ht, hp⟩ := hresumable.leftovers
    refine wp_post (completes_recoverTransaction (Q := fun _ => True) hj hresumable.receipt
      (.refl htidy hidle) fun m1 h1 => ?_) fun _ _ ⟨st, _, h⟩ => ⟨st, h⟩
    exact wp_post (hresumable.repair hinv hj hP h1) fun _ _ ⟨⟨st, hst⟩, htxn⟩ =>
      ⟨⟨st, trivial, hst⟩, t, htxn.trans ht, hp⟩
  · have hsettling : Settling w (settledOn P C m.trace) m :=
      ⟨htidy, hidle, hinv.live (by simp_all), hinv.startable hP⟩
    exact wp_post hsettling.startWithoutReceipt fun _ _ h => ⟨_, h⟩

/-! ## The condition is necessary -/

/-- A `_resume` that returns has found a valid tree that needs no recovery. -/
theorem wp_resume_seen (pending : Bool) : wpElse A (resume w pending) (fun inventory m' =>
    m'.txn = m.txn ∧ inventory.recoveryRequired = false ∧ ∃ st, Valid w m.live st inventory)
    (fun _ => True) m := by
  refine wp_seq (wp_validateAt absorbs_true (Or.inr fun _ _ => trivial)) ?_
  rintro inventory m ⟨rfl, l, st, hl, hvalid⟩
  cases hl
  refine wp_bind (wp_demand (fun hrr => ?_) fun _ => trivial)
  have hproject (m' : Machine) (d : Option { d : Dir // d.IsEgress }) (h : m'.txn = m.txn) :
      (m'.project d).txn = m.txn := by
    unfold Machine.project
    split <;> exact h
  have hhook : Preserves (fun m' => m'.txn = m.txn) hook := preserves_hook hproject
  have hlax (m' : Machine) (_ : m'.txn = m.txn) : True := trivial
  refine wp_seq (hhook.through rfl hlax) fun _ m1 h1 => ?_
  refine wp_seq (R := fun _ m' => m'.txn = m.txn) ?_ fun _ m2 h2 => ?_
  · cases pending
    · exact wp_pure h1
    · exact hhook.through h1 hlax
  refine wp_seq ((preserves_health hproject fun _ h => h).through h2 hlax) fun healthy m3 h3 => ?_
  refine wp_seq ((preserves_demand healthy _).through h3 hlax) fun _ m4 h4 => ?_
  exact wp_seq (hhook.through h4 hlax) fun _ m5 h5 => wp_pure ⟨h5, by simpa using hrr, st, hvalid⟩

theorem wp_cleanup_private : wpElse A cleanup (fun _ _ => ∃ t, m.txn = some t ∧ t.isPrivate = true)
    (fun _ => True) m := by
  have h : Absorbs A (fun _ (_ : Machine) => True) fun _ => True := absorbs_true
  refine wp_seq (wp_leased (Q := fun _ m' => m' = m) h rfl) ?_
  rintro - m rfl
  refine wp_seq (R := fun _ m' => ∃ t, m.txn = some t ∧ t.isPrivate = true)
    (h.check (fun _ hok => ?_) fun _ _ => trivial) fun _ m1 hp => ?_
  · split at hok
    · cases hok
    · next t ht =>
      split at hok
      · next hp => exact ⟨t, ht, hp⟩
      · cases hok
  refine wp_seq (R := fun _ _ => True) (h.atomic trivial) fun _ m2 _ => ?_
  refine wp_seq (wp_sync (Q := fun _ _ => True) h trivial) fun _ m3 _ => ?_
  exact wp_seq (R := fun _ _ => True) (h.effect trivial) fun _ m4 _ => wp_sync h hp

/-- What a repair that returns has seen. -/
theorem wp_repair_seen (hinit : j.phase ≠ .initPreparing ∧ j.phase ≠ .initReady)
    (hs : Still m0 m) : wpElse A (repair w j.phase) (fun _ m' => m'.txn = m0.txn ∧
      (j.phase.isMiddle = true → ∃ l inventory, m0.layout .previous = some l ∧
        l.validate w = .ok inventory) ∧
      (j.phase.isMiddle = false → m'.live.files = m0.live.files)) (fun _ => True) m := by
  cases hphase : j.phase with
  | initPreparing => exact absurd hphase hinit.1
  | initReady => exact absurd hphase hinit.2
  | prepared => exact wp_pure ⟨hs.txn, (fun h => nomatch h), fun _ => hs.files⟩
  | committed =>
    refine wp_seq_check trivial fun _ _ => ?_
    exact wp_pure ⟨hs.txn, (fun h => nomatch h), fun _ => hs.files⟩
  | snapshotReady | publishing | installed | validated | rollbackRequired =>
    refine wp_post (wp_publish absorbs_true (by decide) (Or.inr fun _ _ => trivial)) ?_
    rintro - m' ⟨l, st, inventory, hl, hvalid, -, hframe⟩
    refine ⟨by rw [hframe]; exact hs.txn, fun _ => ⟨l, inventory, ?_, ?_⟩, fun h => nomatch h⟩
    · rw [← Machine.layout_congr (by decide) hs.txn, hl]
    · exact validate_eq_ok.mpr ⟨st, hvalid⟩

/-- Whatever happens in a startup, if it returns then the condition held. -/
theorem wp_startup_bootable (hinv : Inv w P C m) (htidy : Tidy m.live) (hidle : m.worker = false) :
    wpElse A (startup w) (fun _ _ => Bootable w m) (fun _ => True) m := by
  refine wp_try (?_ : wpElse A _ (fun _ _ => Bootable w m) (fun _ => True) m) fun _ _ _ =>
    wp_raise trivial
  refine wp_seq (wp_leased (Q := fun _ m' => m' = m) absorbs_true rfl) ?_
  rintro - m rfl
  refine wp_seq_eq (t := m) (wp_branch (fun hempty => ?_) fun _ => wp_pure rfl) fun _ => ?_
  · rw [TidyLive.not_isEmpty htidy] at hempty
    cases hempty
  have hhook : Preserves (Still m) hook := preserves_hook Still.project
  have hquiesce : Preserves (Still m) (quiesce w) :=
    preserves_quiesce Still.project Still.stopWorker
  have hlax (m' : Machine) (_ : Still m m') : True := trivial
  refine wp_branch (fun hsome => ?_) fun hnone => ?_
  · refine wp_seq (R := fun j m' => m' = m ∧ m.journal = some j ∧ j.ingress.length ≤ 32)
      (wp_check_post trivial fun j hok => ?_) ?_
    · split at hok
      · cases hok
      · next j' hj =>
        split at hok
        · next hle =>
          cases hok
          exact ⟨rfl, hj, hle⟩
        · cases hok
    rintro j m ⟨rfl, hj, hle⟩
    obtain ⟨hne1, hne2, -⟩ := hinv.phase j hj
    refine wp_closed (fun _ h1 => hhook.through h1 hlax) (fun _ h1 => hquiesce.through h1 hlax)
      (.refl htidy hidle) fun m3 h3 => ?_
    refine wp_seq (wp_repair_seen ⟨hne1, hne2⟩ h3) ?_
    rintro - m4 ⟨htxn4, hsnapshot, hfiles⟩
    refine wp_seq (wp_resume_seen false) ?_
    rintro inventory m5 ⟨htxn5, -, st, hvalid⟩
    refine wp_seq wp_cleanup_private fun _ m6 hp => wp_pure ?_
    rw [htxn5, htxn4] at hp
    intro j' hj'
    rw [hj] at hj'
    cases hj'
    exact ⟨hle, hp, hsnapshot, fun hmiddle => by
      rw [← hfiles hmiddle]
      exact hvalid.pair.cold⟩
  · refine wp_mono_else (TidyLive.startWithoutReceipt (w := w) A m htidy) (fun _ _ _ j hj => ?_)
      fun _ _ => trivial
    rw [hj] at hnone
    cases hnone

/-! ## Startups after crashes -/

/-- An appliance that can be started, with private leftovers of earlier publications. -/
structure Appliance (w : Platform) (P : State) (m : Machine) : Prop extends Start w P m where
  startable : Startable w P
  leftovers : ∀ c f, m.live.files c = some f → f.isPrivate = true

theorem Appliance.tidy (h : Appliance w P m) : Tidy m.live := by
  obtain ⟨inventory, hvalid⟩ := h.valid
  exact hvalid.tidy h.leftovers

theorem Reachable.tidy (htidy : Tidy start.live) (h : Reachable w backup confirmation start m) :
    Tidy m.live := by
  induction h with
  | restored ks => exact (TidyLive.restore backup confirmation _ _ htidy).always (any_script ks)
  | @restarted m killed ks _ ih =>
    have htidy : TidyLive (m.reboot w killed) := Tidy.stopWorker m killed ih
    exact (TidyLive.startup _ _ htidy).always (any_script ks)

theorem reboot_idle (m : Machine) (killed : Bool) : (m.reboot w killed).worker = false := rfl

/-- **Which crashes wedge a startup.** After a restore and any number of startups, each of which
may have raised or died at any step, a startup in which nothing fails completes exactly if the
receipt it finds can be resumed. -/
theorem startup_completes_iff (hstart : Appliance w P start)
    (hm : Reachable w backup confirmation start m) (killed : Bool) {ks : List (Signal Reply Code)}
    (hks : calm.Script ks) : (∃ inventory, (startup w (m.reboot w killed) ks).1 = .ok inventory) ↔
      Bootable w (m.reboot w killed) := by
  have hinv := (hm.inv hstart.toStart).reboot killed
  have htidy : Tidy (m.reboot w killed).live := Tidy.stopWorker m killed (hm.tidy hstart.tidy)
  constructor
  · rintro ⟨inventory, hok⟩
    have hpost := (wp_startup_bootable hinv htidy (reboot_idle m killed)).holds hks
    rwa [hok] at hpost
  · intro hboot
    obtain ⟨inventory, hok, -⟩ := (hboot.startup hinv htidy (reboot_idle m killed)
      hstart.startable).returns hks
    exact ⟨inventory, hok⟩

/-! ## Restarts without a receipt -/

/-- The state is there, and no restore is under way. -/
structure Resting (w : Platform) (st : State) (m : Machine) : Prop where
  tidy : Tidy m.live
  journal : m.journal = none
  state : logical w m.live = some st

theorem Resting.reboot (h : Resting w st m) (killed : Bool) : Resting w st (m.reboot w killed) where
  tidy := Tidy.stopWorker m killed h.tidy
  journal := (hookProof_journal (Q := (· = none))).stopWorker m killed h.journal
  state := (logical_stopWorker m killed).trans h.state

theorem Resting.startup (h : Resting w st m) (ks : List (Signal Reply Code)) :
    Resting w st (startup w m ks).2.1 := by
  let I (m : Machine) : Prop := m.journal = none ∧ logical w m.live = some st
  have hI : HookProof w I :=
    (hookProof_journal (Q := (· = none))).and (hookProof_live (Q := (· = some st)))
  have hm : I m := ⟨h.journal, h.state⟩
  have hrun : wpElse Regime.any (Recovery.startup w) (fun _ => I) I m := by
    refine wp_try (?_ : wpElse _ _ (fun _ => I) I m) fun _ _ h => wp_raise h
    refine wp_seq_check hm fun _ _ => ?_
    refine wp_seq_eq (t := m) (wp_branch (fun hempty => ?_) fun _ => wp_pure rfl) fun _ => ?_
    · rw [TidyLive.not_isEmpty h.tidy] at hempty
      cases hempty
    refine wp_branch (fun hsome => ?_) fun _ => hI.startWithoutReceipt _ m hm
    rw [h.journal] at hsome
    cases hsome
  obtain ⟨hjournal, hstate⟩ := hrun.always (any_script ks)
  exact ⟨(TidyLive.startup _ m h.tidy).always (any_script ks), hjournal, hstate⟩

/-- **Endurance.** However often the appliance is cut off, while it runs or at any step of a
startup, a startup in which nothing fails opens it on the state it had at first. -/
theorem restarts_keep_state (h : Appliance w P m)
    (restarts : List (Bool × List (Signal Reply Code))) (killed : Bool)
    {ks : List (Signal Reply Code)} (hks : calm.Script ks) :
    let m' := (restarts.foldl (fun m r => (startup w (m.reboot w r.1) r.2).2.1) m).reboot w killed
    ∃ inventory, (startup w m' ks).1 = .ok inventory ∧ Serving w P (startup w m' ks).2.1 := by
  intro m'
  have hstart : Resting w P m :=
    ⟨h.tidy, h.journal, h.valid.elim fun _ hvalid => hvalid.logical⟩
  have hrest : Resting w P m' :=
    (List.foldlRecOn restarts _ hstart fun _ hm r _ => (hm.reboot r.1).startup r.2).reboot killed
  refine (completes_startup hrest.tidy (fun hsome => ?_) fun _ =>
    Settling.startWithoutReceipt ⟨hrest.tidy, rfl, hrest.state, h.startable⟩).returns hks
  rw [hrest.journal] at hsome
  cases hsome

end

theorem demo_appliance {database : Bytes} {content : Content}
    (h : demoPlatform.decode database = some content) :
    Appliance demoPlatform (demoState content) (demoStart database) where
  toStart := demo_start h
  startable := by
    obtain ⟨inventory, hvalid⟩ := (demo_start h).valid
    refine ⟨⟨_, inventory, hvalid, ?_⟩, _, rfl⟩
    cases hvalid.pair.inspected
    rfl
  leftovers c f hf := by
    cases c <;> cases hf <;> exact isPrivate_privateMode _

theorem demo_calm : calm.Script [] := fun _ hk => nomatch hk

/-- The startup gets over a restore that died in the middle of the publication. -/
theorem startup_completes_demo :
    (∃ inventory, (startup demoPlatform ((demoRestore (diesAt 90)).reboot demoPlatform true) []).1 =
      .ok inventory) ∧
      Bootable demoPlatform ((demoRestore (diesAt 90)).reboot demoPlatform true) := by
  have hok : (startup demoPlatform ((demoRestore (diesAt 90)).reboot demoPlatform true) []).1 =
      .ok ⟨1, none, []⟩ := by decide +kernel
  exact ⟨⟨_, hok⟩, (startup_completes_iff (demo_appliance (show demoPlatform.decode [1, 65] =
    some ⟨[['s']], [], [], [(['A'], [])]⟩ from rfl)) (demo_reachable (diesAt 90)) true
    demo_calm).mp ⟨_, hok⟩⟩

/-- Two restores that a startup does not get over: one that died when the copy of the database was
complete but not yet private, and one that died after its commit while the worker was writing. -/
theorem startup_wedged :
    (Reachable demoPlatform (demoBackup [1, 66]) "RESTORE EXITLANE".toList (demoStart [1, 65])
        (demoRestore (diesAt 47)) ∧
      (startup demoPlatform ((demoRestore (diesAt 47)).reboot demoPlatform false) []).1 =
        .raised .recoveryComponentUnsafe) ∧
    (Reachable demoPlatform (demoBackup [1, 66]) "RESTORE EXITLANE".toList (demoStart [1, 65])
        (demoRestore (diesAt 131)) ∧
      (startup demoPlatform ((demoRestore (diesAt 131)).reboot demoPlatform true) []).1 =
        .raised .containerStateSqliteRecoveryRequired) :=
  ⟨⟨demo_reachable _, by decide +kernel⟩, ⟨demo_reachable _, by decide +kernel⟩⟩

theorem restarts_keep_state_demo : ∃ inventory,
    (startup demoPlatform ((startup demoPlatform ((demoStart [1, 65]).reboot demoPlatform true)
      (diesAt 20)).2.1.reboot demoPlatform true) []).1 = .ok inventory :=
  (restarts_keep_state (demo_appliance (show demoPlatform.decode [1, 65] =
    some ⟨[['s']], [], [], [(['A'], [])]⟩ from rfl)) [(true, diesAt 20)] true demo_calm).imp
    fun _ h => h.1

end ExitLane.Recovery
