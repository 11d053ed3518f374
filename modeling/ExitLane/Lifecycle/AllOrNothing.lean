import ExitLane.Lifecycle.Restore
import ExitLane.Effect.Machine

/-!
# A native restore is all or nothing

Until the snapshot is complete the files are the old ones; from then on the recovery directory
holds a copy of them, and the handler puts it back. The guard is released only after a start on
the old files or on the new ones.
-/

namespace ExitLane.Lifecycle

open Python Effect Recovery

variable {A : Regime Health Code} {s : Host} {source : Dir}

/-! ## Copies of a directory -/

/-- A copy is built entry by entry, in the order of the names. -/
def Copied (source : Dir) (done : List Text) (d : Dir) : Prop :=
  d.entries = done.map (copyOf source)

theorem Copied.put {d : Dir} {done : List Text} {name : Text} (h : Copied source done d)
    (hname : name ∉ done) : Copied source (done ++ [name]) (d.put name (copyOf source name).2) := by
  have hnames : d.entries.map Prod.fst = done := by
    rw [h, List.map_map]
    exact List.map_id done
  unfold Copied
  rw [Dir.put_entries (by rwa [hnames]), h, List.map_append]
  rfl

theorem Copied.contents {d : Dir} (h : Copied source (source.entries.map Prod.fst) d) :
    d.contents = source.contents :=
  IsCopy.contents ⟨_, List.Perm.refl _, h⟩

/-- What the loop over the names of `source` has still to do. -/
def Building (source : Dir) (rest : List Text) (d : Option Dir) : Prop :=
  ∃ done e, done ++ rest = source.entries.map Prod.fst ∧ d = some e ∧ Copied source done e

theorem Building.put {name : Text} {rest : List Text} {d : Option Dir}
    (h : Building source (name :: rest) d) :
    Building source rest (d.map fun e => e.put name (copyOf source name).2) := by
  obtain ⟨done, e, hnames, rfl, hcopied⟩ := h
  have hnodup : (done ++ name :: rest).Nodup := hnames ▸ source.nodup
  have hname : name ∉ done := fun hmem =>
    (List.nodup_append.mp hnodup).2.2 name hmem name List.mem_cons_self rfl
  exact ⟨done ++ [name], _, by rw [← hnames, List.append_assoc]; rfl, rfl, hcopied.put hname⟩

theorem Building.contents {d : Option Dir} (h : Building source [] d) :
    ∃ e, d = some e ∧ e.contents = source.contents := by
  obtain ⟨done, e, hnames, rfl, hcopied⟩ := h
  rw [List.append_nil] at hnames
  rw [hnames] at hcopied
  exact ⟨e, rfl, hcopied.contents⟩

/-! ## The loops over the directory -/

section
variable {J : Host → Prop} {E : Code → Host → Prop} {C : Host → Prop} {name : Text}
  {rest : List Text}

/-- A fault of the regime where `J` holds is one that the postconditions allow. -/
structure Admits (A : Regime Health Code) (J : Host → Prop) (E : Code → Host → Prop)
    (C : Host → Prop) : Prop where
  fail : ∀ k e, A.allows (.fail k e) → ∀ s, J s → E e s
  crash : ∀ k, A.allows (.crash k) → ∀ s, J s → C s

theorem admits_self : Admits A J (fun _ => J) J := ⟨fun _ _ _ _ => id, fun _ _ _ => id⟩

/-- A step that can only fail. -/
theorem wp_touch_seq {β : Type} {f : Unit → Step β} {Q : β → Host → Prop} (hA : Admits A J E C)
    (hs : J s) (hf : wp A (f ()) Q E C s) : wp A (touch >>= f) Q E C s :=
  wp_bind (wp_check (fun _ _ => hf) (fun _ h => by cases h) (fun k e hk => hA.fail k e hk s hs)
    fun k hk => hA.crash k hk s hs)

theorem wp_atomic_of {f : Host → Host} {K : Host → Prop} (hA : Admits A J E C) (hs : J s)
    (hf : J (f s)) (hK : K (f s)) : wp A (.atomic f) (fun _ s' => J s' ∧ K s') E C s :=
  wp_atomic ⟨hf, hK⟩ (fun k e hk => ⟨hA.fail k e hk s hs, hA.fail k e hk _ hf⟩)
    fun k hk => ⟨hA.crash k hk s hs, hA.crash k hk _ hf⟩

/-- `J` says nothing about the live directory. -/
def IgnoresLive (J : Host → Prop) : Prop :=
  ∀ s d, J s → J { s with files := { s.files with wireguard := d } }

/-- `J` says nothing about the saved directory. -/
def IgnoresSaved (J : Host → Prop) : Prop :=
  ∀ s d, J s → J { s with recovery := { s.recovery with wireguard := d } }

theorem wp_removeEntry (hA : Admits A J E C) (hJ : IgnoresLive J)
    (hs : J s ∧ ∃ d, s.files.wireguard = some d ∧ d.entries.map Prod.fst = name :: rest) :
    wp A (removeEntry name)
      (fun _ s' => J s' ∧ ∃ d, s'.files.wireguard = some d ∧
        d.entries.map Prod.fst = rest) E C s := by
  obtain ⟨hs, d, hd, hnames⟩ := hs
  refine wp_touch_seq hA hs ?_
  refine wp_atomic_of hA hs (hJ _ _ hs) ⟨d.erase name, ?_, Dir.erase_names hnames⟩
  simp [hd]

theorem wp_installEntry (hA : Admits A J E C) (hJ : IgnoresLive J) {source : Dir}
    (hs : J s ∧ Building source (name :: rest) s.files.wireguard) :
    wp A (installEntry source name)
      (fun _ s' => J s' ∧ Building source rest s'.files.wireguard) E C s := by
  obtain ⟨hs, hbuild⟩ := hs
  have hpart (k : Nat) : J (if k = 0 then s else
      s.putEntry name ⟨((source.contents name).getD []).take (k - 1), defaultMode⟩) := by
    split
    · exact hs
    · exact hJ _ _ hs
  refine wp_seq (R := fun _ s' => J s' ∧ Building source rest s'.files.wireguard)
    (wp_effect ⟨hJ _ _ hs, hbuild.put⟩ (fun k e hk => hA.fail k e hk _ (hpart k))
      fun k hk => hA.crash k hk _ (hpart k)) ?_
  rintro - s' hs'
  exact wp_check (fun _ _ => hs') (fun _ h => by cases h) (fun k e hk => hA.fail k e hk s' hs'.1)
    fun k hk => hA.crash k hk s' hs'.1

theorem wp_replaceWireguard (hA : Admits A J E C) (hJ : IgnoresLive J) (source : Dir) (hs : J s) :
    wp A (replaceWireguard source)
      (fun _ s' => J s' ∧ ∃ e, s'.files.wireguard = some e ∧ e.contents = source.contents)
      E C s := by
  refine wp_seq (wp_atomic_of (K := fun s' => ∃ d, s'.files.wireguard = some d) hA hs (hJ _ _ hs)
    ⟨_, rfl⟩) ?_
  rintro - s1 ⟨hs1, d, hd⟩
  refine wp_seq (R := fun live s' => s' = s1 ∧ live = d) (wp_look ⟨rfl, by rw [hd]; rfl⟩) ?_
  rintro live s' ⟨rfl, rfl⟩
  refine wp_seq (wp_forM (fun rest s' => J s' ∧ ∃ d, s'.files.wireguard = some d ∧
    d.entries.map Prod.fst = rest) (fun name rest s' hs' => wp_removeEntry hA hJ hs') _
    ⟨hs1, live, hd, rfl⟩) ?_
  rintro - s2 ⟨hs2, e, he, hempty⟩
  have hbuild : Building source (source.entries.map Prod.fst) s2.files.wireguard := by
    refine ⟨[], e, rfl, he, ?_⟩
    exact List.map_eq_nil_iff.mp hempty
  refine wp_post (wp_forM (fun rest s' => J s' ∧ Building source rest s'.files.wireguard)
    (fun name rest s' hs' => wp_installEntry hA hJ hs') _ ⟨hs2, hbuild⟩) ?_
  exact fun _ _ hs' => ⟨hs'.1, hs'.2.contents⟩

theorem wp_saveEntry (hJ : IgnoresSaved J) {live : Dir}
    (hs : J s ∧ Building live (name :: rest) s.recovery.wireguard) :
    wpElse A (saveEntry live name)
      (fun _ s' => J s' ∧ Building live rest s'.recovery.wireguard) J s := by
  obtain ⟨hs, hbuild⟩ := hs
  refine wp_touch_seq admits_self hs ?_
  refine wp_seq (wp_atomic_of (K := fun s' => Building live rest s'.recovery.wireguard)
    admits_self hs (hJ _ _ hs) hbuild.put) ?_
  rintro - s1 hs1
  exact wp_check_post hs1.1 fun _ _ => hs1

theorem wp_saveWireguard (hJ : IgnoresSaved J) {w : Option Dir}
    (hw : ∀ s, J s → s.files.wireguard = w) (hs : J s) :
    wpElse A saveWireguard
      (fun _ s' => J s' ∧ ∃ e, s'.recovery.wireguard = some e ∧
        w.map Dir.contents = some e.contents)
      J s := by
  refine wp_seq (wp_atomic_of (K := fun s' => s'.recovery.wireguard = some .empty) admits_self hs
    (hJ _ _ hs) rfl) ?_
  rintro - s1 ⟨hs1, hempty⟩
  refine wp_seq (R := fun live s' => s' = s1 ∧ w = some live) (wp_check ?_ (fun _ _ => hs1)
    (fun _ _ _ => hs1) fun _ _ => hs1) ?_
  · intro live hlive
    rw [hw s1 hs1] at hlive
    cases w with
    | none => cases hlive
    | some d =>
      cases hlive
      exact ⟨rfl, rfl⟩
  rintro live s' ⟨rfl, rfl⟩
  refine wp_post (wp_forM (fun rest s' => J s' ∧ Building live rest s'.recovery.wireguard)
    (fun name rest s' hs' => wp_saveEntry hJ hs') _ ⟨hs1, [], .empty, rfl, hempty, rfl⟩) ?_
  intro _ s' hs'
  obtain ⟨e, he, hcontents⟩ := hs'.2.contents
  exact ⟨hs'.1, e, he, congrArg some hcontents.symm⟩

end

/-! ## The log -/

variable (c : Callbacks) (old : Appliance) (a : Archive)

/-- What has to come before a release of the guard. -/
def Proven (past : List Event) : Prop :=
  (c.serviceAction = true → ∃ newer older files, past = newer ++ .started files :: older ∧
      (∀ f, .started f ∉ newer) ∧ (files.Same old ∨ files.Same a.installed) ∧
      (c.healthCheck = true → .healthy ∈ newer)) ∧
    (c.healthCheck = true → .healthy ∈ past)

/-- The rule of the log: only a release needs a proof. -/
def Allowed (past : List Event) : Event → Prop
  | .released => Proven c old a past
  | _ => True

def Sound (s : Host) : Prop := Lawful (Allowed c old a) s.log

variable {c : Callbacks} {old : Appliance} {a : Archive}

/-- The components, their copies and the flag of the snapshot are those of `t`. -/
def Stays (t s : Host) : Prop :=
  s.files = t.files ∧ s.recovery = t.recovery ∧ s.snapshotReady = t.snapshotReady

/-- After a start on the old or the new files and a health check, the guard may go. -/
theorem wp_reopen {t : Host} {code : Code} (hs : Sound c old a s ∧ Stays t s)
    (hfiles : t.files.Same old ∨ t.files.Same a.installed) :
    wpElse A (reopen c code) (fun _ s' => Sound c old a s' ∧ Stays t s')
      (fun s' => Sound c old a s' ∧ Stays t s') s := by
  have hlog {s : Host} (h : Sound c old a s ∧ Stays t s) (e : Event) (he : Allowed c old a s.log e)
      (running guarded : Bool) : Sound c old a { s with
        running := running, guarded := guarded, log := e :: s.log } ∧
      Stays t { s with running := running, guarded := guarded, log := e :: s.log } :=
    ⟨⟨he, h.1⟩, h.2⟩
  refine wp_seq (R := fun _ s' => (Sound c old a s' ∧ Stays t s') ∧
    (c.serviceAction = true → ∃ older, s'.log = .started t.files :: older)) ?_ ?_
  · refine wp_when (fun _ => ?_) fun hno => ⟨hs, fun h => ?_⟩
    · refine wp_atomic_of admits_self hs (hlog hs (.started s.files) trivial true s.guarded)
        fun _ => ⟨s.log, ?_⟩
      rw [hs.2.1]
    · rw [hno] at h
      cases h
  rintro - s1 ⟨hs1, hstarted⟩
  refine wp_seq (R := fun _ s' => (Sound c old a s' ∧ Stays t s') ∧ Proven c old a s'.log) ?_ ?_
  · refine wp_when (fun hhealth => ?_) fun hhealth => ?_
    · refine wp_prim (fun reply _ => ?_) (fun _ _ _ => hs1) fun _ _ => hs1
      cases reply with
      | failed => exact hs1
      | passed =>
        refine ⟨hlog hs1 .healthy trivial s1.running s1.guarded, fun hservice => ?_,
          fun _ => List.mem_cons_self⟩
        obtain ⟨older, holder⟩ := hstarted hservice
        exact ⟨[.healthy], older, t.files, congrArg _ holder, by simp, hfiles, by simp⟩
    · refine ⟨hs1, fun hservice => ?_, fun h => ?_⟩
      · obtain ⟨older, holder⟩ := hstarted hservice
        exact ⟨[], older, t.files, holder, by simp, hfiles, fun h => by simp [hhealth] at h⟩
      · rw [hhealth] at h
        cases h
  rintro - s2 ⟨hs2, hproven⟩
  refine wp_seq (R := fun _ s' => Sound c old a s' ∧ Stays t s') ?_
    fun _ s' hs' => wp_modify hs'
  refine wp_when (fun _ => ?_) fun _ => hs2
  have hreleased := hlog hs2 .released hproven s2.running false
  exact wp_atomic hreleased (fun _ _ _ => ⟨hs2, hreleased⟩) fun _ _ => ⟨hs2, hreleased⟩

/-! ## The body -/

/-- The snapshot is not complete, and the files are the old ones. -/
def Early (c : Callbacks) (old : Appliance) (a : Archive) (s : Host) : Prop :=
  Sound c old a s ∧ s.files = old ∧ s.snapshotReady = false

/-- Copies of the old components. -/
def Saved (old r : Appliance) : Prop :=
  r.database = old.database ∧ r.masterKey = old.masterKey ∧
    ∃ d, r.wireguard = some d ∧ old.wireguard.map Dir.contents = some d.contents

/-- The snapshot is complete. -/
def Late (c : Callbacks) (old : Appliance) (a : Archive) (s : Host) : Prop :=
  Sound c old a s ∧ Saved old s.recovery ∧ s.snapshotReady = true

/-- What the handler finds. -/
def Recoverable (c : Callbacks) (old : Appliance) (a : Archive) (s : Host) : Prop :=
  Early c old a s ∨ Late c old a s

theorem wp_takeSnapshot (hs : Early c old a s) :
    wpElse A (takeSnapshot c) (fun _ => Late c old a) (Early c old a) s := by
  refine wp_seq (R := fun _ => Early c old a) ?_ ?_
  · refine wp_when (fun _ => ?_) fun _ => hs
    exact wp_atomic hs (fun _ _ _ => ⟨hs, hs⟩) fun _ _ => ⟨hs, hs⟩
  rintro - s1 hs1
  have hdatabase : s1.files.database = old.database := congrArg _ hs1.2.1
  refine wp_seq (wp_atomic_of (K := fun s' => s'.recovery.database = old.database) admits_self hs1
    hs1 hdatabase) ?_
  rintro - s2 ⟨hs2, hdatabase⟩
  refine wp_seq (R := fun _ s' => (Early c old a s' ∧ s'.recovery.database = old.database) ∧
    s'.recovery.masterKey = old.masterKey) ?_ ?_
  · refine wp_seq_check hs2 fun _ _ => ?_
    have hkey : s2.files.masterKey = old.masterKey := congrArg _ hs2.2.1
    refine wp_seq (wp_atomic_of (K := fun s' => s'.recovery.database = old.database ∧
      s'.recovery.masterKey = old.masterKey) admits_self hs2 hs2 ⟨hdatabase, hkey⟩) ?_
    rintro - s3 ⟨hs3, hdatabase, hkey⟩
    exact wp_check_post hs3 fun _ _ => ⟨⟨hs3, hdatabase⟩, hkey⟩
  rintro - s3 hs3
  have hsave := wp_saveWireguard (A := A) (w := old.wireguard)
    (J := fun s' => (Early c old a s' ∧ s'.recovery.database = old.database) ∧
      s'.recovery.masterKey = old.masterKey) (fun _ _ h => h)
    (fun s' h => congrArg _ h.1.1.2.1) hs3
  refine wp_seq (wp_else hsave fun _ h => h.1.1) ?_
  rintro - s4 ⟨⟨⟨hs4, hdatabase⟩, hkey⟩, hwireguard⟩
  exact wp_modify ⟨hs4.1, ⟨hdatabase, hkey, hwireguard⟩, rfl⟩

theorem wp_install (hs : Late c old a s) :
    wpElse A (install c a) (fun _ => Late c old a) (Late c old a) s := by
  refine wp_seq (R := fun _ => Late c old a) ?_ ?_
  · exact wp_when (fun _ => preserves_check _ A s hs) fun _ => hs
  rintro - s1 hs1
  refine wp_seq (wp_atomic_of (K := fun s' => s'.files.database = a.database) admits_self hs1 hs1
    rfl) ?_
  rintro - s2 ⟨hs2, hdatabase⟩
  refine wp_seq (R := fun _ s' => Late c old a s' ∧ s'.files.database = a.database)
    (wp_modify ⟨hs2, hdatabase⟩) ?_
  rintro - s3 ⟨hs3, hdatabase⟩
  refine wp_touch_seq admits_self hs3 ?_
  refine wp_seq (wp_atomic_of (K := fun s' => s'.files.database = a.database ∧
    s'.files.masterKey = some a.masterKey) admits_self hs3 hs3 ⟨hdatabase, rfl⟩) ?_
  rintro - s4 ⟨hs4, hfiles⟩
  refine wp_touch_seq admits_self hs4 ?_
  have hreplace := wp_replaceWireguard (A := A)
    (J := fun s' => Late c old a s' ∧ s'.files.database = a.database ∧
      s'.files.masterKey = some a.masterKey) admits_self (fun _ _ h => h) a.wireguard ⟨hs4, hfiles⟩
  refine wp_seq (wp_else hreplace fun _ h => h.1) ?_
  rintro - s5 ⟨⟨hs5, hdatabase, hkey⟩, e, he, hcontents⟩
  have hrevoked : s5.files.database.revoke = a.database.revoke := congrArg _ hdatabase
  have hwireguard : s5.files.wireguard.map Dir.contents = some a.wireguard.contents := by
    rw [he, Option.map_some, hcontents]
  refine wp_seq (wp_atomic_of (K := fun s' => s'.files.Same a.installed) admits_self hs5 hs5
    ⟨hrevoked, hkey, hwireguard⟩) ?_
  rintro - s6 ⟨hs6, hsame⟩
  refine wp_touch_seq admits_self hs6 ?_
  have hlate {s' : Host} (h : Sound c old a s' ∧ Stays s6 s') : Late c old a s' := by
    obtain ⟨hsound, -, hrecovery, hready⟩ := h
    exact ⟨hsound, by rw [hrecovery]; exact hs6.2.1, hready.trans hs6.2.2⟩
  exact wp_mono_else (wp_reopen ⟨hs6.1, rfl, rfl, rfl⟩ (.inr hsame)) (fun _ _ => hlate)
    fun _ => hlate

theorem wp_attempt (hs : Early c old a s) :
    wpElse A (attempt c a) (fun _ => Late c old a) (Recoverable c old a) s := by
  refine wp_seq (wp_else (wp_takeSnapshot hs) fun _ => .inl) ?_
  intro _ s1 hs1
  exact wp_else (wp_install hs1) fun _ => .inr

/-! ## The handler -/

/-- Where the handler does not fail, the old files are back. -/
def RolledBack (c : Callbacks) (old : Appliance) (a : Archive) (s : Host) : Prop :=
  Sound c old a s ∧ s.files.Same old

theorem wp_recover (hs : Late c old a s) :
    wpElse A (recover c) (fun _ => RolledBack c old a) (Sound c old a) s := by
  have hsound : ∀ s', Late c old a s' → Sound c old a s' := fun _ h => h.1
  have hadmits : Admits A (Late c old a) (fun _ => Sound c old a) (Sound c old a) :=
    ⟨fun _ _ _ => hsound, fun _ _ => hsound⟩
  refine wp_seq (R := fun _ => Late c old a) (wp_modify hs) ?_
  rintro - s1 hs1
  have hreset : Preserves (Late c old a) (.branch (·.filesReplaced)
      (.when c.serviceAction
        (resetEgress.handle fun _ => .modify fun s => { s with cleanupFailed := true }))
      (pure ()) : Step Unit) :=
    preserves_branch (preserves_when _ (preserves_handle (preserves_check _) fun _ =>
      preserves_modify fun _ h => h)) (preserves_pure _)
  refine wp_seq (hreset.through hs1 hsound) ?_
  rintro - s2 hs2
  refine wp_touch_seq hadmits hs2 ?_
  refine wp_seq (wp_atomic_of (K := fun s' => s'.files.database = old.database) hadmits hs2 hs2
    hs2.2.1.1) ?_
  rintro - s3 ⟨hs3, hdatabase⟩
  refine wp_touch_seq hadmits hs3 ?_
  refine wp_seq (wp_atomic_of (K := fun s' => s'.files.database = old.database ∧
    s'.files.masterKey = old.masterKey) hadmits hs3 hs3 ⟨hdatabase, hs3.2.1.2.1⟩) ?_
  rintro - s4 ⟨hs4, hfiles⟩
  obtain ⟨d, hd, hsaved⟩ := hs4.2.1.2.2
  refine wp_seq (R := fun saved s' => s' = s4 ∧ saved = d) (wp_look ⟨rfl, by rw [hd]; rfl⟩) ?_
  rintro saved s' ⟨rfl, rfl⟩
  have hreplace := wp_replaceWireguard (A := A)
    (J := fun s' => Late c old a s' ∧ s'.files.database = old.database ∧
      s'.files.masterKey = old.masterKey) admits_self (fun _ _ h => h) saved ⟨hs4, hfiles⟩
  refine wp_seq (wp_else hreplace fun _ h => h.1.1) ?_
  rintro - s5 ⟨⟨hs5, hdatabase, hkey⟩, e, he, hcontents⟩
  have hsame : s5.files.Same old := by
    refine ⟨hdatabase, hkey, ?_⟩
    rw [he, Option.map_some, hcontents, hsaved]
  refine wp_seq_eq (wp_branch (fun _ => wp_raise hs5.1) fun _ => wp_pure rfl) fun _ => ?_
  refine wp_mono_else (wp_reopen ⟨hs5.1, rfl, rfl, rfl⟩ (.inl hsame)) ?_ fun _ h => h.1
  rintro - s' ⟨hsound, hfiles, -⟩
  exact ⟨hsound, by rw [hfiles]; exact hsame⟩

theorem wp_rollback (hs : Recoverable c old a s) :
    wpElse A (rollback c) (fun _ => RolledBack c old a) (Sound c old a) s := by
  have hsound : ∀ s', Recoverable c old a s' → Sound c old a s' := by
    rintro s' (h | h) <;> exact h.1
  have hstop : Preserves (Recoverable c old a) (.when c.serviceAction stop) :=
    preserves_when _ (preserves_atomic fun _ h => h)
  refine wp_seq (hstop.through hs hsound) ?_
  rintro - s1 (hearly | hlate)
  · refine wp_branch (fun hready => ?_) fun _ => wp_pure ?_
    · rw [hearly.2.2] at hready
      cases hready
    · exact ⟨hearly.1, by rw [hearly.2.1]; exact ⟨rfl, rfl, rfl⟩⟩
  · refine wp_branch (fun _ => wp_recover hlate) fun hready => ?_
    rw [hlate.2.2] at hready
    cases hready

/-! ## The call -/

theorem wp_enter (archive : Except Code Archive) (hs : Sound c old a s ∧ s.files = old) :
    wpElse A (enter c archive) (fun a' s' => archive = .ok a' ∧ Early c old a s')
      (fun s' => Sound c old a s' ∧ s'.files = old) s := by
  refine wp_seq (R := fun _ => Early c old a) (wp_modify ⟨hs.1, hs.2, rfl⟩) ?_
  rintro - s1 hs1
  have hkept {s' : Host} (h : Early c old a s') : Sound c old a s' ∧ s'.files = old := ⟨h.1, h.2.1⟩
  have hadmits : Admits A (Early c old a) (fun _ s' => Sound c old a s' ∧ s'.files = old)
      (fun s' => Sound c old a s' ∧ s'.files = old) :=
    ⟨fun _ _ _ _ => hkept, fun _ _ _ => hkept⟩
  refine wp_seq_check (hkept hs1) fun a' harchive => ?_
  refine wp_bind (wp_demand (fun _ => ?_) fun _ => hkept hs1)
  have hguard : Preserves (Early c old a) (.when c.forwardingGuard enableGuard) :=
    preserves_when _ (preserves_atomic fun _ h => h)
  refine wp_seq (hguard.through hs1 fun _ => hkept) ?_
  rintro - s3 hs3
  exact wp_touch_seq hadmits hs3 (wp_touch_seq hadmits hs3 (wp_pure ⟨harchive, hs3⟩))

theorem sound_tidy (h : Sound c old a s) : Sound c old a (tidy s) := by
  unfold tidy
  split <;> exact h

theorem files_tidy (s : Host) : (tidy s).files = s.files := by
  unfold tidy
  split <;> rfl

theorem wp_restoreBackup {archive : Except Code Archive} (ha : ∀ a', archive = .ok a' → a' = a)
    (hs : Sound c old a s ∧ s.files = old) :
    wpElse A (restoreBackup c archive) (fun _ => Sound c old a) (Sound c old a) s := by
  refine wp_seq (wp_else (wp_enter _ hs) fun _ h => h.1) ?_
  rintro a' s1 ⟨harchive, hs1⟩
  obtain rfl := ha a' harchive
  refine wp_lastly (wp_handle (wp_mono (wp_attempt hs1) (fun _ _ h => sound_tidy h.1) ?_ ?_))
  · intro e s2 hs2
    refine wp_seq (wp_mono (wp_rollback hs2) (fun _ _ => id) (fun _ _ => sound_tidy)
      fun _ => id) ?_
    intro _ s3 hs3
    exact wp_raise (sound_tidy hs3.1)
  · rintro s2 (h | h) <;> exact h.1

/-- The run of the handler after a failure of the body. -/
theorem restoreBackup_of_failure {archive : Except Code Archive} {ks ks0 ks1 ks2} {s0 s1 s2 : Host}
    {e : Code} (henter : enter c archive s ks = (.ok a, s0, ks0))
    (hattempt : attempt c a s0 ks0 = (.raised e, s1, ks1))
    (hrollback : rollback c s1 ks1 = (.ok (), s2, ks2)) :
    restoreBackup c archive s ks = (.raised e, tidy s2, ks2) := by
  have hhandler : (rollback c >>= fun _ => (.raise e : Step Unit)) s1 ks1 = (.raised e, s2, ks2) :=
    Proc.bind_of_ok hrollback
  exact (Proc.bind_of_ok henter).trans
    (Proc.lastly_of_raised ((Proc.handle_of_raised hattempt).trans hhandler))

/-- **All or nothing.** A restore that fails before its body has changed nothing. A restore whose
body fails, at whatever step, and whose handler goes through leaves the files as they were. In
every run the guard is released only after the last start was on the old or on the new files, with
the health check passed since. -/
theorem failed_restore_changes_nothing (c : Callbacks) (archive : Except Code Archive) (s : Host)
    (hlog : s.log = []) (ks : List (Signal Health Code)) :
    (∀ e s0 ks0, enter c archive s ks = (.raised e, s0, ks0) → s0.files = s.files) ∧
    (∀ a s0 ks0 e s1 ks1 s2 ks2, enter c archive s ks = (.ok a, s0, ks0) →
      attempt c a s0 ks0 = (.raised e, s1, ks1) → rollback c s1 ks1 = (.ok (), s2, ks2) →
      restoreBackup c archive s ks = (.raised e, tidy s2, ks2) ∧
        (tidy s2).files.Same s.files) ∧
    ∀ a, archive = .ok a →
      Lawful (Allowed c s.files a) (restoreBackup c archive s ks).2.1.log := by
  have hsound (a : Archive) : Sound c s.files a s ∧ s.files = s.files := by
    refine ⟨?_, rfl⟩
    unfold Sound
    rw [hlog]
    trivial
  refine ⟨?_, ?_, ?_⟩
  · intro e s0 ks0 henter
    have h := (wp_enter (A := .any) archive
      (hsound ⟨s.files.database, [], .empty⟩)).holds (any_script ks)
    rw [henter] at h
    exact h.2
  · intro a s0 ks0 e s1 ks1 s2 ks2 henter hattempt hrollback
    have h0 := (wp_enter (A := .any) archive (hsound a)).holds (any_script ks)
    rw [henter] at h0
    have h1 := (wp_attempt (A := .any) h0.2).holds (any_script ks0)
    rw [hattempt] at h1
    have h2 := (wp_rollback (A := .any) h1).holds (any_script ks1)
    rw [hrollback] at h2
    refine ⟨restoreBackup_of_failure henter hattempt hrollback, ?_⟩
    rw [files_tidy]
    exact h2.2
  · rintro a rfl
    exact (wp_restoreBackup (A := .any) (fun a' h => (Except.ok.inj h).symm) (hsound a)).always
      (any_script ks)

/-- All callbacks are given. -/
def Callbacks.all : Callbacks := ⟨true, true, true⟩

/-- A directory with one file. -/
def oneFile (name : Text) (bytes : Bytes) : Dir :=
  ⟨[(name, ⟨bytes, privateMode⟩)], List.nodup_singleton _⟩

/-- A host in service, before a call. -/
def serving : Host where
  files := ⟨⟨[['s']], [], [], []⟩, some [1], some (oneFile ['a'] [1])⟩
  recovery := ⟨⟨[], [], [], []⟩, none, none⟩
  snapshotReady := false
  filesReplaced := false
  cleanupSnapshot := false
  cleanupFailed := false
  running := true
  guarded := false
  log := []

def otherArchive : Archive := ⟨⟨[], [], [], [(['t'], [])]⟩, [2], oneFile ['b'] [2]⟩

/-- The health check of the new service fails. -/
theorem unhealthy_restore_changes_nothing : ∃ s ks,
    restoreBackup .all (.ok otherArchive) serving
        (List.replicate 27 (.go .passed) ++ [.go .failed]) =
      (.raised .restoredServiceUnhealthy, s, ks) ∧ s.files.Same serving.files :=
  ⟨_, _, (failed_restore_changes_nothing .all (.ok otherArchive) serving rfl _).2.1
    otherArchive _ _ .restoredServiceUnhealthy _ _ _ _ rfl rfl rfl⟩

end ExitLane.Lifecycle
