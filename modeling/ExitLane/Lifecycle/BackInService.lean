import ExitLane.Lifecycle.AllOrNothing

/-!
# Back in service after a restore that changed nothing

The handler starts the service and releases the guard only if the snapshot was complete. A failure
before that leaves the appliance stopped behind its guard, although nothing has been replaced.
-/

namespace ExitLane.Lifecycle

open Python Effect Recovery

/-- The service runs, and forwarding is not held. -/
def Host.InService (s : Host) : Prop := s.running = true ∧ s.guarded = false

instance (s : Host) : Decidable s.InService := inferInstanceAs (Decidable (_ ∧ _))

/-- Nothing fails any more, and health checks pass. -/
def calm : Regime Health Code := .faultFree (· = .passed) rfl

variable {s : Host}

theorem calm_absorbs : Absorbs calm (fun _ (_ : Host) => False) fun _ => False := absorbs_faultFree

theorem wp_calm_atomic {f : Host → Host} {Q : Unit → Host → Prop} (h : Q () (f s)) :
    wpElse calm (.atomic f) Q (fun _ => False) s :=
  calm_absorbs.atomic h

theorem calm_admits {J : Host → Prop} : Admits calm J (fun _ _ => False) fun _ => False :=
  ⟨fun k e hk s _ => calm_absorbs.fail k e hk s, fun k hk s _ => calm_absorbs.crash k hk s⟩

/-- Once the service is started and found healthy, the guard goes. -/
theorem wp_calm_reopen (code : Code) :
    wpElse calm (reopen .all code) (fun _ s' => s'.InService) (fun _ => False) s := by
  refine wp_seq (R := fun _ s' => s'.running = true) (wp_calm_atomic rfl) ?_
  rintro - s1 hs1
  have hhealth :
      wpElse calm (checkHealth code) (fun _ s' => s'.running = true) (fun _ => False) s1 := by
    refine calm_absorbs.prim ?_
    rintro reply ⟨r, hr, rfl⟩
    cases hr
    exact hs1
  refine wp_seq hhealth ?_
  rintro - s2 hs2
  refine wp_seq (R := fun _ s' => s'.InService) (wp_calm_atomic ⟨hs2, rfl⟩) ?_
  exact fun _ s' hs' => wp_modify hs'

theorem wp_calm_recover (hs : s.filesReplaced = false) :
    wpElse calm (recover .all) (fun _ s' => s'.InService) (fun _ => False) s := by
  -- With no file replaced the network is not reset, so nothing can have gone wrong with it.
  let J : Host → Prop := fun s' => s'.cleanupFailed = false
  have hA : Admits calm J (fun _ _ => False) fun _ => False := calm_admits
  refine wp_seq (R := fun _ s' => s'.filesReplaced = false ∧ J s') (wp_modify ⟨hs, rfl⟩) ?_
  rintro - s1 ⟨hreplaced, hs1⟩
  refine wp_seq (R := fun _ => J) (wp_branch (fun h => ?_) fun _ => wp_pure hs1) ?_
  · rw [hreplaced] at h
    cases h
  rintro - s2 hs2
  refine wp_touch_seq hA hs2 ?_
  refine wp_seq (R := fun _ => J) (wp_calm_atomic hs2) ?_
  rintro - s3 hs3
  refine wp_touch_seq hA hs3 ?_
  refine wp_seq (R := fun _ => J) (wp_calm_atomic hs3) ?_
  rintro - s4 hs4
  refine wp_seq (R := fun _ => J) (wp_look hs4) ?_
  intro saved s5 hs5
  refine wp_seq (wp_replaceWireguard hA (fun _ _ h => h) saved hs5) ?_
  rintro - s6 ⟨hs6, -⟩
  refine wp_seq (R := fun _ _ => True) (wp_branch (fun h => ?_) fun _ => wp_pure trivial) ?_
  · rw [show s6.cleanupFailed = false from hs6] at h
    cases h
  exact fun _ _ _ => wp_calm_reopen _

theorem wp_calm_rollback_of_ready (hs : s.filesReplaced = false) (hready : s.snapshotReady = true) :
    wpElse calm (rollback .all) (fun _ s' => s'.InService) (fun _ => False) s := by
  refine wp_seq (R := fun _ s' => s'.filesReplaced = false ∧ s'.snapshotReady = true)
    (wp_calm_atomic ⟨hs, hready⟩) ?_
  rintro - s1 ⟨hs1, hready1⟩
  refine wp_branch (fun _ => wp_calm_recover hs1) fun h => ?_
  rw [hready1] at h
  cases h

theorem wp_calm_rollback_of_not_ready (hready : s.snapshotReady = false) :
    wpElse calm (rollback .all) (fun _ s' => s'.running = false) (fun _ => False) s := by
  refine wp_seq (R := fun _ s' => s'.running = false ∧ s'.snapshotReady = false)
    (wp_calm_atomic ⟨rfl, hready⟩) ?_
  rintro - s1 ⟨hs1, hready1⟩
  refine wp_branch (fun h => ?_) fun _ => wp_pure hs1
  rw [hready1] at h
  cases h

theorem inService_tidy : (tidy s).InService ↔ s.InService := by
  unfold tidy
  split <;> exact Iff.rfl

/-- The call without its handler. -/
def untilFailure (archive : Except Code Archive) : Step Unit := do
  let a ← enter .all archive
  attempt .all a

theorem enter_not_ready (archive : Except Code Archive) :
    wp .any (enter .all archive) (fun _ _ => True) (fun _ s' => s'.snapshotReady = false)
      (fun _ => True) s := by
  let J : Host → Prop := fun s' => s'.snapshotReady = false
  have hA : Admits .any J (fun _ => J) fun _ => True :=
    ⟨fun _ _ _ _ => id, fun _ _ _ _ => trivial⟩
  refine wp_seq (R := fun _ => J) (wp_modify rfl) ?_
  rintro - s1 hs1
  refine wp_seq (R := fun _ => J) (wp_check (fun _ _ => hs1) (fun _ _ => hs1) (fun _ _ _ => hs1)
    fun _ _ => trivial) ?_
  rintro a s2 hs2
  refine wp_seq (R := fun _ => J) (wp_demand (fun _ => hs2) fun _ => hs2) ?_
  rintro - s3 hs3
  refine wp_seq (R := fun _ => J) (wp_atomic hs3 (fun _ _ _ => ⟨hs3, hs3⟩)
    fun _ _ => ⟨trivial, trivial⟩) ?_
  rintro - s4 hs4
  exact wp_touch_seq hA hs4 (wp_touch_seq hA hs4 (wp_pure trivial))

/-- **Back in service.** A step fails once the guard is there and before a file has been replaced,
and everything goes well from then on: the appliance is back in service exactly if the snapshot
was complete. -/
theorem back_in_service_iff (archive : Except Code Archive) (s : Host)
    (ks : List (Signal Health Code)) {e : Code} {s1 : Host} {ks1 : List (Signal Health Code)}
    (hfail : untilFailure archive s ks = (.raised e, s1, ks1)) (hguard : s1.guarded = true)
    (hkept : s1.filesReplaced = false) (hlater : calm.Script ks1) :
    (restoreBackup .all archive s ks).2.1.InService ↔ s1.snapshotReady = true := by
  rcases henter : enter .all archive s ks with ⟨o, s0, ks0⟩
  cases o with
  | ok a =>
    have hattempt : attempt .all a s0 ks0 = (.raised e, s1, ks1) :=
      (Proc.bind_of_ok henter).symm.trans hfail
    cases hready : s1.snapshotReady with
    | true =>
      have hrun := wp_calm_rollback_of_ready hkept hready
      obtain ⟨⟨⟩, hok, hs2⟩ := hrun.returns hlater
      have hrollback : rollback .all s1 ks1 = (.ok (), (rollback .all s1 ks1).2) :=
        Prod.ext hok rfl
      rw [restoreBackup_of_failure henter hattempt hrollback]
      exact iff_of_true (inService_tidy.mpr hs2) rfl
    | false =>
      have hrun := wp_calm_rollback_of_not_ready hready
      obtain ⟨⟨⟩, hok, hs2⟩ := hrun.returns hlater
      have hrollback : rollback .all s1 ks1 = (.ok (), (rollback .all s1 ks1).2) :=
        Prod.ext hok rfl
      rw [restoreBackup_of_failure henter hattempt hrollback]
      refine iff_of_false (fun h => ?_) nofun
      rw [inService_tidy, Host.InService, hs2] at h
      cases h.1
  | raised e' =>
    obtain ⟨-, rfl, -⟩ : e' = e ∧ s0 = s1 ∧ ks0 = ks1 := by
      simpa using (Proc.bind_of_raised henter).symm.trans hfail
    have hready := (enter_not_ready (s := s) archive).holds (any_script ks)
    rw [henter] at hready
    rw [show restoreBackup .all archive s ks = _ from Proc.bind_of_raised henter]
    refine iff_of_false (fun h => ?_) fun h => ?_
    · rw [Host.InService, hguard] at h
      cases h.2
    · rw [show s0.snapshotReady = false from hready] at h
      cases h
  | crashed =>
    have hcrash : untilFailure archive s ks = (.crashed, s0, ks0) := by
      change Proc.bind _ _ s ks = _
      rw [Proc.bind, henter]
    rw [hcrash] at hfail
    cases hfail

/-- The reset of the network fails, after the snapshot. -/
theorem back_in_service_after_reset :
    (restoreBackup .all (.ok otherArchive) serving
      (List.replicate 14 (.go .passed) ++ [.fail 0 .other])).2.1.InService :=
  (back_in_service_iff (.ok otherArchive) serving _ (e := .other) rfl rfl rfl
    (fun _ h => by cases h)).mpr rfl

/-- The snapshot of the database fails: nothing has been replaced, the service stays down and
forwarding held. -/
theorem out_of_service_after_snapshot : ∃ s ks,
    restoreBackup .all (.ok otherArchive) serving
        (List.replicate 5 (.go .passed) ++ [.fail 0 .other]) = (.raised .other, s, ks) ∧
      s.files = serving.files ∧ s.filesReplaced = false ∧ serving.InService ∧
      s.running = false ∧ s.guarded = true :=
  ⟨_, _, rfl, rfl, rfl, by decide, rfl, rfl⟩

end ExitLane.Lifecycle
