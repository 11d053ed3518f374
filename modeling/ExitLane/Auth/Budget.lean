import ExitLane.Auth.OneTime

/-!
# The budget of wrong codes

The window of a user is anchored at its first failure and holds at most `mfaMaxAttempts` of them.
An interval no longer than a window meets at most two windows of a user who neither succeeds nor
disables the second factor in it, and the first failure of the older one lies before the interval.
-/

namespace ExitLane.Auth

open Python Effect

/-- The code of the user fails in the interval. -/
def Event.fails (id a b : Nat) : Event → Bool
  | .failed time v => v == id && decide (a ≤ time ∧ time < b)
  | _ => false

/-- The failures of the user in the interval from `a` to before `b`. -/
def failures (id a b : Nat) (past : List Event) : Nat := past.countP (Event.fails id a b)

/-- The event starts the count of the user anew. -/
def Event.resets (id : Nat) (time : Nat) : Event → Prop
  | .accepted t v _ _ _ => t = time ∧ v = id
  | .disabled t v => t = time ∧ v = id
  | _ => False

/-- No success and no `disable_mfa` of the user in the interval. -/
def Uninterrupted (id a b : Nat) (past : List Event) : Prop :=
  ∀ e ∈ past, ∀ time, e.resets id time → ¬ (a ≤ time ∧ time < b)

/-- The budget of a user against the failures of the interval so far. -/
def Paced (a clock seen : Nat) (user : User) : Prop :=
  user.mfaFailedAttempts ≤ mfaMaxAttempts ∧
    match user.mfaFailureWindowStartedAt with
    | none => seen = 0
    | some started => started ≤ clock ∧
        (started < a → seen < user.mfaFailedAttempts) ∧
        (a ≤ started → seen ≤ mfaMaxAttempts - 1 + user.mfaFailedAttempts)

/-- The invariant of a user over an interval no longer than a window. -/
structure Bounded (id a b : Nat) (s : Server) (past : List Event) : Prop where
  before : s.clock < a → failures id a b past = 0
  total : failures id a b past ≤ 2 * mfaMaxAttempts - 1
  paced : s.clock < b → ∀ user, s.db.users id = some user →
    Paced a s.clock (failures id a b past) user

theorem Paced.later {a clock now seen : Nat} {user : User} (h : Paced a clock seen user)
    (hle : clock ≤ now) : Paced a now seen user := by
  obtain ⟨hfailed, h⟩ := h
  refine ⟨hfailed, ?_⟩
  split at h
  · exact h
  · exact ⟨h.1.trans hle, h.2⟩

theorem paced_of_zero {a clock : Nat} {user : User}
    (hfailed : user.mfaFailedAttempts = 0) (hstarted : user.mfaFailureWindowStartedAt = none) :
    Paced a clock 0 user := by
  refine ⟨by omega, ?_⟩
  rw [hstarted]

/-- The window goes on, or a new one starts now. -/
theorem User.budget_cases (user : User) (now : Nat) :
    (∀ started, user.mfaFailureWindowStartedAt = some started →
        started + mfaFailureWindowSeconds ≤ now) ∧ user.budget now = (0, now) ∨
      ∃ started, user.mfaFailureWindowStartedAt = some started ∧
        now < started + mfaFailureWindowSeconds ∧
        user.budget now = (user.mfaFailedAttempts, started) := by
  unfold User.budget
  split
  · next h =>
    refine .inl ⟨fun started hstarted => ?_, rfl⟩
    rw [h] at hstarted
    cases hstarted
  · next started h =>
    split
    · next hexpired =>
      refine .inl ⟨fun t ht => ?_, rfl⟩
      rw [h] at ht
      cases ht
      exact hexpired
    · next hlive => exact .inr ⟨started, h, Nat.not_le.mp hlive, rfl⟩

/-- One more failure at `now`, in a window that has room for it. -/
theorem Paced.fail {a b clock now seen : Nat} {user : User} (h : Paced a clock seen user)
    (hab : b ≤ a + mfaFailureWindowSeconds) (hnow : now < b) (hle : clock ≤ now)
    (hbefore : now < a → seen = 0) (hbudget : (user.budget now).1 < mfaMaxAttempts) :
    Paced a now (if a ≤ now then seen + 1 else seen) { user with
      mfaFailedAttempts := (user.budget now).1 + 1
      mfaFailureWindowStartedAt := some (user.budget now).2 } := by
  obtain ⟨hfailed, h⟩ := h
  refine ⟨hbudget, ?_⟩
  rcases user.budget_cases now with ⟨hexpired, hwindow⟩ | ⟨started, hstarted, hlive, hwindow⟩
  · rw [hwindow]
    -- The failures so far belong to a window from before the interval.
    have hseen : seen ≤ mfaMaxAttempts - 1 := by
      cases hstarted : user.mfaFailureWindowStartedAt with
      | none =>
        rw [hstarted] at h
        simp only at h
        omega
      | some started =>
        rw [hstarted] at h
        have := hexpired started hstarted
        have := h.2.1
        omega
    simp only [mfaMaxAttempts] at hseen ⊢
    split <;> omega
  · rw [hwindow]
    rw [hstarted] at h
    obtain ⟨hclock, hold, hnew⟩ := h
    simp only at hold hnew ⊢
    split <;> omega

theorem failures_append (id a b : Nat) (new past : List Event) :
    failures id a b (new ++ past) = failures id a b new + failures id a b past :=
  List.countP_append

theorem Uninterrupted.past {id a b : Nat} {new past : List Event}
    (h : Uninterrupted id a b (new ++ past)) : Uninterrupted id a b past :=
  fun e he => h e (List.mem_append_right _ he)

variable {id a b now : Nat} {s : Server} {db' : Database} {new past : List Event}

/-- A call of which no event is a failure of the user in the interval. -/
theorem Bounded.quiet (h : Bounded id a b s past) (hclock : s.clock ≤ now)
    (hnew : failures id a b new = 0)
    (hpaced : now < b → ∀ user, db'.users id = some user →
      Paced a now (failures id a b past) user) : Bounded id a b ⟨now, db'⟩ (new ++ past) := by
  have hsame : failures id a b (new ++ past) = failures id a b past := by
    rw [failures_append, hnew, Nat.zero_add]
  refine ⟨fun hb => ?_, ?_, ?_⟩
  · rw [hsame]
    exact h.before (Nat.lt_of_le_of_lt hclock hb)
  · rw [hsame]
    exact h.total
  · rw [hsame]
    exact hpaced

theorem Bounded.step (hab : b ≤ a + mfaFailureWindowSeconds) (h : Bounded id a b s past)
    (hclock : s.clock ≤ now) (hchange : Change now s.db db' new)
    (hfree : Uninterrupted id a b (new ++ past)) : Bounded id a b ⟨now, db'⟩ (new ++ past) := by
  have hsame {user old : User} (hold : s.db.users id = some old)
      (hfailed : user.mfaFailedAttempts = old.mfaFailedAttempts)
      (hstarted : user.mfaFailureWindowStartedAt = old.mfaFailureWindowStartedAt) (hb : now < b) :
      Paced a now (failures id a b past) user := by
    have hpaced := (h.paced (Nat.lt_of_le_of_lt hclock hb) old hold).later hclock
    unfold Paced at hpaced ⊢
    rwa [hfailed, hstarted]
  -- After a reset outside of the interval, nothing of it has been seen yet.
  have hreset {user : User} (hfailed : user.mfaFailedAttempts = 0)
      (hstarted : user.mfaFailureWindowStartedAt = none) (hb : now < b)
      (hout : ¬ (a ≤ now ∧ now < b)) : Paced a now (failures id a b past) user := by
    rw [h.before (by omega)]
    exact paced_of_zero hfailed hstarted
  cases hchange with
  | quiet users _ _ =>
    refine h.quiet hclock rfl fun hb user huser => ?_
    rw [users] at huser
    exact hsame huser rfl rfl hb
  | enrolled v _ _ f users _ failed started _ _ =>
    refine h.quiet hclock rfl fun hb user huser => ?_
    rw [users] at huser
    rcases updateUser_eq_some huser with ⟨rfl, old, hold, rfl⟩ | ⟨-, hold⟩
    · exact hsame hold (failed old) (started old) hb
    · exact hsame hold rfl rfl hb
  | codesIssued _ _ users _ _ =>
    refine h.quiet hclock rfl fun hb user huser => ?_
    rw [users] at huser
    exact hsame huser rfl rfl hb
  | challengeIssued _ _ _ users _ _ =>
    refine h.quiet hclock rfl fun hb user huser => ?_
    rw [users] at huser
    exact hsame huser rfl rfl hb
  | accepted row old credential f hrow huser users started failed _ _ _ =>
    refine h.quiet hclock rfl fun hb user huser => ?_
    rw [users] at huser
    rcases updateUser_eq_some huser with ⟨rfl, old', -, rfl⟩ | ⟨-, hold⟩
    · exact hreset (failed old') (started old') hb (hfree _ List.mem_cons_self now ⟨rfl, rfl⟩)
    · exact hsame hold rfl rfl hb
  | disabled v f users _ started failed _ _ =>
    refine h.quiet hclock rfl fun hb user huser => ?_
    rw [users] at huser
    rcases updateUser_eq_some huser with ⟨rfl, old', -, rfl⟩ | ⟨-, hold⟩
    · exact hreset (failed old') (started old') hb (hfree _ List.mem_cons_self now ⟨rfl, rfl⟩)
    · exact hsame hold rfl rfl hb
  | failed v old hold budget users _ _ =>
    by_cases hother : v = id ∧ now < b
    · obtain ⟨rfl, hb⟩ := hother
      have hcount : failures v a b (.failed now v :: past) =
          if a ≤ now then failures v a b past + 1 else failures v a b past := by
        simp [failures, List.countP_cons, Event.fails, hb]
        split <;> rfl
      have hpaced := (h.paced (Nat.lt_of_le_of_lt hclock hb) old hold).fail hab hb hclock
        (fun hbefore => h.before (Nat.lt_of_le_of_lt hclock hbefore)) budget
      have hall : ∀ user, db'.users v = some user →
          Paced a now (failures v a b (.failed now v :: past)) user := by
        intro user huser
        rw [users] at huser
        rw [hcount]
        rcases updateUser_eq_some huser with ⟨-, old', hold', rfl⟩ | ⟨hne, -⟩
        · rw [hold] at hold'
          cases hold'
          exact hpaced
        · exact absurd rfl hne
      refine ⟨fun hbefore => ?_, ?_, fun _ => hall⟩
      · change failures v a b (.failed now v :: past) = 0
        rw [hcount, if_neg (Nat.not_le.mpr hbefore)]
        exact h.before (Nat.lt_of_le_of_lt hclock hbefore)
      · change failures v a b (.failed now v :: past) ≤ _
        rw [hcount]
        obtain ⟨hle, hpaced⟩ := hpaced
        simp only [mfaMaxAttempts] at hle hpaced ⊢
        omega
    · have hnot : failures id a b [.failed now v] = 0 := by
        simp [failures, Event.fails]
        omega
      refine h.quiet hclock hnot fun hb user huser => ?_
      rw [users] at huser
      rcases updateUser_eq_some huser with ⟨rfl, -⟩ | ⟨-, hold⟩
      · exact absurd ⟨rfl, hb⟩ hother
      · exact hsame hold rfl rfl hb

/-! ## Histories -/

/-- A step of the server is a change at a time that is not before the last one. -/
theorem Server.step_change {K : Keys} {s s' : Server} {action : Nat × Call} {new : List Event}
    (h : s.step K action = some (s', new)) :
    s.clock ≤ s'.clock ∧ Change s'.clock s.db s'.db new := by
  unfold Server.step at h
  split at h
  · next hnow =>
    cases h
    exact ⟨hnow.1, perform_change K s.db action.1 action.2⟩
  · cases h

theorem kept_of_run {K : Keys} {registered : Nat → Bool} {s : Server} {past : List Event}
    (h : (machine K registered).Run s past) : Kept s.db past ∧ Lawful OneTime past := by
  refine h.invariant (I := fun s past => Kept s.db past ∧ Lawful OneTime past) ?_ ?_
  · exact ⟨⟨fun _ _ _ c hc => (by cases hc), List.nodup_nil, fun _ h => (by cases h),
      fun _ h => (by cases h)⟩, trivial⟩
  · intro s past action s' new hold hstep
    obtain ⟨-, hchange⟩ := Server.step_change hstep
    exact ⟨hchange.kept hold.1, hchange.oneTime hold.1 hold.2⟩

theorem bounded_of_run {K : Keys} {registered : Nat → Bool} {s : Server} {past : List Event}
    (h : (machine K registered).Run s past) {id a b : Nat}
    (hab : b ≤ a + mfaFailureWindowSeconds) (hfree : Uninterrupted id a b past) :
    Bounded id a b s past := by
  refine h.invariant (I := fun s past => Uninterrupted id a b past → Bounded id a b s past)
    ?_ ?_ hfree
  · refine fun _ => ⟨fun _ => rfl, Nat.zero_le _, fun _ user huser => ?_⟩
    have hfresh : user = .fresh := by
      simp only [machine] at huser
      split at huser
      · exact (Option.some.inj huser).symm
      · cases huser
    subst hfresh
    exact paced_of_zero rfl rfl
  · intro s past action s' new hold hstep hfree
    obtain ⟨hclock, hchange⟩ := Server.step_change hstep
    exact (hold hfree.past).step hab hclock hchange hfree

/-- The counters of an enrollment increase. -/
theorem counters_pairwise {past : List Event} (h : Lawful OneTime past) (id : Nat) :
    (counters id past).Pairwise (· > ·) := by
  induction past with
  | nil => exact List.Pairwise.nil
  | cons e past ih =>
    have hpast := ih h.2
    cases e with
    | enrolled v counter =>
      simp only [counters]
      split
      · exact List.pairwise_singleton _ _
      · exact hpast
    | accepted time v digest clientIp credential =>
      cases credential with
      | totp counter =>
        simp only [counters]
        split
        · next hv =>
          subst hv
          exact List.pairwise_cons.mpr ⟨h.1.2, hpast⟩
        · exact hpast
      | recovery hash => exact hpast
    | disabled time v =>
      simp only [counters]
      split
      · exact List.Pairwise.nil
      · exact hpast
    | codesIssued v hashes => exact hpast
    | challengeIssued v digest clientIp => exact hpast
    | failed time v => exact hpast

/-- **One-time credentials, bounded guesses.** In every history, the counters accepted in an
enrollment increase, challenges and recovery codes are accepted once since they were issued, and
a user who neither succeeds nor disables the second factor gets less than twice the budget wrong
in an interval no longer than a window. -/
theorem codes_once_and_failures_bounded (K : Keys) (registered : Nat → Bool) {s : Server}
    {past : List Event} (h : (machine K registered).Run s past) :
    Lawful OneTime past ∧ (∀ id, (counters id past).Pairwise (· > ·)) ∧
      ∀ id a b, b ≤ a + mfaFailureWindowSeconds → Uninterrupted id a b past →
        failures id a b past ≤ 2 * mfaMaxAttempts - 1 := by
  have hlawful := (kept_of_run h).2
  exact ⟨hlawful, counters_pairwise hlawful,
    fun id a b hab hfree => (bounded_of_run h hab hfree).total⟩

/-- Keys under which the password of a counter is its parity. -/
def parityKeys : Keys where
  tokenHash := fun t => t
  hmac := some
  decrypt := some
  otp := fun _ counter => if counter % 2 = 0 then ['0'] else ['1']

/-- Enrollment, a wrong guess, a right one, and the same one again. -/
def guesses : List (Nat × Call) :=
  [(150, .startEnrollment 0 ['s'] ['e'] ['k']),
    (150, .confirmEnrollment 0 ['s'] ['e'] ['0'] [['r']]),
    (160, .startChallenge 0 ['i'] ['c']),
    (160, .consumeChallenge ['c'] ['2'] .totp ['i']),
    (165, .consumeChallenge ['c'] ['1'] .totp ['i']),
    (165, .consumeChallenge ['c'] ['1'] .totp ['i'])]

/-- What came of them. -/
def guessed : List Event :=
  [.accepted 165 0 ['c'] ['i'] (.totp 5), .failed 160 0, .challengeIssued 0 ['c'] ['i'],
    .codesIssued 0 [['r']], .enrolled 0 4]

theorem codes_once_in_guesses : ∃ s, (machine parityKeys fun _ => true).Run s guessed ∧
    Lawful OneTime guessed ∧ counters 0 guessed = [5, 4] ∧ failures 0 0 165 guessed ≤ 9 := by
  obtain ⟨s, hdrive⟩ : ∃ s, (machine parityKeys fun _ => true).drive guesses
      (machine parityKeys fun _ => true).init [] = some (s, guessed) := ⟨_, rfl⟩
  have hrun := Machine.Run.drive .start hdrive
  obtain ⟨honce, -, hfailures⟩ := codes_once_and_failures_bounded parityKeys _ hrun
  refine ⟨s, hrun, honce, by decide, hfailures 0 0 165 (by decide) ?_⟩
  simp [Uninterrupted, Event.resets, guessed]

end ExitLane.Auth
