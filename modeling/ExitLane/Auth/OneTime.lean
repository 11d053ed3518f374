import ExitLane.Auth.Mfa

/-!
# One-time credentials and bounded guesses

What one call can change is said once, by `Change`. The invariants along a history are read off
from it: an unused recovery code and an open challenge were issued and not spent since, the
stored counter is at least every counter accepted in the enrollment, and the budget of a user
holds the failures of its window.
-/

namespace ExitLane.Auth

open Python Effect

/-! ## What a call can change -/

/-- The codes of the user are replaced by new ones with hashes that nobody has. -/
structure Issued (db db' : Database) (id : Nat) (hashes : List Text) : Prop where
  codes : db'.recoveryCodes =
    (db.recoveryCodes.filter fun row => row.userId != id) ++ hashes.map (⟨id, ·, none⟩)
  nodup : hashes.Nodup
  unused : ∀ row ∈ db.recoveryCodes, row.userId ≠ id → row.codeHash ∉ hashes

/-- What is left of the challenges. -/
def Remain (db db' : Database) : Prop := ∀ row ∈ db'.challenges, ∃ old ∈ db.challenges,
  row.tokenHash = old.tokenHash ∧ row.userId = old.userId ∧ row.clientIp = old.clientIp

theorem Remain.refl (db : Database) : Remain db db := fun row h => ⟨row, h, rfl, rfl, rfl⟩

/-- `db'` comes from `db` by a call at `now` with these events. -/
inductive Change (now : Nat) (db db' : Database) : List Event → Prop where
  | quiet (users : db'.users = db.users) (codes : db'.recoveryCodes = db.recoveryCodes)
      (challenges : Remain db db') : Change now db db' []
  | enrolled (id : Nat) (counter : Int) (hashes : List Text) (f : User → User)
      (users : db'.users = (db.updateUser id f).users)
      (last : ∀ user, (f user).lastTotpCounter = some counter)
      (failed : ∀ user, (f user).mfaFailedAttempts = user.mfaFailedAttempts)
      (started : ∀ user, (f user).mfaFailureWindowStartedAt = user.mfaFailureWindowStartedAt)
      (codes : Issued db db' id hashes) (challenges : Remain db db') :
      Change now db db' [.codesIssued id hashes, .enrolled id counter]
  | codesIssued (id : Nat) (hashes : List Text) (users : db'.users = db.users)
      (codes : Issued db db' id hashes) (challenges : Remain db db') :
      Change now db db' [.codesIssued id hashes]
  | challengeIssued (id : Nat) (digest clientIp : Text) (users : db'.users = db.users)
      (codes : db'.recoveryCodes = db.recoveryCodes)
      (challenges : ∀ row ∈ db'.challenges, row ∈ db.challenges ∨
        row.tokenHash = digest ∧ row.userId = id ∧ row.clientIp = clientIp) :
      Change now db db' [.challengeIssued id digest clientIp]
  | accepted (row : Challenge) (user : User) (credential : Credential) (f : User → User)
      (hrow : row ∈ db.challenges) (huser : db.users row.userId = some user)
      (users : db'.users = (db.updateUser row.userId f).users)
      (started : ∀ user, (f user).mfaFailureWindowStartedAt = none)
      (failed : ∀ user, (f user).mfaFailedAttempts = 0)
      (spent : match credential with
        | .totp counter => user.lastTotpCounter.all (· < counter) = true ∧
            (∀ user, (f user).lastTotpCounter = some counter) ∧
            db'.recoveryCodes = db.recoveryCodes
        | .recovery hash => (∀ user, (f user).lastTotpCounter = user.lastTotpCounter) ∧
            ⟨row.userId, hash, none⟩ ∈ db.recoveryCodes ∧
            db'.recoveryCodes = db.recoveryCodes.map fun code =>
              if code.codeHash = hash then { code with usedAt := some now } else code)
      (challenges : Remain db db')
      (answered : ∀ c ∈ db'.challenges, c.tokenHash ≠ row.tokenHash) :
      Change now db db' [.accepted now row.userId row.tokenHash row.clientIp credential]
  | failed (id : Nat) (user : User) (huser : db.users id = some user)
      (budget : (user.budget now).1 < mfaMaxAttempts)
      (users : db'.users = (db.updateUser id fun old => { old with
        mfaFailedAttempts := (user.budget now).1 + 1
        mfaFailureWindowStartedAt := some (user.budget now).2 }).users)
      (codes : db'.recoveryCodes = db.recoveryCodes) (challenges : Remain db db') :
      Change now db db' [.failed now id]
  | disabled (id : Nat) (f : User → User) (users : db'.users = (db.updateUser id f).users)
      (last : ∀ user, (f user).lastTotpCounter = none)
      (started : ∀ user, (f user).mfaFailureWindowStartedAt = none)
      (failed : ∀ user, (f user).mfaFailedAttempts = 0)
      (codes : db'.recoveryCodes.Sublist db.recoveryCodes) (challenges : Remain db db') :
      Change now db db' [.disabled now id]

theorem remain_deleteChallenge (db : Database) (digest : Text) :
    Remain db (db.deleteChallenge digest) := fun row h =>
  ⟨row, List.mem_of_mem_filter h, rfl, rfl, rfl⟩

variable {K : Keys} {user : User} {code : Text} {now id : Nat} {hashes : List Text}
  {db db' : Database}

theorem totpCounter_lt {counter : Int}
    (h : verifyTotp K user code now = some (some counter)) :
    user.lastTotpCounter.all (· < counter) = true := by
  unfold verifyTotp at h
  split at h
  · obtain ⟨secret, -, h⟩ := Option.map_eq_some_iff.mp h
    exact (Option.filter_eq_some_iff.mp h).2
  · cases h

theorem verifyRecovery_mem {db : Database} {hash : Text}
    (h : verifyRecovery K db id code = some (some hash)) : ⟨id, hash, none⟩ ∈ db.recoveryCodes := by
  obtain ⟨digest, -, h⟩ := Option.map_eq_some_iff.mp h
  obtain ⟨row, hfind, rfl⟩ := Option.map_eq_some_iff.mp h
  have hrow := List.find?_some hfind
  simp only [Bool.and_eq_true, beq_iff_eq, Option.isNone_iff_eq_none] at hrow
  obtain ⟨⟨rfl, -⟩, hused⟩ := hrow
  have hmem := List.mem_of_find?_eq_some hfind
  rwa [show row = ⟨row.userId, row.codeHash, none⟩ by rw [← hused]] at hmem

theorem newRecoveryCodes_issued {codes : List Text}
    (h : newRecoveryCodes K db id codes = some (db', hashes)) :
    Issued db db' id hashes ∧ db'.users = db.users ∧ db'.challenges = db.challenges ∧
      db'.enrollments = db.enrollments := by
  obtain ⟨hs, -, h⟩ := Option.bind_eq_some_iff.mp h
  simp only at h
  split at h
  · next hfree =>
    cases h
    refine ⟨⟨rfl, hfree.1, fun row hrow hid => hfree.2 row ?_⟩, rfl, rfl, rfl⟩
    exact List.mem_filter.mpr ⟨hrow, by simpa using hid⟩
  · cases h

theorem change_of_verify {row : Challenge} {mode : Mode}
    {credential : Credential} (hrow : row ∈ db.challenges) (huser : db.users row.userId = some user)
    (h : verify K db row.userId user mode code now = some (some (db', credential))) :
    Change now db (recordSuccess db' row.userId row.tokenHash)
      [.accepted now row.userId row.tokenHash row.clientIp credential] := by
  have hanswered (d : Database) : ∀ c ∈ (recordSuccess d row.userId row.tokenHash).challenges,
      c.tokenHash ≠ row.tokenHash := by
    intro c hc
    simpa using (List.mem_filter.mp hc).2
  cases mode with
  | totp =>
    obtain ⟨counter?, hverify, h⟩ := Option.map_eq_some_iff.mp h
    obtain ⟨counter, rfl, h⟩ := Option.map_eq_some_iff.mp h
    cases h
    refine .accepted row user _ (fun old => { old with
      lastTotpCounter := some counter
      mfaFailedAttempts := 0
      mfaFailureWindowStartedAt := none }) hrow huser ?_ (fun _ => rfl) (fun _ => rfl)
      ⟨totpCounter_lt hverify, fun _ => rfl, rfl⟩ (remain_deleteChallenge _ _) (hanswered _)
    funext v
    by_cases hv : v = row.userId
    · subst hv
      simp [recordSuccess, Database.deleteChallenge, Database.updateUser, huser]
    · simp [recordSuccess, Database.deleteChallenge, Database.updateUser, hv]
  | recovery =>
    obtain ⟨hash?, hverify, h⟩ := Option.map_eq_some_iff.mp h
    obtain ⟨hash, rfl, h⟩ := Option.map_eq_some_iff.mp h
    cases h
    exact .accepted row user _ (fun old => { old with
      mfaFailedAttempts := 0
      mfaFailureWindowStartedAt := none }) hrow huser rfl (fun _ => rfl) (fun _ => rfl)
      ⟨fun _ => rfl, verifyRecovery_mem hverify, rfl⟩ (remain_deleteChallenge _ _) (hanswered _)

theorem change_of_failure {db : Database} {row : Challenge}
    (huser : db.users row.userId = some user) (hbudget : (user.budget now).1 < mfaMaxAttempts)
    (digest : Text) :
    Change now db (recordFailure db row.userId digest (user.budget now).1 (user.budget now).2).1
      [.failed now row.userId] := by
  unfold recordFailure
  split
  · exact .failed _ user huser hbudget rfl rfl (remain_deleteChallenge _ _)
  · refine .failed _ user huser hbudget rfl rfl fun c hc => ?_
    obtain ⟨old, hold, rfl⟩ := List.mem_map.mp hc
    refine ⟨old, hold, ?_⟩
    split <;> exact ⟨rfl, rfl, rfl⟩

theorem change_of_consume {challenge clientIp : Text} {mode : Mode}
    {out : Outcome} (h : consumeChallenge K db now challenge code mode clientIp = some (db', out)) :
    Change now db db' (out.events now (K.tokenHash challenge) clientIp) := by
  have hquiet : Change now db (db.deleteChallenge (K.tokenHash challenge)) [] :=
    .quiet rfl rfl (remain_deleteChallenge _ _)
  unfold consumeChallenge at h
  simp only at h
  split at h
  · cases h
    exact hquiet
  · next row hfind =>
    have hrow := List.mem_of_find?_eq_some hfind
    have hdigest : row.tokenHash = K.tokenHash challenge := by simpa using List.find?_some hfind
    split at h
    · cases h
      exact hquiet
    · next hlive =>
      have hip : row.clientIp = clientIp := by
        by_contra hne
        exact hlive (.inr (.inr hne))
      split at h
      · cases h
        exact hquiet
      · next user huser =>
        split at h
        · cases h
          exact hquiet
        · next hbudget =>
          obtain ⟨verdict, hverify, h⟩ := Option.map_eq_some_iff.mp h
          rw [← hdigest] at h ⊢
          rw [← hip]
          cases verdict with
          | some v =>
            cases h
            exact change_of_verify hrow huser hverify
          | none =>
            have hfail := change_of_failure huser (Nat.not_le.mp hbudget) row.tokenHash
            obtain ⟨error, hout⟩ : ∃ error, (recordFailure db row.userId row.tokenHash
                (user.budget now).1 (user.budget now).2).2 = .failed row.userId error := by
              unfold recordFailure
              split <;> exact ⟨_, rfl⟩
            simp only at h
            rw [h] at hfail hout
            subst hout
            exact hfail

theorem change_of_confirm {session enrollment : Text} {codes : List Text} {counter : Int}
    (h : confirmEnrollment K db now id session enrollment code codes =
      some (db', counter, hashes)) :
    Change now db db' [.codesIssued id hashes, .enrolled id counter] := by
  obtain ⟨row, -, h⟩ := Option.bind_eq_some_iff.mp h
  split at h
  · cases h
  · obtain ⟨secret, -, h⟩ := Option.bind_eq_some_iff.mp h
    obtain ⟨c, -, h⟩ := Option.bind_eq_some_iff.mp h
    obtain ⟨⟨issued, hs⟩, hcodes, h⟩ := Option.map_eq_some_iff.mp h
    cases h
    obtain ⟨hissued, husers, hchallenges, -⟩ := newRecoveryCodes_issued hcodes
    refine .enrolled id counter hashes _ husers (fun _ => rfl) (fun _ => rfl) (fun _ => rfl)
      ⟨hissued.codes, hissued.nodup, hissued.unused⟩ ?_
    intro c hc
    rw [hchallenges] at hc
    exact ⟨c, hc, rfl, rfl, rfl⟩

theorem perform_change (K : Keys) (db : Database) (now : Nat) (call : Call) :
    Change now db (perform K db now call).1 (perform K db now call).2 := by
  have hnothing : Change now db db [] := .quiet rfl rfl (.refl db)
  cases call with
  | startEnrollment id session enrollment secret =>
    simp only [perform, startEnrollment]
    split
    · exact .quiet rfl rfl (.refl db)
    · exact hnothing
  | confirmEnrollment id session enrollment code codes =>
    simp only [perform]
    split
    · exact hnothing
    · next h => exact change_of_confirm h
  | startChallenge id clientIp challenge =>
    simp only [perform, startChallenge]
    split
    · exact hnothing
    · next h =>
      split at h
      · cases h
        refine .challengeIssued id _ _ rfl rfl fun row hrow => ?_
        rcases List.mem_cons.mp hrow with rfl | hrow
        · exact .inr ⟨rfl, rfl, rfl⟩
        · exact .inl (List.mem_of_mem_filter hrow)
      · cases h
  | consumeChallenge challenge code mode clientIp =>
    simp only [perform]
    split
    · exact hnothing
    · next h => exact change_of_consume h
  | regenerateRecoveryCodes id codes =>
    simp only [perform, regenerateRecoveryCodes]
    split
    · exact hnothing
    · next h =>
      obtain ⟨hissued, husers, hchallenges, -⟩ := newRecoveryCodes_issued h
      refine .codesIssued id _ husers hissued fun c hc => ?_
      rw [hchallenges] at hc
      exact ⟨c, hc, rfl, rfl, rfl⟩
  | disableMfa id =>
    refine .disabled id _ rfl (fun _ => rfl) (fun _ => rfl) (fun _ => rfl) List.filter_sublist ?_
    exact fun row hrow => ⟨row, List.mem_of_mem_filter hrow, rfl, rfl, rfl⟩

/-! ## One-time credentials -/

/-- The counters accepted in the user's enrollment, the latest first. -/
def counters (id : Nat) : List Event → List Int
  | [] => []
  | .accepted _ v _ _ (.totp counter) :: past =>
    if v = id then counter :: counters id past else counters id past
  | .enrolled v counter :: past => if v = id then [counter] else counters id past
  | .disabled _ v :: past => if v = id then [] else counters id past
  | _ :: past => counters id past

/-- The challenge with this digest is accepted. -/
def Event.answers (digest : Text) : Event → Prop
  | .accepted _ _ d _ _ => d = digest
  | _ => False

/-- The recovery code with this hash is accepted. -/
def Event.spends (id : Nat) (hash : Text) : Event → Prop
  | .accepted _ v _ _ (.recovery h) => v = id ∧ h = hash
  | _ => False

/-- A challenge is accepted from the address it was issued to, once since it was issued; a
recovery code once since it was issued; a counter after every one of the enrollment. -/
def OneTime (past : List Event) : Event → Prop
  | .accepted _ id digest clientIp credential =>
    Unspent (Event.answers digest) past (.challengeIssued id digest clientIp) ∧
      match credential with
      | .totp counter => ∀ c ∈ counters id past, c < counter
      | .recovery hash => ∃ hashes, hash ∈ hashes ∧
          Unspent (Event.spends id hash) past (.codesIssued id hashes)
  | _ => True

/-- What a history leaves in the database. -/
structure Kept (db : Database) (past : List Event) : Prop where
  counters : ∀ id user, db.users id = some user → ∀ c ∈ counters id past,
    ∃ last, user.lastTotpCounter = some last ∧ c ≤ last
  unique : (db.recoveryCodes.map (·.codeHash)).Nodup
  codes : ∀ row ∈ db.recoveryCodes, row.usedAt = none → ∃ hashes, row.codeHash ∈ hashes ∧
    Unspent (Event.spends row.userId row.codeHash) past (.codesIssued row.userId hashes)
  challenges : ∀ row ∈ db.challenges,
    Unspent (Event.answers row.tokenHash) past
      (.challengeIssued row.userId row.tokenHash row.clientIp)

variable {now : Nat} {db db' : Database} {new past : List Event}

theorem updateUser_eq_some {v : Nat} {f : User → User}
    (h : (db.updateUser id f).users v = some user) :
    v = id ∧ (∃ old, db.users id = some old ∧ user = f old) ∨ v ≠ id ∧ db.users v = some user := by
  by_cases hv : v = id
  · subst hv
    rw [Database.updateUser_self, Option.map_eq_some_iff] at h
    obtain ⟨old, hold, rfl⟩ := h
    exact .inl ⟨rfl, old, hold, rfl⟩
  · rw [Database.updateUser_of_ne db f hv] at h
    exact .inr ⟨hv, h⟩

theorem Change.counters (h : Change now db db' new) (hkept : Kept db past)
    (huser : db'.users id = some user) :
    ∀ c ∈ counters id (new ++ past), ∃ last, user.lastTotpCounter = some last ∧ c ≤ last := by
  have hsame {u : User} (hu : db.users id = some u)
      (hlast : user.lastTotpCounter = u.lastTotpCounter) :
      ∀ c ∈ Auth.counters id past, ∃ last, user.lastTotpCounter = some last ∧ c ≤ last := by
    rw [hlast]
    exact hkept.counters id u hu
  cases h with
  | quiet users _ _ =>
    rw [users] at huser
    exact hsame huser rfl
  | codesIssued v _ users _ _ =>
    rw [users] at huser
    exact hsame huser rfl
  | challengeIssued v _ _ users _ _ =>
    rw [users] at huser
    exact hsame huser rfl
  | enrolled v counter hashes f users last _ _ _ _ =>
    rw [users] at huser
    rcases updateUser_eq_some huser with ⟨rfl, old, -, rfl⟩ | ⟨hv, hold⟩
    · simp [Auth.counters, last]
    · simpa [Auth.counters, Ne.symm hv] using hsame hold rfl
  | accepted row old credential f hrow hold users _ _ spent _ _ =>
    rw [users] at huser
    cases credential with
    | totp counter =>
      rcases updateUser_eq_some huser with ⟨rfl, old', hold', rfl⟩ | ⟨hv, hold'⟩
      · rw [hold] at hold'
        cases hold'
        intro c hc
        refine ⟨counter, spent.2.1 old, ?_⟩
        simp only [List.cons_append, List.nil_append, Auth.counters, if_true,
          List.mem_cons] at hc
        rcases hc with rfl | hc
        · exact Int.le_refl _
        · obtain ⟨last, hlast, hle⟩ := hkept.counters _ old hold c hc
          have hlt : last < counter := by simpa [hlast] using spent.1
          omega
      · simpa [Auth.counters, Ne.symm hv] using hsame hold' rfl
    | recovery hash =>
      rcases updateUser_eq_some huser with ⟨rfl, old', hold', rfl⟩ | ⟨hv, hold'⟩
      · exact hsame hold' (spent.1 old')
      · exact hsame hold' rfl
  | failed v old hold _ users _ _ =>
    rw [users] at huser
    rcases updateUser_eq_some huser with ⟨rfl, old', hold', rfl⟩ | ⟨hv, hold'⟩
    · exact hsame hold' rfl
    · exact hsame hold' rfl
  | disabled v f users _ _ _ _ _ =>
    rw [users] at huser
    rcases updateUser_eq_some huser with ⟨rfl, old, -, rfl⟩ | ⟨hv, hold⟩
    · simp [Auth.counters]
    · simpa [Auth.counters, Ne.symm hv] using hsame hold rfl

theorem Issued.unique (h : Issued db db' id hashes)
    (hkept : (db.recoveryCodes.map (·.codeHash)).Nodup) :
    (db'.recoveryCodes.map (·.codeHash)).Nodup := by
  have hnew : (hashes.map fun hash => (⟨id, hash, none⟩ : RecoveryCode)).map (·.codeHash) =
      hashes := by
    rw [List.map_map]
    exact List.map_id hashes
  rw [h.codes, List.map_append, hnew, List.nodup_append]
  refine ⟨hkept.sublist (List.filter_sublist.map _), h.nodup, ?_⟩
  intro hash hleft g hright heq
  subst heq
  obtain ⟨row, hrow, rfl⟩ := List.mem_map.mp hleft
  obtain ⟨hrow, hid⟩ := List.mem_filter.mp hrow
  exact h.unused row hrow (by simpa using hid) hright

theorem Change.unique (h : Change now db db' new)
    (hkept : (db.recoveryCodes.map (·.codeHash)).Nodup) :
    (db'.recoveryCodes.map (·.codeHash)).Nodup := by
  cases h with
  | quiet _ codes _ => rwa [codes]
  | enrolled _ _ _ _ _ _ _ _ codes _ => exact codes.unique hkept
  | codesIssued _ _ _ codes _ => exact codes.unique hkept
  | challengeIssued _ _ _ _ codes _ => rwa [codes]
  | accepted row user credential f _ _ _ _ _ spent _ _ =>
    cases credential with
    | totp counter => rwa [spent.2.2]
    | recovery hash =>
      rw [spent.2.2, List.map_map]
      refine cast (congrArg _ (List.map_congr_left fun code _ => ?_)) hkept
      simp only [Function.comp_apply]
      split <;> rfl
  | failed _ _ _ _ _ codes _ => rwa [codes]
  | disabled _ _ _ _ _ _ codes _ => exact hkept.sublist (codes.map _)

/-- A code of the user's new batch, or one of before. -/
theorem Issued.mem (h : Issued db db' id hashes) {row : RecoveryCode}
    (hrow : row ∈ db'.recoveryCodes) :
    row ∈ db.recoveryCodes ∨ row.userId = id ∧ row.codeHash ∈ hashes := by
  rw [h.codes, List.mem_append] at hrow
  rcases hrow with hrow | hrow
  · exact .inl (List.mem_of_mem_filter hrow)
  · obtain ⟨hash, hhash, rfl⟩ := List.mem_map.mp hrow
    exact .inr ⟨rfl, hhash⟩

theorem Change.codes (h : Change now db db' new) (hkept : Kept db past) :
    ∀ row ∈ db'.recoveryCodes, row.usedAt = none → ∃ hashes, row.codeHash ∈ hashes ∧
      Unspent (Event.spends row.userId row.codeHash) (new ++ past)
        (.codesIssued row.userId hashes) := by
  have hold {row : RecoveryCode} (hrow : row ∈ db.recoveryCodes) (hused : row.usedAt = none)
      (hnew : ∀ e ∈ new, ¬ Event.spends row.userId row.codeHash e) :
      ∃ hashes, row.codeHash ∈ hashes ∧
        Unspent (Event.spends row.userId row.codeHash) (new ++ past)
          (.codesIssued row.userId hashes) := by
    obtain ⟨hashes, hmem, hunspent⟩ := hkept.codes row hrow hused
    exact ⟨hashes, hmem, hunspent.append hnew⟩
  intro row hrow hused
  cases h with
  | quiet _ codes _ => exact hold (codes ▸ hrow) hused (by simp)
  | enrolled id counter hashes _ _ _ _ _ codes _ =>
    rcases codes.mem hrow with hrow | ⟨rfl, hmem⟩
    · exact hold hrow hused (by simp [Event.spends])
    · exact ⟨hashes, hmem, .start _ _ _⟩
  | codesIssued id hashes _ codes _ =>
    rcases codes.mem hrow with hrow | ⟨rfl, hmem⟩
    · exact hold hrow hused (by simp [Event.spends])
    · exact ⟨hashes, hmem, .start _ _ _⟩
  | challengeIssued _ _ _ _ codes _ => exact hold (codes ▸ hrow) hused (by simp [Event.spends])
  | accepted c user credential f _ _ _ _ _ spent _ _ =>
    cases credential with
    | totp counter => exact hold (spent.2.2 ▸ hrow) hused (by simp [Event.spends])
    | recovery hash =>
      rw [spent.2.2, List.mem_map] at hrow
      obtain ⟨code, hcode, rfl⟩ := hrow
      -- The only code with this hash is used now.
      by_cases hhash : code.codeHash = hash
      · simp [hhash] at hused
      · rw [if_neg hhash] at hused ⊢
        exact hold hcode hused (by simp [Event.spends, Ne.symm hhash])
  | failed _ _ _ _ _ codes _ => exact hold (codes ▸ hrow) hused (by simp [Event.spends])
  | disabled _ _ _ _ _ _ codes _ => exact hold (codes.subset hrow) hused (by simp [Event.spends])

theorem Change.challenges (h : Change now db db' new) (hkept : Kept db past) :
    ∀ row ∈ db'.challenges, Unspent (Event.answers row.tokenHash) (new ++ past)
      (.challengeIssued row.userId row.tokenHash row.clientIp) := by
  have hold {row : Challenge} (hmem : ∃ old ∈ db.challenges, row.tokenHash = old.tokenHash ∧
        row.userId = old.userId ∧ row.clientIp = old.clientIp)
      (hnew : ∀ e ∈ new, ¬ Event.answers row.tokenHash e) :
      Unspent (Event.answers row.tokenHash) (new ++ past)
        (.challengeIssued row.userId row.tokenHash row.clientIp) := by
    obtain ⟨old, hmem, htoken, huser, hip⟩ := hmem
    rw [htoken] at hnew
    rw [htoken, huser, hip]
    exact (hkept.challenges old hmem).append hnew
  intro row hrow
  cases h with
  | quiet _ _ challenges =>
    exact hold (challenges row hrow) (by simp)
  | enrolled _ _ _ _ _ _ _ _ _ challenges =>
    exact hold (challenges row hrow) (by simp [Event.answers])
  | codesIssued _ _ _ _ challenges =>
    exact hold (challenges row hrow) (by simp [Event.answers])
  | challengeIssued id digest clientIp _ _ challenges =>
    rcases challenges row hrow with hmem | ⟨rfl, rfl, rfl⟩
    · exact hold ⟨row, hmem, rfl, rfl, rfl⟩ (by simp [Event.answers])
    · exact .start _ _ _
  | accepted c user credential f _ _ _ _ _ _ challenges answered =>
    exact hold (challenges row hrow) (by simp [Event.answers, (answered row hrow).symm])
  | failed _ _ _ _ _ _ challenges =>
    exact hold (challenges row hrow) (by simp [Event.answers])
  | disabled _ _ _ _ _ _ _ challenges =>
    exact hold (challenges row hrow) (by simp [Event.answers])

theorem Change.kept (h : Change now db db' new) (hkept : Kept db past) : Kept db' (new ++ past) :=
  ⟨fun _ _ huser => h.counters hkept huser, h.unique hkept.unique, h.codes hkept,
    h.challenges hkept⟩

theorem Change.oneTime (h : Change now db db' new) (hkept : Kept db past)
    (hpast : Lawful OneTime past) : Lawful OneTime (new ++ past) := by
  cases h with
  | quiet _ _ _ => exact hpast
  | enrolled _ _ _ _ _ _ _ _ _ _ => exact ⟨trivial, trivial, hpast⟩
  | codesIssued _ _ _ _ _ => exact ⟨trivial, hpast⟩
  | challengeIssued _ _ _ _ _ _ => exact ⟨trivial, hpast⟩
  | failed _ _ _ _ _ _ _ => exact ⟨trivial, hpast⟩
  | disabled _ _ _ _ _ _ _ _ => exact ⟨trivial, hpast⟩
  | accepted row user credential f hrow huser _ _ _ spent _ _ =>
    refine ⟨⟨hkept.challenges row hrow, ?_⟩, hpast⟩
    cases credential with
    | totp counter =>
      intro c hc
      obtain ⟨last, hlast, hle⟩ := hkept.counters _ user huser c hc
      have hlt : last < counter := by simpa [hlast] using spent.1
      omega
    | recovery hash => exact hkept.codes _ spent.2.1 rfl

end ExitLane.Auth
