import ExitLane.Auth.Mfa

/-!
# Every wrong code is charged

`consume_challenge` evaluates a code inside the transaction that counts the failure, so an exception
of a verifier takes the count back. `hmac.compare_digest` raises for a text outside ASCII, and the
endpoint hands over any text.

* `consumeText_of_ascii`: for texts in ASCII this is `consumeChallenge`;
* `charged_iff`: a code that is not accepted is charged exactly if its verifier can evaluate it.
-/

namespace ExitLane.Auth

open Python

/-! ## Codes of any characters -/

def isAsciiText (t : Text) : Bool := t.all (·.toNat < 128)

/-- `Keys`, with `str.casefold`. -/
structure TextKeys extends Keys where
  casefold : Text → Text
  casefold_of_ascii : ∀ t, isAsciiText t = true → casefold t = t.map Char.toLower

/-- The exceptions that take the transaction back. -/
inductive Raised where
  | typeError
  | runtimeError
  deriving DecidableEq

/-- `hmac.compare_digest`. -/
def compareDigest (a b : Text) : Except Raised Bool :=
  if isAsciiText a && isAsciiText b then .ok (a == b) else .error .typeError

variable (K : TextKeys)

/-- The loop of `totp_counter`. -/
def searchCounter (secret code : Text) (last : Option Int) : List Int → Except Raised (Option Int)
  | [] => .ok none
  | counter :: rest =>
    if last.all (· < counter) then
      match compareDigest (K.otp secret counter) (strip code) with
      | .error e => .error e
      | .ok true => .ok (some counter)
      | .ok false => searchCounter secret code last rest
    else searchCounter secret code last rest

/-- The counters that `totp_counter` tries. -/
def counterWindow (now : Nat) : List Int :=
  ([-1, 0, 1] : List Int).map fun offset => ((now / 30 : Nat) : Int) + offset

/-- `_verify_totp`. -/
def verifyTotpText (user : User) (code : Text) (now : Nat) : Except Raised (Option Int) :=
  if user.mfaEnabled then
    match user.encryptedTotpSecret.bind K.decrypt with
    | none => .error .runtimeError
    | some secret =>
      (searchCounter K secret code user.lastTotpCounter (counterWindow now)).map fun counter =>
        counter.filter fun counter => user.lastTotpCounter.all (· < counter)
  else .ok none

/-- `_verify_recovery`. -/
def verifyRecoveryText (db : Database) (id : Nat) (code : Text) : Except Raised (Option Text) :=
  match K.hmac (K.casefold (code.filter (· != '-'))) with
  | none => .error .runtimeError
  | some digest =>
    .ok ((db.recoveryCodes.find? fun row =>
      row.userId == id && row.codeHash == digest && row.usedAt.isNone).map (·.codeHash))

def verifyText (db : Database) (id : Nat) (user : User) (mode : Mode) (code : Text) (now : Nat) :
    Except Raised (Option (Database × Credential)) :=
  match mode with
  | .totp => (verifyTotpText K user code now).map fun counter => counter.map fun counter =>
      (db.updateUser id fun user => { user with lastTotpCounter := some counter }, .totp counter)
  | .recovery => (verifyRecoveryText K db id code).map fun digest => digest.map fun digest =>
      ({ db with
          recoveryCodes := db.recoveryCodes.map fun row =>
            if row.codeHash = digest then { row with usedAt := some now } else row },
        .recovery digest)

/-- `consume_challenge`. An exception leaves the database as it was. -/
def consumeText (db : Database) (now : Nat) (challenge code : Text) (mode : Mode)
    (clientIp : Text) : Except Raised (Database × Outcome) :=
  let digest := K.tokenHash challenge
  let expired := (db.deleteChallenge digest, Outcome.refused .mfaChallengeExpired)
  match db.challenges.find? (·.tokenHash == digest) with
  | none => .ok expired
  | some row =>
    if row.expiresAt ≤ now ∨ mfaMaxAttempts ≤ row.attempts then .ok expired
    else
      match compareDigest row.clientIp clientIp with
      | .error e => .error e
      | .ok false => .ok expired
      | .ok true =>
        match db.users row.userId with
        | none => .ok expired
        | some user =>
          if mfaMaxAttempts ≤ (user.budget now).1 then
            .ok (db.deleteChallenge digest, .refused .tooManyAttempts)
          else
            (verifyText K db row.userId user mode code now).map fun
              | some (db', credential) =>
                (recordSuccess db' row.userId digest, .accepted row.userId credential)
              | none =>
                recordFailure db row.userId digest (user.budget now).1 (user.budget now).2

/-! ## The model of texts in ASCII -/

theorem isAsciiText_of_subset {t t' : Text} (h : t ⊆ t') (ht : isAsciiText t' = true) :
    isAsciiText t = true :=
  List.all_eq_true.mpr fun c hc => List.all_eq_true.mp ht c (h hc)

section Ascii
variable {K} {db : Database} {id now : Nat} {user : User} {mode : Mode}
  {secret code challenge clientIp : Text} {last : Option Int}
  (hotp : ∀ secret counter, isAsciiText (K.otp secret counter) = true)

include hotp

theorem searchCounter_of_ascii (hcode : isAsciiText (strip code) = true) (l : List Int) :
    searchCounter K secret code last l = .ok (l.find? fun counter =>
      last.all (· < counter) && K.otp secret counter == strip code) := by
  induction l with
  | nil => rfl
  | cons counter rest ih =>
    have hcompare : compareDigest (K.otp secret counter) (strip code) =
        .ok (K.otp secret counter == strip code) := by
      rw [compareDigest, hotp, hcode]
      rfl
    rw [searchCounter, hcompare, List.find?_cons]
    cases hlast : last.all (· < counter) with
    | false => simpa using ih
    | true =>
      cases heq : K.otp secret counter == strip code with
      | false => simpa using ih
      | true => rfl

theorem verifyText_of_ascii (hcode : isAsciiText code = true) :
    (verifyText K db id user mode code now).toOption =
      verify K.toKeys db id user mode code now := by
  cases mode with
  | totp =>
    have hstrip := isAsciiText_of_subset (infix_strip code).subset hcode
    have hsame : (verifyTotpText K user code now).toOption = verifyTotp K.toKeys user code now := by
      unfold verifyTotpText verifyTotp
      split
      · cases user.encryptedTotpSecret.bind K.decrypt with
        | none => rfl
        | some secret =>
          simp only [searchCounter_of_ascii hotp hstrip]
          rfl
      · rfl
    simp only [verify, verifyText, ← hsame]
    cases verifyTotpText K user code now <;> rfl
  | recovery =>
    have hcase := K.casefold_of_ascii (code.filter (· != '-'))
      (isAsciiText_of_subset (List.filter_subset_self code) hcode)
    simp only [verify, verifyText, verifyRecoveryText, verifyRecovery, recoveryDigest, hcase]
    cases K.hmac ((code.filter (· != '-')).map Char.toLower) <;> rfl

/-- For texts in ASCII the two models of `consume_challenge` are one. -/
theorem consumeText_of_ascii (hcode : isAsciiText code = true)
    (hclient : isAsciiText clientIp = true)
    (hrows : ∀ row ∈ db.challenges, isAsciiText row.clientIp = true) :
    (consumeText K db now challenge code mode clientIp).toOption =
      consumeChallenge K.toKeys db now challenge code mode clientIp := by
  unfold consumeText consumeChallenge
  cases hrow : db.challenges.find? (·.tokenHash == K.tokenHash challenge) with
  | none =>
    simp only [hrow]
    rfl
  | some row =>
    have hcompare : compareDigest row.clientIp clientIp = .ok (row.clientIp == clientIp) := by
      rw [compareDigest, hrows row (List.mem_of_find?_eq_some hrow), hclient]
      rfl
    simp only [hrow, hcompare]
    by_cases hlive : row.expiresAt ≤ now ∨ mfaMaxAttempts ≤ row.attempts
    · rw [if_pos hlive, if_pos (by tauto)]
      rfl
    rw [if_neg hlive]
    by_cases hip : row.clientIp = clientIp
    · rw [if_neg (by tauto), beq_iff_eq.mpr hip]
      cases db.users row.userId with
      | none => rfl
      | some user =>
        simp only
        split
        · rfl
        · rw [← verifyText_of_ascii hotp hcode]
          cases verifyText K db row.userId user mode code now <;> rfl
    · rw [if_pos (by tauto), beq_eq_false_iff_ne.mpr hip]
      rfl

end Ascii

/-! ## The charge -/

/-- The challenge can be answered, and the budget of its user is not used up. -/
structure Live (db : Database) (now : Nat) (challenge clientIp : Text) (row : Challenge)
    (user : User) : Prop where
  found : db.challenges.find? (·.tokenHash == K.tokenHash challenge) = some row
  time : now < row.expiresAt
  attempts : row.attempts < mfaMaxAttempts
  client : row.clientIp = clientIp
  registered : db.users row.userId = some user
  budget : (user.budget now).1 < mfaMaxAttempts

/-- One failure more, or the first one of a new window. -/
def User.Charged (user user' : User) (now : Nat) : Prop :=
  (user'.mfaFailedAttempts = user.mfaFailedAttempts + 1 ∧
    user'.mfaFailureWindowStartedAt = user.mfaFailureWindowStartedAt) ∨
  (user'.mfaFailedAttempts = 1 ∧ user'.mfaFailureWindowStartedAt = some now)

/-- The call succeeds, or it ends in an `AuthSecurityError` and its failure counts. -/
def Charged (now : Nat) (challenge : Text) (row : Challenge) (user : User) :
    Except Raised (Database × Outcome) → Prop
  | .ok (_, .accepted ..) => True
  | .ok (db', .failed id _) => id = row.userId ∧
    (∃ user', db'.users row.userId = some user' ∧ user.Charged user' now) ∧
    (db'.challenges.find? (·.tokenHash == K.tokenHash challenge) =
        some { row with attempts := row.attempts + 1 } ∨
      ∀ c ∈ db'.challenges, c.tokenHash ≠ K.tokenHash challenge)
  | .ok (_, .refused _) => False
  | .error _ => False

/-- The verifier can evaluate the code. -/
def Evaluable (user : User) (mode : Mode) (code : Text) (now : Nat) : Prop :=
  match mode with
  | .recovery => ∃ digest, K.hmac (K.casefold (code.filter (· != '-'))) = some digest
  | .totp => user.mfaEnabled = true →
    (∃ secret, user.encryptedTotpSecret.bind K.decrypt = some secret) ∧
      (isAsciiText (strip code) = true ∨
        ∃ last, user.lastTotpCounter = some last ∧ ((now / 30 : Nat) : Int) + 1 ≤ last)

section Charge
variable {K} {db : Database} {id now : Nat} {user : User} {mode : Mode}
  {secret code challenge clientIp : Text} {last : Option Int} {row : Challenge}

theorem User.charged_budget (user : User) (now : Nat) : user.Charged
    { user with
      mfaFailedAttempts := (user.budget now).1 + 1
      mfaFailureWindowStartedAt := some (user.budget now).2 } now := by
  unfold User.Charged User.budget
  cases hstarted : user.mfaFailureWindowStartedAt with
  | none => exact .inr ⟨rfl, rfl⟩
  | some started =>
    simp only
    split
    · exact .inr ⟨rfl, rfl⟩
    · exact .inl ⟨rfl, rfl⟩

theorem find?_attempts (l : List Challenge) (digest : Text) :
    (l.map fun c => if c.tokenHash = digest then { c with attempts := c.attempts + 1 } else c).find?
      (·.tokenHash == digest) =
    (l.find? (·.tokenHash == digest)).map fun c => { c with attempts := c.attempts + 1 } := by
  induction l with
  | nil => rfl
  | cons c l ih =>
    by_cases hc : c.tokenHash = digest
    · simp [hc]
    · rw [List.map_cons, if_neg hc, List.find?_cons_of_neg (by simpa using hc), ih,
        List.find?_cons_of_neg (by simpa using hc)]

/-- What `recordFailure` does is a charge. -/
theorem charged_recordFailure (h : Live K db now challenge clientIp row user) :
    Charged K now challenge row user (.ok (recordFailure db row.userId (K.tokenHash challenge)
      (user.budget now).1 (user.budget now).2)) := by
  unfold recordFailure
  dsimp only
  split
  · refine ⟨rfl, ⟨_, ?_, user.charged_budget now⟩, .inr fun c hc => ?_⟩
    · simp [Database.deleteChallenge, Database.updateUser_self, h.registered]
    · simpa using (List.mem_filter.mp hc).2
  · refine ⟨rfl, ⟨_, ?_, user.charged_budget now⟩, .inl ?_⟩
    · simp [Database.updateUser_self, h.registered]
    · rw [find?_attempts]
      simp [Database.updateUser, h.found]

/-- Where the code is outside ASCII, the loop raises at the first counter that it compares. -/
theorem searchCounter_of_not_ascii (hcode : isAsciiText (strip code) = false) (l : List Int) :
    searchCounter K secret code last l =
      if l.any (fun counter => last.all (· < counter)) then .error .typeError else .ok none := by
  induction l with
  | nil => rfl
  | cons counter rest ih =>
    have hcompare : compareDigest (K.otp secret counter) (strip code) = .error .typeError := by
      rw [compareDigest, hcode, Bool.and_false]
      rfl
    rw [searchCounter, hcompare, List.any_cons, ih]
    cases last.all (· < counter) with
    | false => rfl
    | true => rfl

theorem any_counterWindow :
    (counterWindow now).any (fun counter => last.all (· < counter)) = false ↔
    ∃ n, last = some n ∧ ((now / 30 : Nat) : Int) + 1 ≤ n := by
  cases last with
  | none => simp [counterWindow]
  | some n =>
    simp only [counterWindow, List.map_cons, List.map_nil, List.any_cons, List.any_nil,
      Option.all_some, Bool.or_false, Bool.or_eq_false_iff, decide_eq_false_iff_not,
      Option.some.injEq, exists_eq_left']
    omega

/-- Which codes a verifier can evaluate. -/
theorem evaluable_iff (hotp : ∀ secret counter, isAsciiText (K.otp secret counter) = true)
    (db : Database) (id : Nat) :
    Evaluable K user mode code now ↔
      ∃ found, verifyText K db id user mode code now = .ok found := by
  cases mode with
  | recovery =>
    unfold Evaluable verifyText verifyRecoveryText
    cases K.hmac (K.casefold (code.filter (· != '-'))) with
    | none => simp [Except.map]
    | some digest => simp [Except.map]
  | totp =>
    unfold Evaluable verifyText verifyTotpText
    cases user.mfaEnabled with
    | false => simp [Except.map]
    | true =>
      cases user.encryptedTotpSecret.bind K.decrypt with
      | none => simp [Except.map]
      | some secret =>
        cases hcode : isAsciiText (strip code) with
        | true => simp [searchCounter_of_ascii hotp hcode, Except.map]
        | false =>
          simp only [searchCounter_of_not_ascii hcode, ← any_counterWindow]
          cases (counterWindow now).any fun counter => user.lastTotpCounter.all (· < counter) with
          | false => simp [Except.map]
          | true => simp [Except.map]

theorem Live.not_dead (h : Live K db now challenge clientIp row user) :
    ¬ (row.expiresAt ≤ now ∨ mfaMaxAttempts ≤ row.attempts) := by
  have htime := h.time
  have hattempts := h.attempts
  omega

theorem Live.consumeText_eq (h : Live K db now challenge clientIp row user)
    (hclient : isAsciiText clientIp = true) :
    consumeText K db now challenge code mode clientIp =
      (verifyText K db row.userId user mode code now).map fun
        | some (db', credential) =>
          (recordSuccess db' row.userId (K.tokenHash challenge), .accepted row.userId credential)
        | none => recordFailure db row.userId (K.tokenHash challenge) (user.budget now).1
            (user.budget now).2 := by
  have hcompare : compareDigest row.clientIp clientIp = .ok true := by
    rw [compareDigest, h.client, hclient]
    simp
  unfold consumeText
  simp only [h.found, if_neg h.not_dead, hcompare, h.registered, if_neg (Nat.not_le.mpr h.budget)]

/-- **Charge.** For a live challenge with budget left, a code of any characters that is not accepted
counts as a failure and ends in an `AuthSecurityError`, exactly if the address of the client is in
ASCII and the verifier of the mode can evaluate the code. -/
theorem charged_iff (hotp : ∀ secret counter, isAsciiText (K.otp secret counter) = true)
    (h : Live K db now challenge clientIp row user) (code : Text) (mode : Mode) :
    Charged K now challenge row user (consumeText K db now challenge code mode clientIp) ↔
      isAsciiText clientIp = true ∧ Evaluable K user mode code now := by
  cases hclient : isAsciiText clientIp with
  | false =>
    have hraised : consumeText K db now challenge code mode clientIp = .error .typeError := by
      have hcompare : compareDigest row.clientIp clientIp = .error .typeError := by
        rw [compareDigest, hclient, Bool.and_false]
        rfl
      unfold consumeText
      simp only [h.found, if_neg h.not_dead, hcompare]
    rw [hraised]
    simp [Charged]
  | true =>
    rw [h.consumeText_eq hclient, evaluable_iff hotp db row.userId]
    simp only [true_and]
    cases verifyText K db row.userId user mode code now with
    | error e => simp [Except.map, Charged]
    | ok found =>
      cases found with
      | none => simpa [Except.map] using charged_recordFailure h
      | some accepted => simp [Except.map, Charged]

end Charge

/-! ## Two codes -/

/-- Keys for which every password is `000000`. -/
def plainKeys : TextKeys where
  tokenHash := id
  hmac t := some t
  decrypt t := some t
  otp _ _ := List.replicate 6 '0'
  casefold t := t.map Char.toLower
  casefold_of_ascii _ _ := rfl

/-- One user with the second factor and one challenge. -/
def oneChallenge : Database where
  users id := if id = 1 then some ⟨true, some [], none, 0, none⟩ else none
  recoveryCodes := []
  enrollments := []
  challenges := [⟨['c'], 1, 300, 0, "192.0.2.1".toList⟩]

theorem live_oneChallenge : Live plainKeys oneChallenge 0 ['c'] "192.0.2.1".toList
    ⟨['c'], 1, 300, 0, "192.0.2.1".toList⟩ ⟨true, some [], none, 0, none⟩ where
  found := by decide
  time := by decide
  attempts := by decide
  client := rfl
  registered := rfl
  budget := by decide

/-- A wrong code in digits is charged. -/
theorem wrong_digits_charged : Charged plainKeys 0 ['c']
    ⟨['c'], 1, 300, 0, "192.0.2.1".toList⟩ ⟨true, some [], none, 0, none⟩
    (consumeText plainKeys oneChallenge 0 ['c'] "123456".toList .totp "192.0.2.1".toList) :=
  (charged_iff (fun _ _ => rfl) live_oneChallenge "123456".toList .totp).mpr
    ⟨by decide, fun _ => ⟨⟨_, rfl⟩, .inl (by decide)⟩⟩

/-- A code with a character outside ASCII raises a `TypeError`, and nothing is charged. -/
theorem accented_code_not_charged :
    Live plainKeys oneChallenge 0 ['c'] "192.0.2.1".toList
      ⟨['c'], 1, 300, 0, "192.0.2.1".toList⟩ ⟨true, some [], none, 0, none⟩ ∧
    consumeText plainKeys oneChallenge 0 ['c'] "é12345".toList .totp "192.0.2.1".toList =
      .error .typeError ∧
    ¬ Charged plainKeys 0 ['c'] ⟨['c'], 1, 300, 0, "192.0.2.1".toList⟩
      ⟨true, some [], none, 0, none⟩
      (consumeText plainKeys oneChallenge 0 ['c'] "é12345".toList .totp "192.0.2.1".toList) := by
  have hraised : consumeText plainKeys oneChallenge 0 ['c'] "é12345".toList .totp
      "192.0.2.1".toList = .error .typeError := rfl
  refine ⟨live_oneChallenge, hraised, ?_⟩
  rw [hraised]
  exact id

end ExitLane.Auth
