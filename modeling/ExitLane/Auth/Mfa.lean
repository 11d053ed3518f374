import ExitLane.Python.Text
import ExitLane.Effect.Machine

/-!
# Second factor

Challenges, one-time passwords and recovery codes. Every call is one transaction over the
database: it commits as a whole, or it raises and leaves the database as it was. Callers may
interleave in any way, so a history is a list of calls in the order in which they commit.

Hashes, the passwords of `pyotp` and the master key are parameters; nothing is assumed of them.
-/

namespace ExitLane.Auth

open Python Effect

def mfaChallengeSeconds : Nat := 300
def mfaEnrollmentSeconds : Nat := 600
def mfaMaxAttempts : Nat := 5
def mfaFailureWindowSeconds : Nat := 300

/-! ## The database -/

/-- The columns of `users` for the second factor. -/
structure User where
  mfaEnabled : Bool
  encryptedTotpSecret : Option Text
  lastTotpCounter : Option Int
  mfaFailedAttempts : Nat
  mfaFailureWindowStartedAt : Option Nat
  deriving DecidableEq

/-- The defaults of the columns. -/
def User.fresh : User := ⟨false, none, none, 0, none⟩

structure RecoveryCode where
  userId : Nat
  codeHash : Text
  usedAt : Option Nat
  deriving DecidableEq

structure Enrollment where
  tokenHash : Text
  userId : Nat
  sessionHash : Text
  encryptedSecret : Text
  expiresAt : Nat
  deriving DecidableEq

structure Challenge where
  tokenHash : Text
  userId : Nat
  expiresAt : Nat
  attempts : Nat
  clientIp : Text
  deriving DecidableEq

structure Database where
  users : Nat → Option User
  recoveryCodes : List RecoveryCode
  enrollments : List Enrollment
  challenges : List Challenge

namespace Database

/-- `UPDATE users SET … WHERE id=?`. -/
def updateUser (db : Database) (id : Nat) (f : User → User) : Database :=
  { db with users := fun v => if v = id then (db.users v).map f else db.users v }

/-- `DELETE FROM mfa_challenges WHERE token_hash=?`. -/
def deleteChallenge (db : Database) (digest : Text) : Database :=
  { db with challenges := db.challenges.filter fun c => c.tokenHash != digest }

theorem updateUser_self (db : Database) (id : Nat) (f : User → User) :
    (db.updateUser id f).users id = (db.users id).map f := if_pos rfl

theorem updateUser_of_ne (db : Database) {id v : Nat} (f : User → User) (h : v ≠ id) :
    (db.updateUser id f).users v = db.users v := if_neg h

end Database

/-! ## Codes -/

/-- What the calls take from elsewhere. -/
structure Keys where
  /-- `token_hash`. -/
  tokenHash : Text → Text
  /-- HMAC under the master key; `none` if the key cannot be read. -/
  hmac : Text → Option Text
  /-- `decrypt_secret`; `none` if it raises. -/
  decrypt : Text → Option Text
  /-- `pyotp.TOTP(secret).at(counter * 30)`. -/
  otp : Text → Int → Text

/-- What a code was accepted as. -/
inductive Credential where
  | totp (counter : Int)
  | recovery (codeHash : Text)
  deriving DecidableEq

inductive Mode where
  | totp
  | recovery
  deriving DecidableEq

/-- The codes of `AuthSecurityError`. -/
inductive Error where
  | mfaEnrollmentExpired
  | invalidMfaCode
  | mfaChallengeExpired
  | tooManyAttempts
  deriving DecidableEq

variable (K : Keys)

/-- `totp_counter`, for codes in ASCII. -/
def totpCounter (secret code : Text) (now : Nat) (last : Option Int) : Option Int :=
  (([-1, 0, 1] : List Int).map fun offset => ((now / 30 : Nat) : Int) + offset).find? fun counter =>
    last.all (· < counter) && K.otp secret counter == strip code

/-- `_recovery_digest`, for codes in ASCII. -/
def recoveryDigest (code : Text) : Option Text :=
  K.hmac ((code.filter (· != '-')).map Char.toLower)

/-- `_verify_totp`: `none` if it raises, and the counter of a code that is right. -/
def verifyTotp (user : User) (code : Text) (now : Nat) : Option (Option Int) :=
  if user.mfaEnabled then
    (user.encryptedTotpSecret.bind K.decrypt).map fun secret =>
      (totpCounter K secret code now user.lastTotpCounter).filter fun counter =>
        user.lastTotpCounter.all (· < counter)
  else some none

variable (db : Database)

/-- `_verify_recovery`: `none` if it raises, and the hash of a code that is there and unused. -/
def verifyRecovery (id : Nat) (code : Text) : Option (Option Text) :=
  (recoveryDigest K code).map fun digest =>
    (db.recoveryCodes.find? fun row =>
      row.userId == id && row.codeHash == digest && row.usedAt.isNone).map (·.codeHash)

/-- The verifier of the mode, with the database after it. -/
def verify (id : Nat) (user : User) (mode : Mode) (code : Text) (now : Nat) :
    Option (Option (Database × Credential)) :=
  match mode with
  | .totp => (verifyTotp K user code now).map fun counter => counter.map fun counter =>
      (db.updateUser id fun user => { user with lastTotpCounter := some counter }, .totp counter)
  | .recovery => (verifyRecovery K db id code).map fun digest => digest.map fun digest =>
      ({ db with
          recoveryCodes := db.recoveryCodes.map fun row =>
            -- `code_hash` is unique and stands for the id of the row.
            if row.codeHash = digest then { row with usedAt := some now } else row },
        .recovery digest)

/-- `new_recovery_codes`: `none` where a hash is taken already. -/
def newRecoveryCodes (id : Nat) (codes : List Text) : Option (Database × List Text) :=
  (codes.mapM (recoveryDigest K)).bind fun hashes =>
    let kept := db.recoveryCodes.filter fun row => row.userId != id
    if hashes.Nodup ∧ ∀ row ∈ kept, row.codeHash ∉ hashes then
      some ({ db with recoveryCodes := kept ++ hashes.map fun hash => ⟨id, hash, none⟩ }, hashes)
    else none

/-! ## The calls -/

/-- `start_enrollment`. -/
def startEnrollment (now id : Nat) (session enrollment secret : Text) : Option Database :=
  let kept := db.enrollments.filter fun row => row.userId != id
  if kept.all fun row => row.tokenHash != K.tokenHash enrollment then
    some { db with
      enrollments := ⟨K.tokenHash enrollment, id, K.tokenHash session, secret,
        now + mfaEnrollmentSeconds⟩ :: kept }
  else none

/-- `confirm_enrollment`: the counter of the code with the hashes of the new recovery codes. -/
def confirmEnrollment (now id : Nat) (session enrollment code : Text)
    (codes : List Text) : Option (Database × Int × List Text) :=
  (db.enrollments.find? fun row => row.tokenHash == K.tokenHash enrollment && row.userId == id &&
      row.sessionHash == K.tokenHash session).bind fun row =>
    if row.expiresAt ≤ now then none
    else (K.decrypt row.encryptedSecret).bind fun secret =>
      (totpCounter K secret code now none).bind fun counter =>
        let enabled := db.updateUser id fun user =>
          { user with
            mfaEnabled := true
            encryptedTotpSecret := some row.encryptedSecret
            lastTotpCounter := some counter }
        (newRecoveryCodes K enabled id codes).map fun (db, hashes) =>
          ({ db with enrollments := db.enrollments.filter fun row => row.userId != id }, counter,
            hashes)

/-- `start_challenge`. -/
def startChallenge (now id : Nat) (clientIp challenge : Text) : Option Database :=
  let kept := db.challenges.filter fun row => row.userId != id
  if kept.all fun row => row.tokenHash != K.tokenHash challenge then
    some { db with
      challenges := ⟨K.tokenHash challenge, id, now + mfaChallengeSeconds, 0, clientIp⟩ :: kept }
  else none

/-- How `consume_challenge` ends, once it has committed. -/
inductive Outcome where
  /-- No code was evaluated. -/
  | refused (error : Error)
  | failed (id : Nat) (error : Error)
  | accepted (id : Nat) (credential : Credential)
  deriving DecidableEq

/-- The failures of the window at `now`, with the start of the window. -/
def User.budget (user : User) (now : Nat) : Nat × Nat :=
  match user.mfaFailureWindowStartedAt with
  | none => (0, now)
  | some started =>
    if started + mfaFailureWindowSeconds ≤ now then (0, now) else (user.mfaFailedAttempts, started)

/-- The failure of a code counts against the user and the challenge. -/
def recordFailure (id : Nat) (digest : Text) (failures started : Nat) : Database × Outcome :=
  let counted := db.updateUser id fun user =>
    { user with mfaFailedAttempts := failures + 1, mfaFailureWindowStartedAt := some started }
  if mfaMaxAttempts ≤ failures + 1 then
    (counted.deleteChallenge digest, .failed id .tooManyAttempts)
  else
    ({ counted with
        challenges := counted.challenges.map fun row =>
          if row.tokenHash = digest then { row with attempts := row.attempts + 1 } else row },
      .failed id .invalidMfaCode)

/-- The success of a code ends the challenge and the window. -/
def recordSuccess (id : Nat) (digest : Text) : Database :=
  (db.updateUser id fun user =>
    { user with mfaFailedAttempts := 0, mfaFailureWindowStartedAt := none }).deleteChallenge digest

/-- `consume_challenge`: `none` if it raises before its end. -/
def consumeChallenge (now : Nat) (challenge code : Text) (mode : Mode)
    (clientIp : Text) : Option (Database × Outcome) :=
  let digest := K.tokenHash challenge
  let expired := (db.deleteChallenge digest, Outcome.refused .mfaChallengeExpired)
  match db.challenges.find? (·.tokenHash == digest) with
  | none => some expired
  | some row =>
    if row.expiresAt ≤ now ∨ mfaMaxAttempts ≤ row.attempts ∨ row.clientIp ≠ clientIp then
      some expired
    else
      match db.users row.userId with
      | none => some expired
      | some user =>
        if mfaMaxAttempts ≤ (user.budget now).1 then
          some (db.deleteChallenge digest, .refused .tooManyAttempts)
        else
          (verify K db row.userId user mode code now).map fun
            | some (db', credential) =>
              (recordSuccess db' row.userId digest, .accepted row.userId credential)
            | none =>
              recordFailure db row.userId digest (user.budget now).1 (user.budget now).2

/-- `regenerate_recovery_codes`. -/
def regenerateRecoveryCodes (id : Nat) (codes : List Text) : Option (Database × List Text) :=
  newRecoveryCodes K db id codes

/-- `disable_mfa`. -/
def disableMfa (id : Nat) : Database :=
  let off := db.updateUser id fun user =>
    { user with
      mfaEnabled := false
      encryptedTotpSecret := none
      lastTotpCounter := none
      mfaFailedAttempts := 0
      mfaFailureWindowStartedAt := none }
  { off with
    recoveryCodes := off.recoveryCodes.filter fun row => row.userId != id
    enrollments := off.enrollments.filter fun row => row.userId != id
    challenges := off.challenges.filter fun row => row.userId != id }

/-! ## Histories -/

inductive Call where
  | startEnrollment (id : Nat) (session enrollment secret : Text)
  | confirmEnrollment (id : Nat) (session enrollment code : Text) (codes : List Text)
  | startChallenge (id : Nat) (clientIp challenge : Text)
  | consumeChallenge (challenge code : Text) (mode : Mode) (clientIp : Text)
  | regenerateRecoveryCodes (id : Nat) (codes : List Text)
  | disableMfa (id : Nat)

/-- The code that the caller gives. -/
def Call.code : Call → Text
  | confirmEnrollment _ _ _ code _ => code
  | consumeChallenge _ code _ _ => code
  | _ => []

/-- What a call did, where it matters to the second factor. -/
inductive Event where
  | enrolled (id : Nat) (counter : Int)
  | codesIssued (id : Nat) (hashes : List Text)
  | challengeIssued (id : Nat) (digest clientIp : Text)
  | accepted (time id : Nat) (digest clientIp : Text) (credential : Credential)
  | failed (time id : Nat)
  | disabled (time id : Nat)
  deriving DecidableEq

def Outcome.events (now : Nat) (digest clientIp : Text) : Outcome → List Event
  | refused _ => []
  | failed id _ => [.failed now id]
  | accepted id credential => [.accepted now id digest clientIp credential]

/-- A call that raises leaves the database as it was. -/
def perform (now : Nat) : Call → Database × List Event
  | .startEnrollment id session enrollment secret =>
    ((startEnrollment K db now id session enrollment secret).getD db, [])
  | .confirmEnrollment id session enrollment code codes =>
    match confirmEnrollment K db now id session enrollment code codes with
    | none => (db, [])
    | some (db', counter, hashes) => (db', [.codesIssued id hashes, .enrolled id counter])
  | .startChallenge id clientIp challenge =>
    match startChallenge K db now id clientIp challenge with
    | none => (db, [])
    | some db' => (db', [.challengeIssued id (K.tokenHash challenge) clientIp])
  | .consumeChallenge challenge code mode clientIp =>
    match consumeChallenge K db now challenge code mode clientIp with
    | none => (db, [])
    | some (db', out) => (db', out.events now (K.tokenHash challenge) clientIp)
  | .regenerateRecoveryCodes id codes =>
    match regenerateRecoveryCodes K db id codes with
    | none => (db, [])
    | some (db', hashes) => (db', [.codesIssued id hashes])
  | .disableMfa id => (disableMfa db id, [.disabled now id])

/-- The database with the time of the last call. -/
structure Server where
  clock : Nat
  db : Database

/-- The times of the calls do not decrease, and their codes are ASCII. -/
def Server.step (s : Server) (action : Nat × Call) : Option (Server × List Event) :=
  if s.clock ≤ action.1 ∧ action.2.code.all (·.toNat < 128) = true then
    some (⟨action.1, (perform K s.db action.1 action.2).1⟩, (perform K s.db action.1 action.2).2)
  else none

/-- From an installation with the given users, none of them enrolled yet. -/
def machine (registered : Nat → Bool) : Machine Server (Nat × Call) Event where
  init := ⟨0, ⟨fun id => if registered id then some .fresh else none, [], [], []⟩⟩
  step := Server.step K

end ExitLane.Auth
