import ExitLane.Auth.Mfa

/-!
# Sessions

A session ends at its maximum age, or when it has been idle for too long. `session_user` moves the
idle deadline only if the last move is at least a minute old, and every call first deletes all
sessions that have ended.

`history` reads off the log when the session of a token was created and when it was used since, and
is `none` once the session has been revoked.

* `RowStep`: what one call can do to the row of a key and to its history;
* `RowStep.dated`, `RowStep.lasting`: each keeps what relates the two;
* `session_lifetime`: both bounds, for every interleaving of calls.
-/

namespace ExitLane.Auth

open Python Effect

/-! ## The table -/

/-- `SESSION_MAX_AGE_SECONDS` and `SESSION_IDLE_TIMEOUT_SECONDS`. -/
structure Lifetime where
  maxAge : Nat
  idle : Nat

/-- A row of `sessions`; its key is the hash of the token. -/
structure Session where
  userId : Nat
  publicId : Text
  expiresAt : Nat
  lastSeenAt : Nat
  idleExpiresAt : Nat
  revokedAt : Option Nat

abbrev Sessions := Text → Option Session

/-- Neither expired nor revoked. -/
def Session.isCurrent (now : Nat) (s : Session) : Bool :=
  now < s.expiresAt && now < s.idleExpiresAt && s.revokedAt.isNone

/-- `DELETE FROM sessions WHERE …`. -/
def Sessions.delete (t : Sessions) (p : Text → Session → Bool) : Sessions :=
  fun digest => (t digest).filter fun s => !p digest s

/-- The `DELETE` at the start of `session_user`. -/
def Sessions.purge (t : Sessions) (now : Nat) : Sessions := t.delete fun _ s => !s.isCurrent now

/-- The row of `create_session`. -/
def newSession (L : Lifetime) (now id : Nat) (publicId : Text) : Session :=
  ⟨id, publicId, now + L.maxAge, now, now + L.idle, none⟩

/-- The `UPDATE` of `session_user`. -/
def Session.seen (L : Lifetime) (now : Nat) (s : Session) : Session :=
  if s.lastSeenAt + 60 ≤ now then { s with lastSeenAt := now, idleExpiresAt := now + L.idle } else s

/-- `session_user`, with the id and the name of the user and the public id of the session. -/
def sessionUser (L : Lifetime) (hash : Text → Text) (users : Nat → Option Text) (t : Sessions)
    (now : Nat) (token : Text) : Sessions × Option (Nat × Text × Text) :=
  if token = [] then (t, none)
  else
    let purged := t.purge now
    match purged (hash token) with
    | none => (purged, none)
    | some s =>
      match users s.userId with
      | none => (purged, none)
      | some username =>
        (Function.update purged (hash token) (some (s.seen L now)),
          some (s.userId, username, s.publicId))

/-! ## Calls -/

inductive SessionCall where
  | create (id : Nat) (token publicId : Text)
  | use (token : Text)
  /-- `revoke_session`. -/
  | revoke (id : Nat) (publicId currentId : Text)
  /-- `revoke_other_sessions`, and `regenerate_recovery_codes`. -/
  | revokeOthers (id : Nat) (currentId : Text)
  /-- `confirm_enrollment`. -/
  | keepOnly (id : Nat) (token : Text)
  /-- `disable_mfa` and a new password. -/
  | dropUser (id : Nat)
  | logout (token : Text)
  /-- A restore, and the local commands. -/
  | dropAll

/-- The rows that a call deletes. -/
def SessionCall.deletes (hash : Text → Text) : SessionCall → Text → Session → Bool
  | .create .. => fun _ _ => false
  | .use _ => fun _ _ => false
  | .revoke id publicId currentId => fun _ s =>
    publicId != currentId && s.userId == id && s.publicId == publicId
  | .revokeOthers id currentId => fun _ s => s.userId == id && s.publicId != currentId
  | .keepOnly id token => fun digest s => s.userId == id && digest != hash token
  | .dropUser id => fun _ s => s.userId == id
  | .logout token => fun digest _ => digest == hash token
  | .dropAll => fun _ _ => true

inductive SessionEvent where
  | created (time : Nat) (digest : Text)
  | used (time : Nat) (digest : Text) (accepted : Bool)
  /-- The rows of these keys were deleted. -/
  | revoked (gone : Text → Bool)

/-- The table, with the users and the time of the last call. -/
structure SessionServer where
  clock : Nat
  users : Nat → Option Text
  sessions : Sessions

section Calls
variable (L : Lifetime) (hash : Text → Text)

/-- One transaction. An insertion under a key that is taken raises and changes nothing. -/
def SessionServer.perform (s : SessionServer) (now : Nat) :
    SessionCall → Sessions × List SessionEvent
  | .create id token publicId =>
    if (s.sessions (hash token)).isNone && (s.users id).isSome then
      (Function.update s.sessions (hash token) (some (newSession L now id publicId)),
        [.created now (hash token)])
    else (s.sessions, [])
  | .use token =>
    let (sessions, result) := sessionUser L hash s.users s.sessions now token
    (sessions, if token = [] then [] else [.used now (hash token) result.isSome])
  | call =>
    (s.sessions.delete (call.deletes hash),
      [.revoked fun digest => (s.sessions digest).any (call.deletes hash digest)])

/-- The times of the calls do not decrease. -/
def SessionServer.step (s : SessionServer) (action : Nat × SessionCall) :
    Option (SessionServer × List SessionEvent) :=
  if s.clock ≤ action.1 then
    some ({ s with
      clock := action.1
      sessions := (s.perform L hash action.1 action.2).1 }, (s.perform L hash action.1 action.2).2)
  else none

/-- Without a session at the start. -/
def sessionMachine (users : Nat → Option Text) :
    Machine SessionServer (Nat × SessionCall) SessionEvent where
  init := ⟨0, users, fun _ => none⟩
  step := SessionServer.step L hash

end Calls

/-! ## Histories -/

/-- When the session of a key was created, with its uses since, the latest first; `none` for a key
without a session and after a revocation. -/
def history (digest : Text) : List SessionEvent → Option (Nat × List (Nat × Bool))
  | [] => none
  | .created time d :: past => if d = digest then some (time, []) else history digest past
  | .used time d accepted :: past =>
    if d = digest then (history digest past).map fun (c, uses) => (c, (time, accepted) :: uses)
    else history digest past
  | .revoked gone :: past => if gone digest then none else history digest past

/-- The times of the creation and of the uses, the latest first. -/
def useTimes (c : Nat) (uses : List (Nat × Bool)) : List Nat := uses.map Prod.fst ++ [c]

/-- Successive uses are less than the timeout but for a minute apart. -/
def Busy (L : Lifetime) (times : List Nat) : Prop :=
  times.IsChain fun later earlier => later + 60 < earlier + L.idle

/-! ## One key -/

abbrev History := Nat × List (Nat × Bool)

def History.add (time : Nat) (accepted : Bool) (h : History) : History :=
  (h.1, (time, accepted) :: h.2)

/-- What a call at `now` does to the row of one key and to its history. -/
inductive RowStep (L : Lifetime) (users : Nat → Option Text) (now : Nat) :
    Option Session → Option History → Option Session → Option History → Prop where
  | created {h : Option History} {id : Nat} (publicId : Text)
      (registered : (users id).isSome = true) :
    RowStep L users now none h (some (newSession L now id publicId)) (some (now, []))
  | accepted {row : Session} {h : Option History} (current : row.isCurrent now = true)
      (registered : (users row.userId).isSome = true) :
    RowStep L users now (some row) h (some (row.seen L now)) (h.map (History.add now true))
  | refused {row : Option Session} {h : Option History}
      (ended : ∀ r ∈ row, r.isCurrent now = true → users r.userId = none) :
    RowStep L users now row h (row.filter (·.isCurrent now)) (h.map (History.add now false))
  | purged {row : Option Session} {h : Option History} :
    RowStep L users now row h (row.filter (·.isCurrent now)) h
  | kept {row : Option Session} {h : Option History} : RowStep L users now row h row h
  | revoked {row : Option Session} {h : Option History} : RowStep L users now row h none none

section Row
variable {L : Lifetime} {hash : Text → Text} {users : Nat → Option Text} {now clock : Nat}
  {row row' : Option Session} {h h' : Option History} {s : SessionServer} {past : List SessionEvent}

/-- A row comes from its history. -/
structure Dated (L : Lifetime) (users : Nat → Option Text) (clock : Nat) (r : Session)
    (h : History) : Prop where
  expires : r.expiresAt = h.1 + L.maxAge
  idle : r.idleExpiresAt = r.lastSeenAt + L.idle
  seen : r.lastSeenAt = h.1 ∨ (r.lastSeenAt, true) ∈ h.2
  past : r.lastSeenAt ≤ clock
  registered : (users r.userId).isSome = true
  unrevoked : r.revokedAt = none

/-- The deadline of a busy session has not been reached, as far as the clock tells. -/
def Lasting (L : Lifetime) (clock : Nat) (row : Option Session) (h : History) : Prop :=
  Busy L (useTimes h.1 h.2) → ∀ u ∈ (useTimes h.1 h.2).head?,
    (∃ r ∈ row, u < r.lastSeenAt + 60) ∨ h.1 + L.maxAge ≤ clock ∨ u + L.idle ≤ clock + 60

theorem isCurrent_iff {r : Session} : r.isCurrent now = true ↔
    now < r.expiresAt ∧ now < r.idleExpiresAt ∧ r.revokedAt = none := by
  simp only [Session.isCurrent, Bool.and_eq_true, decide_eq_true_eq, Option.isNone_iff_eq_none,
    and_assoc]

theorem Dated.later {r : Session} {h : History} (hd : Dated L users clock r h) (hle : clock ≤ now) :
    Dated L users now r h :=
  { hd with past := Nat.le_trans hd.past hle }

theorem Dated.seen_self {r : Session} {h : History} (hd : Dated L users clock r h)
    (hle : clock ≤ now) : Dated L users now (r.seen L now) (h.add now true) := by
  unfold Session.seen
  split
  · exact ⟨hd.expires, rfl, .inr List.mem_cons_self, Nat.le_refl now, hd.registered, hd.unrevoked⟩
  · exact ⟨hd.expires, hd.idle, hd.seen.imp id (List.mem_cons_of_mem _), Nat.le_trans hd.past hle,
      hd.registered, hd.unrevoked⟩

/-- Every row of the table comes from its history. -/
theorem RowStep.dated (hstep : RowStep L users now row h row' h') (hle : clock ≤ now)
    (hd : ∀ r ∈ row, ∃ g ∈ h, Dated L users clock r g) :
    ∀ r ∈ row', ∃ g ∈ h', Dated L users now r g := by
  cases hstep with
  | created publicId registered =>
    rintro _ ⟨⟩
    exact ⟨_, rfl, rfl, rfl, .inl rfl, Nat.le_refl now, registered, rfl⟩
  | accepted current registered =>
    rintro _ ⟨⟩
    obtain ⟨g, hg, hdated⟩ := hd _ rfl
    exact ⟨_, Option.mem_map_of_mem _ hg, hdated.seen_self hle⟩
  | refused ended =>
    intro r hr
    obtain ⟨hr, hcurrent⟩ := Option.mem_filter_iff.mp hr
    obtain ⟨g, hg, hdated⟩ := hd r hr
    -- the user of the row is registered, so the call would have been accepted
    have hgone := ended r hr hcurrent
    have hregistered := hdated.registered
    rw [hgone] at hregistered
    cases hregistered
  | purged =>
    intro r hr
    obtain ⟨g, hg, hdated⟩ := hd r (Option.mem_filter_iff.mp hr).1
    exact ⟨g, hg, hdated.later hle⟩
  | kept =>
    intro r hr
    obtain ⟨g, hg, hdated⟩ := hd r hr
    exact ⟨g, hg, hdated.later hle⟩
  | revoked =>
    rintro r ⟨⟩

theorem exists_head_useTimes (c : Nat) (uses : List (Nat × Bool)) :
    ∃ u, (useTimes c uses).head? = some u := by
  cases uses with
  | nil => exact ⟨c, rfl⟩
  | cons use uses => exact ⟨use.1, rfl⟩

theorem busy_add {g : History} {b : Bool} (hb : Busy L (useTimes (g.add now b).1 (g.add now b).2)) :
    (∀ u ∈ (useTimes g.1 g.2).head?, now + 60 < u + L.idle) ∧ Busy L (useTimes g.1 g.2) := by
  obtain ⟨c, uses⟩ := g
  cases uses with
  | nil =>
    obtain ⟨hgap, hrest⟩ := List.isChain_cons_cons.mp hb
    refine ⟨?_, hrest⟩
    rintro _ ⟨⟩
    exact hgap
  | cons use uses =>
    obtain ⟨hgap, hrest⟩ := List.isChain_cons_cons.mp hb
    refine ⟨?_, hrest⟩
    rintro _ ⟨⟩
    exact hgap

theorem Lasting.later {g : History} (hl : Lasting L clock row g) (hle : clock ≤ now) :
    Lasting L now row g := by
  intro hbusy u hu
  rcases hl hbusy u hu with halive | hage | hidle
  · exact .inl halive
  · exact .inr (.inl (Nat.le_trans hage hle))
  · exact .inr (.inr (by omega))

/-- A busy session is in the table, until the clock passes its deadline. -/
theorem RowStep.lasting (hstep : RowStep L users now row h row' h') (hle : clock ≤ now)
    (hd : ∀ r ∈ row, ∃ g ∈ h, Dated L users clock r g) (hl : ∀ g ∈ h, Lasting L clock row g) :
    ∀ g ∈ h', Lasting L now row' g := by
  cases hstep with
  | created publicId registered =>
    rintro _ ⟨⟩ - _ ⟨⟩
    exact .inl ⟨_, rfl, by simp [newSession]⟩
  | @accepted r _ current registered =>
    intro g' hg'
    obtain ⟨g, -, rfl⟩ := Option.map_eq_some_iff.mp hg'
    rintro - _ ⟨⟩
    refine .inl ⟨_, rfl, ?_⟩
    unfold Session.seen
    split
    · simp
    · next hrecent => omega
  | refused ended =>
    intro g' hg'
    obtain ⟨g, hg, rfl⟩ := Option.map_eq_some_iff.mp hg'
    rintro hbusy _ ⟨⟩
    obtain ⟨hgap, hbusy⟩ := busy_add hbusy
    obtain ⟨u, hu⟩ := exists_head_useTimes g.1 g.2
    have hgap := hgap u hu
    refine .inr (.inl ?_)
    show g.1 + L.maxAge ≤ now
    rcases hl g hg hbusy u hu with ⟨r, hr, hrecent⟩ | hage | hidle
    · obtain ⟨g1, hg1, hdated⟩ := hd r hr
      cases Option.mem_unique hg hg1
      by_contra hyoung
      have hcurrent : r.isCurrent now = true := by
        rw [isCurrent_iff, hdated.expires, hdated.idle]
        exact ⟨by omega, by omega, hdated.unrevoked⟩
      have hregistered := hdated.registered
      rw [ended r hr hcurrent] at hregistered
      cases hregistered
    · omega
    · omega
  | purged =>
    intro g hg hbusy u hu
    rcases hl g hg hbusy u hu with ⟨r, hr, hrecent⟩ | hage | hidle
    · obtain ⟨g1, hg1, hdated⟩ := hd r hr
      cases Option.mem_unique hg hg1
      by_cases hage : g.1 + L.maxAge ≤ now
      · exact .inr (.inl hage)
      by_cases hidle : r.lastSeenAt + L.idle ≤ now
      · exact .inr (.inr (by omega))
      refine .inl ⟨r, Option.mem_filter_iff.mpr ⟨hr, ?_⟩, hrecent⟩
      rw [isCurrent_iff, hdated.expires, hdated.idle]
      exact ⟨by omega, by omega, hdated.unrevoked⟩
    · exact .inr (.inl (Nat.le_trans hage hle))
    · exact .inr (.inr (by omega))
  | kept => exact fun g hg => (hl g hg).later hle
  | revoked => rintro g ⟨⟩

/-! ## One call -/

theorem delete_eq (t : Sessions) (p : Text → Session → Bool) (digest : Text) :
    t.delete p digest = if (t digest).any (p digest) then none else t digest := by
  unfold Sessions.delete
  cases t digest with
  | none => rfl
  | some r => cases hp : p digest r <;> simp [hp]

theorem purge_eq (t : Sessions) (now : Nat) (digest : Text) :
    t.purge now digest = (t digest).filter (·.isCurrent now) := by
  simp only [Sessions.purge, Sessions.delete, Bool.not_not]

theorem rowStep_delete (p : Text → Session → Bool) (digest : Text) :
    RowStep L s.users now (s.sessions digest) (history digest past) (s.sessions.delete p digest)
      (history digest ([.revoked fun digest => (s.sessions digest).any (p digest)] ++ past)) := by
  rw [delete_eq, List.singleton_append, history]
  cases (s.sessions digest).any (p digest) with
  | true => exact .revoked
  | false => exact .kept

/-- A call for one token only deletes the other sessions that have ended. -/
theorem sessionUser_of_ne {t : Sessions} {token digest : Text} (htoken : token ≠ [])
    (hdigest : digest ≠ hash token) :
    (sessionUser L hash users t now token).1 digest = (t digest).filter (·.isCurrent now) := by
  rw [← purge_eq]
  simp only [sessionUser, if_neg htoken]
  split
  · rfl
  · split
    · rfl
    · exact Function.update_of_ne hdigest ..

theorem rowStep_use (token digest : Text) :
    RowStep L s.users now (s.sessions digest) (history digest past)
      ((s.perform L hash now (.use token)).1 digest)
      (history digest ((s.perform L hash now (.use token)).2 ++ past)) := by
  unfold SessionServer.perform sessionUser
  by_cases htoken : token = []
  · simp only [htoken, if_true]
    exact .kept
  simp only [htoken, if_false]
  have hpurge := purge_eq s.sessions now (hash token)
  by_cases hdigest : digest = hash token
  · subst hdigest
    cases hrow : s.sessions.purge now (hash token) with
    | none =>
      simp only [Option.isSome_none, List.singleton_append, history, if_true, hrow]
      rw [← hrow, hpurge]
      refine .refused fun r hr hcurrent => ?_
      rw [hpurge, Option.mem_def.mp hr, Option.filter_some, if_pos hcurrent] at hrow
      cases hrow
    | some r =>
      obtain ⟨hr, hcurrent⟩ := Option.filter_eq_some_iff.mp (hpurge.symm.trans hrow)
      cases huser : s.users r.userId with
      | none =>
        simp only [huser, Option.isSome_none, List.singleton_append, history, if_true]
        rw [hpurge]
        refine .refused fun r' hr' _ => ?_
        rw [Option.mem_unique hr' hr, huser]
      | some username =>
        simp only [huser, Option.isSome_some, List.singleton_append, history, if_true,
          Function.update_self]
        rw [hr]
        exact .accepted hcurrent (by rw [huser]; rfl)
  · rw [List.singleton_append, history, if_neg (Ne.symm hdigest)]
    have hother : (sessionUser L hash s.users s.sessions now token).1 digest = _ :=
      sessionUser_of_ne htoken hdigest
    simp only [sessionUser, if_neg htoken] at hother
    rw [hother]
    exact .purged

/-- What a call does to the row and the history of a key. -/
theorem rowStep_perform (call : SessionCall) (digest : Text) :
    RowStep L s.users now (s.sessions digest) (history digest past)
      ((s.perform L hash now call).1 digest)
      (history digest ((s.perform L hash now call).2 ++ past)) := by
  cases call with
  | create id token publicId =>
    unfold SessionServer.perform
    dsimp only
    split
    · next hfree =>
      rw [Bool.and_eq_true, Option.isNone_iff_eq_none] at hfree
      by_cases hdigest : digest = hash token
      · subst hdigest
        simp only [Function.update_self, List.singleton_append, history, if_true, hfree.1]
        exact .created publicId hfree.2
      · simp only [Function.update_of_ne hdigest, List.singleton_append, history,
          if_neg (Ne.symm hdigest)]
        exact .kept
    · exact .kept
  | use token => exact rowStep_use token digest
  | _ => exact rowStep_delete _ digest

/-! ## Runs -/

theorem session_invariant (hrun : (sessionMachine L hash users).Run s past) :
    s.users = users ∧ ∀ digest,
      (∀ r ∈ s.sessions digest, ∃ g ∈ history digest past, Dated L users s.clock r g) ∧
      ∀ g ∈ history digest past, Lasting L s.clock (s.sessions digest) g := by
  refine hrun.invariant (I := fun s past => s.users = users ∧ ∀ digest,
    (∀ r ∈ s.sessions digest, ∃ g ∈ history digest past, Dated L users s.clock r g) ∧
    ∀ g ∈ history digest past, Lasting L s.clock (s.sessions digest) g) ?_ ?_
  · refine ⟨rfl, fun digest => ⟨?_, ?_⟩⟩
    · rintro r ⟨⟩
    · rintro g ⟨⟩
  · rintro s past ⟨now, call⟩ s' new ⟨husers, hinv⟩ hstep
    change SessionServer.step L hash s (now, call) = some (s', new) at hstep
    unfold SessionServer.step at hstep
    split at hstep
    · next hle =>
      cases hstep
      refine ⟨husers, fun digest => ?_⟩
      have hrow : RowStep L s.users now (s.sessions digest) (history digest past)
          ((s.perform L hash now call).1 digest)
          (history digest ((s.perform L hash now call).2 ++ past)) := rowStep_perform call digest
      rw [husers] at hrow
      obtain ⟨hdated, hlasting⟩ := hinv digest
      exact ⟨hrow.dated hle hdated, hrow.lasting hle hdated hlasting⟩
    · cases hstep

/-- A call succeeds exactly for a current row of a registered user. -/
theorem sessionUser_eq_some {t : Sessions} {token : Text} {result : Nat × Text × Text} :
    (sessionUser L hash users t now token).2 = some result ↔ token ≠ [] ∧
      ∃ r, t (hash token) = some r ∧ r.isCurrent now = true ∧
        (users r.userId).map (fun username => (r.userId, username, r.publicId)) = some result := by
  unfold sessionUser
  by_cases htoken : token = []
  · simp [htoken]
  simp only [htoken, if_false, ne_eq, not_false_eq_true, true_and, purge_eq]
  cases hrow : t (hash token) with
  | none => simp
  | some r =>
    cases hcurrent : r.isCurrent now with
    | false => simp [Option.filter_some, hcurrent]
    | true => cases huser : users r.userId <;> simp [Option.filter_some, hcurrent, huser]

/-- **Lifetime of a session.** After any calls, `session_user` succeeds at `t` only for a session
that was not revoked, before its maximum age, and if the creation or an accepted use lies less than
the idle timeout before `t`. Before its maximum age it succeeds for every session that was not
revoked and whose successive uses, up to `t`, are less than the timeout but for a minute apart. -/
theorem session_lifetime (hrun : (sessionMachine L hash users).Run s past) {t : Nat}
    (ht : s.clock ≤ t) (token : Text) :
    (∀ result, (sessionUser L hash users s.sessions t token).2 = some result →
      ∃ c uses, history (hash token) past = some (c, uses) ∧ t < c + L.maxAge ∧
        ∃ u, (u = c ∨ (u, true) ∈ uses) ∧ u ≤ t ∧ t < u + L.idle) ∧
    ∀ c uses, token ≠ [] → history (hash token) past = some (c, uses) → t < c + L.maxAge →
      Busy L (t :: useTimes c uses) →
        ∃ result, (sessionUser L hash users s.sessions t token).2 = some result := by
  obtain ⟨hdated, hlasting⟩ := (session_invariant hrun).2 (hash token)
  constructor
  · intro result hresult
    obtain ⟨-, r, hr, hcurrent, -⟩ := sessionUser_eq_some.mp hresult
    obtain ⟨⟨c, uses⟩, hhistory, hr⟩ := hdated r hr
    rw [isCurrent_iff, hr.expires, hr.idle] at hcurrent
    exact ⟨c, uses, hhistory, hcurrent.1, r.lastSeenAt, hr.seen, Nat.le_trans hr.past ht,
      hcurrent.2.1⟩
  · intro c uses htoken hhistory hage hbusy
    obtain ⟨hgap, hbusy⟩ := busy_add (g := (c, uses)) (b := true) hbusy
    obtain ⟨u, hu⟩ := exists_head_useTimes c uses
    have hgap := hgap u hu
    rcases hlasting _ hhistory hbusy u hu with ⟨r, hr, hrecent⟩ | hold | hidle
    · obtain ⟨g, hg, hdate⟩ := hdated r hr
      cases Option.mem_unique hg hhistory
      have hcurrent : r.isCurrent t = true := by
        rw [isCurrent_iff, hdate.expires, hdate.idle]
        exact ⟨hage, by omega, hdate.unrevoked⟩
      obtain ⟨username, husername⟩ := Option.isSome_iff_exists.mp hdate.registered
      exact ⟨_, sessionUser_eq_some.mpr ⟨htoken, r, hr, hcurrent, by rw [husername]; rfl⟩⟩
    · have hold : c + L.maxAge ≤ s.clock := hold
      omega
    · omega

end Row

/-- A session of the default lifetime is valid a minute after its creation. -/
theorem session_valid_after_login : ∃ s past result,
    (sessionMachine ⟨86400, 3600⟩ id fun _ => some []).Run s past ∧ s.clock ≤ 60 ∧
      (sessionUser ⟨86400, 3600⟩ id (fun _ => some []) s.sessions 60 ['t']).2 = some result := by
  have hrun : (sessionMachine ⟨86400, 3600⟩ id fun _ => some []).Run _ _ :=
    Machine.Run.next .start (a := (0, .create 1 ['t'] [])) rfl
  obtain ⟨result, hresult⟩ := (session_lifetime hrun (t := 60) (by decide) ['t']).2 0 []
    (by decide) rfl (by decide) (by simp [Busy, useTimes])
  exact ⟨_, _, result, hrun, by decide, hresult⟩

end ExitLane.Auth
