import ExitLane.Python.Text
import Mathlib.Algebra.Order.Ring.Rat
import Mathlib.Tactic.Linarith

/-!
# Attempt limiters

`login` and the recovery of a connect keep the times they count in a deque, drop from its left what
has become too old, and refuse while it is full. The clock is in the calls. Whatever the position of
a window, the deque holds all that the window holds as long as the window can still grow
(`Bounded`), so the check before a record bounds the window.
-/

namespace ExitLane.Limiter

open Python

/-! ## Windows over a pruned deque -/

section
variable {τ κ ι β : Type} {S : τ → Bool} {queue : List τ}

/-- What is dropped from the left is outside the window. -/
theorem countP_dropWhile {old : τ → Bool} (hold : ∀ t, old t = true → S t = false) :
    queue.countP S ≤ (queue.dropWhile old).countP S := by
  induction queue with
  | nil => exact le_rfl
  | cons t queue ih =>
    cases ht : old t with
    | false => simp [ht]
    | true => simpa [ht, hold t ht] using ih

variable [LinearOrder τ] {limit : Nat} {now later : τ} {past rest : List τ}

/-- The window `S` over the times of the past and the deque. -/
structure Bounded (S : τ → Bool) (limit : Nat) (now : τ) (past queue : List τ) : Prop where
  before : ∀ t ∈ past, t ≤ now
  few : past.countP S ≤ limit
  kept : (∃ t, now ≤ t ∧ S t = true) → past.countP S ≤ queue.countP S

theorem Bounded.drop (h : Bounded S limit now past queue) (hle : now ≤ later)
    (hrest : (∃ t, later ≤ t ∧ S t = true) → queue.countP S ≤ rest.countP S) :
    Bounded S limit later past rest where
  before t ht := (h.before t ht).trans hle
  few := h.few
  kept hgrows := by
    obtain ⟨t, hlater, ht⟩ := hgrows
    exact (h.kept ⟨t, hle.trans hlater, ht⟩).trans (hrest ⟨t, hlater, ht⟩)

/-- A window that does not hold this time holds nothing of the past, or does not grow. -/
theorem Bounded.reset (h : Bounded S limit now past queue) (hle : now ≤ later)
    (hout : S later = false)
    (hconvex : ∀ a b c, a ≤ b → b ≤ c → S a = true → S c = true → S b = true) :
    Bounded S limit later past [] := by
  refine ⟨fun t ht => (h.before t ht).trans hle, h.few, fun ⟨t, hlater, ht⟩ => ?_⟩
  rw [List.countP_nil, Nat.le_zero, List.countP_eq_zero]
  intro p hp hin
  have hmid := hconvex p later t ((h.before p hp).trans hle) hlater hin ht
  rw [hout] at hmid
  cases hmid

theorem Bounded.record (h : Bounded S limit now past queue) (hroom : queue.length < limit) :
    Bounded S limit now (past ++ [now]) (queue ++ [now]) := by
  have hlength : queue.countP S ≤ queue.length := List.countP_le_length
  refine ⟨?_, ?_, fun hgrows => ?_⟩
  · simpa [or_imp, forall_and] using h.before
  · cases hnow : S now with
    | false => simpa [hnow] using h.few
    | true =>
      have hkept := h.kept ⟨now, le_rfl, hnow⟩
      simp only [List.countP_append, List.countP_singleton, hnow, if_true]
      omega
  · simpa [List.countP_append] using h.kept hgrows

variable [DecidableEq κ] (key : ι → κ) (run : List τ → ι → β × List τ)

/-- The answers to calls, one after another; each works on the deque of its key. -/
def answers : (κ → List τ) → List ι → List (ι × β)
  | _, [] => []
  | s, call :: calls =>
    let (answer, queue) := run (s (key call)) call
    (call, answer) :: answers (Function.update s (key call) queue) calls

section
variable {key run} {first last : ι → τ} (counts : β → Bool) {fine : ι × β → Prop}
  (hle : ∀ call, first call ≤ last call)
  (hrun : ∀ now past queue call, Bounded S limit now past queue → now ≤ first call →
    fine (call, (run queue call).1) → Bounded S limit (last call)
      (if counts (run queue call).1 then past ++ [last call] else past) (run queue call).2)
include hle hrun

/-- If every call keeps the window of its key bounded, so does the run. -/
theorem Bounded.total (k : κ) (calls : List ι) {s : κ → List τ} (h : Bounded S limit now past (s k))
    (hnow : ∀ call ∈ calls, now ≤ first call)
    (hclock : calls.Pairwise fun a b => last a ≤ first b)
    (hfine : ∀ x ∈ answers key run s calls, key x.1 = k → fine x) :
    past.countP S + (answers key run s calls).countP (fun x =>
      decide (key x.1 = k) && counts x.2 && S (last x.1)) ≤ limit := by
  induction calls generalizing now past s with
  | nil => exact h.few
  | cons call calls ih =>
    rw [List.pairwise_cons] at hclock
    have hhere := hnow call List.mem_cons_self
    have hlater x (hx : x ∈ answers key run _ calls) := hfine x (List.mem_cons_of_mem _ hx)
    simp only [answers, List.countP_cons]
    by_cases hk : key call = k
    · subst hk
      have hnext := hrun now past _ call h hhere (hfine _ List.mem_cons_self rfl)
      have hrest := ih (by rwa [Function.update_self]) hclock.1 hclock.2 hlater
      cases hcounts : counts (run (s (key call)) call).1 with
      | false => simpa [hcounts] using hrest
      | true =>
        simp only [hcounts, if_true, List.countP_append, List.countP_singleton] at hrest
        simp only [decide_true, Bool.true_and]
        omega
    · have hsame := h.drop (hhere.trans (hle call)) fun _ => le_rfl
      have hrest := ih (by rwa [Function.update_of_ne (Ne.symm hk)]) hclock.1 hclock.2 hlater
      simpa [hk] using hrest

/-- What the deques hold at the start only makes the limiter stricter. -/
theorem countP_answers_le (k : κ) (calls : List ι) {s : κ → List τ}
    (hclock : calls.Pairwise fun a b => last a ≤ first b)
    (hfine : ∀ x ∈ answers key run s calls, key x.1 = k → fine x) :
    (answers key run s calls).countP (fun x =>
      decide (key x.1 = k) && counts x.2 && S (last x.1)) ≤ limit := by
  cases calls with
  | nil => exact Nat.zero_le _
  | cons call calls =>
    have hempty : Bounded S limit (first call) [] (s k) :=
      ⟨by simp, Nat.zero_le _, fun _ => Nat.zero_le _⟩
    have hbound :=
      hempty.total counts hle hrun k (call :: calls) (fun next hnext => ?_) hclock hfine
    · simpa using hbound
    · rcases List.mem_cons.1 hnext with rfl | hnext
      · exact le_rfl
      · exact (hle call).trans ((List.pairwise_cons.1 hclock).1 next hnext)

end

end

/-! ## Logins -/

def loginAttempts : Nat := 5
def loginWindowSeconds : ℚ := 300

/-- The resolved path of the database, the case-folded name and the address of the client. -/
abbrev Key := Text × Text × Text

structure Login where
  db : Text
  username : Text
  clientIp : Text
  /-- `time.monotonic`. -/
  now : ℚ
  /-- Whether the user exists and the password fits, unless the query or the check raises. -/
  valid : Option Bool

inductive Verdict where
  | tooManyAttempts
  | invalidCredentials
  | accepted
  | raised
  deriving DecidableEq

def Login.key (casefold : Text → Text) (c : Login) : Key := (c.db, casefold c.username, c.clientIp)

/-- `login` up to the verdict, over the failures of its key. -/
def login (failures : List ℚ) (c : Login) : Verdict × List ℚ :=
  let failures := failures.dropWhile fun t => decide (t ≤ c.now - loginWindowSeconds)
  if loginAttempts ≤ failures.length then (.tooManyAttempts, failures)
  else match c.valid with
    | none => (.raised, failures)
    | some false => (.invalidCredentials, failures ++ [c.now])
    | some true => (.accepted, [])

/-- A half-open interval of the length of the window, with its left or with its right end. -/
def halfOpen (start : ℚ) : Bool → ℚ → Bool
  | true, t => decide (start ≤ t ∧ t < start + loginWindowSeconds)
  | false, t => decide (start < t ∧ t ≤ start + loginWindowSeconds)

theorem halfOpen_short {start a b : ℚ} {left : Bool} (ha : halfOpen start left a = true)
    (hb : halfOpen start left b = true) : b - loginWindowSeconds < a := by
  cases left <;> simp only [halfOpen, decide_eq_true_eq] at ha hb <;> linarith [ha.1, hb.2]

theorem halfOpen_convex {start : ℚ} {left : Bool} (a b c : ℚ) (hab : a ≤ b) (hbc : b ≤ c)
    (ha : halfOpen start left a = true) (hc : halfOpen start left c = true) :
    halfOpen start left b = true := by
  cases left <;> simp only [halfOpen, decide_eq_true_eq] at ha hc ⊢
  · exact ⟨ha.1.trans_le hab, hbc.trans hc.2⟩
  · exact ⟨ha.1.trans hab, hbc.trans_lt hc.2⟩

theorem bounded_login (start : ℚ) (left : Bool) (now : ℚ) (past failures : List ℚ) (c : Login)
    (h : Bounded (halfOpen start left) loginAttempts now past failures) (hnow : now ≤ c.now)
    (hfine : (login failures c).1 = .accepted → halfOpen start left c.now = false) :
    Bounded (halfOpen start left) loginAttempts c.now
      (if decide ((login failures c).1 = .invalidCredentials) then past ++ [c.now] else past)
      (login failures c).2 := by
  have hpruned : Bounded (halfOpen start left) loginAttempts c.now past
      (failures.dropWhile fun t => decide (t ≤ c.now - loginWindowSeconds)) := by
    refine h.drop hnow fun ⟨t, hlater, ht⟩ => countP_dropWhile fun p hp => ?_
    rw [decide_eq_true_eq] at hp
    by_contra hin
    have hshort := halfOpen_short (Bool.of_not_eq_false hin) ht
    linarith
  unfold login at hfine ⊢
  dsimp only at hfine ⊢
  split
  · simpa using hpruned
  · rename_i hroom
    rw [if_neg hroom] at hfine
    split
    · simpa using hpruned
    · simpa using hpruned.record (Nat.lt_of_not_le hroom)
    · rename_i hvalid
      rw [hvalid] at hfine
      simpa using hpruned.reset le_rfl (hfine rfl) halfOpen_convex

/-! ## Recoveries -/

def recoveryLimit : Nat := 2

/-- Ten minutes. -/
def recoveryWindow : ℚ := 600

/-- A connect that has come back; nothing is awaited between its two looks at the clock. -/
structure Connect where
  connection : Text
  errorCode : Option Text
  connected : Bool
  supportsTimeoutRecovery : Bool
  checked : ℚ
  recorded : ℚ
  inOrder : checked ≤ recorded

/-- The branch of `_connect_provider_country`, over the recoveries of its connection: whether one is
recorded. -/
def recover (recoveries : List ℚ) (c : Connect) : Bool × List ℚ :=
  if c.errorCode = some "vpn_connect_timeout".toList ∧ !c.connected ∧ c.supportsTimeoutRecovery then
    let recoveries := recoveries.dropWhile fun t => decide (t < c.checked - recoveryWindow)
    if recoveries.length < recoveryLimit then (true, recoveries ++ [c.recorded])
    else (false, recoveries)
  else (false, recoveries)

/-- The closed window of ten minutes at `start`. -/
def inRecovery (start t : ℚ) : Bool := decide (start ≤ t ∧ t ≤ start + recoveryWindow)

theorem bounded_recover (start now : ℚ) (past recoveries : List ℚ) (c : Connect)
    (h : Bounded (inRecovery start) recoveryLimit now past recoveries) (hnow : now ≤ c.checked) :
    Bounded (inRecovery start) recoveryLimit c.recorded
      (if (recover recoveries c).1 then past ++ [c.recorded] else past)
      (recover recoveries c).2 := by
  have hlater := hnow.trans c.inOrder
  have hpruned : Bounded (inRecovery start) recoveryLimit c.recorded past
      (recoveries.dropWhile fun t => decide (t < c.checked - recoveryWindow)) := by
    refine h.drop hlater fun ⟨t, hle, ht⟩ => countP_dropWhile fun p hp => ?_
    simp only [inRecovery, decide_eq_true_eq, decide_eq_false_iff_not] at ht hp ⊢
    intro hin
    linarith [hin.1, ht.2, c.inOrder]
  unfold recover
  split
  · dsimp only
    split
    · rename_i hroom
      simpa using hpruned.record hroom
    · simpa using hpruned
  · simpa using h.drop hlater fun _ => le_rfl

/-! ## Every window -/

/-- For a key, a half-open interval without an accepted login holds at most `loginAttempts` failed
ones; for a connection, ten minutes hold at most `recoveryLimit` recoveries. -/
theorem windows_bounded (casefold : Text → Text) (failures : Key → List ℚ) (logins : List Login)
    (recoveries : Text → List ℚ) (connects : List Connect)
    (hlogins : logins.Pairwise fun a b => a.now ≤ b.now)
    (hconnects : connects.Pairwise fun a b => a.recorded ≤ b.checked) :
    (∀ key start left,
      (∀ x ∈ answers (Login.key casefold) login failures logins, x.1.key casefold = key →
        x.2 = .accepted → halfOpen start left x.1.now = false) →
      (answers (Login.key casefold) login failures logins).countP (fun x =>
        decide (x.1.key casefold = key) && decide (x.2 = .invalidCredentials) &&
          halfOpen start left x.1.now) ≤ loginAttempts) ∧
    ∀ connection start,
      (answers Connect.connection recover recoveries connects).countP (fun x =>
        decide (x.1.connection = connection) && x.2 && inRecovery start x.1.recorded) ≤
          recoveryLimit := by
  constructor
  · intro key start left haccepted
    exact countP_answers_le (fun v => decide (v = .invalidCredentials)) (fun _ => le_rfl)
      (bounded_login start left) key logins hlogins haccepted
  · intro connection start
    exact countP_answers_le id Connect.inOrder (fun now past queue c h hnow _ =>
      bounded_recover start now past queue c h hnow) connection connects hconnects
      fun _ _ _ => trivial

/-- Six failing logins, of which the last is refused, and three timeouts. -/
def sixLogins : List Login :=
  (List.range 6).map fun i => ⟨[], [], [], (i : ℚ), some false⟩

def threeTimeouts : List Connect :=
  (List.range 3).map fun i =>
    ⟨[], some "vpn_connect_timeout".toList, false, true, i, i, le_rfl⟩

theorem windows_bounded_first :
    (answers (Login.key id) login (fun _ => []) sixLogins).countP (fun x =>
      decide (x.1.key id = ([], [], [])) && decide (x.2 = .invalidCredentials) &&
        halfOpen 0 true x.1.now) ≤ loginAttempts ∧
    (answers Connect.connection recover (fun _ => []) threeTimeouts).countP (fun x =>
      decide (x.1.connection = []) && x.2 && inRecovery 0 x.1.recorded) ≤ recoveryLimit := by
  have hboth := windows_bounded id (fun _ => []) sixLogins (fun _ => []) threeTimeouts
    (by decide +kernel) (by decide +kernel)
  exact ⟨hboth.1 ([], [], []) 0 true (by decide +kernel), hboth.2 [] 0⟩

end ExitLane.Limiter
