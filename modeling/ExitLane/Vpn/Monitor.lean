import ExitLane.Effect.Section
import ExitLane.Vpn.Transition

/-!
# The killswitch among its callers

The functions of `killswitch.py` that write run under one lock, so that at any time at most one of
them is in progress; everything else only reads. The monitor of `main.py` wakes up from time to
time, reads the two settings, asks for the facts of the tunnel and calls `reconcile`, unless the
facts are those of its last iteration: then it only reads the status.

Between an `arm_provider_transition` that has returned and the next call that ends the transition
the table stays closed. The monitor, however, compares the facts with its own last ones and not with
those for which the table was made: if another call has put a different ruleset there, an iteration
can report `enabled_protected` over a table that lets nothing through.
-/

namespace ExitLane.Vpn

open Effect Egress Net Python IpAddress

/-! ## The system -/

/-- The calls that take the lock. -/
inductive Call where
  | enable (facts : TunnelFacts)
  | reconcile (facts : TunnelFacts)
  | arm
  | complete (facts : TunnelFacts)
  | disable
  deriving DecidableEq

def Call.body : Call → Killswitch.Act KillswitchStatus
  | enable facts => Killswitch.enable facts
  | reconcile facts => Killswitch.reconcile facts
  | arm => Killswitch.armProviderTransition
  | complete facts => Killswitch.completeProviderTransition facts
  | disable => Killswitch.disable

/-- Who holds the lock: a caller, or the monitor with its facts. -/
inductive Owner where
  | caller (call : Call)
  | monitor (facts : TunnelFacts)
  deriving DecidableEq

def Owner.body : Owner → Killswitch.Act KillswitchStatus
  | caller call => call.body
  | monitor facts => Killswitch.reconcile facts

/-- The owner may end a transition. -/
def Owner.ends : Owner → Bool
  | caller (.complete _) => true
  | caller .disable => true
  | _ => false

/-- Where an iteration of the monitor is. -/
inductive Watch where
  | idle
  /-- It waits for `_exclusive_provider_facts`. -/
  | observing
  /-- It waits for the lock, or holds it, to call `reconcile`. -/
  | reconciling (facts : TunnelFacts)
  /-- It reads the status. -/
  | reading (facts : TunnelFacts)
  /-- An exception has ended the monitor. -/
  | stopped
  deriving DecidableEq

/-- `previous` and `previous_facts`. -/
structure Memory where
  previous : Option KillswitchState
  previousFacts : Option TunnelFacts
  deriving DecidableEq

/-- The call that holds the lock, the state in which it took it and what has happened to it. -/
structure Busy where
  owner : Owner
  start : Firewall
  script : List (Signal Reply Raised)

def Busy.toSection (b : Busy) : Section Firewall Reply Raised KillswitchStatus :=
  ⟨b.owner.body, b.start, b.script⟩

structure System where
  firewall : Firewall
  busy : Option Busy
  watch : Watch
  memory : Memory

inductive Action where
  | enter (call : Call)
  /-- The next steps of the call that holds the lock. -/
  | steps (ks : List (Signal Reply Raised))
  | leave
  /-- The monitor wakes up and reads the settings. -/
  | glance
  /-- The facts of the tunnel; `none` for `ProviderNotFound`. -/
  | observe (facts : Option TunnelFacts)
  | enterMonitor
  /-- The monitor reads the status. -/
  | look (ks : List (Signal Reply Raised))

inductive Report where
  | returned (call : Call) (result : Except Raised KillswitchStatus)
  /-- An iteration of the monitor has ended. -/
  | watched (facts : TunnelFacts) (status : KillswitchStatus)
  | troubled
  | stopped

namespace System

variable (s : System) {f : Firewall} {status : KillswitchStatus} {facts : TunnelFacts}

/-- The lock is held; the others see where the call is. -/
def hold (b : Busy) : System :=
  { s with busy := some b, firewall := b.toSection.seen }

/-- The start of `_killswitch_monitor_iteration`. -/
def glance : System :=
  if s.firewall.transition then { s with watch := .reconciling .inTransition }
  else if s.firewall.configured then { s with watch := .observing }
  else { s with memory := ⟨none, none⟩ }

/-- The `except` branch of the iteration. -/
def trouble : System :=
  { s with watch := .idle, memory := { s.memory with previous := some .error } }

/-- The end of the iteration, once `current` is there. -/
def conclude (facts : TunnelFacts) :
    Except Raised KillswitchStatus → System × List Report
  | .ok status =>
    ({ s with watch := .idle, memory := ⟨some status.state, some facts⟩ }, [.watched facts status])
  | .error .killswitch => (s.trouble, [.troubled])
  | .error _ => ({ s with watch := .stopped }, [.stopped])

def observe : Option TunnelFacts → System × List Report
  | none => (s.trouble, [.troubled])
  | some facts =>
    if some facts ≠ s.memory.previousFacts then ({ s with watch := .reconciling facts }, [])
    else ({ s with watch := .reading facts }, [])

/-- The lock is free again. -/
def release (b : Busy) (result : Except Raised KillswitchStatus) : System × List Report :=
  let s' := { s with busy := none, firewall := b.toSection.seen }
  match b.owner with
  | .caller call => (s', [.returned call result])
  | .monitor facts => s'.conclude facts result

/-- What a procedure that only reads comes to; `none` if the script cuts it. -/
def readStatus (facts : TunnelFacts) (ks : List (Signal Reply Raised)) :
    Option (Except Raised KillswitchStatus) :=
  match (Killswitch.status facts s.firewall ks).1 with
  | .ok status => some (.ok status)
  | .raised e => some (.error e)
  | .crashed => none

def isPassed : Signal Reply Raised → Bool
  | .crash _ => false
  | _ => true

def step : Action → Option (System × List Report)
  | .enter call =>
    match s.busy with
    | none => some (s.hold ⟨.caller call, s.firewall, []⟩, [])
    | some _ => none
  | .steps ks =>
    match s.busy with
    | some b =>
      if ks.all isPassed then some (s.hold { b with script := b.script ++ ks }, []) else none
    | none => none
  | .leave =>
    match s.busy with
    | some b => b.toSection.result.map (s.release b)
    | none => none
  | .glance => if s.watch = .idle then some (s.glance, []) else none
  | .observe facts => if s.watch = .observing then some (s.observe facts) else none
  | .enterMonitor =>
    match s.busy, s.watch with
    | none, .reconciling facts => some (s.hold ⟨.monitor facts, s.firewall, []⟩, [])
    | _, _ => none
  | .look ks =>
    match s.watch with
    | .reading facts => (s.readStatus facts ks).map (s.conclude facts)
    | _ => none

/-- Nothing is configured yet. -/
def fresh (wireguard : Text) (routed allowlist : List Text) : System :=
  ⟨⟨false, false, wireguard, routed, allowlist, none, []⟩, none, .idle, ⟨none, none⟩⟩

/-- The system of one installation. -/
def machine (wireguard : Text) (routed allowlist : List Text) : Machine System Action Report :=
  ⟨fresh wireguard routed allowlist, step⟩

/-! ## Runs without faults -/

section
variable {wireguard : Text} {routed allowlist : List Text} {status : KillswitchStatus}
  {g : Firewall} {rest : List (Signal Reply Raised)} {f : Firewall}
  {ks : List (Signal Reply Raised)} {past : List Report} {m : Memory} {facts : TunnelFacts}

theorem release_hold (s : System) (b : Busy) (r : Except Raised KillswitchStatus) :
    (s.hold b).release b r = s.release b r := by
  obtain ⟨owner, start, script⟩ := b
  cases owner with
  | caller call => rfl
  | monitor facts =>
    cases r with
    | ok status => rfl
    | error e => cases e <;> rfl

theorem result_of_run {b : Busy}
    (h : b.owner.body b.start (b.script ++ [.crash 0]) = (.ok status, g, rest)) :
    b.toSection.result = some (.ok status) ∧ b.toSection.seen = g := by
  have hstop : b.toSection.stop 0 = (.ok status, g, rest) := h
  rw [Section.result, Section.seen, hstop]
  exact ⟨rfl, rfl⟩

/-- The steps of an owner of the lock that all go through. -/
theorem drive_held {s : System} {o : Owner} (hks : ks.all isPassed = true)
    (hrun : o.body f (ks ++ [.crash 0]) = (.ok status, g, rest)) :
    (machine wireguard routed allowlist).drive [.steps ks, .leave] (s.hold ⟨o, f, []⟩) past =
      some ((s.release ⟨o, f, ks⟩ (.ok status)).1,
        (s.release ⟨o, f, ks⟩ (.ok status)).2 ++ past) := by
  obtain ⟨hresult, -⟩ := result_of_run (b := ⟨o, f, ks⟩) hrun
  rw [Machine.drive_cons]
  change Option.bind (if ks.all isPassed then some (s.hold ⟨o, f, ks⟩, []) else none) _ = _
  rw [if_pos hks, Option.bind_some, Machine.drive_cons]
  change Option.bind ((Busy.toSection ⟨o, f, ks⟩).result.map
    (System.release (s.hold ⟨o, f, ks⟩) ⟨o, f, ks⟩)) _ = _
  rw [hresult, Option.map_some, release_hold]
  rfl

theorem drive_call {w : Watch} {call : Call} (hks : ks.all isPassed = true)
    (hrun : call.body f (ks ++ [.crash 0]) = (.ok status, g, rest)) :
    (machine wireguard routed allowlist).drive [.enter call, .steps ks, .leave] ⟨f, none, w, m⟩
      past = some (⟨g, none, w, m⟩, .returned call (.ok status) :: past) := by
  obtain ⟨-, hseen⟩ := result_of_run (b := ⟨.caller call, f, ks⟩) hrun
  refine (drive_held (s := ⟨f, none, w, m⟩) (o := .caller call) hks hrun).trans ?_
  change some (System.mk (Busy.toSection ⟨.caller call, f, ks⟩).seen none w m, _) = _
  rw [hseen]
  rfl

/-- The two looks of the monitor before it decides. -/
theorem drive_glance {actions : List Action}
    (hconfigured : f.configured = true) (htransition : f.transition = false) :
    (machine wireguard routed allowlist).drive (.glance :: .observe (some facts) :: actions)
      ⟨f, none, .idle, m⟩ past =
        (machine wireguard routed allowlist).drive actions
          (System.observe ⟨f, none, .observing, m⟩ (some facts)).1
          ((System.observe ⟨f, none, .observing, m⟩ (some facts)).2 ++ past) := by
  have hglance : System.glance ⟨f, none, .idle, m⟩ = ⟨f, none, .observing, m⟩ := by
    rw [glance, htransition, if_neg Bool.false_ne_true, hconfigured, if_pos rfl]
  rw [Machine.drive_cons]
  change (machine wireguard routed allowlist).drive _ (System.glance ⟨f, none, .idle, m⟩) past = _
  rw [hglance, Machine.drive_cons]
  rfl

theorem drive_reconciling (hconfigured : f.configured = true)
    (htransition : f.transition = false) (hne : some facts ≠ m.previousFacts)
    (hks : ks.all isPassed = true)
    (hrun : Killswitch.reconcile facts f (ks ++ [.crash 0]) = (.ok status, g, rest)) :
    (machine wireguard routed allowlist).drive
      [.glance, .observe (some facts), .enterMonitor, .steps ks, .leave] ⟨f, none, .idle, m⟩ past =
        some (⟨g, none, .idle, ⟨some status.state, some facts⟩⟩,
          .watched facts status :: past) := by
  obtain ⟨-, hseen⟩ := result_of_run (b := ⟨.monitor facts, f, ks⟩) hrun
  have hobserve : System.observe ⟨f, none, .observing, m⟩ (some facts) =
      (⟨f, none, .reconciling facts, m⟩, []) := if_pos hne
  rw [drive_glance hconfigured htransition, hobserve]
  refine (drive_held (s := ⟨f, none, .reconciling facts, m⟩) (o := .monitor facts)
    hks hrun).trans ?_
  change some (System.mk (Busy.toSection ⟨.monitor facts, f, ks⟩).seen none .idle _, _) = _
  rw [hseen]
  rfl

theorem drive_reading (hconfigured : f.configured = true)
    (htransition : f.transition = false) (heq : some facts = m.previousFacts)
    (hrun : Killswitch.status facts f ks = (.ok status, f, rest)) :
    (machine wireguard routed allowlist).drive
      [.glance, .observe (some facts), .look ks] ⟨f, none, .idle, m⟩ past =
        some (⟨f, none, .idle, ⟨some status.state, some facts⟩⟩,
          .watched facts status :: past) := by
  have hobserve : System.observe ⟨f, none, .observing, m⟩ (some facts) =
      (⟨f, none, .reading facts, m⟩, []) := if_neg (not_not.mpr heq)
  have hread : System.readStatus ⟨f, none, .reading facts, m⟩ facts ks = some (.ok status) := by
    rw [readStatus, hrun]
  rw [drive_glance hconfigured htransition, hobserve, Machine.drive_cons]
  change Option.bind ((System.readStatus ⟨f, none, .reading facts, m⟩ facts ks).map
    (System.conclude ⟨f, none, .reading facts, m⟩ facts)) _ = _
  rw [hread]
  rfl

/-- A tunnel that is up. -/
def tunnel : TunnelFacts :=
  ⟨true, some "wg-pia".toList, true, false, true, "tunnel_available".toList⟩

/-- One protected interface and no allowlist. -/
def plain (configured : Bool) (table : Option Nft.Table) : Firewall :=
  ⟨configured, false, "wg0".toList, [], [], table, []⟩

/-- The ruleset of the plain configuration. -/
def plainTable (facts : TunnelFacts) : Nft.Table := rulesetTable facts ["wg0".toList] []

theorem ruleset_tunnel (configured : Bool) (table : Option Nft.Table) :
    (plain configured table).ruleset tunnel = some (plainTable tunnel) :=
  (Killswitch.ruleset_plain rfl rfl rfl (by decide)).2

theorem ruleset_closed (configured : Bool) (table : Option Nft.Table) :
    (plain configured table).ruleset .closed = some (plainTable .closed) :=
  (Killswitch.ruleset_plain rfl rfl rfl (by decide)).2

theorem plain_config (configured : Bool) (table : Option Nft.Table) :
    validateConfiguration (plain configured table).ingress (plain configured table).allowlist =
      some (["wg0".toList], []) := by
  change validateConfiguration ["wg0".toList] [] = _
  decide

/-- The status over an installed table. -/
def plainStatus (facts : TunnelFacts) : KillswitchStatus :=
  Killswitch.statusOf facts true false (["wg0".toList], []) true

end

/-! ## The closed interval -/

theorem closed_body {o : Owner} (h : o.ends = false) : Preserves (Killswitch.Closed f) o.body := by
  cases o with
  | monitor facts => exact Killswitch.closed_reconcile facts
  | caller c =>
    cases c with
    | enable facts => exact Killswitch.closed_enable facts
    | reconcile facts => exact Killswitch.closed_reconcile facts
    | arm => exact Killswitch.closed_armProviderTransition
    | complete facts => cases h
    | disable => cases h

/-- The table is closed, and nobody who could open it holds the lock. -/
structure ClosedFor (f : Firewall) (s : System) : Prop where
  firewall : Killswitch.Closed f s.firewall
  busy : ∀ b, s.busy = some b → Killswitch.Closed f b.start ∧ b.owner.ends = false

theorem closedFor_hold {b : Busy} (hstart : Killswitch.Closed f b.start)
    (hends : b.owner.ends = false) : ClosedFor f (s.hold b) where
  firewall := Section.stop_of_preserves (closed_body hends) hstart 0
  busy b' hb' := by
    cases hb'
    exact ⟨hstart, hends⟩

/-- The monitor's own steps change neither the table nor the lock. -/
theorem conclude_fields (facts : TunnelFacts)
    (result : Except Raised KillswitchStatus) :
    (s.conclude facts result).1.firewall = s.firewall ∧
      (s.conclude facts result).1.busy = s.busy := by
  cases result with
  | ok status => exact ⟨rfl, rfl⟩
  | error e => cases e <;> exact ⟨rfl, rfl⟩

theorem observe_fields (facts : Option TunnelFacts) :
    (s.observe facts).1.firewall = s.firewall ∧ (s.observe facts).1.busy = s.busy := by
  cases facts with
  | none => exact ⟨rfl, rfl⟩
  | some facts =>
    rw [observe]
    split <;> exact ⟨rfl, rfl⟩

theorem glance_fields : s.glance.firewall = s.firewall ∧ s.glance.busy = s.busy := by
  rw [glance]
  split
  · exact ⟨rfl, rfl⟩
  · split <;> exact ⟨rfl, rfl⟩

theorem release_fields (b : Busy) (result : Except Raised KillswitchStatus) :
    (s.release b result).1.firewall = b.toSection.seen ∧ (s.release b result).1.busy = none := by
  obtain ⟨owner, start, script⟩ := b
  cases owner with
  | caller call => exact ⟨rfl, rfl⟩
  | monitor facts => exact conclude_fields _ facts result

variable {s s' : System}

/-- What a step does to the table and the lock. -/
theorem step_cases {a : Action} {new : List Report} (h : s.step a = some (s', new)) :
    (s'.firewall = s.firewall ∧ s'.busy = s.busy) ∨
    (∃ o, (∀ call, o = .caller call → a = .enter call) ∧
      s' = s.hold ⟨o, s.firewall, []⟩) ∨
    (∃ b ks, s.busy = some b ∧ s' = s.hold { b with script := b.script ++ ks }) ∨
    ∃ b, s.busy = some b ∧ s'.firewall = b.toSection.seen ∧ s'.busy = none := by
  cases a with
  | enter call =>
    rw [step] at h
    split at h
    · cases h
      refine .inr (.inl ⟨.caller call, fun c hc => ?_, rfl⟩)
      cases hc
      rfl
    · cases h
  | steps ks =>
    rw [step] at h
    split at h
    · next b hb =>
      split at h
      · cases h
        exact .inr (.inr (.inl ⟨b, ks, hb, rfl⟩))
      · cases h
    · cases h
  | leave =>
    rw [step] at h
    split at h
    · next b hb =>
      obtain ⟨result, -, hr⟩ := Option.map_eq_some_iff.mp h
      have hfields := release_fields s b result
      rw [hr] at hfields
      exact .inr (.inr (.inr ⟨b, hb, hfields.1, hfields.2⟩))
    · cases h
  | glance =>
    rw [step] at h
    split at h
    · cases h
      exact .inl (glance_fields s)
    · cases h
  | observe facts =>
    rw [step] at h
    split at h
    · have hfields := observe_fields s facts
      rw [Option.some.inj h] at hfields
      exact .inl hfields
    · cases h
  | enterMonitor =>
    rw [step] at h
    split at h
    · next facts _ _ =>
      cases h
      exact .inr (.inl ⟨.monitor facts, fun _ hc => (by cases hc), rfl⟩)
    · cases h
  | look ks =>
    rw [step] at h
    split at h
    · next facts _ =>
      obtain ⟨result, -, hr⟩ := Option.map_eq_some_iff.mp h
      have hfields := conclude_fields s facts result
      rw [hr] at hfields
      exact .inl hfields
    · cases h

/-- The action lets in nobody who could end the transition. -/
def Keeping (a : Action) : Prop :=
  a ≠ .enter .disable ∧ ∀ facts, a ≠ .enter (.complete facts)

theorem ClosedFor.step {a : Action} {new : List Report} (h : ClosedFor f s) (ha : Keeping a)
    (hstep : s.step a = some (s', new)) : ClosedFor f s' := by
  rcases step_cases hstep with ⟨hf, hb⟩ | ⟨o, ho, rfl⟩ | ⟨b, ks, hb, rfl⟩ | ⟨b, hb, hf, hnone⟩
  · exact ⟨hf ▸ h.firewall, hb ▸ h.busy⟩
  · refine closedFor_hold s h.firewall ?_
    cases o with
    | monitor facts => rfl
    | caller call =>
      cases call with
      | complete facts => exact absurd (ho _ rfl) (ha.2 facts)
      | disable => exact absurd (ho _ rfl) ha.1
      | _ => rfl
  · exact closedFor_hold s (h.busy b hb).1 (h.busy b hb).2
  · refine ⟨hf ▸ ?_, fun b' hb' => by cases hnone.symm.trans hb'⟩
    exact Section.stop_of_preserves (closed_body (h.busy b hb).2) (h.busy b hb).1 0

/-- A transition that has been armed leaves a closed table behind. -/
theorem closedFor_of_armed
    (h : s.step .leave = some (s', [.returned .arm (.ok status)])) : ClosedFor s'.firewall s' := by
  rw [step] at h
  split at h
  · next b hb =>
    obtain ⟨result, hresult, hr⟩ := Option.map_eq_some_iff.mp h
    obtain ⟨owner, start, script⟩ := b
    cases owner with
    | caller call =>
      cases hr
      have hwp : wpElse Regime.any (Owner.caller .arm).body (fun _ => Killswitch.Closed start)
          (fun _ => True) start := Killswitch.wp_armProviderTransition
      have hclosed : Killswitch.Closed start (Busy.toSection ⟨.caller .arm, start, script⟩).seen :=
        Section.result_ok hwp hresult
      exact ⟨hclosed.self, fun _ hb => by cases hb⟩
    | monitor facts =>
      cases result with
      | ok status => cases hr
      | error e => cases e <;> cases hr
  · cases h

/-- **The closed interval.** -/
theorem closed_until_ended (wireguard : Text) (routed allowlist : List Text) {s s' t : System}
    {status : KillswitchStatus} {actions : List Action} {past past' : List Report}
    (harmed : s.step .leave = some (s', [.returned .arm (.ok status)]))
    (hactions : ∀ a ∈ actions, Keeping a)
    (hdrive : (machine wireguard routed allowlist).drive actions s' past = some (t, past')) :
    t.firewall.transition = true ∧
      ∀ p, Enters s'.firewall.ingress p →
        ((∃ T, t.firewall.table = some T ∧ T.passes .forward p = true) ↔
          Allowlisted s'.firewall.allowlist p) := by
  have hclosed := (Machine.drive_invariant (fun a ha => fun h => h.step (hactions a ha))
    (closedFor_of_armed harmed) hdrive).firewall
  refine ⟨hclosed.transition, fun p hp => ?_⟩
  rw [← hclosed.config.1] at hp
  rw [← hclosed.config.2]
  exact hclosed.blocking.passes_iff hp

/-- One protected interface and one network in the allowlist. -/
def allowing : Firewall := ⟨false, false, "wg0".toList, [], ["10.0.0.0/8".toList], none, []⟩

/-- `arm_provider_transition` has had all its steps. -/
def arming : System :=
  ⟨allowing, some ⟨.caller .arm, allowing, Killswitch.goes 9⟩, .idle, ⟨none, none⟩⟩

theorem arming_leave : ∃ f status, arming.step .leave =
    some (⟨f, none, .idle, ⟨none, none⟩⟩, [.returned .arm (.ok status)]) := by
  have hconfig : validateConfiguration allowing.ingress allowing.allowlist =
      some (["wg0".toList], ["10.0.0.0/8".toList]) := by decide +kernel
  obtain ⟨T, hT⟩ := Option.isSome_iff_exists.mp
    (show (allowing.ruleset .inTransition).isSome = true by decide +kernel)
  have hresult := (result_of_run (b := ⟨.caller .arm, allowing, Killswitch.goes 9⟩)
    (Killswitch.armProviderTransition_goes hconfig hT [.crash 0])).1
  have hleave : arming.step .leave =
      (Busy.toSection ⟨.caller .arm, allowing, Killswitch.goes 9⟩).result.map
        (arming.release ⟨.caller .arm, allowing, Killswitch.goes 9⟩) := rfl
  rw [hresult] at hleave
  exact ⟨_, _, hleave⟩

/-- A call of `reconcile` for a tunnel that is up has three steps, and the monitor wakes up. -/
def reconciling : List Action :=
  [.enter (.reconcile tunnel), .steps (Killswitch.goes 3), .glance]

/-- A transition is armed, and then a call sees the tunnel up. -/
theorem closed_while_reconciling : ∃ s' t past status,
    arming.step .leave = some (s', [.returned .arm (.ok status)]) ∧
    (machine "wg0".toList [] ["10.0.0.0/8".toList]).drive reconciling s' [] = some (t, past) ∧
    t.firewall.transition = true ∧
      ∀ p, Enters s'.firewall.ingress p →
        ((∃ T, t.firewall.table = some T ∧ T.passes .forward p = true) ↔
          Allowlisted s'.firewall.allowlist p) := by
  obtain ⟨f, status, harmed⟩ := arming_leave
  have hkeeping : ∀ a ∈ reconciling, Keeping a := by simp [reconciling, Keeping]
  obtain ⟨t, past, hdrive⟩ : ∃ t past, (machine "wg0".toList [] ["10.0.0.0/8".toList]).drive
      reconciling ⟨f, none, .idle, ⟨none, none⟩⟩ [] = some (t, past) := ⟨_, _, rfl⟩
  exact ⟨_, t, past, status, harmed, hdrive, closed_until_ended _ _ _ harmed hkeeping hdrive⟩

/-! ## What an iteration of the monitor leaves -/

/-- The table is the ruleset of the facts, and it lets IPv4 out by the tunnel if the status says
so. -/
structure Follows (facts : TunnelFacts) (status : KillswitchStatus) (f : Firewall) : Prop where
  table : ∃ T, f.ruleset facts = some T ∧ f.table = some T
  passes : status.state = .enabledProtected → ∃ x, facts.interface = some x ∧
    ∀ p, Enters f.ingress p → p.oif = some x → p.family = .v4 →
      ∃ T, f.table = some T ∧ T.passes .forward p = true

theorem statusOf_protected {configured transition present : Bool} {c : List Text × List Text}
    (h : (Killswitch.statusOf facts configured transition c present).state = .enabledProtected) :
    (∃ x, facts.exit = some x ∧ facts.interface = some x) ∧ facts.supportsIpv4 = true := by
  unfold Killswitch.statusOf at h
  dsimp only at h
  split at h
  · cases h
  · split at h
    · cases h
    · split at h
      · cases h
      · split at h
        · next hs =>
          simp only [Bool.and_eq_true] at hs
          obtain ⟨⟨⟨⟨-, havailable⟩, hprotected⟩, hinterface⟩, hv4⟩ := hs
          obtain ⟨x, hx, hne⟩ := Option.any_eq_true _ _ |>.mp hinterface
          refine ⟨⟨x, ?_, hx⟩, hv4⟩
          rw [TunnelFacts.exit, havailable, hprotected, hx]
          simpa using hne
        · split at h
          · cases h
          · cases h

theorem follows_of_table {T : Nft.Table} (hT : f.ruleset facts = some T)
    (htable : f.table = some T)
    (hstatus : ∃ configured transition c present,
      status = Killswitch.statusOf facts configured transition c present) :
    Follows facts status f := by
  refine ⟨⟨T, hT, htable⟩, fun hstate => ?_⟩
  obtain ⟨configured, transition, c, present, rfl⟩ := hstatus
  obtain ⟨⟨x, hexit, hx⟩, hv4⟩ := statusOf_protected hstate
  refine ⟨x, hx, fun p hin hout hfamily => ⟨T, htable, ?_⟩⟩
  refine ((Firewall.enforces hT).inside p hin).mpr (.inr ⟨⟨x, hexit, hout⟩, ?_⟩)
  rw [hfamily]
  exact hv4

theorem wp_status {A : Regime Reply Raised} (facts : TunnelFacts) :
    wpElse A (Killswitch.status facts) (fun status g => g = f ∧ ∃ configured transition c present,
      status = Killswitch.statusOf facts configured transition c present)
      (fun _ => True) f := by
  refine wp_seq (wp_else (Killswitch.wp_setting _) fun _ _ => trivial) ?_
  rintro ⟨configured, transition⟩ g ⟨rfl, -⟩
  refine wp_seq (wp_mono_else Killswitch.wp_configuration (fun _ _ h => h.1) fun _ _ => trivial) ?_
  rintro c g rfl
  refine wp_seq (wp_mono_else Killswitch.wp_installed (fun _ _ h => h.1) fun _ _ => trivial) ?_
  rintro present g rfl
  exact wp_pure ⟨rfl, configured, transition, c, present, rfl⟩

/-- A call of `reconcile` outside a transition leaves the ruleset of its facts. -/
theorem wp_reconcile {A : Regime Reply Raised} (hconfigured : f.configured = true)
    (htransition : f.transition = false) :
    wpElse A (Killswitch.reconcile facts) (fun status g => Follows facts status g)
      (fun _ => True) f := by
  refine wp_seq_read (wp_else (Killswitch.wp_setting _) fun _ _ => trivial) ?_
  rw [htransition, if_neg Bool.false_ne_true]
  refine wp_seq_read (wp_else (Killswitch.wp_setting _) fun _ _ => trivial) ?_
  rw [hconfigured, if_pos rfl]
  refine wp_seq (wp_else Killswitch.wp_install fun _ _ => trivial) ?_
  rintro - g' ⟨T, hT, rfl⟩
  have hstamp : wpElse A Killswitch.stamp (fun _ h => h = { f with table := some T })
      (fun _ => True) { f with table := some T } :=
    wp_handle (wp_atomic rfl (fun _ _ _ => ⟨wp_raise trivial, wp_raise trivial⟩)
      fun _ _ => ⟨trivial, trivial⟩)
  refine wp_seq_eq hstamp fun _ => wp_mono_else (wp_status facts) ?_ fun _ _ => trivial
  rintro status g' ⟨rfl, hstatus⟩
  exact follows_of_table hT rfl hstatus

section
variable (wireguard : Text) (routed allowlist : List Text) {s : System} {facts : TunnelFacts}

/-- An iteration of the monitor that observes the facts and ends without an error, while no other
call is in progress. -/
def Iteration (facts : TunnelFacts) (status : KillswitchStatus) (s s' : System) : Prop :=
  (∃ batches : List (List (Signal Reply Raised)), (machine wireguard routed allowlist).drive
      (.glance :: .observe (some facts) :: .enterMonitor :: (batches.map .steps ++ [.leave])) s [] =
        some (s', [.watched facts status])) ∨
  ∃ ks, (machine wireguard routed allowlist).drive
      [.glance, .observe (some facts), .look ks] s [] = some (s', [.watched facts status])

variable {wireguard routed allowlist}

theorem drive_section {s' : System} {b : Busy} {batches : List (List (Signal Reply Raised))}
    {past past' : List Report}
    (h : (machine wireguard routed allowlist).drive (batches.map .steps ++ [.leave]) (s.hold b)
      past = some (s', past')) :
    ∃ ks result, (Busy.toSection { b with script := ks }).result = some result ∧
      s' = (s.release { b with script := ks } result).1 ∧
      past' = (s.release { b with script := ks } result).2 ++ past := by
  induction batches generalizing b with
  | nil =>
    rw [List.map_nil, List.nil_append, Machine.drive_cons] at h
    obtain ⟨r, hstep, hr⟩ := Option.bind_eq_some_iff.mp h
    obtain ⟨result, hresult, rfl⟩ := Option.map_eq_some_iff.mp
      (show b.toSection.result.map ((s.hold b).release b) = some r from hstep)
    rw [release_hold] at hr
    cases hr
    exact ⟨b.script, result, hresult, rfl, rfl⟩
  | cons ks batches ih =>
    rw [List.map_cons, List.cons_append, Machine.drive_cons] at h
    obtain ⟨r, hstep, hr⟩ := Option.bind_eq_some_iff.mp h
    have hstep : (if ks.all isPassed then
        some (s.hold { b with script := b.script ++ ks }, []) else none) = some r := hstep
    split at hstep
    · cases hstep
      exact (ih hr :)
    · cases hstep

/-- The first two steps of an iteration outside a transition. -/
theorem drive_observe {rest : List Action} (hconfigured : s.firewall.configured = true)
    (htransition : s.firewall.transition = false) {r : System × List Report}
    (h : (machine wireguard routed allowlist).drive
      (.glance :: .observe (some facts) :: rest) s [] = some r) :
    ∃ t, (machine wireguard routed allowlist).drive rest t [] = some r ∧
      t.firewall = s.firewall ∧ t.busy = s.busy ∧
      (some facts ≠ s.memory.previousFacts ∧ t.watch = .reconciling facts ∨
        some facts = s.memory.previousFacts ∧ t.watch = .reading facts) := by
  rw [Machine.drive_cons] at h
  obtain ⟨t, hstep, h⟩ := Option.bind_eq_some_iff.mp h
  have hstep : (if s.watch = .idle then some (s.glance, []) else none) = some t := hstep
  split at hstep
  · cases hstep
    have hglance : s.glance = { s with watch := .observing } := by
      rw [glance, htransition, if_neg Bool.false_ne_true, hconfigured, if_pos rfl]
    rw [hglance, Machine.drive_cons] at h
    obtain ⟨t, hstep, h⟩ := Option.bind_eq_some_iff.mp h
    have hstep : (if some facts ≠ s.memory.previousFacts then
        (({ s with watch := .reconciling facts } : System), ([] : List Report))
      else ({ s with watch := .reading facts }, [])) = t := Option.some.inj hstep
    split at hstep
    · next hne =>
      subst hstep
      exact ⟨_, h, rfl, rfl, .inl ⟨hne, rfl⟩⟩
    · next heq =>
      subst hstep
      exact ⟨_, h, rfl, rfl, .inr ⟨not_not.mp heq, rfl⟩⟩
  · cases hstep

/-- An iteration that ends without an error has a status. -/
theorem conclude_watched {facts' : TunnelFacts}
    {result : Except Raised KillswitchStatus}
    (h : (s.conclude facts result).2 = [.watched facts' status]) : result = .ok status := by
  cases result with
  | ok status' =>
    cases h
    rfl
  | error e => cases e <;> cases h

theorem status_of_readStatus {ks : List (Signal Reply Raised)}
    (h : s.readStatus facts ks = some (.ok status)) :
    ∃ configured transition c present,
      status = Killswitch.statusOf facts configured transition c present := by
  have hholds := (wp_status (A := Regime.any) (f := s.firewall) facts).holds (any_script ks)
  unfold readStatus at h
  split at h
  · next st hst =>
    cases h
    rw [hst] at hholds
    exact hholds.2
  · cases h
  · cases h

/-- **The monitor.** After an iteration that no other call overlaps, the table is that of the facts
it observed if and only if the facts differ from its last ones, or the table was the right one
already. -/
theorem iteration_follows_iff {facts : TunnelFacts} {status : KillswitchStatus} {s s' : System}
    (hfree : s.busy = none) (hconfigured : s.firewall.configured = true)
    (htransition : s.firewall.transition = false)
    (h : Iteration wireguard routed allowlist facts status s s') :
    Follows facts status s'.firewall ↔ some facts ≠ s.memory.previousFacts ∨
      ∃ T, s.firewall.ruleset facts = some T ∧ s.firewall.table = some T := by
  rcases h with ⟨batches, h⟩ | ⟨ks, h⟩
  · obtain ⟨t, h, hfirewall, hbusy, ⟨hne, hwatch⟩ | ⟨-, hwatch⟩⟩ :=
      drive_observe hconfigured htransition h
    · refine iff_of_true ?_ (.inl hne)
      obtain ⟨r, hstep, h⟩ := Option.bind_eq_some_iff.mp ((Machine.drive_cons ..).symm.trans h)
      have hstep : t.step .enterMonitor = some r := hstep
      rw [System.step, hbusy, hfree, hwatch] at hstep
      cases hstep
      obtain ⟨ks, result, hresult, rfl, hpast⟩ := drive_section h
      have hok : result = .ok status :=
        conclude_watched (hpast.trans (List.append_nil _)).symm
      subst hok
      rw [(release_fields _ _ _).1]
      exact Section.result_ok (wp_reconcile (hfirewall ▸ hconfigured) (hfirewall ▸ htransition))
        hresult
    · obtain ⟨r, hstep, -⟩ := Option.bind_eq_some_iff.mp ((Machine.drive_cons ..).symm.trans h)
      have hstep : t.step .enterMonitor = some r := hstep
      rw [System.step, hbusy, hfree, hwatch] at hstep
      cases hstep
  · obtain ⟨t, h, hfirewall, hbusy, ⟨-, hwatch⟩ | ⟨heq, hwatch⟩⟩ :=
      drive_observe hconfigured htransition h
    · obtain ⟨r, hstep, -⟩ := Option.bind_eq_some_iff.mp ((Machine.drive_cons ..).symm.trans h)
      have hstep : t.step (.look ks) = some r := hstep
      rw [System.step, hwatch] at hstep
      cases hstep
    · obtain ⟨r, hstep, h⟩ := Option.bind_eq_some_iff.mp ((Machine.drive_cons ..).symm.trans h)
      have hstep : t.step (.look ks) = some r := hstep
      rw [System.step, hwatch] at hstep
      obtain ⟨result, hresult, rfl⟩ := Option.map_eq_some_iff.mp hstep
      have hpair : (t.conclude facts result).1 = s' ∧
          (t.conclude facts result).2 ++ [] = [.watched facts status] :=
        Prod.mk.inj (Option.some.inj h)
      have hok : result = .ok status :=
        conclude_watched ((List.append_nil _).symm.trans hpair.2)
      subst hok
      rw [← hpair.1, (conclude_fields _ _ _).1, hfirewall]
      constructor
      · exact fun hfollows => .inr hfollows.table
      · rintro (hne | ⟨T, hT, htable⟩)
        · exact absurd heq hne
        · exact follows_of_table hT htable (status_of_readStatus hresult)

end

open Killswitch in
/-- The first iteration after `enable` follows what it observes. -/
theorem first_iteration_follows : ∃ s',
    Iteration "wg0".toList [] [] tunnel (plainStatus tunnel)
      ⟨plain true (some (plainTable .closed)), none, .idle, ⟨none, none⟩⟩ s' ∧
    Follows tunnel (plainStatus tunnel) s'.firewall := by
  have hiteration : Iteration "wg0".toList [] [] tunnel (plainStatus tunnel)
      ⟨plain true (some (plainTable .closed)), none, .idle, ⟨none, none⟩⟩
      ⟨plain true (some (plainTable tunnel)), none, .idle, ⟨some .enabledProtected, some tunnel⟩⟩ :=
    .inl ⟨[goes 10], drive_reconciling rfl rfl (Option.some_ne_none _) (by decide) (reconcile_goes
      (f := plain true (some (plainTable .closed))) rfl rfl (plain_config _ _) (ruleset_tunnel _ _)
      [.crash 0])⟩
  exact ⟨_, hiteration, (iteration_follows_iff rfl rfl rfl hiteration).mpr
    (.inl (Option.some_ne_none _))⟩

open Killswitch in
/-- The tunnel comes up, the monitor sees it, another call closes the table, and the monitor sees
the same facts again: it reports a protected tunnel over a table that lets nothing through. -/
theorem monitor_keeps_stale_table : ∃ s s' past status,
    (machine "wg0".toList [] []).drive
      ([.enter (.enable tunnel), .steps (goes 11), .leave] ++
        ([.glance, .observe (some tunnel), .enterMonitor, .steps (goes 10), .leave] ++
          [.enter (.reconcile .closed), .steps (goes 10), .leave]))
      (fresh "wg0".toList [] []) [] = some (s, past) ∧
    s.busy = none ∧ s.firewall.configured = true ∧ s.firewall.transition = false ∧
    Iteration "wg0".toList [] [] tunnel status s s' ∧ status.state = .enabledProtected ∧
    ¬ Follows tunnel status s'.firewall := by
  have henable (past : List Report) : (machine "wg0".toList [] []).drive
      [.enter (.enable tunnel), .steps (goes 11), .leave]
      ⟨plain false none, none, .idle, ⟨none, none⟩⟩ past =
      some (⟨plain true (some (plainTable tunnel)), none, .idle, ⟨none, none⟩⟩,
        .returned (.enable tunnel) (.ok (plainStatus tunnel)) :: past) :=
    drive_call (by decide) (enable_goes (f := plain false none) rfl (plain_config _ _)
      (ruleset_tunnel _ _) [.crash 0])
  have hwatch (past : List Report) : (machine "wg0".toList [] []).drive
      [.glance, .observe (some tunnel), .enterMonitor, .steps (goes 10), .leave]
      ⟨plain true (some (plainTable tunnel)), none, .idle, ⟨none, none⟩⟩ past =
      some (⟨plain true (some (plainTable tunnel)), none, .idle,
        ⟨some .enabledProtected, some tunnel⟩⟩, .watched tunnel (plainStatus tunnel) :: past) :=
    drive_reconciling rfl rfl (Option.some_ne_none _) (by decide) (reconcile_goes
      (f := plain true (some (plainTable tunnel))) rfl rfl (plain_config _ _) (ruleset_tunnel _ _)
      [.crash 0])
  have hclose (m : Memory) (past : List Report) : (machine "wg0".toList [] []).drive
      [.enter (.reconcile .closed), .steps (goes 10), .leave]
      ⟨plain true (some (plainTable tunnel)), none, .idle, m⟩ past =
      some (⟨plain true (some (plainTable .closed)), none, .idle, m⟩,
        .returned (.reconcile .closed) (.ok (plainStatus .closed)) :: past) :=
    drive_call (by decide) (reconcile_goes (f := plain true (some (plainTable tunnel))) rfl rfl
      (plain_config _ _) (ruleset_closed _ _) [.crash 0])
  have hlook : (machine "wg0".toList [] []).drive [.glance, .observe (some tunnel), .look (goes 3)]
      ⟨plain true (some (plainTable .closed)), none, .idle, ⟨some .enabledProtected, some tunnel⟩⟩
      [] = some (⟨plain true (some (plainTable .closed)), none, .idle,
        ⟨some .enabledProtected, some tunnel⟩⟩, [.watched tunnel (plainStatus tunnel)]) :=
    drive_reading rfl rfl rfl (status_goes (f := plain true (some (plainTable .closed)))
      (plain_config _ _) rfl [])
  refine ⟨⟨plain true (some (plainTable .closed)), none, .idle,
    ⟨some .enabledProtected, some tunnel⟩⟩, _,
    [.returned (.reconcile .closed) (.ok (plainStatus .closed)),
      .watched tunnel (plainStatus tunnel), .returned (.enable tunnel) (.ok (plainStatus tunnel))],
    plainStatus tunnel, ?_, rfl, rfl, rfl, .inr ⟨goes 3, hlook⟩, rfl, ?_⟩
  · rw [Machine.drive_append, show fresh "wg0".toList [] [] =
      ⟨plain false none, none, .idle, ⟨none, none⟩⟩ from rfl, henable, Option.bind_some,
      Machine.drive_append, hwatch, Option.bind_some, hclose]
  · rintro ⟨⟨T, hT, htable⟩, -⟩
    have heq : plainTable tunnel = plainTable .closed := by
      cases htable
      exact Option.some.inj ((ruleset_tunnel _ _).symm.trans hT)
    have hexit := congrArg namesExit heq
    rw [plainTable, plainTable, namesExit_rulesetTable, namesExit_rulesetTable] at hexit
    cases hexit

end System

end ExitLane.Vpn
