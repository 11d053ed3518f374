import ExitLane.Egress.Teardown
import ExitLane.Providers.Outcome

/-!
# A first connect that fails

PIA and Proton keep no tunnel when their first connect fails: what it has put on the host goes, or
the record names the generation. The rollback decides from the intent in memory whether there are
rules to remove. The forward path drops that intent when the new generation becomes the active
one, so that a failure after this point finds nothing to remove and forgets the generation as well.
Up to that point, on the approach, every failure ends well; after it only those on a host that had
everything before.
-/

namespace ExitLane.Providers

open Effect Egress Net Python Vpn

section
variable {A G X α : Type} {H : Host → Prop} {p : Egress.Act α} {c : EgressConfig} {attempts : Nat}
  {late : Observation → Text} {facts : Act (Record A G) TunnelFacts}
  {dismantle : Bool → Act (Record A G) Bool}
  {keep : Option (Entry G) → Bool → Record A G → Record A G} {owns : Bool}

/-! ## The ends of a connect -/

/-- What the end of a connect is measured by: the generation that it makes, and what its host and
its ingress interfaces were at the start. -/
structure Aim (G : Type) where
  name : G → Text
  token : Text
  interface : Iface
  host : Host
  ingress : List Iface

/-- The entry holds the generation of this name. -/
def Names (a : Aim G) (entry : Option (Entry G)) : Prop :=
  ∃ g mark, entry = some (.of g mark) ∧ a.name g = a.token

def Named (a : Aim G) (stored : Option (Record A G)) : Prop :=
  ∃ r, stored = some r ∧ (Names a r.active ∨ Names a r.pending)

/-- The stored record names the generation, or the host is as clean as it was. -/
def Ended (a : Aim G) (m : World (Record A G)) : Prop :=
  Named a m.vault.stored ∨ Clean a.host a.interface m.host

/-- The run comes from `enter` to `p`, which raises `e` at `n`. -/
def RaisesAt {S α : Type} (enter : Act S (Except String X)) (p : X → Act S α) (s : World S)
    (ks : List (Signal Reply Raised)) (x : X) (e : Raised) (n : World S)
    (rest : List (Signal Reply Raised)) : Prop :=
  ∃ m ks', enter s ks = (.ok (.ok x), m, ks') ∧ p x m ks' = (.raised e, n, rest)

/-- The rollback of a first connect drops both generations of the record in memory. -/
def dropped (r : Record A G) : Record A G := { r with active := none, pending := none }

/-- A local teardown that reports success has taken effect: the link is down, and none of the rules
that its `disarm` names is there. The rollback disarms if there is an intent in memory. -/
def TakesEffect (i : Iface) (dismantle : Bool → Act (Record A G) Bool) (n : World (Record A G))
    (rest : List (Signal Reply Raised)) : Prop :=
  ∀ m ks, dismantle n.vault.memory.pending.isSome (n.mutate dropped) rest = (.ok true, m, ks) →
    m.host.has i = false ∧ (n.vault.memory.pending.isSome = true →
      ∀ f, ∀ e ∈ removalRules n.firewall.ingress.eraseDups (some i) f,
        e.rule ∉ (m.host.rules f).rules)

/-- How a `connect` of these parts ends. A run that does not come to a rollback ends well. One that
comes to it at `n` ends well under every rollback whose teardown takes effect, exactly if it is
still on its approach or everything was on the host before. -/
def NamesOrCleans {O : Type} (a : Aim G) (enter : Act (Record A G) (Except String X))
    (approach : X → Act (Record A G) O) (attempt : X → Act (Record A G) Result)
    (dismantle : Bool → Act (Record A G) Bool) (handler : X → Raised → Act (Record A G) Result)
    (connect : Act (Record A G) Result) (s : World (Record A G)) : Prop :=
  ∀ ks, ((∀ x e n rest, RaisesAt enter attempt s ks x e n rest → isHandled e = false) →
      Ended a (connect s ks).2.1) ∧
    ∀ x e n rest, RaisesAt enter attempt s ks x e n rest → isHandled e = true →
      connect s ks = handler x e n rest ∧
      ((∀ rest, TakesEffect a.interface dismantle n rest → Ended a (handler x e n rest).2.1) ↔
        RaisesAt enter approach s ks x e n rest ∨ Furnished a.interface a.ingress a.host)

/-! ## The forward path -/

section
variable {S : Type} (T : Tunnel)

/-- The forward path from the stored intent on, up to a tunnel that is ready. -/
def ready (c : EgressConfig) (attempts : Nat) (late : Observation → Text) : Act S Observation := do
  let ingress ← onFirewall Killswitch.configuredIngress
  onHost (T.start c ingress)
  let seen ← awaitReady T c attempts default
  .demand seen.ready (.api (late seen))
  pure seen

/-- The candidate becomes the active generation, and the transition ends. -/
def conclude (facts : Act S TunnelFacts) (owns : Bool) (x : EgressConfig × (S → S)) :
    Act S Result := do
  mutate x.2
  save
  finish T facts owns x.1

end

/-- The intent is stored, and the host is as `H` says. -/
structure Begun (a : Aim G) (H : Host → Prop) (m : World (Record A G)) : Prop where
  stored : Named a m.vault.stored
  pending : Names a m.vault.memory.pending
  config : m.firewall.ingress.eraseDups = a.ingress
  host : H m.host

/-- What a start may have brought. -/
def Aim.Starting (a : Aim G) : Host → Prop := Added a.host a.ingress a.interface

/-- What a start that returned has brought. -/
def Aim.Started (a : Aim G) (h : Host) : Prop := a.Starting h ∧ Furnished a.interface a.ingress h

/-- Where an approach stops. -/
def Early (a : Aim G) (m : World (Record A G)) : Prop := m.host = a.host ∨ Begun a a.Starting m

/-- What an approach that returned has come to: the next record has the generation active. -/
def Arrived (a : Aim G) (x : EgressConfig × (Record A G → Record A G)) (m : World (Record A G)) :
    Prop :=
  (∀ r, Names a (x.2 r).active ∧ (x.2 r).pending = none) ∧ Begun a a.Started m

/-- The intent is gone from memory, and everything is on the host. -/
structure Taken (a : Aim G) (m : World (Record A G)) : Prop where
  stored : Named a m.vault.stored
  pending : m.vault.memory.pending = none
  host : a.Started m.host

variable {a : Aim G} {w : Platform} {s : World (Record A G)} {R : Regime Reply Raised}

theorem ended_of_host {m : World (Record A G)} (h : m.host = a.host) : Ended a m :=
  .inr (h ▸ Clean.refl)

theorem Early.ended {m : World (Record A G)} : Early a m → Ended a m
  | .inl h => ended_of_host h
  | .inr h => .inl h.stored

theorem wp_configuration :
    wpElse R (onFirewall Killswitch.configuredIngress)
      (fun names m => m = s ∧ names = s.firewall.ingress.eraseDups) (fun m => m = s) s := by
  have hread : wpElse R Killswitch.configuredIngress
      (fun names f => f = s.firewall ∧ names = s.firewall.ingress.eraseDups)
      (fun f => f = s.firewall) s.firewall := by
    refine wp_seq Killswitch.wp_configuration ?_
    rintro c f ⟨rfl, hc⟩
    exact wp_pure ⟨rfl, validateConfiguration_fst hc⟩
  refine wp_zoom (wp_mono hread (fun names f hf => ⟨?_, hf.2⟩) (fun _ f hf => ?_) fun f hf => ?_)
  · rw [hf.1]
    rfl
  · rw [hf]
    rfl
  · rw [hf]
    rfl

theorem begun_onHost (hp : Preserves H p) :
    Stable (Begun a H) (onHost p : Act (Record A G) α) := by
  intro s hs
  refine wp_zoom (wp_mono (hp Regime.any s.host hs.host) (fun _ h hh => ?_) (fun _ h hh => ?_)
    fun h hh => ?_)
  all_goals exact { hs with host := hh }

theorem begun_probe (c : EgressConfig) :
    Stable (Begun a H) (probe (native w) c : Act (Record A G) Observation) := by
  have hprobe : Preserves H (Egress.probe w c) := by
    refine preserves_seq (preserves_validated w c) ?_
    refine preserves_bind (preserves_ask _) fun answer => ?_
    cases answer with
    | none => exact preserves_raise _
    | some _ => exact preserves_pure _
  refine stable_bind (begun_onHost hprobe) fun seen => stable_bind (fun s hs => ?_) fun _ =>
    stable_pure _
  exact wp_modify { hs with }

theorem begun_awaitReady (c : EgressConfig) (attempts : Nat) (last : Observation) :
    Stable (Begun a H) (awaitReady (native w) c attempts last : Act (Record A G) Observation) := by
  induction attempts generalizing last with
  | zero => exact stable_pure _
  | succ n ih =>
    refine stable_bind (begun_probe c) fun seen => ?_
    split
    · exact stable_pure _
    · refine stable_bind ?_ fun _ => ih seen
      exact (preserves_handle (preserves_check _) fun _ => preserves_raise _).stable

/-- A tunnel that is ready was started by this run. -/
theorem wp_ready (hc : c.interface = a.interface) (hs : Begun a a.Starting s) :
    wpElse Regime.any (ready (native w) c attempts late : Act (Record A G) Observation)
      (fun _ => Begun a a.Started) (Begun a a.Starting) s := by
  refine wp_seq (wp_else wp_configuration fun m hm => hm ▸ hs) ?_
  rintro names m ⟨rfl, rfl⟩
  have hstart : wpElse Regime.any (Egress.start w c m.firewall.ingress.eraseDups)
      (fun _ => a.Started) a.Starting m.host := by
    rw [hs.config]
    unfold Aim.Started Aim.Starting
    rw [← hc]
    exact wp_with (added_start w c Regime.any m.host (hc ▸ hs.host)) (furnished_start w c)
  refine wp_seq (R := fun _ => Begun a a.Started) (wp_zoom (wp_mono hstart (fun _ h hh => ?_)
    (fun _ h hh => ?_) fun h hh => ?_)) fun _ m hm => ?_
  · exact { hs with host := hh }
  · exact { hs with host := hh }
  · exact { hs with host := hh }
  have hrest : Stable (Begun a a.Started) (do
        let seen ← awaitReady (native w) c attempts default
        .demand seen.ready (.api (late seen))
        pure seen : Act (Record A G) Observation) :=
    stable_bind (begun_awaitReady c _ _) fun _ =>
      stable_bind (preserves_demand _ _).stable fun _ => stable_pure _
  exact wp_else (hrest m hm) fun _ h => { h with host := h.host.1 }

/-- The intent is made and stored before anything is done on the host. -/
theorem wp_intend {g : G} {settle : Observation → Record A G → Record A G}
    (hname : a.name g = a.token) (hc : c.interface = a.interface)
    (hsettle : ∀ seen r, (settle seen r).active = some (.of g none) ∧
      (settle seen r).pending = none)
    (hhost : s.host = a.host) (hingress : s.firewall.ingress.eraseDups = a.ingress) :
    wpElse Regime.any
      (do
        mutate fun m => { m with pending := some (.of g none) }
        save
        let seen ← ready (native w) c attempts late
        pure (c, settle seen))
      (Arrived a) (Early a) s := by
  refine wp_bind (wp_modify (wp_seq (wp_else wp_commit fun m hm => ?_) ?_))
  · rcases hm with rfl | rfl <;> exact .inl hhost
  rintro - m rfl
  have hnames : Names a (some (.of g none)) := ⟨g, none, rfl, hname⟩
  have hbegun : Begun a a.Starting
      (s.mutate fun m => { m with pending := some (.of g none) }).commit :=
    ⟨⟨_, rfl, .inr hnames⟩, hnames, hingress, hhost ▸ Added.refl⟩
  refine wp_seq (wp_else (wp_ready hc hbegun) fun _ => .inr) fun seen n hn =>
    wp_pure ⟨fun r => ?_, hn⟩
  rw [(hsettle seen r).1]
  exact ⟨hnames, (hsettle seen r).2⟩

/-- A procedure leaves the record and the host alone. -/
def Still (p : Act (Record A G) α) : Prop :=
  ∀ K : Option (Record A G) → Record A G → Host → Prop,
    Stable (fun m => K m.vault.stored m.vault.memory m.host) p

theorem still_onHost (hp : ∀ I, Preserves I p) : Still (onHost p : Act (Record A G) α) :=
  fun _ => stable_zoom fun _ => (hp _).stable

theorem still_inquire : Still (inquire : Act (Record A G) Bool) :=
  fun K => stable_bind (still_onHost (fun _ => preserves_ask _) K) fun _ => stable_pure _

/-- An observation whose errors are taken for a tunnel that is down. -/
theorem still_observe (x : Except Raised EgressConfig) :
    Still ((liftExcept x >>= fun c => onHost (observe w c)).handle fun e =>
      if isBroken e then pure false else .raise e : Act (Record A G) Bool) := by
  intro K
  refine stable_handle (stable_bind (preserves_liftExcept _).stable fun c => ?_) fun e => ?_
  · refine still_onHost (fun I => preserves_seq (preserves_validated w c) ?_) K
    refine preserves_bind (preserves_interfaceExists _) fun present => ?_
    split
    · exact preserves_bind (preserves_ask _) fun _ => preserves_pure _
    · exact preserves_pure _
  · split
    · exact stable_pure _
    · exact stable_raise _

theorem still_finish (hfacts : Still facts) (owns : Bool) (c : EgressConfig) :
    Still (finish (native w) facts owns c) := by
  intro K
  have hcommitted : Still (committed (native w) c : Act (Record A G) Result) := fun K =>
    stable_bind (still_onHost (fun _ => preserves_pure _) K) fun _ => stable_pure _
  unfold finish
  split
  · refine stable_bind (stable_handle (stable_bind ?_ fun _ => ?_) fun e => ?_) fun done => ?_
    · refine stable_bind (still_onHost (fun _ => preserves_pure _) K) fun proved => ?_
      cases proved with
      | none => exact hfacts K
      | some _ => exact stable_pure _
    · refine stable_bind (fun _ hs => wp_modify hs) fun _ => ?_
      exact stable_bind (stable_zoom_frame fun _ _ hs => hs) fun _ => stable_pure _
    · split <;> first | exact stable_pure _ | exact stable_raise _
    · split
      · exact hcommitted K
      · exact stable_pure _
  · exact hcommitted K

/-- From here on the record names the generation, but the intent is gone from memory. -/
theorem wp_conclude {x : EgressConfig × (Record A G → Record A G)} (hstill : Still facts)
    (owns : Bool) (hs : Arrived a x s) :
    wpElse Regime.any (conclude (native w) facts owns x) (fun _ m => Named a m.vault.stored)
      (Taken a) s := by
  obtain ⟨hsettle, hs⟩ := hs
  have hnew : Taken a (s.mutate x.2).commit :=
    ⟨⟨_, rfl, .inl (hsettle _).1⟩, (hsettle _).2, hs.host⟩
  refine wp_bind (wp_modify (wp_seq (wp_else wp_commit fun n hn => ?_) ?_))
  · rcases hn with rfl | rfl
    · exact ⟨hs.stored, (hsettle _).2, hs.host⟩
    · exact hnew
  rintro - n rfl
  have htaken (m : World (Record A G)) (hm : Named a m.vault.stored ∧
      m.vault.memory.pending = none ∧ a.Started m.host) : Taken a m := ⟨hm.1, hm.2.1, hm.2.2⟩
  exact wp_mono (still_finish hstill owns x.1 (fun stored memory host => Named a stored ∧
    memory.pending = none ∧ a.Started host) _ ⟨hnew.stored, hnew.pending, hnew.host⟩)
    (fun _ _ hm => hm.1) (fun _ m => htaken m) htaken

/-! ## The rollback -/

/-- The rollback of a first connect, whose parts are a provider's own. -/
def forsake (dismantle : Bool → Act (Record A G) Bool)
    (keep : Option (Entry G) → Bool → Record A G → Record A G) : Act (Record A G) Bool := do
  let candidate ← .look (·.vault.memory.pending)
  mutate dropped
  let toreDown ← dismantle candidate.isSome
  mutate (keep candidate toreDown)
  save
  pure false

/-- A reply of a command that reports failure and has done nothing. -/
def refusal : Reply := ⟨some false, none, default⟩

/-- The link is seen, and the next command is refused. -/
def refusing : List (Signal Reply Raised) := [.go default, .go refusal]

/-- What is asked of a local teardown: it does not touch the record, it only takes away, and it may
be refused honestly. -/
structure Dismantles (i : Iface) (dismantle : Bool → Act (Record A G) Bool) : Prop where
  record : ∀ d (s : World (Record A G)), wpElse Regime.any (dismantle d)
    (fun _ m => m.vault.stored = s.vault.stored ∧ m.vault.memory = s.vault.memory)
    (fun m => m.vault.stored = s.vault.stored) s
  closed : ∀ I, Closed i I → ∀ d, Stable (fun m => I m.host) (dismantle d)
  refused : ∀ s : World (Record A G), ∃ t m, dismantle false s refusing = (.ok t, m, []) ∧
    (t = true → m.host.has i = false) ∧ m.vault.memory = s.vault.memory ∧
    ∀ b, Clean b i m.host → Clean b i s.host

/-- What is asked of the record that is kept. -/
structure Keeps (keep : Option (Entry G) → Bool → Record A G → Record A G) : Prop where
  candidate : ∀ entry r, (keep (some entry) false r).pending = some entry
  nothing : ∀ a t r, ¬Named a (some (keep none t (dropped r)))

section
variable {T : Tunnel} {e : Raised} {n : World (Record A G)} {rest : List (Signal Reply Raised)}

/-- What is left to do once the teardown has answered. -/
theorem wp_kept {candidate : Option (Entry G)} {t : Bool}
    (h : ∀ m, m = s.mutate (keep candidate t) ∨ m = (s.mutate (keep candidate t)).commit →
      Ended a m) :
    wpElse Regime.any (do mutate (keep candidate t); save; pure false)
      (fun safe m => safe = false ∧ Ended a m) (Ended a) s := by
  refine wp_bind (wp_modify (wp_seq (wp_else wp_commit h) ?_))
  intro _ m hm
  exact wp_pure ⟨rfl, h m (.inr hm)⟩

theorem connectHandler_once {rollback : Act (Record A G) Bool} :
    connectHandler T facts owns rollback e n rest =
      connectHandler T facts owns (fun _ _ => rollback n rest) e n rest := by
  cases e <;> rfl

/-- A rollback that restores nothing has no transition to end. -/
theorem ended_handler {rollback : Act (Record A G) Bool} (he : isHandled e = true)
    (h : (rollback n rest).1.Holds (fun safe m => safe = false ∧ Ended a m) (fun _ => Ended a)
      (Ended a) (rollback n rest).2.1) :
    Ended a (connectHandler T facts owns rollback e n rest).2.1 := by
  rw [connectHandler_once]
  refine (wp_post (wp_handled he (fun _ => id) (wp_any fun _ => h) ?_) fun _ _ h => h.1).always
    (any_script rest)
  rintro - m ⟨rfl, hm⟩
  rw [Bool.and_false]
  exact wp_pure hm

variable (hd : Dismantles a.interface dismantle) (he : isHandled e = true)
include hd he

/-- From a clean host every rollback ends well. -/
theorem ended_of_clean (hclean : Clean a.host a.interface n.host) :
    Ended a (connectHandler T facts owns (forsake dismantle keep) e n rest).2.1 := by
  have hrun : wpElse Regime.any (forsake dismantle keep)
      (fun safe m => safe = false ∧ Ended a m) (Ended a) n := by
    refine wp_bind (wp_look (wp_bind (wp_modify ?_)))
    refine wp_seq (wp_else (hd.closed _ Clean.closed _ _ hclean) fun _ => .inr) fun t m hm => ?_
    refine wp_kept fun m' hm' => .inr ?_
    rcases hm' with rfl | rfl <;> exact hm
  exact ended_handler he (hrun.holds (any_script rest))

variable (hk : Keeps keep)
include hk

/-- Where the intent is in memory, a teardown that takes effect leaves a clean host, and after any
other the record names the generation. -/
theorem ended_of_begun (hn : Begun a a.Starting n)
    (heffect : TakesEffect a.interface dismantle n rest) :
    Ended a (connectHandler T facts owns (forsake dismantle keep) e n rest).2.1 := by
  refine ended_handler he ?_
  obtain ⟨g, mark, hentry, hname⟩ := hn.pending
  have hsome : n.vault.memory.pending.isSome = true := by
    rw [hentry]
    rfl
  have hrecord := (hd.record n.vault.memory.pending.isSome (n.mutate dropped)).holds
    (any_script rest)
  have hadded := (hd.closed _ Added.closed n.vault.memory.pending.isSome (n.mutate dropped)
    hn.host).always (any_script rest)
  -- the rollback on this script is its teardown on it, and then the record
  change Outcome.Holds (Proc.bind (fun _ _ => dismantle n.vault.memory.pending.isSome
    (n.mutate dropped) rest) (fun t => do mutate (keep n.vault.memory.pending t); save; pure false)
    n rest).1 _ _ _ _
  refine wp.holds (wp_seq (R := fun t m => m.vault.stored = n.vault.stored ∧
    (t = true → Clean a.host a.interface m.host)) (wp_any fun _ => ?_) ?_) (any_script rest)
  · rcases hrun : dismantle n.vault.memory.pending.isSome (n.mutate dropped) rest with ⟨o, m, ks⟩
    rw [hrun] at hrecord hadded
    have hnamed (hm : m.vault.stored = n.vault.stored) : Ended a m :=
      .inl (by rw [hm]; exact hn.stored)
    rcases o with t | _ | _
    · refine ⟨hrecord.1, ?_⟩
      rintro rfl
      obtain ⟨hlink, hrules⟩ := heffect m ks hrun
      exact hadded.clean hlink (hn.config ▸ hrules hsome)
    · exact hnamed hrecord
    · exact hnamed hrecord
  rintro t m ⟨hstored, hclean⟩
  refine wp_kept fun m' hm' => ?_
  cases t with
  | true => rcases hm' with rfl | rfl <;> exact .inr (hclean rfl)
  | false =>
    rcases hm' with rfl | rfl
    · exact .inl (show Named a m.vault.stored by rw [hstored]; exact hn.stored)
    · refine .inl ⟨_, rfl, .inr ⟨g, mark, ?_, hname⟩⟩
      rw [hentry]
      exact hk.candidate _ _

/-- Where the intent is gone from memory, a refused teardown forgets the generation and leaves what
is on the host. -/
theorem clean_of_ended (hpending : n.vault.memory.pending = none)
    (hend : ∀ rest, TakesEffect a.interface dismantle n rest →
      Ended a (connectHandler T facts owns (forsake dismantle keep) e n rest).2.1) :
    Clean a.host a.interface n.host := by
  obtain ⟨t, m, hrun, hdown, hmemory, hback⟩ := hd.refused (n.mutate dropped)
  have hrollback : forsake dismantle keep n refusing =
      (.ok false, (m.mutate (keep none t)).commit, []) := by
    change (dismantle n.vault.memory.pending.isSome >>= fun t => do
      mutate (keep n.vault.memory.pending t)
      save
      pure false) (n.mutate dropped) refusing = _
    rw [hpending]
    exact (Proc.bind_of_ok hrun).trans rfl
  have hstate : (connectHandler T facts owns (forsake dismantle keep) e n refusing).2.1 =
      (m.mutate (keep none t)).commit := by
    rw [connectHandler_once, hrollback]
    cases e <;> first | (cases owns <;> rfl) | cases he
  have hended := hend refusing fun m' ks hm' => ?_
  · rw [hstate] at hended
    rcases hended with hnamed | hclean
    · refine absurd (show Named a (some (keep none t m.vault.memory)) from hnamed) ?_
      rw [hmemory]
      exact hk.nothing a t n.vault.memory
    · exact hback _ hclean
  · rw [hpending] at hm' ⊢
    cases hrun.symm.trans hm'
    exact ⟨hdown rfl, nofun⟩

end

/-! ## Runs -/

section
variable {enter : Act (Record A G) (Except String X)}
  {approach : X → Act (Record A G) (EgressConfig × (Record A G → Record A G))}
  {attempt : X → Act (Record A G) Result} {rollback : X → Act (Record A G) Bool}
  {rest : Except String X → Act (Record A G) Result} {ks : List (Signal Reply Raised)}
  (hstill : Still facts)
  (htried : ∀ x, rest (.ok x) =
    (attempt x).handle (connectHandler (native w) facts owns (rollback x)))
  (hattempt : ∀ x, attempt x = approach x >>= conclude (native w) facts owns)
  (henter : wpElse Regime.any enter
    (fun r m => m.host = a.host ∧ ∀ x, r = .ok x →
      wpElse Regime.any (approach x) (Arrived a) (Early a) m ∧
      rollback x = forsake dismantle keep) (fun m => m.host = a.host) s)
include hstill htried hattempt henter

/-- A run without a rollback ends well. -/
theorem ended_unhandled (hrefused : ∀ code, rest (.error code) = pure (.failure code))
    (hnone : ∀ x e n rest, RaisesAt enter attempt s ks x e n rest → isHandled e = false) :
    Ended a ((enter >>= rest) s ks).2.1 := by
  have h1 := henter.holds (any_script ks)
  change Ended a (Proc.bind enter rest s ks).2.1
  unfold Proc.bind
  rcases hr : enter s ks with ⟨(code | x) | e | _, m, ks'⟩
  · rw [hr] at h1
    simp only [hrefused]
    exact ended_of_host h1.1
  · rw [hr] at h1
    have htry : wpElse Regime.any (attempt x) (fun _ m => Named a m.vault.stored) (Ended a) m := by
      rw [hattempt]
      exact wp_seq (wp_else (h1.2 x rfl).1 fun _ => Early.ended) fun y n hy =>
        wp_else (wp_conclude hstill owns hy) fun _ h => .inl h.stored
    have h2 := htry.holds (any_script ks')
    simp only [htried, Proc.handle]
    rcases ht : attempt x m ks' with ⟨_ | e | _, n, rest'⟩
    · rw [ht] at h2
      exact .inl h2
    · rw [ht] at h2
      simp only [raise_of_not_handled (hnone x e n rest' ⟨m, ks', hr, ht⟩)]
      exact h2
    · rw [ht] at h2
      exact h2
  · rw [hr] at h1
    exact ended_of_host h1
  · rw [hr] at h1
    exact ended_of_host h1

/-- The parts of a `connect` put together: `enter` changes nothing on the host, and the approach
stores the intent before it does. -/
theorem names_or_cleans (hrefused : ∀ code, rest (.error code) = pure (.failure code))
    (hd : Dismantles a.interface dismantle) (hk : Keeps keep) :
    NamesOrCleans a enter approach attempt dismantle
      (fun x => connectHandler (native w) facts owns (rollback x)) (enter >>= rest) s := by
  refine fun ks => ⟨ended_unhandled hstill htried hattempt henter hrefused, ?_⟩
  rintro x e n rest' ⟨m, ks', hr, ht⟩ he
  have h1 := henter.holds (any_script ks)
  rw [hr] at h1
  obtain ⟨happroach, hrollback⟩ := h1.2 x rfl
  refine ⟨?_, ?_⟩
  · rw [Proc.bind_of_ok hr, htried]
    exact Proc.handle_of_raised ht
  simp only [hrollback]
  rw [hattempt] at ht
  have h2 := happroach.holds (any_script ks')
  rcases ha : approach x m ks' with ⟨y | e' | _, m', ks''⟩
  · -- the approach is over
    rw [ha] at h2
    rw [Proc.bind_of_ok ha] at ht
    have htaken := (wp_conclude (w := w) hstill owns h2).holds (any_script ks'')
    rw [ht] at htaken
    have hiff := Added.clean_iff htaken.host.1 htaken.host.2
    refine ⟨fun hend => .inr (hiff.mp (clean_of_ended hd he hk htaken.pending hend)), ?_⟩
    rintro (⟨m1, ks1, hr1, ha1⟩ | hbefore) rest _
    · cases hr.symm.trans hr1
      cases ha.symm.trans ha1
    · exact ended_of_clean hd he (hiff.mpr hbefore)
  · rw [ha] at h2
    rw [Proc.bind_of_raised ha] at ht
    cases ht
    refine iff_of_true (fun rest heffect => ?_) (.inl ⟨m, ks', hr, ha⟩)
    rcases h2 with hhost | hbegun
    · exact ended_of_clean hd he (hhost ▸ Clean.refl)
    · exact ended_of_begun hd he hk hbegun heffect
  · change Proc.bind _ _ m ks' = _ at ht
    unfold Proc.bind at ht
    rw [ha] at ht
    cases ht

end

end

/-! ## The teardown of a provider -/

section
variable {A G : Type} {i : Iface} {w : Platform}

theorem closed_disarming {I : Host → Prop} (hI : Closed i I) (disarms : Bool) :
    Stable (fun m => I m.host) (.when disarms (onFirewall Killswitch.configuredIngress >>=
      fun names => onHost ((native w).disarm names i)) : Act (Record A G) Unit) := by
  refine stable_when _ (stable_bind (stable_zoom_frame fun _ _ hm => hm) fun names => ?_)
  exact stable_zoom fun _ => (closed_disarm hI names).stable

/-- Quiet steps leave the record alone, also where they fail. -/
theorem record_tearDown (caught : Raised → Bool) {steps : Act (Record A G) Unit}
    (hsteps : Quiet steps) (s : World (Record A G)) :
    wpElse Regime.any (tearDown caught steps)
      (fun _ m => m.vault.stored = s.vault.stored ∧ m.vault.memory = s.vault.memory)
      (fun m => m.vault.stored = s.vault.stored) s := by
  refine wp_handle (wp_seq (R := fun _ m => m.vault = s.vault) ?_ fun _ m hm => wp_pure ?_)
  · refine wp_mono (hsteps.unchanged s) (fun _ _ => id) (fun e m hm => ?_) fun m hm => by rw [hm]
    split
    · exact wp_bind (wp_modify (wp_pure (by
        change m.vault.stored = _ ∧ m.vault.memory = _
        rw [hm]
        exact ⟨rfl, rfl⟩)))
    · exact wp_raise (by rw [hm])
  · rw [hm]
    exact ⟨rfl, rfl⟩

/-- A `stop_interface` whose command is refused raises if the link is there. -/
theorem stopInterface_refusing (hi : isInterface i = true) (h : Host) :
    Egress.stopInterface i h refusing =
      (if h.has i then .raised (.egress .teardownFailed) else .ok (), h, []) := by
  have hnames : checkNames [i] = pure () := if_pos (by simp [hi])
  have hanswer : (some (h.has i) == some true) = h.has i := by cases h.has i <;> rfl
  have hsee : interfaceExists i h refusing = (.ok (h.has i), h, [.go refusal]) ∧
      interfaceExists i h [] = (.ok (h.has i), h, []) := by
    rw [interfaceExists, if_pos hi, ← hanswer]
    exact ⟨rfl, rfl⟩
  rw [Egress.stopInterface, hnames]
  refine (Proc.bind_of_ok hsee.1).trans ?_
  cases hh : h.has i with
  | false => rfl
  | true =>
    rw [hh] at hsee
    have hdown : command (Host.wgDown i) h [.go refusal] = (.ok false, h, []) := rfl
    exact Proc.bind_of_raised ((Proc.bind_of_ok hdown).trans (Proc.bind_of_ok hsee.2))

/-- A teardown whose first command is refused: if the link is there, that is caught, and otherwise
the rest of the steps follow. -/
theorem tearDown_refusing {caught : Raised → Bool} {more : Act (Record A G) Unit}
    (after : Host → Host) (hi : isInterface i = true)
    (hcaught : caught (.egress .teardownFailed) = true)
    (hmore : ∀ s, more s [] = (.ok (), { s with host := after s.host }, []))
    (hhas : ∀ h, (after h).has i = h.has i) (hclean : ∀ b h, Clean b i (after h) → Clean b i h)
    (s : World (Record A G)) :
    ∃ t m, tearDown caught (onHost ((native w).stopInterface i) >>= fun _ => more) s refusing =
      (.ok t, m, []) ∧ (t = true → m.host.has i = false) ∧ m.vault.memory = s.vault.memory ∧
      ∀ b, Clean b i m.host → Clean b i s.host := by
  have hstop : (onHost ((native w).stopInterface i) : Act (Record A G) Unit) s refusing =
      (if s.host.has i then .raised (.egress .teardownFailed) else .ok (), s, []) := by
    change ((Egress.stopInterface i s.host refusing).1, hostLens.set
      (Egress.stopInterface i s.host refusing).2.1 s,
      (Egress.stopInterface i s.host refusing).2.2) = _
    rw [stopInterface_refusing hi]
    rfl
  cases hh : s.host.has i with
  | true =>
    rw [hh] at hstop
    refine ⟨false, s.note .teardownFailed, ?_, nofun, rfl, fun _ => id⟩
    refine (Proc.handle_of_raised (Proc.bind_of_raised (Proc.bind_of_raised hstop))).trans ?_
    rw [if_pos hcaught]
    rfl
  | false =>
    rw [hh] at hstop
    refine ⟨true, { s with host := after s.host }, ?_, fun _ => (hhas _).trans hh, rfl,
      fun b => hclean b _⟩
    have hsteps : (onHost ((native w).stopInterface i) >>= fun _ => more) s refusing =
        (.ok (), { s with host := after s.host }, []) := (Proc.bind_of_ok hstop).trans (hmore s)
    rw [tearDown, Proc.handle, Proc.bind_of_ok hsteps]
    rfl

end

/-! ## PIA -/

namespace Pia

variable {w : Platform} {o : Outside w} {s : World State}

theorem still_networkFacts : Still (networkFacts w (native w)) := by
  intro h
  refine stable_bind (stable_bind ?_ fun r => ?_) fun _ => stable_pure _
  · exact (preserves_handle (preserves_check _) fun _ => preserves_raise _).stable
  refine stable_bind (still_inquire h) fun _ => stable_bind ?_ fun _ => stable_pure _
  cases r.bind (·.active) with
  | none => exact stable_pure _
  | some entry => exact still_observe _ h

theorem dismantles : Dismantles interface (dismantle (native w)) where
  record _ := record_tearDown _ (quiet_bind (quiet_onHost _) fun _ => quiet_disarm _ _ _)
  closed _ hI d := by
    refine stable_tearDown _ (stable_bind ?_ fun _ => closed_disarming hI d) fun _ hm =>
      wp_modify hm
    exact stable_zoom fun _ => (closed_stopInterface hI).stable
  refused := tearDown_refusing id (by decide) rfl (fun _ => rfl) (fun _ => rfl) fun _ _ => id

/-- What a first `connect` from `s` aims at. -/
def aim (o : Outside w) (s : World State) : Aim Generation :=
  ⟨Generation.generation, o.token.text, interface, s.host, s.firewall.ingress.eraseDups⟩

theorem keeps : Keeps (leftover none) where
  candidate _ _ := rfl
  nothing a t r := by
    rintro ⟨_, ⟨⟩, ⟨g, mark, hentry, -⟩ | ⟨g, mark, hentry, -⟩⟩ <;> cases t <;> cases hentry

/-- The approach of `connect`: `attempt` up to a tunnel that is ready. -/
def approach (w : Platform) (T : Tunnel) (o : Outside w) (target : Option Text) :
    Act State (EgressConfig × (State → State)) := do
  let _ ← call o.servers
  let server ← liftExcept (select o target)
  let _ ← call o.response
  let c ← liftExcept (config w (made o server))
  mutate fun m => { m with pending := some (.of (made o server) none) }
  save
  let seen ← ready T c o.attempts lateCode
  pure (c, settle (.of (made o server) none) seen)

theorem attempt_eq (T : Tunnel) (owns : Bool) (target : Option Text) :
    attempt w T owns o target = approach w T o target >>= conclude T (networkFacts w T) owns := by
  simp only [attempt, approach, launch, ready, Proc.bind_assoc]
  rfl

theorem wp_approach {m : World State} (target : Option Text) (hhost : m.host = s.host)
    (hingress : m.firewall.ingress = s.firewall.ingress) :
    wpElse Regime.any (approach w (native w) o target) (Arrived (aim o s)) (Early (aim o s)) m := by
  have hstill {α : Type} {p : Act State α} (hp : Preserves (· = m) p) :
      wpElse Regime.any p (fun _ n => n = m) (Early (aim o s)) m :=
    wp_else (hp _ m rfl) fun n hn => .inl (hn ▸ hhost)
  refine wp_seq_eq (hstill (preserves_call _)) fun _ => ?_
  refine wp_seq_eq (hstill (preserves_liftExcept _)) fun server => ?_
  refine wp_seq_eq (hstill (preserves_call _)) fun _ => ?_
  cases hc : config w (made o server) with
  | error e => exact wp_bind (wp_raise (.inl hhost))
  | ok c =>
    refine wp_bind
      (wp_pure (wp_intend rfl ?_ (fun _ _ => ⟨rfl, rfl⟩) hhost (by rw [hingress]; rfl)))
    unfold config at hc
    split at hc
    · cases hc
      rfl
    · cases hc

/-- The handlers of `connect`. -/
def handler (w : Platform) (T : Tunnel) (owns : Bool) (o : Outside w) (s : State) :
    Raised → Act State Result :=
  connectHandler T (networkFacts w T) owns (rollback w T o s.active)

end Pia

/-! ## Proton -/

namespace Proton

variable {w : Platform} {o : Outside} {s : World State}

theorem still_networkFacts : Still (networkFacts w (native w)) := by
  intro h
  refine stable_bind (stable_bind (stable_bind ?_ fun _ => stable_pure _) fun r => ?_) fun _ =>
    stable_pure _
  · exact (preserves_handle (preserves_check _) fun _ => preserves_raise _).stable
  refine stable_bind ?_ fun _ => stable_bind (still_inquire h) fun _ => stable_pure _
  unfold connectedNow
  split
  · exact stable_pure _
  · exact still_observe _ h

theorem dismantles : Dismantles interface (dismantle (native w)) where
  record _ := record_tearDown _ (quiet_bind (quiet_onHost _) fun _ =>
    quiet_bind (quiet_onHost _) fun _ => quiet_disarm _ _ _)
  closed _ hI d := by
    refine stable_tearDown _ (stable_bind ?_ fun _ => stable_bind ?_ fun _ =>
      closed_disarming hI d) fun _ hm => wp_modify hm
    · exact stable_zoom fun _ => (closed_stopInterface hI).stable
    · exact stable_zoom fun _ => (closed_removeConfig hI).stable
  refused := tearDown_refusing (fun h => h.setConfig interface none) (by decide) rfl (fun _ => rfl)
    (fun _ => rfl) fun _ _ h => ⟨h.link, h.route, h.probe, h.ingress⟩

/-- What a first `connect` from `s` aims at. -/
def aim (o : Outside) (s : World State) : Aim Generation :=
  ⟨Generation.generation, o.token.text, interface, s.host, s.firewall.ingress.eraseDups⟩

theorem keeps : Keeps (leftover none) where
  candidate _ _ := rfl
  nothing a t r := by
    rintro ⟨_, ⟨⟩, ⟨g, mark, hentry, -⟩ | ⟨g, mark, hentry, -⟩⟩ <;> cases t <;> cases hentry

/-- The approach of `connect`: `attempt` up to a tunnel that is ready. -/
def approach (w : Platform) (T : Tunnel) (o : Outside) (item : Item) :
    Act State (EgressConfig × (State → State)) := do
  let address ← endpoint w o item.config.endpointHost
  let c ← liftExcept (config w item.config (made o item address))
  mutate fun m => { m with pending := some (.of (made o item address) none) }
  save
  let seen ← ready T c o.attempts fun _ => "vpn_connect_timeout".toList
  pure (c, settleNew o item address seen)

theorem attempt_eq (T : Tunnel) (owns : Bool) (item : Item) :
    attempt w T owns o item = approach w T o item >>= conclude T (networkFacts w T) owns := by
  simp only [attempt, approach, launch, ready, Proc.bind_assoc]
  rfl

theorem wp_approach {m : World State} (item : Item) (hhost : m.host = s.host)
    (hingress : m.firewall.ingress = s.firewall.ingress) :
    wpElse Regime.any (approach w (native w) o item) (Arrived (aim o s)) (Early (aim o s)) m := by
  refine wp_seq_eq (wp_else (preserves_endpoint (I := (· = m)) _ _ m rfl) fun n hn =>
    .inl (hn ▸ hhost)) fun address => ?_
  cases hc : config w item.config (made o item address) with
  | error e => exact wp_bind (wp_raise (.inl hhost))
  | ok c =>
    refine wp_bind
      (wp_pure (wp_intend rfl ?_ (fun _ _ => ⟨rfl, rfl⟩) hhost (by rw [hingress]; rfl)))
    unfold config at hc
    split at hc
    · cases hc
      rfl
    · cases hc

/-- The handlers of `connect`. -/
def handler (w : Platform) (T : Tunnel) (owns : Bool) (s : State) : Raised → Act State Result :=
  connectHandler T (networkFacts w T) owns (restore w T s.active)

end Proton

/-! ## The two providers -/

/-- A platform that accepts every key and address. -/
def anyPlatform : Platform := ⟨fun _ => true, fun _ => true, some⟩

theorem length_someToken : (List.replicate 32 'a').length = 32 := List.length_replicate

def someToken : Token := ⟨List.replicate 32 'a', by decide, length_someToken⟩

/-- One ingress interface, and no guard yet. -/
def plainFirewall : Firewall := ⟨false, false, "wg0".toList, [], [], none, []⟩

def Pia.someResponse : Pia.KeyResponse := ⟨tenNet 7, "server".toList, 1337, tenNet 1⟩

theorem Pia.someResponse_parsed : Pia.someResponse.Parsed anyPlatform :=
  ⟨by decide, rfl, by decide, by decide⟩

def Pia.someOutside (attempts : Nat) : Pia.Outside anyPlatform where
  servers := [⟨"nl".toList, "NL".toList, "nl1".toList, tenNet 3⟩]
  pick := 0
  keys := ⟨"key".toList, "key".toList, rfl, rfl⟩
  response := Pia.someResponse
  parsed := Pia.someResponse_parsed
  token := someToken
  attempts := attempts
  renewed := Pia.someResponse
  renewedParsed := Pia.someResponse_parsed
  casefold := id

def Pia.signedIn : World Pia.State :=
  .open plainFirewall plainHost (some (Pia.fresh "p1".toList "secret".toList)) (Pia.fresh [] [])

def Proton.someProfile : Proton.Profile where
  address := 0x0A020002
  privateKey := "key".toList
  dnsAddress := 0x0A020001
  peerPublicKey := "server".toList
  endpointHost := "192.0.2.1".toList
  endpointPort := 51820
  mtu := 1420
  presharedKey := none

def Proton.imported : Proton.State :=
  ⟨1, ⟨[⟨"id".toList, "id".toList, "home".toList, none, 0, Proton.someProfile⟩], none, by decide,
    by decide⟩, none, none, false⟩

def Proton.someOutside : Proton.Outside := ⟨0, none, someToken, 0⟩

def Proton.configured : World Proton.State :=
  .open plainFirewall plainHost (some Proton.imported) Proton.initial

def raisedBy {α : Type} : Outcome Raised α → Option Raised
  | .raised e => some e
  | _ => none

/-- A run that fails on its approach, and whose teardown takes effect. -/
theorem NamesOrCleans.ended {A G X O : Type} {a : Aim G}
    {enter : Act (Record A G) (Except String X)} {approach : X → Act (Record A G) O}
    {attempt : X → Act (Record A G) Result} {f : O → Act (Record A G) Result}
    {dismantle : Bool → Act (Record A G) Bool} {handler : X → Raised → Act (Record A G) Result}
    {connect : Act (Record A G) Result} {s m : World (Record A G)} {x : X}
    {ks ks' : List (Signal Reply Raised)} (code : Text)
    (h : NamesOrCleans a enter approach attempt dismantle handler connect s)
    (hattempt : attempt x = approach x >>= f) (henter : enter s ks = (.ok (.ok x), m, ks'))
    (hraised : raisedBy (approach x m ks').1 = some (.api code))
    (heffect : TakesEffect a.interface dismantle (approach x m ks').2.1 (approach x m ks').2.2) :
    ∀ t, connect s ks = t → Ended a t.2.1 := by
  rintro t rfl
  rcases happroach : approach x m ks' with ⟨o, n, rest⟩
  rw [happroach] at hraised heffect
  obtain rfl : o = .raised (.api code) := by
    cases o <;> cases hraised
    rfl
  have hfails : attempt x m ks' = (.raised (.api code), n, rest) := by
    rw [hattempt]
    exact Proc.bind_of_raised happroach
  obtain ⟨hrun, hiff⟩ := (h ks).2 x _ n rest ⟨m, ks', henter, hfails⟩ rfl
  rw [hrun]
  exact hiff.mpr (.inl ⟨m, ks', henter, happroach⟩) rest heffect

/-- What a teardown on a known script has done is seen from where it ends. -/
theorem takesEffect_of_run {A G : Type} {dismantle : Bool → Act (Record A G) Bool} {i : Iface}
    {n : World (Record A G)} {rest : List (Signal Reply Raised)}
    (hend : (dismantle n.vault.memory.pending.isSome (n.mutate dropped) rest).2.1.host.has i =
        false ∧ ∀ f ∈ [Family.v4, .v6], ∀ e ∈ removalRules n.firewall.ingress.eraseDups (some i) f,
      e.rule ∉ ((dismantle n.vault.memory.pending.isSome (n.mutate dropped)
        rest).2.1.host.rules f).rules) : TakesEffect i dismantle n rest := by
  intro m ks hrun
  rw [hrun] at hend
  exact ⟨hend.1, fun _ f => hend.2 f (by cases f <;> simp)⟩

/-- Every step goes through, but no probe sees the tunnel ready. -/
def neverReady : List (Signal Reply Raised) :=
  List.replicate 60 (.go ⟨none, some (tenNet 9), default⟩)

/-- Every step goes through but one: the facts for the end of the transition are not read, since the
request is cancelled. The generation has been seen ready and is stored as active by then. -/
def cancelledLate : List (Signal Reply Raised) :=
  List.replicate 41 (.go ⟨none, some (tenNet 9), ⟨true, 1, true, true⟩⟩) ++ [.fail 0 .cancelled]

/-- What is left: no generation in the store, and the rule of the ingress interface. -/
private theorem late_cancel_left {m : World Pia.State}
    (hm : (Pia.connect anyPlatform (native anyPlatform) true (Pia.someOutside 1) none Pia.signedIn
      cancelledLate).2.1 = m) :
    m.vault.stored.all (fun r => r.active.isNone && r.pending.isNone) = true ∧
      (ingressRule "wg0".toList).rule ∈ (m.host.rules .v4).rules := by
  subst hm
  decide +kernel

end ExitLane.Providers
