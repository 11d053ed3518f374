import ExitLane.Providers.Mullvad
import ExitLane.Providers.Pia
import ExitLane.Providers.Proton
import ExitLane.Providers.Steps

/-!
# What a connect has proved

A direct provider may end a transition, or report success, only for a tunnel that it has seen to
work. In a record without a pending intent the active generation gives a configuration, and the
record is proven once a probe of exactly that configuration has answered ready.
-/

namespace ExitLane.Providers

open Effect Egress Net Python Vpn

/-! ## Proven records -/

section
variable {S : Type} {live : S → Option EgressConfig} {v : Vault S} {s : World S} {T : Tunnel}
  {c : EgressConfig} {facts : Act S TunnelFacts}

/-- A probe of the configuration has answered ready. -/
def Ready (notes : List (Note S)) (c : EgressConfig) : Prop :=
  ∃ seen, Note.probed c seen ∈ notes ∧ seen.ready = true

/-- `live` gives the configuration of a record that has an active generation and no pending one. -/
def Proven (live : S → Option EgressConfig) (notes : List (Note S)) (s : S) : Prop :=
  ∃ c, live s = some c ∧ Ready notes c

/-- A transition may be completed while a proven record is stored. -/
def allowed (live : S → Option EgressConfig) (past : List (Note S)) : Note S → Prop
  | .completed stored => ∃ s, stored = some s ∧ Proven live past s
  | _ => True

def Sound (live : S → Option EgressConfig) (v : Vault S) : Prop := Lawful (allowed live) v.notes

def Settled (live : S → Option EgressConfig) (v : Vault S) : Prop :=
  ∃ s, v.stored = some s ∧ Proven live v.notes s

theorem Sound.commit (h : Sound live v) : Sound live v.commit := ⟨trivial, h⟩

theorem Sound.probed (h : Sound live v) (seen : Observation) :
    Sound live (v.note (.probed c seen)) :=
  ⟨trivial, h⟩

theorem Ready.cons {notes : List (Note S)} (h : Ready notes c) (n : Note S) :
    Ready (n :: notes) c := by
  obtain ⟨seen, hm, hr⟩ := h
  exact ⟨seen, List.mem_cons_of_mem _ hm, hr⟩

/-! ## The shared steps -/

/-- A loop that ends with an answer has seen it. -/
theorem wp_awaitReady (attempts : Nat) {last : Observation} (hlast : last.ready = false)
    (hs : Sound live s.vault) :
    wpElse Regime.any (awaitReady T c attempts last)
      (fun seen m => m.vault.memory = s.vault.memory ∧ Sound live m.vault ∧
        (seen.ready = true → Ready m.vault.notes c))
      (fun m => Sound live m.vault) s := by
  induction attempts generalizing s last with
  | zero =>
    refine wp_pure ⟨rfl, hs, fun h => ?_⟩
    rw [hlast] at h
    cases h
  | succ n ih =>
    refine probe_seq hs fun seen m hm => ?_
    have hnoted : Sound live m.vault := by rw [hm]; exact hs.probed seen
    cases hready : seen.ready with
    | true =>
      rw [if_pos rfl]
      refine wp_pure ⟨by rw [hm]; rfl, hnoted, fun _ => ⟨seen, ?_, hready⟩⟩
      rw [hm]
      exact List.mem_cons_self
    | false =>
      rw [if_neg Bool.false_ne_true]
      refine quiet_pause.seq hnoted fun _ m' hm' => ?_
      refine wp_post (ih hready (by rwa [hm'])) fun _ t ht => ?_
      exact ⟨by rw [ht.1, hm', hm]; rfl, ht.2⟩

/-- The end of a transition adds one note at most. -/
theorem wp_completeTransition (hfacts : Quiet facts) (config : Option EgressConfig) :
    wpElse Regime.any (completeTransition T facts config)
      (fun _ m => m.vault = s.vault ∨ m.vault = s.vault.note (.completed s.vault.stored))
      (fun m => m.vault = s.vault ∨ m.vault = s.vault.note (.completed s.vault.stored)) s := by
  refine wp_handle (wp_seq (R := fun _ m => m.vault = s.vault) ?_ fun proved m hm => ?_)
  · refine wp_mono ((quiet_provedFacts T hfacts config).unchanged s) (fun _ _ => id)
      (fun e m hm => ?_) fun _ => .inl
    cases e with
    | killswitch => exact wp_pure (.inl hm)
    | egress code => exact wp_pure (.inl hm)
    | secret => exact wp_pure (.inl hm)
    | _ => exact wp_raise (.inl hm)
  · refine wp_seq (wp_modify (Q := fun _ m' => m'.vault = s.vault.note (.completed s.vault.stored))
      ?_) fun _ m' hm' => ?_
    · change m.vault.note (.completed m.vault.stored) = _
      rw [hm]
    refine wp_seq (R := fun _ t => t.vault = m'.vault) ?_ fun _ t ht => wp_pure ?_
    · refine wp_mono ((quiet_onFirewall _).unchanged m') (fun _ _ => id) (fun e t ht => ?_)
        fun t ht => ?_
      · have hend : t.vault = s.vault ∨ t.vault = s.vault.note (.completed s.vault.stored) :=
          .inr (by rw [ht, hm'])
        cases e with
        | killswitch => exact wp_pure hend
        | egress code => exact wp_pure hend
        | secret => exact wp_pure hend
        | _ => exact wp_raise hend
      · exact .inr (by rw [ht, hm'])
    · exact .inr (by rw [ht, hm'])

/-- What holds of a sound vault with a proven record holds still when a transition was completed. -/
theorem Settled.completed (hset : Settled live v) (hs : Sound live v) {v' : Vault S}
    (h : v' = v ∨ v' = v.note (.completed v.stored)) :
    Sound live v' ∧ v'.stored = v.stored ∧ (∀ c, Ready v.notes c → Ready v'.notes c) := by
  rcases h with rfl | rfl
  · exact ⟨hs, rfl, fun _ => id⟩
  · exact ⟨⟨hset, hs⟩, rfl, fun _ h => h.cons _⟩

/-- The new generation is stored and proven when the forward path reports success. -/
theorem wp_finish (hfacts : Quiet facts) (owns : Bool) (hs : Sound live s.vault)
    (hset : Settled live s.vault) :
    wpElse Regime.any (finish T facts owns c)
      (fun _ m => Sound live m.vault ∧ m.vault.stored = s.vault.stored ∧
        ∀ c, Ready s.vault.notes c → Ready m.vault.notes c)
      (fun m => Sound live m.vault) s := by
  have hcommit (m : World S) (hm : Sound live m.vault ∧ m.vault.stored = s.vault.stored ∧
      ∀ c, Ready s.vault.notes c → Ready m.vault.notes c) :
      wpElse Regime.any (committed T c) (fun _ m => Sound live m.vault ∧
        m.vault.stored = s.vault.stored ∧ ∀ c, Ready s.vault.notes c → Ready m.vault.notes c)
        (fun m => Sound live m.vault) m :=
    wp_mono_else ((quiet_committed T c).unchanged m) (fun _ t ht => by rwa [ht]) fun t ht => by
      rw [ht]
      exact hm.1
  unfold finish
  cases owns with
  | false => exact hcommit s ⟨hs, rfl, fun _ => id⟩
  | true =>
    refine wp_seq
      (wp_mono_else (wp_completeTransition hfacts (some c)) (fun _ m hm => hset.completed hs hm)
      fun m hm => (hset.completed hs hm).1) fun done m hm => ?_
    cases done with
    | true => exact hcommit m hm
    | false => exact wp_pure hm

/-- `m0` is the record in memory with its intent, and `c` the configuration of the intent. -/
theorem wp_launch (hfacts : Quiet facts) (owns : Bool) (attempts : Nat) (late : Observation → Text)
    {settle : Observation → S → S} {m0 : S} (hlive : ∀ seen, live (settle seen m0) = some c)
    (hmemory : s.vault.memory = m0) (hs : Sound live s.vault) :
    wpElse Regime.any (launch T facts owns c attempts late settle)
      (fun _ m => Sound live m.vault ∧
        ∃ seen, m.vault.stored = some (settle seen m0) ∧ Ready m.vault.notes c)
      (fun m => Sound live m.vault) s := by
  refine (quiet_onFirewall _).seq hs fun ingress m hm => ?_
  refine (quiet_onHost (T.start c ingress)).seq (by rwa [hm]) fun _ n hn => ?_
  refine wp_seq (wp_awaitReady attempts rfl (by rwa [hn, hm])) fun seen n' hn' => ?_
  obtain ⟨hkept, hsound, hready⟩ := hn'
  refine demand_seq hsound fun hseen => mutate_seq fun t ht => ?_
  have hmem : t.vault.memory = settle seen m0 := by
    rw [ht]
    change settle seen _ = _
    rw [hkept, hn, hm, hmemory]
  have hsound' : Sound live t.vault := by rw [ht]; exact hsound
  refine save_seq hsound' hsound'.commit fun u hu => ?_
  have hstored : u.vault.stored = some (settle seen m0) := by rw [hu, ← hmem]; rfl
  have hproof : Ready u.vault.notes c := by
    rw [hu, ht]
    exact (hready hseen).cons _
  have hend : Sound live u.vault := by rw [hu]; exact hsound'.commit
  have hset : Settled live u.vault := ⟨_, hstored, c, hlive seen, hproof⟩
  refine wp_post (wp_finish hfacts owns hend hset) fun _ r hr => ?_
  exact ⟨hr.1, seen, by rw [hr.2.1, hstored], hr.2.2 c hproof⟩

/-- A proven record is stored that `isNew` recognises. -/
def Kept (live : S → Option EgressConfig) (isNew : S → Prop) (v : Vault S) : Prop :=
  ∃ t, v.stored = some t ∧ isNew t ∧ Proven live v.notes t

/-- The end of a forward path leaves a new record, kept. -/
abbrev Renews (live : S → Option EgressConfig) (isNew : S → Prop) (p : Act S Result) :
    World S → Prop :=
  wpElse Regime.any p (fun _ m => Sound live m.vault ∧ Kept live isNew m.vault)
    fun m => Sound live m.vault

/-- A result that reports success comes with a new record, kept. -/
abbrev Reports (live : S → Option EgressConfig) (isNew : S → Prop) (p : Act S Result) :
    World S → Prop :=
  wpElse Regime.any p
    (fun result m => Sound live m.vault ∧ (result.ok = true → Kept live isNew m.vault))
    fun m => Sound live m.vault

/-- The forward path from the intent on. -/
theorem wp_saveLaunch (hfacts : Quiet facts) (owns : Bool) {attempts : Nat}
    {late : Observation → Text} {settle : Observation → S → S} {isNew : S → Prop}
    (hlive : ∀ seen, live (settle seen s.vault.memory) = some c)
    (hnew : ∀ seen, isNew (settle seen s.vault.memory)) (hs : Sound live s.vault) :
    Renews live isNew (save >>= fun _ => launch T facts owns c attempts late settle) s := by
  refine save_seq hs hs.commit fun u hu => ?_
  have hmemory : u.vault.memory = s.vault.memory := by rw [hu]; rfl
  refine wp_post
    (wp_launch hfacts owns attempts late hlive hmemory (by rw [hu]; exact hs.commit)) ?_
  rintro _ t ⟨hsound, seen, hstored, hready⟩
  exact ⟨hsound, _, hstored, hnew seen, c, hlive seen, hready⟩

/-- What a rollback answers for: if it reports the tunnel as restored, a proven record is stored. -/
def Restores (live : S → Option EgressConfig) (p : Act S Bool) : Prop :=
  ∀ s : World S, Sound live s.vault →
    wp Regime.any p
      (fun restored m => Sound live m.vault ∧ (restored = true → Settled live m.vault))
      (fun _ m => Sound live m.vault) (fun m => Sound live m.vault) s

theorem restores_restart {prepare : Act S (EgressConfig × List Iface)}
    {settle : Observation → S → S} (hprepare : ∀ s : World S, wpElse Regime.any prepare
      (fun x m => m.vault = s.vault ∧ ∀ seen, live (settle seen s.vault.memory) = some x.1)
      (fun m => m.vault = s.vault) s) : Restores live (restart T prepare settle) := by
  intro s hs
  refine wp_seq (wp_else (hprepare s) fun m hm => by rwa [hm]) fun x m hm => ?_
  obtain ⟨c, ingress⟩ := x
  obtain ⟨hm, hlive⟩ := hm
  refine (quiet_onHost (T.start c ingress)).seq (by rwa [hm]) fun _ n hn => ?_
  refine probe_seq (by rwa [hn, hm]) fun seen t ht => ?_
  have hnoted : Sound live t.vault := by
    rw [ht, hn, hm]
    exact hs.probed seen
  cases hready : seen.ready with
  | false =>
    rw [if_neg Bool.false_ne_true]
    exact wp_pure ⟨hnoted, nofun⟩
  | true =>
    rw [if_pos rfl]
    refine mutate_seq fun u hu => ?_
    have hmem : u.vault.memory = settle seen s.vault.memory := by
      rw [hu, ht, hn, hm]
      rfl
    have hsound : Sound live u.vault := by rw [hu]; exact hnoted
    refine save_seq hsound hsound.commit fun x hx => ?_
    have hstored : Sound live x.vault ∧ Settled live x.vault := by
      rw [hx]
      refine ⟨hsound.commit, _, rfl, c, ?_, seen, ?_, hready⟩
      · rw [hmem]
        exact hlive seen
      · rw [hu, ht]
        exact List.mem_cons_of_mem _ List.mem_cons_self
    refine (quiet_onHost (T.committed c)).seq hstored.1 fun _ y hy => wp_pure ?_
    rw [hy]
    exact ⟨hstored.1, fun _ => hstored.2⟩

/-- A restart whose failure is swallowed. -/
theorem Restores.handle {p : Act S Bool} (hp : Restores live p) (caught : Raised → Bool) :
    Restores live (p.handle fun e => if caught e then pure false else .raise e) := by
  intro s hs
  refine wp_try (hp s hs) fun e m hm => ?_
  cases caught e with
  | true => exact wp_pure ⟨hm, nofun⟩
  | false => exact wp_raise hm

/-- Nothing that keeps the vault sound and then answers false has to prove anything. -/
theorem restores_of_stable {p : Act S Unit} (hp : Stable (fun w => Sound live w.vault) p) :
    Restores live (p >>= fun _ => pure false) :=
  fun s hs => wp_seq (hp s hs) fun _ _ hm => wp_pure ⟨hm, nofun⟩

theorem Restores.bind {α : Type} {p : Act S α} {f : α → Act S Bool}
    (hp : Stable (fun w => Sound live w.vault) p) (hf : ∀ a, Restores live (f a)) :
    Restores live (p >>= f) :=
  fun s hs => wp_seq (hp s hs) fun a m hm => hf a m hm

/-- One attempt to restore, and another way if it fails. -/
theorem Restores.orElse {p q : Act S Bool} (hp : Restores live p) (hq : Restores live q) :
    Restores live (p >>= fun restored => if restored then pure true else q) := by
  intro s hs
  refine wp_seq (hp s hs) fun restored m hm => ?_
  cases restored with
  | true => exact wp_pure hm
  | false => exact hq m hm.1

/-- The handlers of `connect` never report success. -/
theorem wp_connectHandler (hfacts : Quiet facts) (owns : Bool) {rollback : Act S Bool}
    (hrollback : Restores live rollback) (e : Raised) (hs : Sound live s.vault) :
    wpElse Regime.any (connectHandler T facts owns rollback e)
      (fun result m => Sound live m.vault ∧ result.ok = false) (fun m => Sound live m.vault) s := by
  cases he : isHandled e with
  | false =>
    rw [raise_of_not_handled he]
    exact wp_raise hs
  | true =>
    refine wp_handled he (fun _ => id) (hrollback s hs) fun safe m hm => ?_
    refine wp_when (fun hb => ?_) fun _ => hm.1
    have hset : Settled live m.vault := hm.2 (Bool.and_eq_true_iff.mp hb).2
    exact wp_seq (wp_mono_else (wp_completeTransition hfacts none)
      (fun _ t ht => (hset.completed hm.1 ht).1) fun t ht => (hset.completed hm.1 ht).1)
        fun _ t ht => wp_pure ht

/-- The body of the `try` in `connect` with its handlers. -/
theorem wp_tried (hfacts : Quiet facts) (owns : Bool) {attempt : Act S Result}
    {rollback : Act S Bool} {isNew : S → Prop} (hattempt : Renews live isNew attempt s)
    (hrollback : Restores live rollback) :
    Reports live isNew (attempt.handle (connectHandler T facts owns rollback)) s := by
  refine wp_handle (wp_mono hattempt (fun _ m hm => ⟨hm.1, fun _ => hm.2⟩) (fun e m hm => ?_)
    fun _ => id)
  refine wp_post (wp_connectHandler hfacts owns hrollback e hm) fun result t ht =>
    ⟨ht.1, fun h => ?_⟩
  rw [ht.2] at h
  cases h

/-! ### Steps that complete nothing -/

theorem Quiet.sound {α : Type} {p : Act S α} (h : Quiet p) :
    Stable (fun w => Sound live w.vault) p :=
  h.stable (Sound live)

theorem sound_mutate (f : S → S) : Stable (fun w => Sound live w.vault) (mutate f) :=
  fun _ hs => wp_modify hs

theorem sound_note {n : Note S} (hn : ∀ past, allowed live past n) :
    Stable (fun w => Sound live w.vault) (note n) :=
  fun _ hs => wp_modify ⟨hn _, hs⟩

theorem sound_save : Stable (fun w => Sound live w.vault) save := by
  intro s hs
  refine wp_mono_else wp_save (fun _ m hm => ?_) fun m hm => ?_
  · rw [hm]
    exact hs.commit
  · rcases hm with hm | hm <;> rw [hm]
    · exact hs
    · exact hs.commit

theorem sound_tearDown (caught : Raised → Bool) {steps : Act S Unit} (hsteps : Quiet steps) :
    Stable (fun w => Sound live w.vault) (tearDown caught steps) :=
  stable_tearDown caught hsteps.sound (sound_note fun _ => trivial)

/-! ## Outcomes -/

/-- What a run of `connect` answers for. A reported success comes with a stored record that `isNew`
recognises and that is proven; and each transition was completed over a proven record. -/
def Accounted (live : S → Option EgressConfig) (isNew : S → Prop)
    (r : Outcome Raised Result × World S × List (Signal Reply Raised)) : Prop :=
  (∀ result, r.1 = .ok result → result.ok = true →
    ∃ t, r.2.1.vault.stored = some t ∧ isNew t ∧ Proven live r.2.1.vault.notes t) ∧
  Lawful (allowed live) r.2.1.vault.notes

/-- The run starts without notes. -/
def World.open (firewall : Firewall) (host : Host) (stored : Option S) (memory : S) : World S :=
  ⟨firewall, host, stored, memory, []⟩

theorem sound_open (firewall : Firewall) (host : Host) (stored : Option S) (memory : S) :
    Sound live (World.open firewall host stored memory).vault := trivial

theorem accounted_of_wp {isNew : S → Prop} {p : Act S Result}
    (h : Reports live isNew p s) (ks : List (Signal Reply Raised)) :
    Accounted live isNew (p s ks) := by
  have hh := h.holds (any_script ks)
  unfold Accounted
  revert hh
  cases (p s ks).1 with
  | ok result =>
    rintro ⟨hsound, hok⟩
    exact ⟨fun _ he => by cases he; exact hok, hsound⟩
  | raised e => exact fun hsound => ⟨nofun, hsound⟩
  | crashed => exact fun hsound => ⟨nofun, hsound⟩

end

/-! ## Mullvad -/

namespace Mullvad

variable {w : Platform} {T : Tunnel} {o : Outside}

/-- The configuration of an active generation, if nothing is pending. -/
def live (w : Platform) (s : State) : Option EgressConfig :=
  if s.pending.isNone then s.active.bind fun entry => (configOf w s entry).toOption else none

theorem live_of {s : State} {entry : Entry Generation} {c : EgressConfig}
    (hpending : s.pending = none) (hactive : s.active = some entry)
    (hc : configOf w s entry = .ok c) : live w s = some c := by
  simp [live, hpending, hactive, hc, Except.toOption]

/-- The active generation is the one this run made, and there is no intent beside it. -/
def IsNew (o : Outside) (s : State) : Prop :=
  s.pending = none ∧ ∃ relay handshake, s.active = some (.of (made o relay handshake) none)

theorem quiet_connectedNow (s : State) : Quiet (connectedNow w T s) := by
  unfold connectedNow
  split
  · exact quiet_pure _
  · exact quiet_catch (quiet_bind (quiet_liftExcept _) fun _ => quiet_onHost _) _ _

theorem quiet_isConnected (conflict : Bool) (s : Option State) :
    Quiet (isConnected w T conflict s) := by
  cases s with
  | none => exact quiet_pure _
  | some r =>
    simp only [isConnected]
    split
    · exact quiet_connectedNow r
    · exact quiet_pure _

theorem quiet_status : Quiet (status w T) := by
  refine quiet_bind quiet_load fun s => quiet_bind quiet_inquire fun _ => ?_
  refine quiet_bind (quiet_bind quiet_inquire fun _ => quiet_bind quiet_inquire fun _ =>
    quiet_pure _) fun conflict => ?_
  exact quiet_bind (quiet_isConnected conflict s) fun _ => quiet_pure _

theorem quiet_networkFacts : Quiet (networkFacts w T) :=
  quiet_bind quiet_status fun _ => quiet_pure _

theorem live_settle {s : State} {relay : Relay} {c : EgressConfig}
    (h : config w s.account relay o.token.text = .ok c) (seen : Observation) :
    live w (settle o relay seen s) = some c :=
  live_of rfl rfl (show configOf w (settle o relay seen s) (.of (made o relay _) none) =
    .ok c from h)

/-- The body of the `try` reports success over its own generation only. -/
theorem wp_attempt {s : World State} (owns : Bool) (target : Option Text)
    (hs : Sound (live w) s.vault) :
    Renews (live w) (IsNew o) (attempt w T owns o target s.vault.memory) s := by
  refine (quiet_call _).seq hs fun devices m hm => demand_seq (by rwa [hm]) fun _ => ?_
  refine (quiet_call _).seq (by rwa [hm]) fun _ m' hm' => ?_
  refine liftExcept_seq (by rwa [hm', hm]) fun relay _ => ?_
  refine liftExcept_seq (by rwa [hm', hm]) fun c hc => mutate_seq fun n hn => ?_
  refine wp_saveLaunch quiet_networkFacts owns (live_settle ?_) (fun _ => ⟨rfl, relay, _, rfl⟩) ?_
  · rw [hn, hm', hm]
    exact hc
  · rw [hn, hm', hm]
    exact hs

theorem live_resettle {s : State} {previous : Entry Generation} {c : EgressConfig}
    (h : configOf w s previous = .ok c) (seen : Observation) :
    live w (resettle previous seen s) = some c := by
  cases previous with
  | bare mark => cases h
  | of g mark =>
    exact live_of rfl rfl (show configOf w (resettle (.of g mark) seen s) _ = .ok c from h)

theorem restores_restore (previous : Entry Generation) :
    Restores (live w) (restore w T previous) := by
  refine (restores_restart fun s => ?_).handle isBroken
  refine look_seq (J := (· = s.vault)) (liftExcept_seq (J := (· = s.vault)) rfl fun c hc => ?_)
  refine (quiet_onFirewall _).seq (J := (· = s.vault)) rfl fun _ m hm =>
    wp_pure ⟨hm, fun seen => ?_⟩
  exact live_resettle hc seen

theorem sound_stop : Stable (fun m => Sound (live w) m.vault) (stop T) :=
  stable_bind (sound_tearDown isEgress (quiet_onHost _)) fun _ => stable_when _ (sound_mutate _)

theorem restores_rollback (previous : Option (Entry Generation)) :
    Restores (live w) (rollback w T previous) := by
  refine .bind (quiet_look _).sound fun candidate => .bind (sound_mutate _) fun _ => ?_
  cases previous with
  | some p =>
    refine .bind (sound_mutate _) fun _ => (restores_restore p).orElse ?_
    refine .bind (sound_note fun _ => trivial) fun _ => .bind sound_stop fun _ => ?_
    exact restores_of_stable sound_save
  | none =>
    refine .bind sound_stop fun _ => .bind (stable_when _ (sound_note fun _ => trivial)) fun _ => ?_
    exact .bind (sound_mutate _) fun _ => restores_of_stable sound_save

theorem wp_connect (owns : Bool) (target : Option Text) {s : World State}
    (hs : Sound (live w) s.vault) : Reports (live w) (IsNew o) (connect w T owns o target) s := by
  refine quiet_load.seq hs fun stored m hm => ?_
  have hm' : Sound (live w) m.vault := by rwa [hm]
  cases stored with
  | none => exact wp_pure ⟨hm', nofun⟩
  | some r =>
    simp only
    split
    · refine (quiet_armed owns).seq hm' fun ok n hn => ?_
      cases ok with
      | false => exact wp_pure ⟨by rwa [hn], nofun⟩
      | true =>
        rw [if_pos rfl]
        refine mutate_seq fun u hu => ?_
        have hsound : Sound (live w) u.vault := by rw [hu, hn]; exact hm'
        have hmem : u.vault.memory = r := by rw [hu]; rfl
        subst hmem
        exact wp_tried quiet_networkFacts owns (wp_attempt owns target hsound) (restores_rollback _)
    · exact wp_pure ⟨hm', nofun⟩

end Mullvad

/-! ## PIA -/

namespace Pia

variable {w : Platform} {T : Tunnel} {o : Outside w}

/-- The configuration of an active generation, if nothing is pending. -/
def live (w : Platform) (s : State) : Option EgressConfig :=
  if s.pending.isNone then s.active.bind fun entry => (configOf w entry).toOption else none

/-- The active generation is the one this run made, and there is no intent beside it. -/
def IsNew (o : Outside w) (s : State) : Prop :=
  s.pending = none ∧ ∃ server, s.active = some (.of (made o server) none)

theorem quiet_connectedNow (entry : Option (Entry Generation)) :
    Quiet (connectedNow w T entry) := by
  cases entry with
  | none => exact quiet_pure _
  | some entry =>
    exact quiet_catch (quiet_bind (quiet_liftExcept _) fun _ => quiet_onHost _) _ _

theorem quiet_networkFacts : Quiet (networkFacts w T) := by
  refine quiet_bind ?_ fun _ => quiet_pure _
  exact quiet_bind quiet_load fun s => quiet_bind quiet_inquire fun _ =>
    quiet_bind (quiet_connectedNow _) fun _ => quiet_pure _

theorem live_settle {entry : Entry Generation} {c : EgressConfig} (h : configOf w entry = .ok c)
    (seen : Observation) (s : State) : live w (settle entry seen s) = some c := by
  simp only [live, settle, Option.isNone_none, if_true, Option.bind_some, h]
  rfl

theorem wp_attempt {s : World State} (owns : Bool) (target : Option Text)
    (hs : Sound (live w) s.vault) : Renews (live w) (IsNew o) (attempt w T owns o target) s := by
  refine (quiet_call _).seq hs fun _ m hm => liftExcept_seq (by rwa [hm]) fun server _ => ?_
  refine (quiet_call _).seq (by rwa [hm]) fun _ m' hm' => ?_
  refine liftExcept_seq (by rwa [hm', hm]) fun c hc => mutate_seq fun n hn => ?_
  have hlive (seen : Observation) :
      live w (settle (.of (made o server) none) seen n.vault.memory) = some c :=
    live_settle (show configOf w (.of (made o server) none) = .ok c from hc) seen _
  refine wp_saveLaunch quiet_networkFacts owns hlive (fun _ => ⟨rfl, server, rfl⟩) ?_
  rw [hn, hm', hm]
  exact hs

theorem restores_start (entry : Entry Generation) :
    Restores (live w) (restart T (prepare w entry) (settle entry)) := by
  refine restores_restart fun s => ?_
  refine liftExcept_seq (J := (· = s.vault)) rfl fun c hc => ?_
  refine (quiet_onFirewall _).seq (J := (· = s.vault)) rfl fun _ m hm =>
    wp_pure ⟨hm, fun seen => ?_⟩
  exact live_settle hc seen _

theorem restores_reregister (previous : Entry Generation) :
    Restores (live w) (reregister w T o previous) := by
  refine Restores.handle ?_ isRefused
  cases renew o previous with
  | none => exact fun _ hs => wp_raise hs
  | some restored =>
    refine .bind (quiet_call _).sound fun _ => .bind (sound_mutate _) fun _ => ?_
    exact .bind sound_save fun _ => restores_start restored

theorem restores_abandon (previous candidate : Option (Entry Generation)) :
    Restores (live w) (abandon T previous candidate) := by
  refine .bind (sound_tearDown isEgress ?_) fun _ => .bind (sound_mutate _) fun _ => ?_
  · exact quiet_bind (quiet_onHost _) fun _ => quiet_disarm T _ _
  exact restores_of_stable sound_save

theorem restores_rollback (previous : Option (Entry Generation)) :
    Restores (live w) (rollback w T o previous) := by
  refine .bind (quiet_look _).sound fun candidate => .bind (sound_mutate _) fun _ => ?_
  cases previous with
  | some p =>
    refine .bind (sound_mutate _) fun _ => .bind sound_save fun _ => ?_
    refine ((restores_start p).handle isBroken).orElse ?_
    exact (restores_reregister p).orElse (restores_abandon _ _)
  | none => exact restores_abandon _ _

/-- Nothing is saved before the `try`, and what is in memory then is the stored record. -/
theorem wp_enter (owns : Bool) (s : World State) :
    wpElse Regime.any (enter owns)
      (fun r m => ∃ n, Guarding s n ∧ match r with
        | .error _ => m = n
        | .ok st => s.vault.stored = some st ∧ m = n.mutate fun _ => st)
      (fun m => Guarding s m) s := by
  have hrefl : Guarding s s := ⟨rfl, rfl, rfl⟩
  refine wp_seq_read (wp_else wp_load fun m hm => hm ▸ hrefl) ?_
  split
  · exact wp_pure ⟨s, hrefl, rfl⟩
  · next st hst =>
    refine wp_seq (guarding_armed s owns s hrefl) fun ok n hn => ?_
    split
    · exact wp_bind (wp_modify (wp_pure ⟨n, hn, hst, rfl⟩))
    · exact wp_pure ⟨n, hn, rfl⟩

theorem wp_connect (owns : Bool) (target : Option Text) {s : World State}
    (hs : Sound (live w) s.vault) : Reports (live w) (IsNew o) (connect w T owns o target) s := by
  have hguard (n : World State) (hn : Guarding s n) : Sound (live w) n.vault := by rwa [hn.2.1]
  refine wp_seq (wp_else (wp_enter owns s) hguard) ?_
  rintro (code | st) m ⟨n, hn, hm⟩
  · obtain rfl := hm
    exact wp_pure ⟨hguard m hn, nofun⟩
  · obtain ⟨-, rfl⟩ := hm
    have hsound : Sound (live w) (n.mutate fun _ => st).vault := hguard n hn
    exact wp_tried quiet_networkFacts owns (wp_attempt owns target hsound) (restores_rollback _)

end Pia

/-! ## Proton -/

namespace Proton

variable {w : Platform} {T : Tunnel} {o : Outside} {item : Item}

/-- The configuration of an active generation, if nothing is pending. -/
def live (w : Platform) (s : State) : Option EgressConfig :=
  if s.pending.isNone then s.active.bind fun entry => (configOf w s entry).toOption else none

theorem live_of {s : State} {entry : Entry Generation} {c : EgressConfig}
    (hpending : s.pending = none) (hactive : s.active = some entry)
    (hc : configOf w s entry = .ok c) : live w s = some c := by
  simp [live, hpending, hactive, hc, Except.toOption]

/-- The active generation is the one this run made, and there is no intent beside it. -/
def IsNew (o : Outside) (s : State) : Prop :=
  s.pending = none ∧ ∃ item address, s.active = some (.of (made o item address) none)

theorem quiet_loadState : Quiet loadState := quiet_bind quiet_load fun _ => quiet_pure _

theorem quiet_connectedNow (s : State) : Quiet (connectedNow w T s) := by
  unfold connectedNow
  split
  · exact quiet_pure _
  · exact quiet_catch (quiet_bind (quiet_liftExcept _) fun _ => quiet_onHost _) _ _

theorem quiet_networkFacts : Quiet (networkFacts w T) := by
  refine quiet_bind ?_ fun _ => quiet_pure _
  exact quiet_bind quiet_loadState fun s => quiet_bind (quiet_connectedNow s) fun _ =>
    quiet_bind quiet_inquire fun _ => quiet_pure _

theorem preserves_endpoint {I : World State → Prop} (host : Text) :
    Preserves I (endpoint w o host) := by
  refine preserves_bind ?_ fun address => ?_
  · unfold lookUp
    split
    · exact preserves_pure _
    · refine preserves_handle (preserves_call _) fun e => ?_
      split
      · exact preserves_pure _
      · exact preserves_raise _
  · cases address with
    | none => exact preserves_raise _
    | some a => exact preserves_seq (preserves_demand _ _) <| preserves_pure _

theorem quiet_endpoint (host : Text) : Quiet (endpoint w o host) :=
  quiet_of_preserves fun _ => preserves_endpoint host

/-- A profile is found under its key. -/
theorem find_of_mem {a : Account} (h : item ∈ a.profiles) : a.find item.id = some item := by
  have hnodup := a.distinct
  rw [← a.keyed item h]
  revert hnodup h
  unfold Account.find
  induction a.profiles with
  | nil => exact nofun
  | cons other rest ih =>
    intro h hnodup
    rw [List.map_cons, List.nodup_cons] at hnodup
    rcases List.mem_cons.mp h with rfl | h
    · simp
    · have hne : other.key ≠ item.key := fun he => hnodup.1 (he ▸ List.mem_map_of_mem h)
      rw [List.find?_cons_of_neg (by simpa using hne)]
      exact ih h hnodup.2

theorem mem_of_find {a : Account} {id : Text} (h : a.find id = some item) : item ∈ a.profiles :=
  List.mem_of_find?_eq_some h

theorem mem_of_choose {s : State} {target : Option Text} (h : choose o s target = some item) :
    item ∈ s.account.profiles := by
  unfold choose at h
  split at h
  · next found hfound =>
    cases h
    obtain ⟨id, -, hid⟩ := Option.bind_eq_some_iff.mp hfound
    exact mem_of_find hid
  · have hmem := List.mem_of_getElem? h
    simp only [candidates] at hmem
    split at hmem
    · split at hmem
      · next found hfound =>
        obtain ⟨id, -, hid⟩ := Option.bind_eq_some_iff.mp hfound
        rw [List.mem_singleton.mp hmem]
        exact mem_of_find hid
      · exact hmem
    · split at hmem
      · exact (List.mem_filter.mp hmem).1
      · cases hmem

theorem live_settleNew {s : State} {address : Bits} {c : EgressConfig}
    (hitem : item ∈ s.account.profiles) (h : config w item.config (made o item address) = .ok c)
    (seen : Observation) : live w (settleNew o item address seen s) = some c := by
  have hconfig : configOf w (settleNew o item address seen s) (.of (made o item address) none) =
      .ok c := by
    have hfind : (settleNew o item address seen s).account.find item.id = some item :=
      find_of_mem hitem
    simp only [configOf, made] at h ⊢
    rw [hfind]
    exact h
  exact live_of rfl rfl hconfig

theorem wp_attempt {s : World State} (owns : Bool) (hitem : item ∈ s.vault.memory.account.profiles)
    (hs : Sound (live w) s.vault) : Renews (live w) (IsNew o) (attempt w T owns o item) s := by
  refine (quiet_endpoint _).seq hs fun address m hm => ?_
  refine liftExcept_seq (by rwa [hm]) fun c hc => mutate_seq fun n hn => ?_
  refine wp_saveLaunch quiet_networkFacts owns (live_settleNew ?_ hc)
    (fun _ => ⟨rfl, item, address, rfl⟩) ?_
  · rw [hn, hm]
    exact hitem
  · rw [hn, hm]
    exact hs

theorem live_settle {s : State} {entry : Entry Generation} {c : EgressConfig}
    (h : configOf w s entry = .ok c) (seen : Observation) : live w (settle entry seen s) = some c :=
  live_of rfl rfl (show configOf w (settle entry seen s) entry = .ok c from h)

theorem restores_restorePrevious (previous : Entry Generation) :
    Restores (live w) (restorePrevious w T previous) := by
  refine (restores_restart fun s => ?_).handle isBroken
  refine look_seq (J := (· = s.vault)) (demand_seq (J := (· = s.vault)) rfl fun _ => ?_)
  refine (quiet_onFirewall _).seq (J := (· = s.vault)) rfl fun _ m hm => ?_
  refine liftExcept_seq (J := (· = s.vault)) hm fun c hc => wp_pure ⟨hm, fun seen => ?_⟩
  exact live_settle hc seen

theorem restores_abandon (previous candidate : Option (Entry Generation)) :
    Restores (live w) (abandon T previous candidate) := by
  refine .bind (sound_tearDown isLocal ?_) fun _ => .bind (sound_mutate _) fun _ => ?_
  · exact quiet_bind (quiet_onHost _) fun _ => quiet_bind (quiet_onHost _) fun _ =>
      quiet_disarm T _ _
  exact restores_of_stable sound_save

theorem restores_restore (previous : Option (Entry Generation)) :
    Restores (live w) (restore w T previous) := by
  refine .bind (quiet_look _).sound fun candidate => .bind (sound_mutate _) fun _ => ?_
  cases previous with
  | some p =>
    refine .bind (sound_mutate _) fun _ => .bind sound_save fun _ => ?_
    exact (restores_restorePrevious p).orElse (restores_abandon _ _)
  | none => exact restores_abandon _ _

theorem wp_loadState {A : Regime Reply Raised} {s : World State} :
    wpElse A loadState (fun st m => m = s ∧ st = s.vault.stored.getD initial)
      (fun m => m = s) s := by
  refine wp_seq_read wp_load ?_
  exact wp_pure ⟨rfl, rfl⟩

/-- Nothing is saved before the `try`, and what is in memory then is the stored record. -/
theorem wp_enter (owns : Bool) (target : Option Text) (s : World State) :
    wpElse Regime.any (enter owns o target)
      (fun r m => ∃ n, Guarding s n ∧ match r with
        | .error _ => m = n
        | .ok (st, item) => st = s.vault.stored.getD initial ∧ item ∈ st.account.profiles ∧
            m = n.mutate fun _ => st)
      (fun m => Guarding s m) s := by
  have hrefl : Guarding s s := ⟨rfl, rfl, rfl⟩
  refine wp_seq (wp_else wp_loadState fun m hm => hm ▸ hrefl) ?_
  rintro st m ⟨rfl, hst⟩
  split
  · exact wp_pure ⟨m, hrefl, rfl⟩
  · split
    · exact wp_pure ⟨m, hrefl, rfl⟩
    · next item hitem =>
      refine wp_seq (guarding_armed m owns m hrefl) fun ok n hn => ?_
      split
      · exact wp_bind (wp_modify (wp_pure ⟨n, hn, hst, mem_of_choose hitem, rfl⟩))
      · exact wp_pure ⟨n, hn, rfl⟩

theorem wp_connect (owns : Bool) (target : Option Text) {s : World State}
    (hs : Sound (live w) s.vault) : Reports (live w) (IsNew o) (connect w T owns o target) s := by
  have hguard (n : World State) (hn : Guarding s n) : Sound (live w) n.vault := by rwa [hn.2.1]
  refine wp_seq (wp_else (wp_enter owns target s) hguard) ?_
  rintro (code | ⟨st, item⟩) m ⟨n, hn, hm⟩
  · obtain rfl := hm
    exact wp_pure ⟨hguard m hn, nofun⟩
  · obtain ⟨-, hitem, rfl⟩ := hm
    have hsound : Sound (live w) (n.mutate fun _ => st).vault := hguard n hn
    exact wp_tried quiet_networkFacts owns (wp_attempt owns hitem hsound) (restores_restore _)

end Proton

/-! ## Connects of the three providers -/

/-- Each run of `connect`, with any fault at any step, reports success only over the generation that
it made itself, stored as active without an intent beside it, and probed as ready; and it completes
a transition only while a record is stored that a probe of this run has proved. -/
theorem connect_proves_what_it_reports (w : Platform) (T : Tunnel) (owns : Bool)
    (target : Option Text) (firewall : Firewall) (host : Host) (ks : List (Signal Reply Raised)) :
    (∀ (o : Mullvad.Outside) (stored : Option Mullvad.State) (memory : Mullvad.State),
      Accounted (Mullvad.live w) (Mullvad.IsNew o)
        (Mullvad.connect w T owns o target (.open firewall host stored memory) ks)) ∧
    (∀ (o : Pia.Outside w) (stored : Option Pia.State) (memory : Pia.State),
      Accounted (Pia.live w) (Pia.IsNew o)
        (Pia.connect w T owns o target (.open firewall host stored memory) ks)) ∧
    (∀ (o : Proton.Outside) (stored : Option Proton.State) (memory : Proton.State),
      Accounted (Proton.live w) (Proton.IsNew o)
        (Proton.connect w T owns o target (.open firewall host stored memory) ks)) := by
  refine ⟨fun o stored memory => ?_, fun o stored memory => ?_, fun o stored memory => ?_⟩
  · exact accounted_of_wp (Mullvad.wp_connect owns target (sound_open _ _ _ _)) ks
  · exact accounted_of_wp (Pia.wp_connect owns target (sound_open _ _ _ _)) ks
  · exact accounted_of_wp (Proton.wp_connect owns target (sound_open _ _ _ _)) ks

end ExitLane.Providers
