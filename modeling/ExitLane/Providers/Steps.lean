import ExitLane.Providers.Direct

/-!
# What the steps of a direct provider do to its vault

Most steps work on the host or the firewall and leave the vault alone; they are quiet. The others
save the copy in memory, change it, or add a note. What is said here holds for every tunnel, with a
fault at every step.
-/

namespace ExitLane.Providers

open Effect Egress Net Python Vpn

section
variable {S α β : Type} {p : Act S α} {I : World S → Prop} {A : Regime Reply Raised} {s : World S}

/-! ## Quiet steps -/

/-- The vault is at every end what it was. -/
def Quiet (p : Act S α) : Prop := ∀ v, Stable (fun w => w.vault = v) p

theorem Quiet.unchanged (h : Quiet p) (s : World S) :
    wpElse Regime.any p (fun _ m => m.vault = s.vault) (fun m => m.vault = s.vault) s :=
  h s.vault s rfl

/-- An invariant of the vault goes through a quiet step. -/
theorem Quiet.stable (h : Quiet p) (J : Vault S → Prop) : Stable (fun w => J w.vault) p := by
  intro s hs
  refine wp_mono (h.unchanged s) (fun _ m hm => ?_) (fun _ m hm => ?_) fun m hm => ?_ <;> rwa [hm]

theorem quiet_of_preserves (h : ∀ v, Preserves (fun w => w.vault = v) p) : Quiet p :=
  fun v => (h v).stable

theorem quiet_pure (a : α) : Quiet (pure a : Act S α) := fun _ => stable_pure a

theorem quiet_raise (e : Raised) : Quiet (.raise e : Act S α) := fun _ => stable_raise e

theorem quiet_bind {f : α → Act S β} (hp : Quiet p) (hf : ∀ a, Quiet (f a)) : Quiet (p >>= f) :=
  fun v => stable_bind (hp v) fun a => hf a v

theorem quiet_handle {g : Raised → Act S α} (hp : Quiet p) (hg : ∀ e, Quiet (g e)) :
    Quiet (p.handle g) :=
  fun v => stable_handle (hp v) fun e => hg e v

/-- Some errors are answered by a value, and the others go on. -/
theorem quiet_catch (hp : Quiet p) (caught : Raised → Bool) (a : α) :
    Quiet (p.handle fun e => if caught e then pure a else .raise e) := by
  refine quiet_handle hp fun e => ?_
  split
  · exact quiet_pure _
  · exact quiet_raise _

theorem quiet_demand (b : Bool) (e : Raised) : Quiet (.demand b e : Act S Unit) :=
  quiet_of_preserves fun _ => preserves_demand b e

theorem quiet_when (b : Bool) {p : Act S Unit} (hp : Quiet p) : Quiet (.when b p) :=
  fun v => stable_when b (hp v)

theorem quiet_look (f : World S → α) : Quiet (.look f : Act S α) :=
  quiet_of_preserves fun _ => preserves_look f

theorem quiet_onHost (p : Egress.Act α) : Quiet (onHost p : Act S α) :=
  fun _ => stable_zoom_frame fun _ _ hw => hw

theorem quiet_onFirewall (p : Killswitch.Act α) : Quiet (onFirewall p : Act S α) :=
  fun _ => stable_zoom_frame fun _ _ hw => hw

theorem quiet_load : Quiet (load : Act S (Option S)) :=
  quiet_handle (quiet_of_preserves fun _ => preserves_check _) fun _ => quiet_raise _

theorem preserves_call (value : α) : Preserves I (call value : Act S α) :=
  preserves_handle (preserves_check _) fun _ => preserves_raise _

theorem quiet_call (value : α) : Quiet (call value : Act S α) :=
  quiet_of_preserves fun _ => preserves_call value

theorem preserves_liftExcept (x : Except Raised α) : Preserves I (liftExcept x : Act S α) := by
  cases x with
  | ok a => exact preserves_pure a
  | error e => exact preserves_raise e

theorem quiet_inquire : Quiet (inquire : Act S Bool) :=
  quiet_bind (quiet_onHost _) fun _ => quiet_pure _

theorem quiet_pause : Quiet (pause : Act S Unit) :=
  quiet_handle (quiet_of_preserves fun _ => preserves_check _) fun _ => quiet_raise _

theorem quiet_liftExcept (x : Except Raised α) : Quiet (liftExcept x : Act S α) :=
  quiet_of_preserves fun _ => preserves_liftExcept x

theorem quiet_armed (owns : Bool) : Quiet (armed owns : Act S Bool) := by
  unfold armed
  split
  · refine quiet_handle (quiet_bind (quiet_onFirewall _) fun _ => quiet_pure _) fun e => ?_
    split
    · exact quiet_pure _
    · exact quiet_raise _
  · exact quiet_pure _

theorem quiet_committed (T : Tunnel) (c : EgressConfig) : Quiet (committed T c : Act S Result) :=
  quiet_bind (quiet_onHost _) fun _ => quiet_pure _

theorem quiet_disarm (T : Tunnel) (disarms : Bool) (i : Iface) :
    Quiet (.when disarms (onFirewall Killswitch.configuredIngress >>= fun ingress =>
      onHost (T.disarm ingress i)) : Act S Unit) :=
  quiet_when _ (quiet_bind (quiet_onFirewall _) fun _ => quiet_onHost _)

theorem quiet_provedFacts (T : Tunnel) {facts : Act S TunnelFacts} (hfacts : Quiet facts)
    (config : Option EgressConfig) : Quiet (provedFacts T facts config) := by
  cases config with
  | none => exact hfacts
  | some c =>
    refine quiet_bind (quiet_onHost _) fun proved => ?_
    cases proved with
    | none => exact hfacts
    | some f => exact quiet_pure f

/-! ## Steps before the `try` of `connect` -/

theorem wp_load :
    wpElse A load (fun stored m => m = s ∧ stored = s.vault.stored) (fun m => m = s) s := by
  refine wp_handle
    (wp_check (fun _ he => ⟨rfl, ?_⟩) nofun (fun _ _ _ => wp_raise rfl) fun _ _ => rfl)
  cases he
  rfl

/-- Only the guard may differ, and not in its interfaces. -/
def Guarding (s m : World S) : Prop :=
  m.host = s.host ∧ m.vault = s.vault ∧ m.firewall.ingress = s.firewall.ingress

theorem guarding_armed (s : World S) (owns : Bool) : Stable (Guarding s) (armed owns) := by
  have harm : Stable (Guarding s) (onFirewall Killswitch.arm : Act S Unit) :=
    stable_zoom fun _ => (Killswitch.preserves_arm (fun _ h => h) fun _ _ h => h).stable
  unfold armed
  split
  · refine stable_handle (stable_bind harm fun _ => stable_pure _) fun e => ?_
    split
    · exact stable_pure _
    · exact stable_raise _
  · exact stable_pure _

/-! ## Steps that change the vault -/

namespace Vault

def note (n : Note S) (v : Vault S) : Vault S := { v with notes := n :: v.notes }

def mutate (f : S → S) (v : Vault S) : Vault S := { v with memory := f v.memory }

def commit (v : Vault S) : Vault S :=
  { v with stored := some v.memory, notes := .saved v.memory :: v.notes }

end Vault

theorem wp_note {n : Note S} :
    wpElse Regime.any (note n) (fun _ m => m.vault = s.vault.note n) (fun _ => False) s :=
  wp_modify rfl

/-- The row is written whole or not at all, also where the write fails. -/
theorem wp_commit : wpElse A save (fun _ m => m = s.commit) (fun m => m = s ∨ m = s.commit) s := by
  refine wp_handle (wp_atomic rfl (fun _ _ _ => ⟨?_, ?_⟩) fun _ _ => ⟨.inl rfl, .inr rfl⟩)
  · exact wp_raise (.inl rfl)
  · exact wp_raise (.inr rfl)

theorem wp_save :
    wpElse Regime.any save (fun _ m => m.vault = s.vault.commit)
      (fun m => m.vault = s.vault ∨ m.vault = s.vault.commit) s := by
  have hvault (m : World S) (hm : m = s ∨ m = s.commit) :
      m.vault = s.vault ∨ m.vault = s.vault.commit := by
    rcases hm with rfl | rfl
    · exact .inl rfl
    · exact .inr rfl
  exact wp_mono_else wp_commit (fun _ m hm => by rw [hm]; rfl) hvault

/-- The answer of a probe is noted with it. -/
theorem wp_probe {T : Tunnel} {c : EgressConfig} :
    wpElse Regime.any (probe T c) (fun seen m => m.vault = s.vault.note (.probed c seen))
      (fun m => m.vault = s.vault) s := by
  refine wp_seq ((quiet_onHost (T.probe c)).unchanged s) fun seen m hm => ?_
  refine wp_seq (wp_else wp_note fun _ => False.elim) ?_
  intro _ m' hm'
  exact wp_pure (by rw [hm', hm])

/-! ## Sequences

A property `J` of the vault is to hold wherever the sequence stops early. -/

section
variable {J : Vault S → Prop} {Q : β → World S → Prop} {s : World S} {f : Unit → Act S β}

theorem Quiet.seq {p : Act S α} {f : α → Act S β} (hp : Quiet p) (hs : J s.vault)
    (hf : ∀ a m, m.vault = s.vault →
      wpElse Regime.any (f a) Q (fun m => J m.vault) m) :
    wpElse Regime.any (p >>= f) Q (fun m => J m.vault) s :=
  wp_seq (wp_else (hp.unchanged s) fun m hm => by rwa [hm]) hf

theorem demand_seq {b : Bool} {e : Raised} (hs : J s.vault)
    (hf : b = true → wpElse Regime.any (f ()) Q (fun m => J m.vault) s) :
    wpElse Regime.any (.demand b e >>= f) Q (fun m => J m.vault) s :=
  wp_bind (wp_demand hf fun _ => hs)

theorem liftExcept_seq {x : Except Raised α} {f : α → Act S β} (hs : J s.vault)
    (hf : ∀ a, x = .ok a → wpElse Regime.any (f a) Q (fun m => J m.vault) s) :
    wpElse Regime.any (liftExcept x >>= f) Q (fun m => J m.vault) s := by
  cases x with
  | ok a => exact wp_bind (wp_pure (hf a rfl))
  | error e => exact wp_bind (wp_raise hs)

theorem look_seq {g : World S → α} {f : α → Act S β}
    (hf : wpElse Regime.any (f (g s)) Q (fun m => J m.vault) s) :
    wpElse Regime.any (.look g >>= f) Q (fun m => J m.vault) s :=
  wp_bind (wp_look hf)

theorem mutate_seq {g : S → S}
    (hf : ∀ m, m.vault = s.vault.mutate g →
      wpElse Regime.any (f ()) Q (fun m => J m.vault) m) :
    wpElse Regime.any (mutate g >>= f) Q (fun m => J m.vault) s :=
  wp_bind (wp_modify (hf _ rfl))

theorem save_seq (hs : J s.vault) (hcommit : J s.vault.commit)
    (hf : ∀ m, m.vault = s.vault.commit →
      wpElse Regime.any (f ()) Q (fun m => J m.vault) m) :
    wpElse Regime.any (save >>= f) Q (fun m => J m.vault) s := by
  have hend (m : World S) (hm : m.vault = s.vault ∨ m.vault = s.vault.commit) : J m.vault := by
    rcases hm with hm | hm <;> rwa [hm]
  exact wp_seq (wp_else wp_save hend) fun _ => hf

theorem probe_seq {T : Tunnel} {c : EgressConfig} {f : Observation → Act S β} (hs : J s.vault)
    (hf : ∀ seen m, m.vault = s.vault.note (.probed c seen) →
      wpElse Regime.any (f seen) Q (fun m => J m.vault) m) :
    wpElse Regime.any (probe T c >>= f) Q (fun m => J m.vault) s :=
  wp_seq (wp_else wp_probe fun m hm => by rwa [hm]) hf

end

/-! ## Handlers -/

section
variable {T : Tunnel} {facts : Act S TunnelFacts} {owns : Bool} {rollback : Act S Bool}

theorem stable_tearDown (caught : Raised → Bool) {steps : Act S Unit}
    (hsteps : Stable I steps) (hnote : Stable I (note .teardownFailed)) :
    Stable I (tearDown caught steps) := by
  refine stable_handle (stable_bind hsteps fun _ => stable_pure _) fun e => ?_
  split
  · exact stable_bind hnote fun _ => stable_pure _
  · exact stable_raise _

/-- The errors that the handlers of `connect` answer with a rollback. -/
def isHandled : Raised → Bool
  | .cancelled | .value | .api _ | .egress _ | .secret => true
  | _ => false

theorem raise_of_not_handled {e : Raised} (he : isHandled e = false) :
    connectHandler T facts owns rollback e = .raise e := by
  cases e <;> first | rfl | cases he

/-- A handler rolls back, ends the transition if that is safe, and reports no success. -/
theorem wp_handled {R : Bool → World S → Prop}
    {K X : World S → Prop} {e : Raised} (he : isHandled e = true) (hK : ∀ m, K m → X m)
    (hrollback : wpElse A rollback R X s)
    (hend : ∀ safe m, R safe m → wpElse A (.when (owns && safe)
      (completeTransition T facts none >>= fun _ => pure ())) (fun _ => K) X m) :
    wpElse A (connectHandler T facts owns rollback e)
      (fun result m => K m ∧ result.ok = false) X s := by
  have hlast {last : Act S Result}
      (hl : ∀ m, K m → wpElse A last (fun result m => K m ∧ result.ok = false) X m) :
      wpElse A (rollback >>= fun safe => do
        .when (owns && safe) (completeTransition T facts none >>= fun _ => pure ())
        last) (fun result m => K m ∧ result.ok = false) X s :=
    wp_seq hrollback fun safe m hm => wp_seq (hend safe m hm) fun _ => hl
  cases e with
  | cancelled => exact hlast fun m hm => wp_raise (hK m hm)
  | value => exact hlast fun m hm => wp_pure ⟨hm, rfl⟩
  | api code => exact hlast fun m hm => wp_pure ⟨hm, rfl⟩
  | egress code => exact hlast fun m hm => wp_pure ⟨hm, rfl⟩
  | secret => exact hlast fun m hm => wp_pure ⟨hm, rfl⟩
  | _ => cases he

end

/-! ## Properties that notes and saves keep -/

section
variable {J : Vault S → Prop} {T : Tunnel} {facts : Act S TunnelFacts} {c : EgressConfig}

/-- `J` does not depend on the notes. -/
def Noted (J : Vault S → Prop) : Prop := ∀ n v, J v → J (v.note n)

section
variable (hnote : Noted J)
include hnote

theorem Noted.note (n : Note S) : Stable (fun w => J w.vault) (note n) :=
  fun _ hs => wp_modify (hnote n _ hs)

theorem Noted.completeTransition (hfacts : Quiet facts)
    (config : Option EgressConfig) :
    Stable (fun w => J w.vault) (completeTransition T facts config) := by
  refine stable_handle
    (stable_bind ((quiet_provedFacts T hfacts _).stable J) fun _ => ?_) fun e => ?_
  · refine stable_bind (fun _ hs => wp_modify (hnote _ _ hs)) fun _ => ?_
    exact stable_bind ((quiet_onFirewall _).stable J) fun _ => stable_pure _
  · split <;> first | exact stable_pure _ | exact stable_raise _

/-- The end of the forward path adds notes only. -/
theorem Noted.finish (hfacts : Quiet facts) (owns : Bool) :
    Stable (fun w => J w.vault) (finish T facts owns c) := by
  unfold Providers.finish
  split
  · refine stable_bind (hnote.completeTransition hfacts _) fun done => ?_
    split
    · exact (quiet_committed T c).stable J
    · exact stable_pure _
  · exact (quiet_committed T c).stable J

theorem Noted.probe : Stable (fun w => J w.vault) (probe T c) :=
  stable_bind ((quiet_onHost _).stable J) fun _ => stable_bind (hnote.note _) fun _ => stable_pure _

theorem Noted.awaitReady (attempts : Nat) (last : Observation) :
    Stable (fun w => J w.vault) (awaitReady T c attempts last) := by
  induction attempts generalizing last with
  | zero => exact stable_pure _
  | succ n ih =>
    refine stable_bind hnote.probe fun seen => ?_
    split
    · exact stable_pure _
    · exact stable_bind (quiet_pause.stable J) fun _ => ih seen

theorem Noted.tearDown (caught : Raised → Bool) {steps : Act S Unit}
    (hsteps : Quiet steps) : Stable (fun w => J w.vault) (tearDown caught steps) :=
  stable_tearDown caught (hsteps.stable J) (hnote.note _)

theorem Noted.connectHandler (hfacts : Quiet facts) (owns : Bool)
    {rollback : Act S Bool} (hrollback : Stable (fun w => J w.vault) rollback) (e : Raised) :
    Stable (fun w => J w.vault) (connectHandler T facts owns rollback e) := by
  cases he : isHandled e with
  | false =>
    rw [raise_of_not_handled he]
    exact stable_raise _
  | true =>
    refine fun s hs => wp_post (wp_handled he (fun _ => id) (hrollback s hs) ?_) fun _ _ h => h.1
    exact fun safe m hm => stable_when _ (stable_bind (hnote.completeTransition hfacts none)
      fun _ => stable_pure _) m hm

end

end

end

end ExitLane.Providers
