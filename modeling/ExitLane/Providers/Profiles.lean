import ExitLane.Providers.Outcome

/-!
# The profiles of Proton

Every operation of `proton.py` loads the record, changes its copy and saves it whole. Whatever fails
on the way, what is stored stays sane: at most 32 profiles with different configurations, each under
its own id, and no generation whose profile is gone.

* `Sane.put`, `Sane.rename`, `Sane.without`: the changes of the dictionary;
* `stored_operation`: one operation, with any fault at any step;
* `profiles_stay_sane`: all operations in turn.
-/

namespace ExitLane.Providers.Proton

open Effect Egress Net Python Vpn

/-! ## Sane records -/

/-- The generation of the entry, if it has one, names one of the profiles. -/
def Known (profiles : List Item) (entry : Option (Entry Generation)) : Prop :=
  ∀ g, entry.bind (·.generation) = some g → ∃ item ∈ profiles, item.key = g.profileId

structure Sane (s : State) : Prop where
  few : s.account.profiles.length ≤ maxProfiles
  configs : (s.account.profiles.map Item.config).Nodup
  keyed : ∀ item ∈ s.account.profiles, item.key = item.id
  active : Known s.account.profiles s.active
  pending : Known s.account.profiles s.pending

variable {s t : State} {profiles : List Item} {item : Item} {identifier : Text} {w : Platform}
  {T : Tunnel} {o : Outside} {previous candidate : Option (Entry Generation)}

theorem known_none : Known profiles none := nofun

theorem known_made (hitem : item ∈ profiles) (hkey : item.key = item.id) (o : Outside)
    (address : Bits) : Known profiles (some (.of (made o item address) none)) := by
  intro g hg
  cases hg
  exact ⟨item, hitem, hkey⟩

theorem sane_initial : Sane initial := ⟨Nat.zero_le _, List.nodup_nil, nofun, nofun, nofun⟩

/-- A change that leaves the profiles alone. -/
theorem Sane.entries (h : Sane s) (hp : t.account.profiles = s.account.profiles)
    (hactive : Known s.account.profiles t.active) (hpending : Known s.account.profiles t.pending) :
    Sane t := by
  obtain ⟨hfew, hconfigs, hkeyed, -, -⟩ := h
  rw [← hp] at hfew hconfigs hkeyed hactive hpending
  exact ⟨hfew, hconfigs, hkeyed, hactive, hpending⟩

theorem Sane.put (h : Sane s) (hitem : item.key = item.id)
    (hroom : ¬maxProfiles ≤ s.account.profiles.length)
    (hnew : ¬s.account.profiles.any (·.config == item.config) = true) :
    Sane { s with account := s.account.put item hitem } := by
  have hsub : (s.account.profiles.filter (·.key != item.key)).Sublist s.account.profiles :=
    List.filter_sublist
  have hknown {entry : Option (Entry Generation)} (he : Known s.account.profiles entry) :
      Known (s.account.put item hitem).profiles entry := by
    intro g hg
    obtain ⟨other, hother, hkey⟩ := he g hg
    by_cases hsame : other.key = item.key
    · exact ⟨item, by simp [Account.put], hsame ▸ hkey⟩
    · exact ⟨other, by simp [Account.put, Account.remove, hother, hsame], hkey⟩
  refine ⟨?_, ?_, (s.account.put item hitem).keyed, hknown h.active, hknown h.pending⟩
  · have hle := hsub.length_le
    simp only [Account.put, Account.remove, List.length_append, List.length_singleton]
    omega
  · simp only [Account.put, Account.remove, List.map_append, List.nodup_append]
    refine ⟨(hsub.map _).nodup h.configs, List.nodup_singleton _, fun c hc c' hc' heq => ?_⟩
    obtain ⟨other, hother, rfl⟩ := List.mem_map.mp hc
    rw [List.map_singleton, List.mem_singleton] at hc'
    exact hnew (List.any_eq_true.mpr ⟨other, hsub.subset hother, by simp [heq, hc']⟩)

theorem Sane.rename (h : Sane s) (name : Text) :
    Sane { s with account := s.account.rename identifier name } := by
  have hknown {entry : Option (Entry Generation)} (he : Known s.account.profiles entry) :
      Known (s.account.rename identifier name).profiles entry := by
    intro g hg
    obtain ⟨other, hother, hkey⟩ := he g hg
    refine ⟨_, List.mem_map_of_mem hother, ?_⟩
    split <;> exact hkey
  refine ⟨by simpa [Account.rename] using h.few, ?_, (s.account.rename identifier name).keyed,
    hknown h.active, hknown h.pending⟩
  simp only [Account.rename, List.map_map]
  refine (List.map_congr_left fun other _ => ?_) ▸ h.configs
  simp only [Function.comp]
  split <;> rfl

/-- A profile goes only if no generation uses it. -/
theorem Sane.without (h : Sane s) (hfree : ¬isUsed s identifier = true) :
    Sane (without s identifier) := by
  have hsub : (s.account.profiles.filter (·.key != identifier)).Sublist s.account.profiles :=
    List.filter_sublist
  have hknown {entry : Option (Entry Generation)} (hentry : entry ∈ [s.active, s.pending])
      (he : Known s.account.profiles entry) :
      Known (s.account.profiles.filter (·.key != identifier)) entry := by
    intro g hg
    obtain ⟨other, hother, hkey⟩ := he g hg
    refine ⟨other, List.mem_filter.mpr ⟨hother, bne_iff_ne.mpr fun heq => hfree ?_⟩, hkey⟩
    exact List.any_eq_true.mpr ⟨entry, hentry, by simp [hg, ← hkey, heq]⟩
  exact ⟨hsub.length_le.trans h.few, (hsub.map _).nodup h.configs,
    (s.account.remove identifier).keyed, hknown (.head _) h.active,
    hknown (.tail _ (.head _)) h.pending⟩

/-! ## The forward path and the rollback -/

/-- What is stored is sane. -/
def Stored (v : Vault State) : Prop := ∀ s, v.stored = some s → Sane s

theorem Stored.loaded {v : Vault State} (h : Stored v) : Sane (v.stored.getD initial) := by
  cases hs : v.stored with
  | none => exact sane_initial
  | some s => exact h s hs

/-- Every end of `p` leaves it so. -/
abbrev Safe {α : Type} (p : Act State α) : Prop := Stable (fun m => Stored m.vault) p

/-- So is the copy in memory, and it has these profiles. -/
structure Held (profiles : List Item) (v : Vault State) : Prop where
  stored : Stored v
  memory : Sane v.memory
  same : v.memory.account.profiles = profiles

abbrev Holds {α : Type} (profiles : List Item) (p : Act State α) : Prop :=
  Stable (fun m => Held profiles m.vault) p

theorem noted_held : Noted (Held profiles) := fun _ _ h => ⟨h.stored, h.memory, h.same⟩

theorem Held.commit {v : Vault State} (h : Held profiles v) : Held profiles v.commit :=
  ⟨fun _ hs => by cases hs; exact h.memory, h.memory, h.same⟩

theorem held_save : Holds profiles save := by
  intro w hw
  refine wp_mono_else wp_save (fun _ m hm => hm ▸ hw.commit) fun m hm => ?_
  rcases hm with hm | hm <;> rw [hm]
  · exact hw
  · exact hw.commit

theorem held_mutate {f : State → State}
    (hprofiles : ∀ s, (f s).account.profiles = s.account.profiles)
    (hentries : ∀ s, Known profiles s.active → Known profiles s.pending →
      Known profiles (f s).active ∧ Known profiles (f s).pending) : Holds profiles (mutate f) := by
  rintro w ⟨hstored, hmemory, rfl⟩
  obtain ⟨hactive, hpending⟩ := hentries w.vault.memory hmemory.active hmemory.pending
  exact wp_modify ⟨hstored, hmemory.entries (hprofiles _) hactive hpending, hprofiles _⟩

theorem held_attempt (owns : Bool) (hitem : item ∈ profiles) (hkey : item.key = item.id) :
    Holds profiles (attempt w T owns o item) := by
  have hmade := known_made hitem hkey o
  refine stable_bind ((quiet_endpoint _).stable _) fun address => ?_
  refine stable_bind ((quiet_liftExcept _).stable _) fun c => ?_
  refine stable_bind (held_mutate (fun _ => rfl) fun s ha _ => ⟨ha, hmade address⟩) fun _ => ?_
  refine stable_bind held_save fun _ =>
    stable_bind ((quiet_onFirewall _).stable _) fun ingress => ?_
  refine stable_bind ((quiet_onHost _).stable _) fun _ => ?_
  refine stable_bind (noted_held.awaitReady _ _) fun seen => ?_
  refine stable_bind ((quiet_demand _ _).stable _) fun _ => ?_
  refine stable_bind (held_mutate (fun _ => rfl) fun _ _ _ => ⟨hmade address, nofun⟩) fun _ => ?_
  exact stable_bind held_save fun _ => noted_held.finish quiet_networkFacts owns

theorem held_abandon (hprevious : Known profiles previous) (hcandidate : Known profiles candidate) :
    Holds profiles (abandon T previous candidate) := by
  refine stable_bind (noted_held.tearDown isLocal ?_) fun toreDown => ?_
  · exact quiet_bind (quiet_onHost _) fun _ => quiet_bind (quiet_onHost _) fun _ =>
      quiet_disarm T _ _
  refine stable_bind (held_mutate (fun s => ?_) fun s hactive hpending => ?_) fun _ => ?_
  · cases toreDown <;> rfl
  · cases toreDown with
    | true => cases previous <;> first | exact ⟨hactive, hpending⟩ | exact ⟨hactive, hprevious⟩
    | false => cases previous with
      | some p => exact ⟨hactive, hprevious⟩
      | none => cases candidate with
        | some c => exact ⟨hactive, hcandidate⟩
        | none => exact ⟨hactive, nofun⟩
  · exact stable_bind held_save fun _ => stable_pure _

theorem held_restorePrevious {p : Entry Generation} (hp : Known profiles (some p)) :
    Holds profiles (restorePrevious w T p) := by
  refine stable_handle (stable_bind ?_ fun x => ?_) fun e => ?_
  · refine stable_bind ((quiet_look _).stable _) fun s => ?_
    refine stable_bind ((quiet_demand _ _).stable _) fun _ => ?_
    refine stable_bind ((quiet_onFirewall _).stable _) fun _ => ?_
    exact stable_bind ((quiet_liftExcept _).stable _) fun _ => stable_pure _
  · refine stable_bind ((quiet_onHost _).stable _) fun _ =>
      stable_bind noted_held.probe fun seen => ?_
    split
    · refine stable_bind (held_mutate (fun _ => rfl) fun _ _ _ => ⟨hp, nofun⟩) fun _ => ?_
      refine stable_bind held_save fun _ => ?_
      exact stable_bind ((quiet_onHost _).stable _) fun _ => stable_pure _
    · exact stable_pure _
  · split
    · exact stable_pure _
    · exact stable_raise _

/-- The candidate of a rollback is the intent in memory. -/
theorem held_restore (hprevious : Known profiles previous) :
    Holds profiles (restore w T previous) := by
  intro m hm
  have hcandidate : Known profiles m.vault.memory.pending := hm.same ▸ hm.memory.pending
  refine wp_bind (wp_look ?_)
  refine wp_seq (held_mutate (fun _ => ?_) (fun _ _ _ => ?_) m hm) fun _ n hn => ?_
  · rfl
  · exact ⟨nofun, nofun⟩
  cases previous with
  | none => exact held_abandon known_none hcandidate n hn
  | some p =>
    refine wp_seq (held_mutate (fun _ => ?_) (fun _ ha _ => ?_) n hn) fun _ t ht => ?_
    · rfl
    · exact ⟨ha, hprevious⟩
    refine stable_bind held_save (fun _ => stable_bind (held_restorePrevious hprevious)
      fun restored => ?_) t ht
    split
    · exact stable_pure _
    · exact held_abandon hprevious hcandidate

theorem stored_connect (owns : Bool) (target : Option Text) : Safe (connect w T owns o target) := by
  intro m hm
  have hguard (n : World State) (hn : Guarding m n) : Stored n.vault := by rwa [hn.2.1]
  refine wp_seq (wp_else (wp_enter owns target m) hguard) ?_
  rintro (code | ⟨s, item⟩) t ⟨n, hn, ht⟩
  · obtain rfl := ht
    exact wp_pure (hguard t hn)
  · obtain ⟨rfl, hitem, rfl⟩ := ht
    have hsane := hm.loaded
    have hheld : Held _ (n.mutate fun _ => m.vault.stored.getD initial).vault :=
      ⟨hguard n hn, hsane, rfl⟩
    refine wp_mono_else (stable_handle (held_attempt owns hitem (hsane.keyed item hitem)) (fun e =>
      noted_held.connectHandler quiet_networkFacts owns (held_restore hsane.active) e) _ hheld)
      (fun _ _ h => h.stored) fun _ h => h.stored

/-! ## The other operations -/

theorem stored_load {α : Type} {f : State → Act State α}
    (hf : ∀ s, Sane s → Safe (f s)) : Safe (loadState >>= f) := by
  intro m hm
  refine wp_seq (wp_else wp_loadState fun _ h => h ▸ hm) ?_
  rintro s t ⟨rfl, rfl⟩
  exact hf _ hm.loaded t hm

/-- The record is replaced by another one, whole or not at all. -/
theorem stored_replace {α : Type} {rest : Act State α} (hs : Sane s)
    (hrest : Safe rest) : Safe (do mutate fun _ => s; save; rest) := by
  intro m hm
  refine mutate_seq fun n hn => save_seq ?_ ?_ fun t ht => hrest t ?_
  · rw [hn]
    exact hm
  · rintro _ ⟨⟩
    rwa [hn]
  · change Stored t.vault
    rw [ht]
    rintro _ ⟨⟩
    rwa [hn]

theorem stored_import (v : Ipv6) (o : Import) (content name : Text) (country : Option Text) :
    Safe (importProfile w v o content name country) := by
  unfold importProfile
  split
  · split
    · exact stable_pure _
    · refine stable_handle (stored_load fun s hs => ?_) fun e => ?_
      · split
        · exact stable_pure _
        · split
          · exact stable_pure _
          · exact stored_replace (hs.put _ ‹_› ‹_›) (stable_pure _)
      · split
        · exact stable_pure _
        · exact stable_raise _
  · exact stable_pure _

theorem stored_rename (identifier name : Text) : Safe (renameProfile identifier name) := by
  unfold renameProfile
  split
  · refine stored_load fun s hs => ?_
    split
    · exact stable_pure _
    · exact stored_replace (hs.rename _) (stable_pure _)
  · exact stable_pure _

theorem stored_delete (identifier : Text) : Safe (deleteProfile T identifier) := by
  refine stored_load fun s hs => ?_
  split
  · exact stable_pure _
  · split
    · exact stable_pure _
    · refine stable_bind (Quiet.stable ?_ Stored) fun ok => ?_
      · unfold forgetConfig
        split
        · refine quiet_handle (quiet_bind (quiet_onHost _) fun _ => quiet_pure _) fun e => ?_
          split <;> first | exact quiet_pure _ | exact quiet_raise _
        · exact quiet_pure _
      · split
        · exact stored_replace (hs.without ‹_›) (stable_pure _)
        · exact stable_pure _

theorem stored_disconnect (owns : Bool) : Safe (disconnect T owns) := by
  have hquiet {α : Type} {p : Act State α} (hp : Quiet p) := hp.stable Stored
  refine stable_handle (stable_bind (stable_when _ (hquiet (quiet_onFirewall _))) fun _ =>
    stored_load fun s hs => ?_) fun e => ?_
  · refine stable_bind (hquiet (quiet_onFirewall _)) fun _ => stable_bind (hquiet ?_) fun _ => ?_
    · unfold guardSource
      split
      · exact quiet_pure _
      · exact quiet_onHost _
      · exact quiet_raise _
    · refine stable_bind (hquiet (quiet_onHost _)) fun _ =>
        stable_bind (hquiet (quiet_onHost _)) fun _ => ?_
      refine stable_bind (hquiet (quiet_onHost _)) fun _ => ?_
      refine stored_replace (hs.entries rfl nofun nofun)
        (stable_bind (stable_when _ ?_) fun _ => stable_pure _)
      exact stable_bind (fun _ h => wp_modify h) fun _ => hquiet (quiet_onFirewall _)
  · split <;> first | exact stable_pure _ | exact stable_raise _

/-! ## All operations in turn -/

inductive Operation where
  | importProfile (v : Ipv6) (o : Import) (content name : Text) (country : Option Text)
  | renameProfile (identifier name : Text)
  | deleteProfile (identifier : Text)
  | connect (owns : Bool) (o : Outside) (target : Option Text)
  | disconnect (owns : Bool)

def Operation.proc (w : Platform) (T : Tunnel) : Operation → Act State Result
  | .importProfile v o content name country => Proton.importProfile w v o content name country
  | .renameProfile identifier name => Proton.renameProfile identifier name
  | .deleteProfile identifier => Proton.deleteProfile T identifier
  | .connect owns o target => Proton.connect w T owns o target
  | .disconnect owns => Proton.disconnect T owns

theorem stored_operation (op : Operation) : Safe (op.proc w T) := by
  cases op with
  | importProfile v o content name country => exact stored_import v o content name country
  | renameProfile identifier name => exact stored_rename identifier name
  | deleteProfile identifier => exact stored_delete identifier
  | connect owns o target => exact stored_connect owns target
  | disconnect owns => exact stored_disconnect owns

/-- Operations one after another, each with what its calls come to. -/
def runAll (w : Platform) (T : Tunnel) :
    List (Operation × List (Signal Reply Raised)) → World State → World State
  | [], s => s
  | (op, ks) :: rest, s => runAll w T rest (op.proc w T s ks).2.1

/-- After every sequence of operations that starts without a record, with any fault in any of them,
the stored record is sane. -/
theorem profiles_stay_sane (w : Platform) (T : Tunnel) (firewall : Firewall) (host : Host)
    (memory : State) (ops : List (Operation × List (Signal Reply Raised))) :
    Stored (runAll w T ops (.open firewall host none memory)).vault := by
  have hrun (m : World State) (hm : Stored m.vault) : Stored (runAll w T ops m).vault := by
    induction ops generalizing m with
    | nil => exact hm
    | cons step rest ih => exact ih _ ((stored_operation step.1 m hm).always (any_script step.2))
  exact hrun _ nofun

end ExitLane.Providers.Proton
