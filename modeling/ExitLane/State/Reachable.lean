import ExitLane.State.Subnet

/-!
# What the WireGuard directory holds

After a first setup in an empty directory and any peer operations, the WireGuard directory holds the
server file and one client file for each row, and nothing else; every client file is printable.

* `Tidy.plan`, `run_tidy`: each peer operation keeps the directory so, and every run;
* `tidy_of_firstSetup`: the first setup leaves such a directory;
* `valid_of_run`: a reachable state whose files can be read is one that `_validate_state` accepts.
-/

namespace ExitLane.State
open Python IpAddress Peers Ingress

/-- The texts of a profile are printable. -/
structure PlainProfile (profile : Profile) : Prop where
  dns : Printable profile.dns
  serverPublicKey : Printable profile.serverPublicKey
  endpoint : Printable profile.endpoint
  allowedIps : Printable profile.allowedIps

theorem PlainProfile.client {profile : Profile} (h : PlainProfile profile) {privateKey : Text}
    (hkey : Printable privateKey) (n : Nat) : PlainClient profile privateKey (ipv4Text n) :=
  ⟨hkey, printable_hostText n, h.dns, h.serverPublicKey, h.endpoint, h.allowedIps⟩

/-- The directory holds the server file and a printable client file for each row. -/
structure Tidy (interface : Text) (s : Store) : Prop where
  names : ∀ name, s.files name ≠ none ↔
    name = interface ∨ ∃ r ∈ s.table.rows, r.configName = name
  clients : ∀ r ∈ s.table.rows, ∃ profile privateKey tunnelIp,
    PlainClient profile privateKey tunnelIp ∧
      s.files r.configName = some (written (clientText profile privateKey tunnelIp))
  profile : ∀ profile, s.profile = some profile → PlainProfile profile

section Step
variable {w : Platform} (hw : WireGuardKeys w) {interface : Text} {s : Store} {srv : Server}
  {profile : Profile} {d : Draw} {c : Change} {v : Validated} {peerId : Text} {s' : Store}

include hw in
theorem Tidy.create (h : Tidy interface s) (hvalid : Valid w interface s srv profile)
    {name description key : Text} {ip : Nat} {profile' : Profile}
    (hp : CreatePlan w interface name description d s v c ip key profile')
    (hfresh : s.files d.configName = none) : Tidy interface (s.apply c) := by
  have hrow (r : Row) (hr : r ∈ s.table.rows) : r.configName ≠ d.configName := fun heq =>
    (h.names r.configName).mpr (.inr ⟨r, hr, rfl⟩) (heq ▸ hfresh)
  have hfiles (n : Text) : (s.apply c).files n = if n = d.configName then
      some (written (clientText profile' d.privateKey (ipv4Text ip))) else if n = interface then
      some (written (render v.pre (v.peers ++
        [⟨key, hostText (ipv4Text ip), some (intText profile'.serverKeepalive)⟩]))) else
      s.files n := by
    rw [Store.apply_files, hp.newFiles, setFiles_two]
    rfl
  refine ⟨fun n => ?_, ?_, h.profile⟩
  · rw [hfiles, show (s.apply c).table.rows = _ from hp.rows]
    simp only [List.mem_append, List.mem_singleton, or_and_right, exists_or, exists_eq_left]
    by_cases hn : n = d.configName
    · simp [hn, newRow]
    · by_cases hi : n = interface
      · rw [if_neg hn, if_pos hi]
        simp [hi]
      · rw [if_neg hn, if_neg hi, h.names, newRow]
        simp [hi, Ne.symm hn]
  · rw [show (s.apply c).table.rows = _ from hp.rows, List.forall_mem_append]
    constructor
    · intro r hr
      rw [hfiles, if_neg (hrow r hr), if_neg (hvalid.configName_ne hr)]
      exact h.clients r hr
    · intro r hr
      rw [List.mem_singleton.mp hr, newRow, hfiles, if_pos rfl]
      exact ⟨profile', d.privateKey, ipv4Text ip, (h.profile _ hp.profileRow).client
        (printable_of_isWireGuardKey (hw _ _ hp.derived).1) ip, rfl⟩

/-- The names of the client files do not change with the other columns. -/
theorem configNames_update {rows : List Row} (f : Row → Row)
    (hf : ∀ r, (f r).configName = r.configName) (name : Text) :
    (∃ r ∈ rows.map fun r => if r.peerId = peerId then f r else r, r.configName = name) ↔
      ∃ r ∈ rows, r.configName = name := by
  have hsame (r : Row) : (if r.peerId = peerId then f r else r).configName = r.configName := by
    split
    · exact hf r
    · rfl
  simp only [List.mem_map, exists_exists_and_eq_and, hsame]

section
variable (h : Tidy interface s) {row : Row}
include h

/-- An operation that rewrites files but adds and removes none. -/
theorem Tidy.rewrite
    (hrows : ∀ name, (∃ r ∈ s'.table.rows, r.configName = name) ↔
      ∃ r ∈ s.table.rows, r.configName = name) (hnone : ∀ n, s'.files n = none ↔ s.files n = none)
    (hclients : ∀ n, n ≠ interface → s'.files n = s.files n ∨
      ∃ profile privateKey tunnelIp, PlainClient profile privateKey tunnelIp ∧
        s'.files n = some (written (clientText profile privateKey tunnelIp)))
    (hne : ∀ r ∈ s.table.rows, r.configName ≠ interface) (hprofile : s'.profile = s.profile) :
    Tidy interface s' := by
  refine ⟨fun n => ?_, fun r hr => ?_, fun p hp => h.profile p (hprofile ▸ hp)⟩
  · rw [ne_eq, hnone, hrows]
    exact h.names n
  · obtain ⟨r0, hr0, heq⟩ := (hrows r.configName).mp ⟨r, hr, rfl⟩
    rcases hclients r.configName (heq ▸ hne r0 hr0) with hkept | hnew
    · rw [hkept, ← heq]
      exact h.clients r0 hr0
    · exact hnew

include hw in
theorem Tidy.regenerate (hvalid : Valid w interface s srv profile)
    {key : Text} {profile' : Profile}
    (hp : RegeneratePlan w interface peerId d s v c row key profile') :
    Tidy interface (s.apply c) := by
  obtain ⟨hrow, rfl⟩ := hp.found
  obtain ⟨ip, hip, -, -⟩ := (hvalid.rows row hrow).address
  have hplain := (h.profile _ hp.profileRow).client
    (printable_of_isWireGuardKey (hw _ _ hp.derived).1) ip
  have hserver := (h.names interface).mpr (.inl rfl)
  have hclient := (h.names row.configName).mpr (.inr ⟨row, hrow, rfl⟩)
  have hfiles (n : Text) := (s.apply_files c n).trans (by rw [hp.newFiles, setFiles_two])
  refine h.rewrite (fun name => ?_) (fun n => ?_) (fun n hn => ?_)
    (fun r hr => hvalid.configName_ne hr) rfl
  · rw [show (s.apply c).table.rows = _ from hp.rows]
    exact configNames_update (regeneratedRow d key) (fun _ => rfl) name
  · rw [hfiles]
    by_cases hc : n = row.configName
    · simp [hc, hclient]
    · by_cases hi : n = interface
      · rw [if_neg hc, if_pos hi, hi]
        simp [hserver]
      · rw [if_neg hc, if_neg hi]
  · rw [hfiles]
    by_cases hc : n = row.configName
    · rw [if_pos hc, hip]
      exact .inr ⟨profile', d.privateKey, ipv4Text ip, hplain, rfl⟩
    · rw [if_neg hc, if_neg hn]
      exact .inl rfl

theorem Tidy.revoke (hvalid : Valid w interface s srv profile)
    (hp : RevokePlan interface peerId d s v c row) : Tidy interface (s.apply c) := by
  have hserver := (h.names interface).mpr (.inl rfl)
  have hfiles (n : Text) := (s.apply_files c n).trans (by rw [hp.newFiles, setFiles_one])
  refine h.rewrite (fun name => ?_) (fun n => ?_) (fun n hn => ?_)
    (fun r hr => hvalid.configName_ne hr) rfl
  · rw [show (s.apply c).table.rows = _ from hp.rows]
    exact configNames_update (revokedRow d) (fun _ => rfl) name
  · rw [hfiles]
    by_cases hi : n = interface
    · simp [hi, hserver]
    · rw [if_neg hi]
  · rw [hfiles, if_neg hn]
    exact .inl rfl

theorem Tidy.update (hvalid : Valid w interface s srv profile)
    {name description : Text} (hp : updateOperation peerId name description d s = .ok c) :
    Tidy interface (s.apply c) := by
  obtain ⟨-, hnew, hrows⟩ := updateOperation_eq_ok hp
  have hfiles (n : Text) : (s.apply c).files n = s.files n := by
    rw [Store.apply_files, hnew]
    rfl
  refine h.rewrite (fun name => ?_) (fun n => by rw [hfiles]) (fun n _ => .inl (hfiles n))
    (fun r hr => hvalid.configName_ne hr) rfl
  rw [show (s.apply c).table.rows = _ from hrows]
  exact configNames_update (renamedRow d _ _) (fun _ => rfl) name

theorem Tidy.delete (hvalid : Valid w interface s srv profile)
    (hp : DeletePlan peerId s c row) : Tidy interface (s.apply c) := by
  obtain ⟨hrow, rfl⟩ := hp.found
  have hfiles (n : Text) :
      (s.apply c).files n = if n = row.configName then none else s.files n := by
    rw [Store.apply_files, hp.newFiles, setFiles_one]
    rfl
  have hother (r : Row) (hr : r ∈ s.table.rows) (hne : r ≠ row) : r.configName ≠ row.configName :=
    fun e => hne (eq_of_column s.table.constraints.configName hr hrow e)
  refine ⟨fun n => ?_, fun r hr => ?_, h.profile⟩
  · rw [hfiles]
    constructor
    · intro hsome
      by_cases hn : n = row.configName
      · simp [hn] at hsome
      rw [if_neg hn] at hsome
      rcases (h.names n).mp hsome with hi | ⟨r, hr, rfl⟩
      · exact .inl hi
      · exact .inr ⟨r, hp.mem_rows.mpr ⟨hr, fun e => hn (by rw [e])⟩, rfl⟩
    · rintro (rfl | ⟨r, hr, rfl⟩)
      · rw [if_neg (hvalid.configName_ne hrow).symm]
        exact (h.names n).mpr (.inl rfl)
      · obtain ⟨hr, hne⟩ := hp.mem_rows.mp hr
        rw [if_neg (hother r hr hne)]
        exact (h.names _).mpr (.inr ⟨r, hr, rfl⟩)
  · obtain ⟨hr, hne⟩ := hp.mem_rows.mp hr
    rw [hfiles, if_neg (hother r hr hne)]
    exact h.clients r hr

include hw in
/-- **Step lemma.** Each peer operation keeps the directory tidy. -/
theorem Tidy.plan {op : Operation} (hp : plan w interface d s op = .ok c)
    (hfresh : FreshId d s op) : Tidy interface (s.apply c) := by
  obtain ⟨v, hv, hplan⟩ := plan_eq_ok hp
  obtain ⟨srv, profile, hvalid, -⟩ := validateState_eq_ok.mp hv
  cases hplan with
  | create hplan => exact h.create hw hvalid hplan hfresh
  | update hplan => exact h.update hvalid hplan
  | regenerate hplan => exact h.regenerate hw hvalid hplan
  | revoke hplan => exact h.revoke hvalid hplan
  | delete hplan => exact h.delete hvalid hplan

include hw in
/-- **Run lemma.** -/
theorem run_tidy (hrun : Relation.ReflTransGen (Step w interface) s s') : Tidy interface s' := by
  induction hrun with
  | refl => exact h
  | tail _ hstep ih =>
    obtain ⟨op, d, c, hp, hfresh, rfl⟩ := hstep
    exact ih.plan hw hp hfresh

end

/-! ## The last operation -/

/-- Every file is within what `_read` accepts. -/
def Readable (s : Store) : Prop :=
  ∀ name f, s.files name = some (.file f) → utf8Length f.text ≤ 65536

/-- A state that an operation has left is valid if its files can be read. -/
theorem valid_of_step (hstep : Step w interface s s') (hreadable : Readable s') :
    ∃ srv profile, Valid w interface s' srv profile := by
  obtain ⟨op, d, c, hp, hfresh, rfl⟩ := hstep
  have hfits : c.Fits := by
    intro item hitem t ht
    have hfile : (s.apply c).files item.1 = some (written t) := by
      rw [Store.apply_files, setFiles_of_mem (nodup_newFiles hp hfresh) hitem,
        Option.mem_def.mp ht]
      rfl
    exact hreadable _ _ hfile
  obtain ⟨v, hv, -⟩ := plan_eq_ok hp
  obtain ⟨srv, profile, hvalid, -⟩ := validateState_eq_ok.mp hv
  obtain ⟨srv', hvalid', -⟩ := plan_valid hvalid hp hfresh hfits
  exact ⟨srv', profile, hvalid'⟩

/-- A run ends where it began or with an operation that has validated the state before it. -/
theorem valid_of_run (hvalid : ∃ srv profile, Valid w interface s srv profile)
    (hrun : Relation.ReflTransGen (Step w interface) s s') (hreadable : Readable s') :
    ∃ srv profile, Valid w interface s' srv profile := by
  cases hrun with
  | refl => exact hvalid
  | tail _ hstep => exact valid_of_step hstep hreadable

end Step

/-! ## The first setup -/

section Setup
variable {w : Platform} (hw : WireGuardKeys w) {req : SetupRequest} {created : Created} {s : Store}
include hw

/-- The keys of a setup are keys that `wg` printed. -/
theorem isWord_of_firstSetup (hs : FirstSetup w req created s) :
    isWord created.head.privateKey = true := by
  obtain ⟨_, _, network, clientHost, clientPublic, hfacts⟩ := hs.facts
  obtain ⟨-, -, serverPublic, -, -, hserver, -⟩ := hfacts.client
  rw [hfacts.head]
  exact isWord_of_isWireGuardKey (hw _ _ hserver).1

/-- The profile was read from a printable client file. -/
theorem plainProfile_of_firstSetup (hs : FirstSetup w req created s)
    (hallowed : Printable req.allowedIps) {profile : Profile}
    (hprofile : s.profile = some profile) : PlainProfile profile := by
  obtain ⟨_, _, network, clientHost, clientPublic, hfacts⟩ := hs.facts
  obtain ⟨given, hplain, heq⟩ := plainClient_of_create hw hfacts hallowed
  obtain ⟨d, before, hadopted⟩ := hs.adopted
  obtain ⟨content, clientContent, srv, peer, ip, profile', had⟩ := migrateLegacy_eq_ok hadopted
  obtain rfl : profile' = profile := Option.some.inj (had.profile.symm.trans hprofile)
  have hcontent : clientContent = universalNewlines created.client := by
    have hread := had.clientFile
    rw [← had.files, hs.clientFile.1, read_written hs.clientFile.2] at hread
    exact (Except.ok.inj hread).symm
  have hprintable {key sect t : Text} (h : value clientContent key sect = some t) :
      Printable t := by
    rw [hcontent, value_eq_content, contentLines_universalNewlines, ← value_eq_content, heq,
      clientText_eq] at h
    obtain ⟨hwithin, hbreak⟩ := value_infix h
    intro c hc
    obtain ⟨l, hl, hmem⟩ := List.mem_flatMap.mp (hwithin.subset hc)
    rcases List.mem_append.mp hmem with hmem | hmem
    · exact printable_clientLines hplain l hl c hmem
    · rw [List.mem_singleton.mp hmem] at hc
      exact absurd (hbreak '\n' hc) (by decide)
  obtain ⟨hendpoint, hdns, hallowedIps, -, -⟩ := legacyProfile_eq_ok had.legacy
  exact ⟨hprintable hdns, hprintable had.remote, hprintable hendpoint, hprintable hallowedIps⟩

/-- A first setup in an empty directory leaves its two files. -/
theorem tidy_of_firstSetup (hs : FirstSetup w req created s) (hallowed : Printable req.allowedIps)
    (hempty : ∀ name, s.files name ≠ none → name = req.interface ∨ name = req.client) :
    Tidy req.interface s := by
  obtain ⟨-, hserved⟩ := hs.served (fun p k h => isWord_of_isWireGuardKey (hw p k h).2)
    (isWord_of_firstSetup hw hs)
  obtain ⟨_, client, network, clientHost, clientPublic, hfacts⟩ := hs.facts
  obtain ⟨given, hplain, heq⟩ := plainClient_of_create hw hfacts hallowed
  obtain ⟨d, before, hadopted⟩ := hs.adopted
  obtain ⟨content, clientContent, srv, peer, ip, profile, had⟩ := migrateLegacy_eq_ok hadopted
  obtain ⟨name, hrows⟩ := had.rows
  refine ⟨fun n => ?_, ?_, fun p hp => plainProfile_of_firstSetup hw hs hallowed hp⟩
  · simp only [hrows, List.mem_singleton, exists_eq_left]
    refine ⟨fun hsome => (hempty n hsome).imp id Eq.symm, ?_⟩
    rintro (rfl | rfl)
    · simp [hserved.file]
    · simp [hs.clientFile.1]
  · rw [hrows]
    intro r hr
    rw [List.mem_singleton.mp hr, hs.clientFile.1, heq]
    exact ⟨given, client.privateKey, ipv4Text clientHost, hplain, rfl⟩

end Setup

end ExitLane.State
