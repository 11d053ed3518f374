import ExitLane.Ingress.Maintenance

/-!
# The identities in the recovery journal

`restore` writes the identities of the running and of the restored database into one receipt, and a
later start reads the receipt and arms the guard with them. Writer and readers bound the list on
their own: 32 interfaces in a database, 32 entries and 4096 bytes in the receipt, 8 identities in
the guard.

* `length_journalText_le`: 32 entries always fit into 4096 bytes;
* `recoverable_iff`: the receipt of two databases can be read and its identities can be guarded
  exactly if there are at most 8 of them.
-/

namespace ExitLane.Ingress

open Python IpAddress Effect IngressIdentity
open Egress (isInterface)
open Recovery (Code Phase)

/-! ## The receipt -/

def phaseText : Phase → Text
  | .initPreparing => "init_preparing".toList
  | .initReady => "init_ready".toList
  | .prepared => "prepared".toList
  | .snapshotReady => "snapshot_ready".toList
  | .publishing => "publishing".toList
  | .installed => "installed".toList
  | .validated => "validated".toList
  | .committed => "committed".toList
  | .rollbackRequired => "rollback_required".toList

def isLowerHex (c : Char) : Bool := c.isDigit || (97 ≤ c.toNat && c.toNat ≤ 102)

/-- `str(uuid.UUID(transaction)) == transaction`. -/
def isUuid (t : Text) : Bool :=
  t.length == 36 && t.zipIdx.all fun (c, k) =>
    if k ∈ [8, 13, 18, 23] then c == '-' else isLowerHex c

/-- The value that `json.dump` writes and `json.loads` reads back. -/
structure Receipt where
  transaction : Text
  phase : Phase
  /-- The texts of `interface` and `subnet`. -/
  ingress : List (Text × Text)
  deriving DecidableEq

/-- A JSON string without a character that has to be escaped. -/
def quoted (t : Text) : Text := '"' :: t ++ ['"']

def entryText (entry : Text × Text) : Text :=
  "\x7b\"interface\": ".toList ++ quoted entry.1 ++ ", \"subnet\": ".toList ++ quoted entry.2 ++
    "\x7d".toList

/-- `json.dump(record, output, sort_keys=True)`. -/
def journalText (r : Receipt) : Text :=
  "\x7b\"ingress\": [".toList ++ (", ".toList).intercalate (r.ingress.map entryText) ++
    "], \"phase\": ".toList ++ quoted (phaseText r.phase) ++ ", \"transaction\": ".toList ++
    quoted r.transaction ++ ", \"version\": 1\x7d".toList

/-- The receipt of `_record`. -/
def receipt (transaction : Text) (phase : Phase) (ingress : List IngressIdentity) : Receipt :=
  ⟨transaction, phase, ingress.map fun i => (i.interface, i.subnet)⟩

def isEntry (entry : Text × Text) : Bool :=
  isInterface entry.1 && match parseNetwork entry.2 with
    | some n => n.prefixLength ≤ 30
    | none => false

/-- `_read_journal` of a file that holds the text of the receipt. -/
def readJournal (r : Receipt) : Except Code Receipt :=
  if 4096 < (journalText r).length then .error .recoveryJournalInvalid
  else if r.ingress.length ≤ 32 ∧ r.ingress.all isEntry ∧ isUuid r.transaction then .ok r
  else .error .recoveryJournalInvalid

/-! ## Its length -/

theorem length_interface_le (i : IngressIdentity) : i.interface.length ≤ 15 := by
  have h := i.isInterface_interface
  simp only [isInterface, Bool.and_eq_true, decide_eq_true_eq] at h
  exact h.1.2

theorem length_intercalate_le (sep : Text) {k : Nat} {l : List Text}
    (h : ∀ t ∈ l, t.length ≤ k) : (sep.intercalate l).length ≤ l.length * (k + sep.length) := by
  induction l with
  | nil => simp [List.intercalate]
  | cons t l ih =>
    rw [List.forall_mem_cons] at h
    have hrest := ih h.2
    cases l with
    | nil =>
      simp only [List.intercalate_singleton, List.length_cons, List.length_nil]
      omega
    | cons u l =>
      rw [List.intercalate_cons_cons, List.length_append, List.length_append, List.length_cons,
        Nat.add_one_mul]
      omega

theorem length_entryText_le (i : IngressIdentity) :
    (entryText (i.interface, i.subnet)).length ≤ 64 := by
  have hinterface := length_interface_le i
  have hsubnet : i.subnet.length ≤ 18 := Interface.length_text_le i.network
  have hfirst : ("\x7b\"interface\": ".toList).length = 14 := by decide +kernel
  have hsecond : (", \"subnet\": ".toList).length = 12 := by decide +kernel
  have hlast : ("\x7d".toList).length = 1 := by decide +kernel
  unfold entryText quoted
  simp only [List.length_append, List.length_cons, List.length_nil, hfirst, hsecond, hlast]
  omega

theorem length_phaseText_le (phase : Phase) : (phaseText phase).length ≤ 17 := by
  cases phase <;> decide

/-- The receipt of 32 identities is far below the limit of the reader. -/
theorem length_journalText_le {transaction : Text} (ht : isUuid transaction = true) (phase : Phase)
    {ingress : List IngressIdentity} (h : ingress.length ≤ 32) :
    (journalText (receipt transaction phase ingress)).length ≤ 4096 := by
  have htransaction : transaction.length = 36 := by
    simp only [isUuid, Bool.and_eq_true, beq_iff_eq] at ht
    exact ht.1
  have hentries : ∀ t ∈ (ingress.map fun i => (i.interface, i.subnet)).map entryText,
      t.length ≤ 64 := by
    intro t ht
    rw [List.map_map] at ht
    obtain ⟨i, -, rfl⟩ := List.mem_map.mp ht
    exact length_entryText_le i
  have hjoined := length_intercalate_le ", ".toList hentries
  have hphase := length_phaseText_le phase
  have hfirst : ("\x7b\"ingress\": [".toList).length = 13 := by decide +kernel
  have hsecond : ("], \"phase\": ".toList).length = 12 := by decide +kernel
  have hthird : (", \"transaction\": ".toList).length = 17 := by decide +kernel
  have hlast : (", \"version\": 1\x7d".toList).length = 15 := by decide +kernel
  have hsep : (", ".toList).length = 2 := by decide +kernel
  rw [hsep, List.length_map, List.length_map] at hjoined
  unfold journalText receipt quoted
  simp only [List.length_append, List.length_cons, List.length_nil, hfirst, hsecond, hthird, hlast]
  omega

/-! ## Reading and guarding again -/

theorem isEntry_of_prefixLength_le {i : IngressIdentity} (h : i.network.prefixLength ≤ 30) :
    isEntry (i.interface, i.subnet) = true := by
  simp [isEntry, i.isInterface_interface, i.parseNetwork_subnet, h]

/-- The reader's own bound decides. -/
theorem readJournal_receipt {transaction : Text} (ht : isUuid transaction = true) (phase : Phase)
    {ingress : List IngressIdentity} (h : ∀ i ∈ ingress, i.network.prefixLength ≤ 30) :
    readJournal (receipt transaction phase ingress) =
      if ingress.length ≤ 32 then .ok (receipt transaction phase ingress)
      else .error .recoveryJournalInvalid := by
  have hentries : (receipt transaction phase ingress).ingress.all isEntry = true := by
    simp only [receipt, List.all_map, List.all_eq_true]
    exact fun i hi => isEntry_of_prefixLength_le (h i hi)
  have hlength : (receipt transaction phase ingress).ingress.length = ingress.length :=
    List.length_map _
  have huuid : isUuid (receipt transaction phase ingress).transaction = true := ht
  rw [readJournal]
  simp only [hentries, hlength, huuid, and_true]
  split
  · next hbig =>
    rw [if_neg]
    intro hle
    have := length_journalText_le ht phase hle
    omega
  · rfl

/-- `IngressIdentity(**item)` for the entries of a receipt. -/
def Receipt.identities (r : Receipt) : Except Code (List IngressIdentity) :=
  r.ingress.mapM fun entry => IngressIdentity.of entry.1 entry.2

theorem identities_receipt (transaction : Text) (phase : Phase) (ingress : List IngressIdentity) :
    (receipt transaction phase ingress).identities = .ok ingress := by
  rw [Receipt.identities, receipt, List.mapM_map]
  induction ingress with
  | nil => rfl
  | cons i ingress ih =>
    rw [List.mapM_cons, Function.comp_apply, of_eq_ok_iff.mpr ⟨rfl, rfl⟩]
    rw [show (Except.ok i : Except Code IngressIdentity) = pure i from rfl, pure_bind, ih]
    rfl

/-- The guard of a new process, and no table. -/
def newGuard : Guard := ⟨none, [], false⟩

/-- Without a failing command a new guard takes a request just if the request is short enough. -/
theorem newGuard_succeeds_iff {requested : List IngressIdentity} :
    newGuard.Succeeds requested ↔ requested.length ≤ 8 := by
  rw [succeeds_iff]
  refine ⟨fun h => h.requested_le, fun h => ⟨h, fun T hT => (by cases hT), ?_⟩⟩
  exact Nat.le_trans (length_sorted_le_of_subset fun _ hi => mem_sorted.mp hi) h

/-- A start reads the receipt and arms a new guard with its identities. -/
def Receipt.Recoverable (r : Receipt) : Prop :=
  ∃ r' l, readJournal r = .ok r' ∧ r'.identities = .ok l ∧ newGuard.Succeeds l

/-- `dict.fromkeys` of the identities of the live and of the staged database. -/
def journalled (live staged : List IngressIdentity) : List IngressIdentity :=
  (live ++ staged).eraseDups

theorem recoverable_iff {live staged : Settings} {a b : List IngressIdentity}
    (ha : ingressIdentities live = .ok a) (hb : ingressIdentities staged = .ok b)
    {transaction : Text} (ht : isUuid transaction = true) (phase : Phase) :
    (receipt transaction phase (journalled a b)).Recoverable ↔ (journalled a b).length ≤ 8 := by
  have hprefix : ∀ i ∈ journalled a b, i.network.prefixLength ≤ 30 := by
    intro i hi
    rcases List.mem_append.mp (List.mem_eraseDups.mp hi) with hi | hi
    · exact prefixLength_of_ingressIdentities ha i hi
    · exact prefixLength_of_ingressIdentities hb i hi
  have hread := readJournal_receipt ht phase hprefix
  constructor
  · rintro ⟨r', l, hr, hl, hsucceeds⟩
    rw [hread] at hr
    split at hr
    · cases hr
      rw [identities_receipt] at hl
      cases hl
      exact newGuard_succeeds_iff.mp hsucceeds
    · cases hr
  · intro hle
    exact ⟨_, _, hread.trans (if_pos (by omega)), identities_receipt ..,
      newGuard_succeeds_iff.mpr hle⟩

/-! ## Databases -/

/-- `wg0` with a subnet, and `n` routed ingress interfaces `eth0`, `eth1` and so on. -/
def routed (subnet : String) (n : Nat) : Settings :=
  ⟨true, some "wg0".toList, some subnet.toList,
    (List.range n).map fun k => some ("eth".toList ++ natText k)⟩

/-- The identities of a database that is accepted. -/
def accepted (s : Settings) : List IngressIdentity := (ingressIdentities s).toOption.getD []

def someTransaction : Text := "00000000-0000-4000-8000-000000000000".toList

/-- Eight identities of two databases are guarded. -/
theorem eight_interfaces_recoverable :
    (receipt someTransaction .prepared (journalled (accepted (routed "10.8.0.0/24" 3))
      (accepted (routed "10.9.0.0/24" 3)))).Recoverable := by
  have haccepted (subnet : String) (h : subnet = "10.8.0.0/24" ∨ subnet = "10.9.0.0/24") :
      ingressIdentities (routed subnet 3) = .ok (accepted (routed subnet 3)) := by
    rcases h with rfl | rfl <;> decide +kernel
  exact (recoverable_iff (haccepted _ (.inl rfl)) (haccepted _ (.inr rfl)) (by decide +kernel)
    .prepared).mpr (by decide +kernel)

/-- Ten identities of two accepted databases cannot be guarded, 34 cannot even be read. -/
theorem many_interfaces_unrecoverable : ∃ a b c d,
    ingressIdentities (routed "10.8.0.0/24" 4) = .ok a ∧
    ingressIdentities (routed "10.9.0.0/24" 4) = .ok b ∧
    ¬ newGuard.Succeeds (journalled a b) ∧
    ingressIdentities (routed "10.8.0.0/24" 16) = .ok c ∧
    ingressIdentities (routed "10.9.0.0/24" 16) = .ok d ∧
    readJournal (receipt someTransaction .prepared (journalled c d)) =
      .error .recoveryJournalInvalid := by
  refine ⟨accepted (routed "10.8.0.0/24" 4), accepted (routed "10.9.0.0/24" 4),
    accepted (routed "10.8.0.0/24" 16), accepted (routed "10.9.0.0/24" 16), by decide +kernel,
    by decide +kernel, ?_, by decide +kernel, by decide +kernel, by decide +kernel⟩
  rw [newGuard_succeeds_iff]
  decide +kernel

end ExitLane.Ingress
