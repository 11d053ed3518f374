import ExitLane.Backup.Archive

/-!
# Which backups can be restored

The writers bound the number of files and nothing else; the reader bounds the envelope, the payload,
the archive, its members and the ratio between the last two.

* `expandLoop_eq`: what the chunked decompression accepts;
* `checkMembers_cases`: what the loop over the members accepts;
* `tarSize_le`: the archive is hardly longer than its members, so that two of the limits follow from
  the others;
* `restorable_iff`: which archives of the writers are not refused for a limit.
-/

namespace ExitLane.Backup
open Python Effect

/-! ## The loops of the reader -/

theorem expandLoop_eq (total limit expanded : Nat) (h : expanded ≤ total)
    (hle : expanded ≤ min maxTarBytes limit) : expandLoop total limit expanded =
      if total ≤ min maxTarBytes limit then .ok total
      else if maxTarBytes ≤ limit then .error .payloadTooLarge
      else .error .compressionRatioExceeded := by
  -- the invariant: what has been expanded so far is within both limits
  induction hk : total - expanded using Nat.strong_induction_on generalizing expanded with
  | _ k ih =>
    rw [expandLoop]
    split
    · next hzero =>
      obtain rfl : expanded = total := by omega
      rw [if_pos hle]
    · next hchunk =>
      split
      · next htar =>
        rw [if_neg (by omega), if_pos (by omega)]
      · next htar =>
        split
        · next hratio => rw [if_neg (by omega), if_neg (by omega)]
        · next hratio => exact ih _ (by omega) _ (by omega) (by omega) rfl

/-- What the loop over the members asks of the sizes. -/
def SizesFit (total : Nat) (sizes : List Nat) : Prop :=
  (∀ n ∈ sizes, n ≤ maxFileBytes) ∧ total + sizes.sum ≤ maxTotalBytes

theorem checkMembers_cases {members : List (Text × Nat)} {seen : List Text} {total : Nat}
    (hsafe : ∀ m ∈ members, isSafeName m.1 = true)
    (hnodup : (members.map Prod.fst ++ seen).Nodup) (htotal : total ≤ maxTotalBytes) :
    (SizesFit total (members.map Prod.snd) ∧ checkMembers seen total members = .ok ()) ∨
    (¬ SizesFit total (members.map Prod.snd) ∧
      ∃ c, c.isLimit = true ∧ checkMembers seen total members = .error c) := by
  induction members generalizing seen total with
  | nil => exact .inl ⟨⟨fun n hn => (nomatch hn), htotal⟩, rfl⟩
  | cons m members ih =>
    obtain ⟨name, size⟩ := m
    rw [List.forall_mem_cons] at hsafe
    rw [List.map_cons, List.cons_append, List.nodup_cons, List.mem_append, not_or] at hnodup
    have hrest : (members.map Prod.fst ++ name :: seen).Nodup := by
      rw [List.nodup_middle, List.nodup_cons, List.mem_append, not_or]
      exact hnodup
    have hfresh : (seen.contains name || !isSafeName name) = false := by
      rw [hsafe.1]
      simpa using hnodup.1.2
    rw [checkMembers, hfresh]
    simp only [SizesFit, List.map_cons, List.forall_mem_cons, List.sum_cons, Bool.false_eq_true,
      if_false]
    by_cases hsize : maxFileBytes < size
    · rw [if_pos hsize]
      exact .inr ⟨fun hfit => absurd hfit.1.1 (by omega), _, rfl, rfl⟩
    rw [if_neg hsize]
    by_cases hsum : maxTotalBytes < total + size
    · rw [if_pos hsum]
      exact .inr ⟨fun hfit => absurd hfit.2 (by omega), _, rfl, rfl⟩
    rw [if_neg hsum]
    rcases ih hsafe.2 hrest (Nat.le_of_not_lt hsum) with ⟨⟨hsizes, htotal⟩, hok⟩ | ⟨hnot, herror⟩
    · exact .inl ⟨⟨⟨by omega, hsizes⟩, by omega⟩, hok⟩
    · exact .inr ⟨fun hfit => hnot ⟨hfit.1.2, by have := hfit.2; omega⟩, herror⟩

/-! ## The length of an archive -/

theorem roundUp_lt (n : Nat) {k : Nat} (hk : 0 < k) : roundUp k n < n + k := by
  have := Nat.div_mul_le_self (n + k - 1) k
  unfold roundUp
  omega

/-- Headers, padding and the end of the archive. -/
theorem tarSize_le (sizes : List Nat) :
    tarSize sizes ≤ sizes.sum + 1023 * sizes.length + 11264 := by
  have hblocks : (sizes.map fun n => 512 + roundUp 512 n).sum ≤
      sizes.sum + 1023 * sizes.length := by
    induction sizes with
    | nil => simp
    | cons n sizes ih =>
      have := roundUp_lt n (show 0 < 512 by decide)
      simp only [List.map_cons, List.sum_cons, List.length_cons]
      omega
  have := roundUp_lt ((sizes.map fun n => 512 + roundUp 512 n).sum + 1024)
    (show 0 < 10240 by decide)
  unfold tarSize
  omega

/-! ## The archives of the writers -/

theorem posixParts_of {name : Text} (hslash : '/' ∉ name) (hne : name ≠ [])
    (hdot : name ≠ ".".toList) : posixParts name = [name] := by
  rw [posixParts, List.splitOn_eq_singleton hslash, List.filter_cons_of_pos, List.filter_nil]
  rw [beq_false_of_ne hdot, List.isEmpty_eq_false_iff.mpr hne]
  rfl

theorem isSafeName_of {name : Text} (hslash : '/' ∉ name) (hne : name ≠ [])
    (hdot : name ≠ ".".toList) (hdots : name ≠ "..".toList) : isSafeName name = true := by
  have hparts := posixParts_of hslash hne hdot
  have hhead : name.head? ≠ some '/' := fun hhead => hslash (List.mem_of_mem_head? hhead)
  simp only [isSafeName, hparts, Bool.and_eq_true, bne_iff_ne, ne_eq, hhead, not_false_eq_true,
    List.contains_cons, List.contains_nil, Bool.or_false, Bool.not_eq_true', beq_eq_false_iff_ne,
    List.length_singleton, beq_self_eq_true, and_true, true_and]
  exact fun heq => hdots heq.symm

theorem ofDigitChars_pad3 (n : Nat) : Nat.ofDigitChars 10 (pad3 n) 0 = n := by
  rw [pad3, Nat.ofDigitChars_append, Nat.ofDigitChars_replicate_zero, natText,
    Nat.mul_zero, Nat.ofDigitChars_toDigits (by decide) (by decide)]

theorem configName_inj {i j : Nat} (h : configName i = configName j) : i = j := by
  have hpad : pad3 i = pad3 j := by
    unfold configName at h
    exact List.append_cancel_left (List.append_cancel_right h)
  rw [← ofDigitChars_pad3 i, hpad, ofDigitChars_pad3]

section Archive
variable {β : Type} (K : Kit β) {members : List (Text × β)} {c : Code}

theorem name_stageConfigs {files : List (Text × β)} {index : Nat} {s : Staged β}
    (h : s ∈ stageConfigs index files) : ∃ i, index ≤ i ∧ i < index + files.length ∧
      s.name = configName i := by
  induction files generalizing index with
  | nil => cases h
  | cons f files ih =>
    obtain ⟨name, content⟩ := f
    rcases List.mem_cons.mp h with rfl | h
    · exact ⟨index, by omega, by simp, rfl⟩
    · obtain ⟨i, hle, hlt, hname⟩ := ih h
      rw [List.length_cons]
      exact ⟨i, by omega, by omega, hname⟩

variable (files : List (Text × β))

theorem length_stageConfigs (index : Nat) : (stageConfigs index files).length = files.length := by
  induction files generalizing index with
  | nil => rfl
  | cons f files ih => simp [stageConfigs, ih]

theorem nodup_stageConfigs (index : Nat) : ((stageConfigs index files).map Staged.name).Nodup := by
  induction files generalizing index with
  | nil => exact List.nodup_nil
  | cons f files ih =>
    rw [stageConfigs, List.map_cons, List.nodup_cons]
    refine ⟨fun hmem => ?_, ih _⟩
    obtain ⟨s, hs, hname⟩ := List.mem_map.mp hmem
    obtain ⟨i, hle, -, hi⟩ := name_stageConfigs hs
    have := configName_inj (hi.symm.trans hname)
    omega

/-- The names of the members, the manifest first. -/
def memberNames : List Text :=
  manifestName :: databaseName :: masterKeyName :: (stageConfigs 0 files).map Staged.name

theorem head_configName (i : Nat) : (configName i).head? = some 'w' := rfl

theorem nodup_memberNames : (memberNames files).Nodup := by
  have hconfig {name : Text} (hhead : name.head? ≠ some 'w') :
      name ∉ (stageConfigs 0 files).map Staged.name := by
    intro hmem
    obtain ⟨s, hs, rfl⟩ := List.mem_map.mp hmem
    obtain ⟨i, -, -, hname⟩ := name_stageConfigs hs
    rw [hname] at hhead
    exact hhead (head_configName i)
  have hfixed : manifestName ≠ databaseName ∧ manifestName ≠ masterKeyName ∧
      databaseName ≠ masterKeyName := by decide +kernel
  have hheads : manifestName.head? ≠ some 'w' ∧ databaseName.head? ≠ some 'w' ∧
      masterKeyName.head? ≠ some 'w' := by decide +kernel
  simp only [memberNames, List.nodup_cons, List.mem_cons, not_or]
  exact ⟨⟨hfixed.1, hfixed.2.1, hconfig hheads.1⟩, ⟨hfixed.2.2, hconfig hheads.2.1⟩,
    hconfig hheads.2.2, nodup_stageConfigs files 0⟩

theorem isSafeName_memberNames : ∀ name ∈ memberNames files, isSafeName name = true := by
  have hfixed : isSafeName manifestName = true ∧ isSafeName databaseName = true ∧
      isSafeName masterKeyName = true := by decide +kernel
  rw [memberNames, List.forall_mem_cons, List.forall_mem_cons, List.forall_mem_cons]
  refine ⟨hfixed.1, hfixed.2.1, hfixed.2.2, fun name hmem => ?_⟩
  obtain ⟨s, hs, rfl⟩ := List.mem_map.mp hmem
  obtain ⟨i, -, -, hname⟩ := name_stageConfigs hs
  rw [hname]
  have hhead := head_configName i
  refine isSafeName_of ?_ ?_ ?_ ?_
  · have hends : '/' ∉ "wireguard-".toList ∧ '/' ∉ ".conf".toList := by decide +kernel
    have hdigits : '/' ∉ pad3 i := by
      intro hslash
      rcases List.mem_append.mp hslash with hzero | hdigit
      · exact absurd (List.eq_of_mem_replicate hzero) (by decide)
      · exact absurd (Nat.isDigit_of_mem_toDigits (by decide) (by decide) hdigit) (by decide)
    intro hslash
    rcases List.mem_append.mp hslash with hslash | hslash
    · rcases List.mem_append.mp hslash with hslash | hslash
      · exact hends.1 hslash
      · exact hdigits hslash
    · exact hends.2 hslash
  · intro hnil
    rw [hnil] at hhead
    cases hhead
  · intro hdot
    rw [hdot] at hhead
    exact absurd hhead (by decide +kernel)
  · intro hdots
    rw [hdots] at hhead
    exact absurd hhead (by decide +kernel)

/-! ### The writers -/

theorem collectConfigs_eq_ok {sources : List (Text × Option β)} {index : Nat}
    {staged : List (Staged β)} (hindex : index ≤ maxFiles - 2)
    (h : collectConfigs index sources = .ok staged) :
    ∃ files : List (Text × β), sources = files.map (fun f => (f.1, some f.2)) ∧
      staged = stageConfigs index files ∧ index + files.length ≤ maxFiles - 2 := by
  induction sources generalizing index staged with
  | nil =>
    cases h
    exact ⟨[], rfl, rfl, hindex⟩
  | cons source sources ih =>
    obtain ⟨name, content⟩ := source
    cases content with
    | none => cases h
    | some content =>
      rw [collectConfigs] at h
      split at h
      · cases h
      · next hlt =>
        obtain ⟨rest, hrest, h⟩ := bind_eq_ok.mp h
        cases h
        obtain ⟨files, rfl, rfl, hle⟩ := ih (by omega) hrest
        refine ⟨(name, content) :: files, rfl, rfl, ?_⟩
        rw [List.length_cons]
        omega

/-- An archive of one of the two writers. -/
inductive Written (K : Kit β) : List (Text × β) → Prop where
  | native {label : Label} {database key : β} {sources : List (Text × Option β)}
      {members : List (Text × β)} (h : createBackup K label database key sources = .ok members) :
      Written K members
  | container {label : Label} {database key : β} {sources : List (Text × β)}
      {members : List (Text × β)}
      (h : coordinatorBackup K label database key sources = .ok members) : Written K members

theorem perm_sortedByName {γ : Type} (l : List (Text × γ)) : (sortedByName l).Perm l :=
  List.perm_insertionSort ..

/-- What the writers pack: at most 254 WireGuard files beside the three others. -/
theorem Written.pack {K : Kit β} (h : Written K members) :
    ∃ label database key files, files.length ≤ maxFiles - 2 ∧
      members = pack K label (staging K database key (stageConfigs 0 files)) := by
  cases h with
  | native h =>
    obtain ⟨staged, hstaged, h⟩ := bind_eq_ok.mp h
    cases h
    obtain ⟨files, -, rfl, hle⟩ := collectConfigs_eq_ok (by decide) hstaged
    exact ⟨_, _, _, files, by omega, rfl⟩
  | container h =>
    obtain ⟨_, hroom, h⟩ := bind_eq_ok.mp h
    cases h
    refine ⟨_, _, _, _, ?_, rfl⟩
    rw [(perm_sortedByName _).length_eq]
    simpa using hroom

theorem names_pack (K : Kit β) (label : Label) (database key : β) (files : List (Text × β)) :
    ((Backup.pack K label (staging K database key (stageConfigs 0 files))).map Prod.fst).Perm
      (memberNames files) := by
  refine ((perm_sortedByName _).map Prod.fst).trans (.of_eq ?_)
  rw [List.map_cons, List.map_map]
  rfl

/-! ## What the reader refuses for a limit -/

/-- The limits that the writers do not imply. -/
def WithinLimits (members : List (Text × β)) : Prop :=
  (∀ n ∈ memberSizes K members, n ≤ maxFileBytes) ∧
    (memberSizes K members).sum ≤ maxTotalBytes ∧ K.gzipSize members ≤ maxTotalBytes ∧
    tarSize (memberSizes K members) ≤
      max (K.gzipSize members) 1 * maxCompressionRatio + maxTarStructuralOverhead

theorem checkEntries_not_limit {entries : List FileEntry} {names : List Text}
    (h : checkEntries K members names entries = .error c) : c.isLimit = false := by
  induction entries generalizing names with
  | nil => cases h
  | cons entry entries ih =>
    rw [checkEntries] at h
    split at h
    · cases h
      rfl
    · split at h
      · cases h
        rfl
      · split at h
        · cases h
          rfl
        · exact ih h

theorem require_not_limit {b : Bool} {code : Code} (hcode : code.isLimit = false)
    (h : require b code = .error c) : c.isLimit = false := by
  cases b with
  | true => cases h
  | false =>
    cases h
    exact hcode

theorem bind_not_limit {α γ : Type} {a : Except Code α} {f : α → Except Code γ}
    (ha : ∀ c, a = .error c → c.isLimit = false) (hf : ∀ x, f x = .error c → c.isLimit = false)
    (h : a >>= f = .error c) : c.isLimit = false := by
  cases a with
  | error c' =>
    cases h
    exact ha _ rfl
  | ok x => exact hf x h

theorem validateManifest_not_limit {m : Manifest} (h : validateManifest K members m = .error c) :
    c.isLimit = false := by
  unfold validateManifest at h
  refine bind_not_limit (fun _ => checkEntries_not_limit K) (fun _ h => ?_) h
  refine bind_not_limit (fun _ => require_not_limit rfl) (fun _ h => ?_) h
  refine bind_not_limit (fun _ => require_not_limit rfl) (fun _ h => ?_) h
  refine bind_not_limit (fun _ => require_not_limit rfl) (fun _ h => ?_) h
  refine bind_not_limit (fun _ => require_not_limit rfl) (fun _ h => ?_) h
  split at h
  · cases h
    rfl
  · exact require_not_limit rfl h

theorem readManifest_not_limit (h : readManifest K members = .error c) : c.isLimit = false := by
  unfold readManifest at h
  split at h
  · cases h
    rfl
  · split at h
    · cases h
      rfl
    · exact bind_not_limit (fun _ => validateManifest_not_limit K) (fun _ h => by cases h) h

/-- What every archive of the writers has. -/
structure WellFormed (members : List (Text × β)) : Prop where
  safe : ∀ m ∈ members, isSafeName m.1 = true
  nodup : (members.map Prod.fst).Nodup
  ne_nil : members ≠ []
  count : members.length ≤ maxFiles + 1

theorem wellFormed_pack (label : Label) (database key : β) {files : List (Text × β)}
    (hcount : files.length ≤ maxFiles - 2) :
    WellFormed (pack K label (staging K database key (stageConfigs 0 files))) := by
  have hnames := names_pack K label database key files
  have hlength := hnames.length_eq
  simp only [memberNames, List.length_map, List.length_cons, length_stageConfigs] at hlength
  refine ⟨fun m hm => ?_, hnames.nodup_iff.mpr (nodup_memberNames files), ?_, ?_⟩
  · exact isSafeName_memberNames files _ (hnames.mem_iff.mp (List.mem_map_of_mem hm))
  · rw [← List.length_pos_iff, hlength]
    omega
  · rw [hlength]
    unfold maxFiles at hcount ⊢
    omega

theorem Written.wellFormed (h : Written K members) : WellFormed members := by
  obtain ⟨label, database, key, files, hcount, rfl⟩ := h.pack
  exact wellFormed_pack K label database key hcount

theorem WellFormed.tarSize_le (h : WellFormed members)
    (hsum : (memberSizes K members).sum ≤ maxTotalBytes) :
    tarSize (memberSizes K members) ≤ maxTarBytes := by
  have htar := Backup.tarSize_le (memberSizes K members)
  have hcount := h.count
  rw [show (memberSizes K members).length = members.length from List.length_map _] at htar
  unfold maxFiles at hcount
  unfold maxTarBytes
  omega

theorem WellFormed.checkMembers_cases (h : WellFormed members) :
    (SizesFit 0 (memberSizes K members) ∧
      checkMembers [] 0 (members.map fun m => (m.1, K.size m.2)) = .ok ()) ∨
    (¬ SizesFit 0 (memberSizes K members) ∧ ∃ c, c.isLimit = true ∧
      checkMembers [] 0 (members.map fun m => (m.1, K.size m.2)) = .error c) := by
  have hnodup : ((members.map fun m : Text × β => (m.1, K.size m.2)).map Prod.fst ++ []).Nodup := by
    rw [List.append_nil, List.map_map]
    exact h.nodup
  have hcases := Backup.checkMembers_cases (List.forall_mem_map.mpr h.safe) hnodup (Nat.zero_le _)
  rw [List.map_map] at hcases
  exact hcases

/-- Within the limits, only the manifest decides. -/
theorem WellFormed.readBackup_eq (h : WellFormed members) (hwithin : WithinLimits K members) :
    readBackup K members = readManifest K members := by
  obtain ⟨hfiles, hsum, hgzip, hratio⟩ := hwithin
  have henvelope : backupSize K members ≤ maxBackupBytes := by
    unfold maxTotalBytes at hgzip
    unfold backupSize headerSize maxBackupBytes
    omega
  have hexpand := expandLoop_eq (tarSize (memberSizes K members))
    (max (K.gzipSize members) 1 * maxCompressionRatio + maxTarStructuralOverhead) 0 (Nat.zero_le _)
    (Nat.zero_le _)
  rw [if_pos (le_min (h.tarSize_le K hsum) hratio)] at hexpand
  have hcount : (!members.isEmpty && decide (members.length ≤ maxFiles + 1)) = true := by
    simp [h.ne_nil, h.count]
  have hmembers : checkMembers [] 0 (members.map fun m => (m.1, K.size m.2)) = .ok () := by
    rcases h.checkMembers_cases K with ⟨-, hok⟩ | ⟨hnot, -⟩
    · exact hok
    · exact absurd ⟨hfiles, by omega⟩ hnot
  rw [readBackup, validatedPayload, hexpand, hmembers, hcount, decide_eq_true henvelope,
    decide_eq_true hgzip]
  rfl

/-- Beyond them, one of the codes that name a limit is raised. -/
theorem WellFormed.exists_limit (h : WellFormed members) (hnot : ¬ WithinLimits K members) :
    ∃ c, c.isLimit = true ∧ readBackup K members = .error c := by
  by_cases henvelope : backupSize K members ≤ maxBackupBytes
  swap
  · exact ⟨.backupTooLarge, rfl, by rw [readBackup, decide_eq_false henvelope]; rfl⟩
  rw [readBackup, decide_eq_true henvelope]
  by_cases hgzip : K.gzipSize members ≤ maxTotalBytes
  swap
  · exact ⟨.payloadTooLarge, rfl, by rw [validatedPayload, decide_eq_false hgzip]; rfl⟩
  rw [validatedPayload, decide_eq_true hgzip,
    expandLoop_eq _ _ _ (Nat.zero_le _) (Nat.zero_le _)]
  split
  · next htar =>
    have hcount : (!members.isEmpty && decide (members.length ≤ maxFiles + 1)) = true := by
      simp [h.ne_nil, h.count]
    rcases h.checkMembers_cases K with ⟨⟨hfiles, hsum⟩, -⟩ | ⟨-, c, hlimit, herror⟩
    · exact absurd ⟨hfiles, by omega, hgzip, htar.trans (min_le_right _ _)⟩ hnot
    · refine ⟨c, hlimit, ?_⟩
      rw [hcount, herror]
      rfl
  · split
    · exact ⟨.payloadTooLarge, rfl, rfl⟩
    · exact ⟨.compressionRatioExceeded, rfl, rfl⟩

/-- An archive of one of the writers is refused for a limit exactly if a file, all files together,
the payload or the ratio is too large. -/
theorem restorable_iff {members : List (Text × β)} (h : Written K members) :
    (∀ c, readBackup K members = .error c → c.isLimit = false) ↔ WithinLimits K members := by
  constructor
  · intro hnone
    by_contra hnot
    obtain ⟨c, hlimit, herror⟩ := (h.wellFormed K).exists_limit K hnot
    rw [hnone c herror] at hlimit
    cases hlimit
  · intro hwithin c herror
    rw [(h.wellFormed K).readBackup_eq K hwithin] at herror
    exact readManifest_not_limit K herror

end Archive

/-! ## Two databases -/

/-- A content by its length and by what it takes in the archive. -/
structure Blob where
  size : Nat
  packed : Nat
  manifest : Option Manifest

def blobKit : Kit Blob where
  size := Blob.size
  digest _ := []
  dump m := ⟨200 + 200 * m.files.length, 300, some m⟩
  load := Blob.manifest
  load_dump _ := rfl
  snapshot := id
  gzipSize members := 64 + (members.map fun m => m.2.packed).sum
  version := "1.0".toList
  isNewer _ := some false
  isNewer_version := rfl

def blobLabel : Label := ⟨"id".toList, "now".toList, 1⟩

def blobKey : Blob := ⟨32, 40, none⟩

/-- The archive of a small database and no WireGuard file. -/
def smallArchive : List (Text × Blob) :=
  pack blobKit blobLabel (staging blobKit ⟨40960, 9000, none⟩ blobKey [])

theorem written_smallArchive : Written blobKit smallArchive :=
  .native (show createBackup blobKit blobLabel ⟨40960, 9000, none⟩ blobKey [] = _ from rfl)

theorem restorable_small : Written blobKit smallArchive ∧
    ∀ c, readBackup blobKit smallArchive = .error c → c.isLimit = false :=
  ⟨written_smallArchive, (restorable_iff blobKit written_smallArchive).mpr (by
    unfold WithinLimits
    decide +kernel)⟩

/-- One byte more than a file may have, and 64 MiB of a database that compresses to a thousandth. -/
theorem unrestorable_backups :
    (∃ members, createBackup blobKit blobLabel ⟨maxFileBytes + 1, 90000000, none⟩ blobKey [] =
        .ok members ∧ readBackup blobKit members = .error .fileTooLarge) ∧
      ∃ members, coordinatorBackup blobKit blobLabel ⟨67108864, 67108, none⟩ blobKey [] =
        .ok members ∧ readBackup blobKit members = .error .compressionRatioExceeded := by
  refine ⟨⟨_, rfl, ?_⟩, _, rfl, ?_⟩
  · rw [readBackup, validatedPayload, expandLoop_eq _ _ _ (Nat.zero_le _) (Nat.zero_le _)]
    decide +kernel
  · rw [readBackup, validatedPayload, expandLoop_eq _ _ _ (Nat.zero_le _) (Nat.zero_le _)]
    decide +kernel

end ExitLane.Backup
