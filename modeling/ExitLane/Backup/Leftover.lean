import ExitLane.Backup.RoundTrip

/-!
# Files that a crash leaves behind

`_atomic_write` writes into a hidden temporary file of the same directory and renames it. A crash in
between leaves that file, with a prefix of the new content. `ContainerState.validate` looks at every
file of the WireGuard directory and at every name of the provider directory, and a backup copies
what it finds.

* `hooks_take_serverText`: a prefix of a server file has a hook once it reaches the first
  `PostUp =`;
* `validate_crashed_iff`: which leftovers the next start accepts;
* `restorable_crashed_iff`: which leftovers make a backup that cannot be restored;
* `leftover_accepted_iff`: both.
-/

namespace ExitLane.Backup
open Python IpAddress Peers Ingress State

/-! ## Prefixes of configurations -/

/-- A line that is no hook does not become one when it is cut. -/
theorem hookOf_of_prefix {l p : Text} (h : p <+: l) (hnone : hookOf l = none) :
    hookOf p = none := by
  obtain ⟨rest, rfl⟩ := h
  cases hp : partition '=' p with
  | none => rw [hookOf, hp, Option.bind_none]
  | some item =>
    rw [hookOf, partition_append_right hp, Option.bind_some] at hnone
    rw [hookOf, hp, Option.bind_some]
    split at hnone
    · cases hnone
    · next hname => exact if_neg hname

theorem hooks_cons {l : Text} (hl : '\n' ∉ l) (t : Text) :
    hooks (l ++ '\n' :: t) = (hookOf l).toList ++ hooks t := by
  rw [hooks, List.splitOn_append_cons_self_of_not_mem hl, List.filterMap_cons]
  cases hookOf l with
  | none => rfl
  | some hook => rfl

theorem hooks_line {l : Text} (hl : '\n' ∉ l) : hooks l = (hookOf l).toList := by
  rw [hooks, List.splitOn_eq_singleton hl, List.filterMap_cons]
  cases hookOf l with
  | none => rfl
  | some hook => rfl

theorem hooks_of_prefix {ls : List Text} {p : Text} (hlf : ∀ l ∈ ls, '\n' ∉ l)
    (hnone : ∀ l ∈ ls, hookOf l = none) (h : p <+: unlines ls) : hooks p = [] := by
  -- the cut is within the first line, or behind its line feed
  induction ls generalizing p with
  | nil =>
    rw [List.prefix_nil.mp h]
    rfl
  | cons l ls ih =>
    rw [List.forall_mem_cons] at hlf hnone
    have hwhole : p <+: (l ++ ['\n']) ++ unlines ls := h
    have hfirst {q : Text} (hq : q <+: unlines ls) : hooks ((l ++ ['\n']) ++ q) = [] := by
      rw [List.append_assoc, List.singleton_append, hooks_cons hlf.1, hnone.1, ih hlf.2 hnone.2 hq]
      rfl
    rcases List.prefix_or_prefix_of_prefix hwhole (List.prefix_append ..) with hp | ⟨q, rfl⟩
    · rcases List.prefix_concat_iff.mp hp with rfl | hp
      · simpa using hfirst List.nil_prefix
      · rw [hooks_line fun hmem => hlf.1 (hp.subset hmem), hookOf_of_prefix hp hnone.1]
        rfl
    · exact hfirst ((List.prefix_append_right_inj _).mp hwhole)

/-! ### A client file -/

theorem hookOf_clientLines {profile : Profile} {privateKey tunnelIp : Text}
    (h : PlainClient profile privateKey tunnelIp) :
    (∀ l ∈ clientLines profile privateKey tunnelIp, '\n' ∉ l) ∧
      ∀ l ∈ clientLines profile privateKey tunnelIp, hookOf l = none := by
  have hlf : ∀ l ∈ clientLines profile privateKey tunnelIp, '\n' ∉ l := fun l hl hmem =>
    absurd (printable_clientLines h l hl '\n' hmem).1 (by decide)
  have hnone := hooks_clientText h
  rw [clientText_eq, hooks_unlines hlf, List.filterMap_eq_nil_iff] at hnone
  exact ⟨hlf, hnone⟩

/-- No prefix of a client file has a hook. -/
theorem hooks_take_clientText {profile : Profile} {privateKey tunnelIp : Text}
    (h : PlainClient profile privateKey tunnelIp) (n : Nat) :
    hooks ((clientText profile privateKey tunnelIp).take n) = [] := by
  obtain ⟨hlf, hnone⟩ := hookOf_clientLines h
  rw [clientText_eq]
  exact hooks_of_prefix hlf hnone (List.take_prefix ..)

/-! ### A server file -/

/-- The lines before the first hook. -/
def plainLines (h : Head) : List Text :=
  ["[Interface]".toList, entry addressKey h.address.text, entry listenPortKey (natText h.port),
    entry privateKeyKey h.privateKey]

/-- The length of a server file up to the `=` of its first hook. -/
def hookOffset (h : Head) : Nat := (unlines (plainLines h)).length + 7

theorem lines_eq (h : Head) : h.lines = plainLines h ++ entry postUpKey (sentence sysctlWords) ::
    (forwardingRules h.interface h.address.network.text h.vpnInterface).map
      fun item => entry item.1 (sentence item.2) := by
  simp only [Head.lines, Head.values, Head.hooks, plainLines, List.cons_append, List.nil_append,
    List.map_cons, sentence_singleton]

/-- A server file, cut before and behind the `=` of its first hook. -/
theorem serverText_eq (h : Head) (peers : List PeerBlock) : ∃ rest,
    serverText h peers = unlines (plainLines h) ++ ((postUpKey ++ [' ']) ++ '=' :: rest) := by
  refine ⟨' ' :: sentence sysctlWords ++ '\n' :: unlines
    ((forwardingRules h.interface h.address.network.text h.vpnInterface).map
      (fun item => entry item.1 (sentence item.2)) ++ peers.flatMap serverBlock), ?_⟩
  rw [serverText, lines_eq]
  simp only [unlines, List.flatMap_append, List.flatMap_cons, entry,
    show " = ".toList = [' ', '=', ' '] from rfl, List.append_assoc, List.cons_append,
    List.nil_append]

theorem hookOf_plainLines {h : Head} (hh : h.WellFormed) :
    (∀ l ∈ plainLines h, '\n' ∉ l) ∧ ∀ l ∈ plainLines h, hookOf l = none := by
  have hheader : hookOf "[Interface]".toList = none := by decide +kernel
  refine ⟨fun l hl hmem => ?_, ?_⟩
  · have hline : l ∈ h.lines := by
      rw [lines_eq]
      exact List.mem_append_left _ hl
    exact absurd (hh.printable l hline '\n' hmem).1 (by decide)
  · simp only [plainLines, List.forall_mem_cons]
    exact ⟨hheader, hookOf_entry_of_not isKey_address (by decide +kernel),
      hookOf_entry_of_not isKey_listenPort (by decide +kernel),
      hookOf_entry_of_not isKey_privateKey (by decide +kernel),
      fun _ hl => absurd hl List.not_mem_nil⟩

theorem hooks_unlines_append {ls : List Text} (hlf : ∀ l ∈ ls, '\n' ∉ l) (t : Text) :
    hooks (unlines ls ++ t) = ls.filterMap hookOf ++ hooks t := by
  induction ls with
  | nil => rfl
  | cons l ls ih =>
    rw [List.forall_mem_cons] at hlf
    have hsplit : unlines (l :: ls) ++ t = l ++ '\n' :: (unlines ls ++ t) := by
      simp [unlines, List.flatMap_cons]
    rw [hsplit, hooks_cons hlf.1, ih hlf.2, List.filterMap_cons]
    cases hookOf l with
    | none => rfl
    | some hook => rfl

/-- The first hook of a server file is one as soon as its `=` is written. -/
theorem hooks_first (rest : Text) : hooks ((postUpKey ++ [' ']) ++ '=' :: rest) ≠ [] := by
  have hname : '=' ∉ postUpKey ++ [' '] ∧ isHookName (strip (postUpKey ++ [' '])) = true := by
    decide +kernel
  -- the line reads as a hook whatever stands behind the sign
  have hhook (t : Text) : hookOf ((postUpKey ++ [' ']) ++ '=' :: t) ≠ none := by
    rw [hookOf, partition_append _ _ hname.1, Option.bind_some, if_pos hname.2]
    exact Option.some_ne_none _
  have hlf {t : Text} (ht : '\n' ∉ t) : '\n' ∉ (postUpKey ++ [' ']) ++ '=' :: t := by
    have hkey : '\n' ∉ (postUpKey ++ [' ']) ++ ['='] := by decide +kernel
    rw [List.append_cons, List.mem_append, not_or]
    exact ⟨hkey, ht⟩
  have hsome {t : Text} : (hookOf ((postUpKey ++ [' ']) ++ '=' :: t)).toList ≠ [] := by
    rw [ne_eq, Option.toList_eq_nil_iff]
    exact hhook t
  by_cases hmem : '\n' ∈ rest
  · obtain ⟨a, b, rfl, ha⟩ := List.eq_append_cons_of_mem hmem
    rw [← List.cons_append, ← List.append_assoc, hooks_cons (hlf ha)]
    exact fun hnil => hsome (List.append_eq_nil_iff.mp hnil).1
  · rw [hooks_line (hlf hmem)]
    exact hsome

/-- A prefix of a server file has a hook once it reaches the first `PostUp =`. -/
theorem hooks_take_serverText {h : Head} (hh : h.WellFormed) (peers : List PeerBlock) (n : Nat) :
    hooks ((serverText h peers).take n) = [] ↔ n ≤ hookOffset h := by
  obtain ⟨rest, heq⟩ := serverText_eq h peers
  obtain ⟨hlf, hnone⟩ := hookOf_plainLines hh
  have hlength : (unlines (plainLines h) ++ (postUpKey ++ [' '])).length = hookOffset h := by
    rw [List.length_append]
    rfl
  constructor
  · intro hnil
    by_contra hlt
    obtain ⟨m, hm⟩ := Nat.exists_eq_add_of_lt (Nat.lt_of_not_le hlt)
    rw [heq, ← List.append_assoc, hm, Nat.add_assoc, ← hlength, List.take_length_add_append,
      List.take_succ_cons, List.append_assoc, hooks_unlines_append hlf] at hnil
    exact hooks_first _ (List.append_eq_nil_iff.mp hnil).2
  · intro hle
    have hlast : '\n' ∉ postUpKey ++ [' '] ∧ hookOf (postUpKey ++ [' ']) = none := by decide +kernel
    have hprefix :
        (serverText h peers).take n <+: unlines (plainLines h ++ [postUpKey ++ [' ']]) := by
      rw [heq, ← List.append_assoc, List.take_append_of_le_length (hlength ▸ hle)]
      refine (List.take_prefix ..).trans ⟨['\n'], ?_⟩
      rw [unlines, unlines, List.flatMap_append, List.append_assoc]
      rfl
    refine hooks_of_prefix ?_ ?_ hprefix
    · rw [List.forall_mem_append]
      exact ⟨hlf, fun l hl => List.mem_singleton.mp hl ▸ hlast.1⟩
    · rw [List.forall_mem_append]
      exact ⟨hnone, fun l hl => List.mem_singleton.mp hl ▸ hlast.2⟩

/-! ## The crash -/

/-- The files that are written atomically into one of the two directories. -/
inductive Write where
  | server (head : Head) (peers : List PeerBlock)
  | client (name : Text) (profile : Profile) (privateKey tunnelIp : Text)
  | provider (interface content : Text)

namespace Write

def target : Write → Text
  | .server head _ => confName head.interface
  | .client name _ _ _ => confName name
  | .provider interface _ => confName interface

def content : Write → Text
  | .server head peers => serverText head peers
  | .client _ profile privateKey tunnelIp => clientText profile privateKey tunnelIp
  | .provider _ content => content

/-- What the setup and the peer operations write. -/
def Proper : Write → Prop
  | .server head peers => head.WellFormed ∧ (∀ p ∈ peers, p.Plain) ∧ peers.length ≤ 253
  | .client name profile privateKey tunnelIp => isConfigName name = true ∧
      PlainClient profile privateKey tunnelIp ∧
      utf8Length (clientText profile privateKey tunnelIp) ≤ 65536
  | .provider _ _ => True

/-- Whether the file is one of the WireGuard directory. -/
def isIngress : Write → Bool
  | .provider _ _ => false
  | _ => true

def directory (v : Volume) (w : Write) : Directory :=
  if w.isIngress then v.wireguard else v.providerEgress

/-- A prefix of this length is one that has no hook. -/
def Quiet (n : Nat) : Write → Prop
  | .server head _ => n ≤ hookOffset head
  | _ => True

end Write

theorem confName_ne_tempName {random : Text} (hdot : '.' ∉ random) (hne : random ≠ "conf".toList)
    (stem target : Text) : confName stem ≠ tempName target random := by
  intro heq
  have hconf : '.' ∉ "conf".toList := by decide +kernel
  have hstem : rpartition '.' (confName stem) = some (stem, "conf".toList) :=
    rpartition_append stem "conf".toList hconf
  have hname : rpartition '.' (tempName target random) = some ('.' :: target, random) :=
    rpartition_append ('.' :: target) random hdot
  rw [heq, hname] at hstem
  exact hne (Prod.mk.inj (Option.some.inj hstem)).2

/-- A crash inside `_atomic_write`: the temporary file exists, and `length` characters of the new
content have reached it. -/
structure Crash (v : Volume) where
  write : Write
  proper : write.Proper
  /-- What `mkstemp` appends to the prefix. -/
  random : Text
  random_length : random.length = 8
  random_chars : ∀ c ∈ random, c.isAlphanum = true ∨ c = '_'
  length : Nat
  fresh : tempName write.target random ∉ (write.directory v).entries.map Prod.fst

namespace Crash
variable {v : Volume} (c : Crash v)

def name : Text := tempName c.write.target c.random

/-- `mkstemp` creates the file for its owner only. -/
def entry : Entry := written (c.write.content.take c.length)

/-- The volume that the next start finds. -/
def after : Volume :=
  if c.write.isIngress then { v with wireguard := v.wireguard.put c.name c.entry }
  else { v with providerEgress := v.providerEgress.put c.name c.entry }

theorem random_ne : c.random ≠ [] ∧ '.' ∉ c.random ∧ '/' ∉ c.random ∧ c.random ≠ "conf".toList := by
  have hlength := c.random_length
  refine ⟨fun h => ?_, fun h => ?_, fun h => ?_, fun h => ?_⟩
  · simp [h] at hlength
  · exact absurd (c.random_chars _ h) (by decide)
  · exact absurd (c.random_chars _ h) (by decide)
  · rw [h] at hlength
    exact absurd hlength (by decide)

theorem pathParts_name : pathParts c.name = ('.' :: c.write.target, '.' :: c.random) :=
  pathParts_tempName c.random_ne.1 c.random_ne.2.1

/-- The temporary file is none of the configurations. -/
theorem confName_ne (stem : Text) : confName stem ≠ c.name :=
  confName_ne_tempName c.random_ne.2.1 c.random_ne.2.2.2 stem c.write.target

/-- The content of a configuration is one that the hook check reads. -/
theorem plain_content (hingress : c.write.isIngress = true) :
    c.write.content.all isPlainByte = true ∧ utf8Length c.write.content ≤ 256 * 1024 := by
  have hproper := c.proper
  cases hw : c.write with
  | server head peers =>
    rw [hw] at hproper
    obtain ⟨hhead, hpeers, hcount⟩ := hproper
    have hlength := length_serverText_le hhead hpeers
    refine ⟨plain_unlines (printable_serverLines hhead hpeers), ?_⟩
    rw [Write.content, utf8Length_serverText hhead hpeers]
    omega
  | client name profile privateKey tunnelIp =>
    rw [hw] at hproper
    exact ⟨plain_clientText hproper.2.1, Nat.le_trans hproper.2.2 (by decide)⟩
  | provider i t =>
    rw [hw] at hingress
    cases hingress

theorem size_leftover (hingress : c.write.isIngress = true) :
    utf8Length (c.write.content.take c.length) ≤ 256 * 1024 :=
  Nat.le_trans (utf8Length_take_le _ _) (c.plain_content hingress).2

/-- The hook check accepts the temporary file exactly if no hook has reached it. -/
theorem validated_leftover (hingress : c.write.isIngress = true) :
    validatedWireguardHooks (pathParts c.name).1 (pathParts c.name).2
      (c.write.content.take c.length) = true ↔ c.write.Quiet c.length := by
  have hplain := (c.plain_content hingress).1
  have hsuffix : ('.' :: c.random == ".conf".toList) = false :=
    beq_false_of_ne fun heq => c.random_ne.2.2.2 (List.tail_eq_of_cons_eq heq)
  have htake : (c.write.content.take c.length).all isPlainByte = true := by
    rw [List.all_eq_true] at hplain ⊢
    exact fun b hb => hplain b (List.mem_of_mem_take hb)
  rw [c.pathParts_name, validatedWireguardHooks, htake, hsuffix,
    decide_eq_true (c.size_leftover hingress)]
  simp only [Bool.false_and, Bool.or_false, Bool.true_and, List.isEmpty_iff]
  have hproper := c.proper
  cases hw : c.write with
  | server head peers =>
    rw [hw] at hproper
    exact hooks_take_serverText hproper.1 peers c.length
  | client name profile privateKey tunnelIp =>
    rw [hw] at hproper
    exact iff_of_true (hooks_take_clientText hproper.2.1 c.length) trivial
  | provider i t =>
    rw [hw] at hingress
    cases hingress

end Crash

/-! ## The next start -/

/-- What the next start accepts: a cut before the first hook, in a WireGuard directory with room for
one more file. -/
def Crash.Accepted {v : Volume} (c : Crash v) : Prop :=
  c.write.isIngress = true ∧ c.write.Quiet c.length ∧ v.wireguard.entries.length < maxFiles

theorem validatePair_put {v : Volume} (hv : v.validatePair = true) {name : Text} {e : Entry}
    (hfresh : name ∉ v.wireguard.entries.map Prod.fst) (hconf : ∀ stem, confName stem ≠ name) :
    Volume.validatePair { v with wireguard := v.wireguard.put name e } = true ↔
      v.wireguard.entries.length < maxFiles ∧ wireguardAccepted name e = true := by
  have hingress (interface subnet : Text) :
      Volume.ingressAccepted { v with wireguard := v.wireguard.put name e } interface subnet =
        v.ingressAccepted interface subnet := by
    rw [Volume.ingressAccepted, Volume.ingressAccepted,
      Directory.get_put_of_ne e hfresh (hconf interface)]
  simp only [Volume.validatePair, Bool.and_eq_true, decide_eq_true_eq] at hv
  obtain ⟨⟨⟨hrest, -⟩, hall⟩, hsettings⟩ := hv
  simp only [Volume.validatePair, Directory.entries_put hfresh, List.length_cons, List.all_cons,
    hingress, hsettings]
  simp only [hrest, hall, Bool.true_and, Bool.and_true, Bool.and_eq_true, decide_eq_true_eq]
  exact Iff.rfl

/-- The names of the provider directory are fixed, and a hidden name is none of them. -/
theorem Crash.not_providerFile {v : Volume} (c : Crash v) :
    providerFiles.contains c.name = false := by
  rw [List.contains_eq_mem, decide_eq_false_iff_not]
  intro hmem
  obtain ⟨stem, -, heq⟩ := List.mem_map.mp hmem
  exact c.confName_ne stem heq

/-- **The next start.** A leftover in the WireGuard directory is accepted unless it has reached the
first hook; a leftover in the provider directory never is. -/
theorem validate_crashed_iff {v : Volume} (hv : v.validate = true) (c : Crash v) :
    c.after.validate = true ↔ c.Accepted := by
  rw [Volume.validate, Bool.and_eq_true] at hv
  obtain ⟨hprovider, hpair⟩ := hv
  have hfresh : c.name ∉ (c.write.directory v).entries.map Prod.fst := c.fresh
  rw [Write.directory] at hfresh
  rw [Crash.after, Crash.Accepted]
  split
  · next hingress =>
    rw [if_pos hingress] at hfresh
    have haccepted : wireguardAccepted c.name c.entry = true ↔ c.write.Quiet c.length := by
      rw [← c.validated_leftover hingress, Crash.entry, wireguardAccepted_written,
        decide_eq_true (c.size_leftover hingress), Bool.true_and]
    rw [Volume.validate, Bool.and_eq_true, validatePair_put hpair hfresh c.confName_ne, haccepted]
    exact ⟨fun h => ⟨hingress, h.2.2, h.2.1⟩, fun h => ⟨hprovider, h.2.2, h.2.1⟩⟩
  · next hingress =>
    rw [if_neg hingress] at hfresh
    refine iff_of_false ?_ fun h => hingress h.1
    rw [Volume.validate, Directory.entries_put hfresh, List.all_cons, c.not_providerFile]
    simp

/-! ## The next backup -/

section Backup
variable {β δ : Type} {K : RestoreKit β δ}

/-- A directory that the start accepts holds plain files. -/
theorem plain_of_accepted {name : Text} {e : Entry} (h : wireguardAccepted name e = true) :
    copyOf K e = some (K.encode (contents e)) ∧
      validatedWireguardHooks (pathParts name).1 (pathParts name).2 (contents e) = true := by
  cases e with
  | file f =>
    simp only [wireguardAccepted, factsHold, Bool.and_eq_true, beq_iff_eq] at h
    exact ⟨if_pos h.1.1.2, h.2⟩
  | other => cases h

/-- A backup that was taken is restored exactly if every file passes the hook check. -/
theorem restore_iff {d : Directory} {image key : β} {label : Label} {db : Database δ}
    (h : Restorable K d image key label db)
    (hplain : ∀ e ∈ d.entries, copyOf K e.2 = some (K.encode (contents e.2)))
    {members : List (Text × β)}
    (hmembers : createBackup K.toKit label image key (sources K d) = .ok members)
    (hwithin : WithinLimits K.toKit members) : (∃ r, prepareRestore K members = .ok r) ↔
      ∀ e ∈ d.entries,
        validatedWireguardHooks (pathParts e.1).1 (pathParts e.1).2 (contents e.2) = true := by
  have hcount : d.entries.length ≤ maxFiles - 2 := by
    obtain ⟨staged, hstaged, -⟩ := Effect.bind_eq_ok.mp hmembers
    obtain ⟨files, hfiles, -, hle⟩ := collectConfigs_eq_ok (by decide) hstaged
    have hlength := congrArg List.length hfiles
    rw [(perm_sortedByName _).length_eq, sources, List.length_map, List.length_map] at hlength
    omega
  rw [createBackup_eq hplain hcount] at hmembers
  cases hmembers
  rw [h.restore hcount hwithin, ← all_copies K]
  cases hall : (copies K d).all (hooksAccepted K) with
  | false =>
    refine iff_of_false ?_ Bool.false_ne_true
    rintro ⟨r, hr⟩
    cases hr
  | true => exact iff_of_true ⟨_, rfl⟩ rfl

/-- A hidden file changes none of the configurations that the peers are compared with. -/
theorem restoredFiles_put {d : Directory} {name : Text} (e : Entry)
    (hfresh : name ∉ d.entries.map Prod.fst) (hconf : ∀ stem, confName stem ≠ name) :
    restoredFiles K (copies K (d.put name e)) = restoredFiles K (copies K d) := by
  funext stem
  have hlookup : (copies K (d.put name e)).lookup (confName stem) =
      (copies K d).lookup (confName stem) := by
    ext x
    rw [lookup_eq_some_iff_mem (nodup_copies K _), lookup_eq_some_iff_mem (nodup_copies K d),
      (perm_copies K _).mem_iff, (perm_copies K d).mem_iff, Directory.entries_put hfresh,
      List.map_cons, List.mem_cons, Prod.mk.injEq]
    exact ⟨fun h => h.resolve_left fun heq => hconf stem heq.1, .inr⟩
  rw [restoredFiles, restoredFiles, hlookup]

/-- A hidden name is the name of a file. -/
theorem Crash.isFileName_name {v : Volume} (c : Crash v) (hingress : c.write.isIngress = true) :
    isFileName c.name = true := by
  have hconfig {stem : Text} (h : isConfigName stem = true) :
      '/' ∉ tempName (confName stem) c.random := by
    have hslash := slash_not_mem_confName h
    have hrandom := c.random_ne.2.2.1
    simp [tempName, hslash, hrandom]
  have hslash : '/' ∉ c.name := by
    have hproper := c.proper
    rw [Crash.name]
    cases hw : c.write with
    | server head peers =>
      rw [hw] at hproper
      exact hconfig (isConfigName_of_isIngressName hproper.1.interface)
    | client name profile privateKey tunnelIp =>
      rw [hw] at hproper
      exact hconfig hproper.1
    | provider i t =>
      rw [hw] at hingress
      cases hingress
  refine isFileName_of hslash ?_
  have hlength := c.random_length
  simp only [Crash.name, tempName, List.length_append, List.length_cons]
  omega

/-- **The next backup.** A backup with a leftover is restored unless the leftover has reached the
first hook. -/
theorem restorable_crashed_iff {v : Volume} (hv : v.validate = true) (c : Crash v) {image key : β}
    {label : Label} {db : Database δ} (h : Restorable K v.wireguard image key label db)
    {members : List (Text × β)}
    (hmembers : createBackup K.toKit label image key (sources K c.after.wireguard) = .ok members)
    (hwithin : WithinLimits K.toKit members) :
    (∃ r, prepareRestore K members = .ok r) ↔ c.write.Quiet c.length := by
  have haccepted : ∀ e ∈ v.wireguard.entries, wireguardAccepted e.1 e.2 = true := by
    simp only [Volume.validate, Volume.validatePair, Bool.and_eq_true] at hv
    exact List.all_eq_true.mp hv.2.1.2
  have hold : ∀ e ∈ v.wireguard.entries, copyOf K e.2 = some (K.encode (contents e.2)) :=
    fun e he => (plain_of_accepted (haccepted e he)).1
  have hhooks : ∀ e ∈ v.wireguard.entries, validatedWireguardHooks (pathParts e.1).1
      (pathParts e.1).2 (contents e.2) = true :=
    fun e he => (plain_of_accepted (K := K) (haccepted e he)).2
  have hfresh : c.name ∉ (c.write.directory v).entries.map Prod.fst := c.fresh
  rw [Write.directory] at hfresh
  rw [Crash.after] at hmembers
  split at hmembers
  · next hingress =>
    rw [if_pos hingress] at hfresh
    have hentries := Directory.entries_put hfresh c.entry
    have hput : Restorable K (v.wireguard.put c.name c.entry) image key label db := by
      refine ⟨h.content, h.schema, h.key, ?_, ?_⟩
      · rw [hentries, List.forall_mem_cons]
        exact ⟨c.isFileName_name hingress, h.names⟩
      · rw [restoredFiles_put c.entry hfresh c.confName_ne]
        exact h.peers
    have hplain : ∀ e ∈ (v.wireguard.put c.name c.entry).entries,
        copyOf K e.2 = some (K.encode (contents e.2)) := by
      rw [hentries, List.forall_mem_cons]
      exact ⟨rfl, hold⟩
    rw [restore_iff hput hplain hmembers hwithin, hentries, List.forall_mem_cons,
      ← c.validated_leftover hingress]
    exact ⟨fun hall => hall.1, fun hall => ⟨hall, hhooks⟩⟩
  · next hingress =>
    refine iff_of_true ((restore_iff h hold hmembers hwithin).mpr hhooks) ?_
    cases hw : c.write with
    | server head peers =>
      rw [hw] at hingress
      exact absurd rfl hingress
    | client name profile privateKey tunnelIp => trivial
    | provider i t => trivial

/-- **Crash leftovers.** For every state that the start accepts and that can be restored, and every
crash inside an atomic write, the next start and the next backup accept the leftover exactly if it
is in the WireGuard directory, has room there and was cut before its first hook. -/
theorem leftover_accepted_iff {v : Volume} (hv : v.validate = true) (c : Crash v) {image key : β}
    {label : Label} {db : Database δ} (h : Restorable K v.wireguard image key label db) :
    (c.after.validate = true ∧ ∀ members,
      createBackup K.toKit label image key (sources K c.after.wireguard) = .ok members →
        WithinLimits K.toKit members → ∃ r, prepareRestore K members = .ok r) ↔ c.Accepted := by
  rw [validate_crashed_iff hv c]
  refine ⟨fun h => h.1, fun haccepted => ⟨haccepted, fun members hmembers hwithin => ?_⟩⟩
  exact (restorable_crashed_iff hv c h hmembers hwithin).mpr haccepted.2.1

end Backup

/-! ## Crashes after one setup -/

/-- The characters of one `mkstemp`. -/
def demoRandom : Text := "k3_x0q9z".toList

theorem demoRandom_chars : ∀ c ∈ demoRandom, c.isAlphanum = true ∨ c = '_' := by
  intro c hc
  have hall : demoRandom.all (fun c => c.isAlphanum || c == '_') = true := by decide +kernel
  simpa using List.all_eq_true.mp hall c hc

section Demo
variable {created : Created} {s : Store} (h : DemoSetup created s)
include h

/-- A crash inside a write of the server file, after `n` characters. -/
theorem exists_serverCrash (n : Nat) :
    ∃ c : Crash (setupVolume demoRequest created demoRequest_ne),
      c.write = .server created.head [created.peer] ∧ c.length = n := by
  have hserved :=
    h.setup.served (fun p k hk => isWord_of_isWireGuardKey (keyPlatform_keys p k hk).2)
    (isWord_of_firstSetup keyPlatform_keys h.setup)
  have hrandom : '.' ∉ demoRandom ∧ demoRandom ≠ "conf".toList := by decide +kernel
  refine ⟨⟨.server created.head [created.peer], ⟨hserved.1, hserved.2.plain, by simp⟩, demoRandom,
    by decide +kernel, demoRandom_chars, n, fun hmem => ?_⟩, rfl, rfl⟩
  obtain ⟨e, he, heq⟩ := List.mem_map.mp hmem
  obtain ⟨stem, -, hstem⟩ := h.holds.names e he
  exact confName_ne_tempName hrandom.1 hrandom.2 stem _ (hstem.symm.trans heq)

end Demo

/-- A crash inside a write of a provider file, before the first character. -/
theorem exists_providerCrash (created : Created) :
    ∃ c : Crash (setupVolume demoRequest created demoRequest_ne),
      c.write = .provider "wg-mullvad".toList "[Interface]".toList ∧ c.length = 0 :=
  ⟨⟨.provider "wg-mullvad".toList "[Interface]".toList, trivial, demoRandom, by decide +kernel,
    demoRandom_chars, 0, List.not_mem_nil⟩, rfl, rfl⟩

/-- A server file that was cut where its first hook begins. -/
theorem leftover_accepted_longest : ∃ created s, DemoSetup created s ∧
    ∃ c : Crash (setupVolume demoRequest created demoRequest_ne),
      c.write = .server created.head [created.peer] ∧ c.length = hookOffset created.head ∧
      0 < c.length ∧ c.after.validate = true := by
  obtain ⟨created, s, hdemo⟩ := exists_demoSetup
  obtain ⟨c, hwrite, hlength⟩ := exists_serverCrash hdemo (hookOffset created.head)
  have hrestorable : Restorable itemKit (setupVolume demoRequest created demoRequest_ne).wireguard
      (.image (setupDatabase demoRequest s)) .key ⟨[], [], 1⟩ (setupDatabase demoRequest s) :=
    restorable_of_run keyPlatform_keys hdemo.setup printable_demoRequest hdemo.empty .refl
      hdemo.readable (fun _ _ hk => hk) hdemo.holds (stores_setupDatabase demoRequest s) rfl rfl rfl
      rfl
  refine ⟨created, s, hdemo, c, hwrite, hlength, hlength ▸ Nat.succ_pos _,
    ((leftover_accepted_iff hdemo.valid c hrestorable).mpr ⟨?_, ?_, ?_⟩).1⟩
  · rw [hwrite]
    rfl
  · rw [hwrite, hlength]
    exact Nat.le_refl _
  · exact (by decide : 2 < 256)

/-- A server file that was complete but for the renaming, and the temporary file of a provider. -/
theorem leftovers_refused : ∃ created s, DemoSetup created s ∧
    (setupVolume demoRequest created demoRequest_ne).validate = true ∧
    (∃ c : Crash (setupVolume demoRequest created demoRequest_ne),
      c.write = .server created.head [created.peer] ∧
      c.length = (serverText created.head [created.peer]).length ∧ c.after.validate = false) ∧
    ∃ c : Crash (setupVolume demoRequest created demoRequest_ne),
      c.write = .provider "wg-mullvad".toList "[Interface]".toList ∧ c.length = 0 ∧
        c.after.validate = false := by
  obtain ⟨created, s, hdemo⟩ := exists_demoSetup
  obtain ⟨c, hwrite, hlength⟩ := exists_serverCrash hdemo
    (serverText created.head [created.peer]).length
  obtain ⟨p, hprovider, hnone⟩ := exists_providerCrash created
  refine ⟨created, s, hdemo, hdemo.valid, ⟨c, hwrite, hlength, ?_⟩, p, hprovider, hnone, ?_⟩
  · rw [← Bool.not_eq_true, validate_crashed_iff hdemo.valid]
    rintro ⟨-, hquiet, -⟩
    rw [hwrite, hlength, Write.Quiet] at hquiet
    obtain ⟨rest, heq⟩ := serverText_eq created.head [created.peer]
    have hlong := congrArg List.length heq
    simp only [List.length_append, List.length_cons] at hlong
    unfold hookOffset at hquiet
    have hkey : postUpKey.length = 6 := rfl
    omega
  · rw [← Bool.not_eq_true, validate_crashed_iff hdemo.valid]
    rintro ⟨hingress, -⟩
    rw [hprovider] at hingress
    cases hingress

end ExitLane.Backup
