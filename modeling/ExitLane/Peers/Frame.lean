import ExitLane.Peers.Invariant

/-!
# What an operation leaves alone

Every operation but `delete` and `update` renders the whole server file again from the
blocks it has parsed. The other peers' rows and client files are never written, their
blocks keep their order, keys and addresses, and the interface part keeps its text. The
one thing that rendering adds is the default keepalive, to every block that had none.
-/

namespace ExitLane.Peers
open Python IpAddress
open Effect (bind_eq_ok)

variable {w : Platform} {interface : Text} {d : Draw} {s : Store} {srv : Server} {profile : Profile}
  {v : Validated} {c : Change} {t : Table} {row : Row} {key : Text} {s' : Store}

/-! ## The other peers -/

/-- The peer that an operation is about. -/
def Operation.selected (d : Draw) : Operation → Text
  | .create _ _ => d.peerId
  | .update peerId _ _ | .regenerate peerId | .revoke peerId | .delete peerId => peerId

/-- The operations that render the server file. -/
def Operation.renders : Operation → Bool
  | .create _ _ | .regenerate _ | .revoke _ => true
  | .update _ _ _ | .delete _ => false

/-- The block of a row other than the selected one. -/
def isOther (rows : List Row) (selected : Text) (peer : PeerBlock) : Bool :=
  rows.any fun r => r.peerId ≠ selected && r.publicKey = peer.publicKey

variable {rows : List Row} {selected : Text} {peer : PeerBlock}

theorem isOther_iff :
    isOther rows selected peer = true ↔
      ∃ r ∈ rows, r.peerId ≠ selected ∧ r.publicKey = peer.publicKey := by
  simp [isOther]

/-- `_sections` of a configuration file, decoded as `_read` does. -/
def parsed (files : Files) (name : Text) : Option (Text × List PeerBlock) :=
  match files name with
  | some (.file f) => sections (universalNewlines f.text)
  | _ => none

/-- What one operation leaves as it was, for everyone but the selected peer. -/
structure OthersUntouched (interface selected : Text) (s s' : Store) : Prop where
  rows : s'.table.rows.filter (fun r => r.peerId ≠ selected) =
    s.table.rows.filter fun r => r.peerId ≠ selected
  clientFiles : ∀ r ∈ s.table.rows, r.peerId ≠ selected →
    s'.files r.configName = s.files r.configName
  serverFile : ∃ pre peers pre' peers', parsed s.files interface = some (pre, peers) ∧
    parsed s'.files interface = some (pre', peers') ∧ rstrip pre' = rstrip pre ∧
    peers'.filter (isOther s.table.rows selected) = peers.filter (isOther s.table.rows selected)

theorem Valid.parsed (h : Valid w interface s srv profile) :
    parsed s.files interface = some (srv.pre, srv.peers) := by
  obtain ⟨content, hread, hsrv⟩ := h.content
  obtain ⟨f, hfile, rfl⟩ := read_eq_ok hread
  rw [Peers.parsed, hfile]
  exact (server_eq_some_iff.mp hsrv).1

/-! ## Rows -/

theorem filter_update {f : Row → Row} (hf : ∀ r, (f r).peerId = r.peerId) :
    (rows.map fun r => if r.peerId = selected then f r else r).filter
        (fun r => r.peerId ≠ selected) = rows.filter fun r => r.peerId ≠ selected := by
  induction rows with
  | nil => rfl
  | cons r rows ih =>
    rw [List.map_cons]
    by_cases hid : r.peerId = selected
    · rw [if_pos hid, List.filter_cons_of_neg (by simp [hf, hid]),
        List.filter_cons_of_neg (by simp [hid]), ih]
    · rw [if_neg hid, List.filter_cons_of_pos (by simp [hid]),
        List.filter_cons_of_pos (by simp [hid]), ih]

/-- The selected peer is another one in no column. -/
theorem isOther_ne (hrow : row ∈ t.rows) (h : isOther t.rows row.peerId peer = true) :
    peer.publicKey ≠ row.publicKey := by
  obtain ⟨r, hr, hne, hkey⟩ := isOther_iff.mp h
  intro he
  exact hne (by rw [eq_of_column t.constraints.publicKey hr hrow (hkey.trans he)])

theorem isOther_fresh (hfresh : ∀ r ∈ rows, r.publicKey ≠ key) (hkey : peer.publicKey = key) :
    isOther rows selected peer = false := by
  rw [Bool.eq_false_iff]
  intro h
  obtain ⟨r, hr, -, he⟩ := isOther_iff.mp h
  exact hfresh r hr (he.trans hkey)

/-! ## Blocks -/

theorem filter_regeneratedPeers (hrow : row ∈ t.rows) {replacement : PeerBlock}
    (hfresh : ∀ r ∈ t.rows, r.publicKey ≠ replacement.publicKey) :
    (regeneratedPeers v row replacement).filter (isOther t.rows row.peerId) =
      v.peers.filter (isOther t.rows row.peerId) := by
  have hnew : isOther t.rows row.peerId replacement = false := isOther_fresh hfresh rfl
  have hreplaced (peers : List PeerBlock) : (peers.map fun peer =>
      if peer.publicKey = row.publicKey then replacement else peer).filter
        (isOther t.rows row.peerId) = peers.filter (isOther t.rows row.peerId) := by
    induction peers with
    | nil => rfl
    | cons peer peers ih =>
      rw [List.map_cons]
      by_cases hkey : peer.publicKey = row.publicKey
      · have hold : ¬ isOther t.rows row.peerId peer = true := fun h => isOther_ne hrow h hkey
        rw [if_pos hkey, List.filter_cons_of_neg (by simp [hnew]), List.filter_cons_of_neg hold, ih]
      · rw [if_neg hkey, List.filter_cons, List.filter_cons, ih]
  unfold regeneratedPeers
  split
  · rw [List.filter_append, hreplaced, List.filter_cons_of_neg (by simp [hnew]), List.filter_nil,
      List.append_nil]
  · exact hreplaced _

theorem filter_revokedPeers (hrow : row ∈ t.rows) (peers : List PeerBlock) :
    (peers.filter fun peer => peer.publicKey ≠ row.publicKey).filter
        (isOther t.rows row.peerId) = peers.filter (isOther t.rows row.peerId) := by
  rw [List.filter_filter]
  apply List.filter_congr
  intro peer _
  rw [Bool.eq_iff_iff]
  simp only [Bool.and_eq_true, decide_eq_true_eq, and_iff_left_iff_imp]
  exact isOther_ne hrow

theorem map_complete_eq_self {peers : List PeerBlock} :
    peers.map PeerBlock.complete = peers ↔ ∀ peer ∈ peers, peer.persistentKeepalive ≠ none := by
  have hone (peer : PeerBlock) : peer.complete = peer ↔ peer.persistentKeepalive ≠ none := by
    obtain ⟨key, allowedIPs, keepalive⟩ := peer
    cases keepalive with
    | none => simp [PeerBlock.complete]
    | some t => simp [PeerBlock.complete, PeerBlock.keepalive]
  induction peers with
  | nil => simp
  | cons peer peers ih =>
    rw [List.map_cons, List.cons.injEq, List.forall_mem_cons]
    exact and_congr (hone peer) ih

section
variable (h : Valid w interface s srv profile)
include h

/-- A rendered server file, parsed again: the other blocks carry a keepalive each. -/
theorem Valid.parsed_render {next : List PeerBlock}
    (hfile : s'.files interface = some (written (Peers.render srv.pre next)))
    (hwf : ∀ p ∈ next, p.WellFormed)
    (hothers : next.filter (isOther s.table.rows selected) =
      srv.peers.filter (isOther s.table.rows selected)) :
    ∃ pre' peers', Peers.parsed s'.files interface = some (pre', peers') ∧
      rstrip pre' = rstrip srv.pre ∧ peers'.filter (isOther s.table.rows selected) =
        (srv.peers.filter (isOther s.table.rows selected)).map PeerBlock.complete := by
  obtain ⟨hnewlines, pre', hsec, -, hend⟩ := h.render hwf
  refine ⟨pre', next.map PeerBlock.complete, ?_, hend, ?_⟩
  · rw [Peers.parsed, hfile]
    exact (congrArg sections hnewlines).trans hsec
  · rw [List.filter_map, ← hothers]
    rfl

/-! ## Each operation -/

/-- What `plan` leaves alone on every store, whatever the blocks look like. -/
structure Frame (interface selected : Text) (s s' : Store) (srv : Server) (renders : Bool) :
    Prop where
  rows : s'.table.rows.filter (fun r => r.peerId ≠ selected) =
    s.table.rows.filter fun r => r.peerId ≠ selected
  clientFiles : ∀ r ∈ s.table.rows, r.peerId ≠ selected →
    s'.files r.configName = s.files r.configName
  serverFile : ∃ pre' peers', parsed s'.files interface = some (pre', peers') ∧
    rstrip pre' = rstrip srv.pre ∧ peers'.filter (isOther s.table.rows selected) =
      if renders then (srv.peers.filter (isOther s.table.rows selected)).map PeerBlock.complete
      else srv.peers.filter (isOther s.table.rows selected)

section
variable (hv : v = ⟨srv.pre, srv.peers, srv.address, s.table.sorted⟩) {peerId : Text}
include hv

theorem create_frame
    {name description : Text}
    {ip : Nat} {profile' : Profile}
    (hp : CreatePlan w interface name description d s v c ip key profile')
    (hfile : s.files d.configName = none) : Frame interface d.peerId s (s.apply c) srv true := by
  subst hv
  have hfresh : ∀ r ∈ s.table.rows, r.publicKey ≠ key :=
    fun r hr => hp.fresh r (Table.mem_sorted.mpr hr)
  obtain ⟨hne, hunused⟩ := h.ne_unused hfile
  have hfiles := s.apply_files c
  simp only [hp.newFiles, setFiles_two] at hfiles
  refine ⟨?_, ?_, ?_⟩
  · rw [Store.apply, hp.rows, List.filter_append, List.filter_cons_of_neg (by simp [newRow]),
      List.filter_nil, List.append_nil]
  · intro r hr _
    rw [hfiles, if_neg (hunused r hr), if_neg (h.configName_ne hr)]
  · have hserver := hfiles interface
    rw [if_neg hne, if_pos rfl] at hserver
    refine h.parsed_render hserver (createdPeers_wellFormed h hp.derived ip _) ?_
    rw [List.filter_append, List.filter_cons_of_neg
      (Bool.eq_false_iff.mp (isOther_fresh hfresh rfl)),
      List.filter_nil, List.append_nil]

theorem regenerate_frame
    {profile' : Profile}
    (hp : RegeneratePlan w interface peerId d s v c row key profile') :
    Frame interface peerId s (s.apply c) srv true := by
  subst hv
  obtain ⟨hrow, rfl⟩ := hp.found
  have hne : interface ≠ row.configName := (h.configName_ne hrow).symm
  have hfiles := s.apply_files c
  simp only [hp.newFiles, setFiles_two] at hfiles
  refine ⟨?_, ?_, ?_⟩
  · rw [Store.apply, hp.rows]
    exact filter_update fun r => rfl
  · intro r hr hid
    have hname : r.configName ≠ row.configName := fun he =>
      hid (by rw [eq_of_column s.table.constraints.configName hr hrow he])
    rw [hfiles, if_neg hname, if_neg (h.configName_ne hr)]
  · have hserver := hfiles interface
    rw [if_neg hne, if_pos rfl] at hserver
    exact h.parsed_render hserver (regeneratedPeers_wellFormed h rfl hrow hp.derived)
      (filter_regeneratedPeers hrow fun r hr => hp.fresh r (Table.mem_sorted.mpr hr))

theorem revoke_frame

    (hp : RevokePlan interface peerId d s v c row) :
    Frame interface peerId s (s.apply c) srv true := by
  subst hv
  obtain ⟨hrow, rfl⟩ := hp.found
  have hfiles := s.apply_files c
  simp only [hp.newFiles, setFiles_one] at hfiles
  refine ⟨?_, ?_, ?_⟩
  · rw [Store.apply, hp.rows]
    exact filter_update fun r => rfl
  · intro r hr _
    rw [hfiles, if_neg (h.configName_ne hr)]
  · have hserver := hfiles interface
    rw [if_pos rfl] at hserver
    exact h.parsed_render hserver (fun p hp => h.peers_wellFormed.1 p (List.mem_filter.mp hp).1)
      (filter_revokedPeers hrow srv.peers)

end

/-- A server file that is not written parses as before. -/
private theorem Valid.parsed_same
    (hfile : s'.files interface = s.files interface) :
    ∃ pre' peers', Peers.parsed s'.files interface = some (pre', peers') ∧
      rstrip pre' = rstrip srv.pre ∧ peers'.filter (isOther s.table.rows selected) =
        srv.peers.filter (isOther s.table.rows selected) := by
  refine ⟨srv.pre, srv.peers, ?_, rfl, rfl⟩
  rw [← h.parsed, Peers.parsed, Peers.parsed, hfile]

theorem update_frame {name description : Text}
    (hp : updateOperation peerId name description d s = .ok c) :
    Frame interface peerId s (s.apply c) srv false := by
  obtain ⟨-, hnew, hrows⟩ := updateOperation_eq_ok hp
  have hfiles (n : Text) : (s.apply c).files n = s.files n := by rw [s.apply_files, hnew]; rfl
  refine ⟨?_, fun r _ _ => hfiles _, h.parsed_same (hfiles _)⟩
  rw [Store.apply, hrows]
  exact filter_update fun r => rfl

theorem delete_frame (hp : DeletePlan peerId s c row) :
    Frame interface peerId s (s.apply c) srv false := by
  obtain ⟨hrow, rfl⟩ := hp.found
  have hfiles := s.apply_files c
  simp only [hp.newFiles, setFiles_one] at hfiles
  refine ⟨?_, ?_, h.parsed_same ?_⟩
  · rw [Store.apply, hp.table, Table.delete, List.filter_filter]
    simp
  · intro r hr hid
    rw [hfiles,
      if_neg fun he => hid (by rw [eq_of_column s.table.constraints.configName hr hrow he])]
  · rw [hfiles, if_neg (h.configName_ne hrow).symm]

theorem plan_frame {op : Operation}
    (hp : plan w interface d s op = .ok c) (hfresh : FreshId d s op) :
    Frame interface (op.selected d) s (s.apply c) srv op.renders := by
  obtain ⟨v, hv, hplan⟩ := plan_eq_ok hp
  cases hplan with
  | create hplan => exact create_frame h (h.validated hv) hplan hfresh
  | update hplan => exact update_frame h hplan
  | regenerate hplan => exact regenerate_frame h (h.validated hv) hplan
  | revoke hplan => exact revoke_frame h (h.validated hv) hplan
  | delete hplan => exact delete_frame h hplan

end

/-- Within the frame, only the default keepalive can differ. -/
theorem Frame.untouched_iff {renders : Bool} (hframe : Frame interface selected s s' srv renders)
    (h : Valid w interface s srv profile) :
    OthersUntouched interface selected s s' ↔
      (renders = true → ∀ peer ∈ srv.peers, isOther s.table.rows selected peer = true →
        peer.persistentKeepalive ≠ none) := by
  obtain ⟨hrows, hfiles, pre', peers', hparsed, hend, hothers⟩ := hframe
  have hkept : (renders = true → ∀ peer ∈ srv.peers,
      isOther s.table.rows selected peer = true → peer.persistentKeepalive ≠ none) ↔
      peers'.filter (isOther s.table.rows selected) =
        srv.peers.filter (isOther s.table.rows selected) := by
    rw [hothers]
    cases renders with
    | false => simp
    | true =>
      rw [if_pos rfl, map_complete_eq_self]
      simp only [List.mem_filter, and_imp, true_imp_iff]
  rw [hkept]
  constructor
  · rintro ⟨-, -, pre, peers, pre2, peers2, hold, hnew, -, heq⟩
    rw [h.parsed] at hold
    rw [hparsed] at hnew
    cases hold
    cases hnew
    exact heq
  · intro heq
    exact ⟨hrows, hfiles, srv.pre, srv.peers, pre', peers', h.parsed, hparsed, hend, heq⟩

/-! ## Revoking one of two peers -/

/-- The peer that a row names is found under its id. -/
theorem Table.get_of_mem (h : row ∈ t.rows) : t.get row.peerId = .ok row := by
  unfold Table.get
  split
  · next r hf =>
    have hr : r ∈ t.rows := Table.mem_sorted.mp (List.mem_of_find?_eq_some hf)
    have hid : r.peerId = row.peerId := by simpa using List.find?_some hf
    rw [eq_of_column t.constraints.peerId hr h hid]
  · next hf => simpa using List.find?_eq_none.mp hf row (Table.mem_sorted.mpr h)

/-- An update of a row that leaves the constrained columns alone succeeds. -/
theorem Table.exists_update {f : Row → Row} (hrow : row ∈ t.rows)
    (hf : ∀ r, (f r).peerId = r.peerId ∧ (f r).publicKey = r.publicKey ∧
      (f r).tunnelIp = r.tunnelIp ∧ (f r).configName = r.configName ∧
      (f r).isDefault = r.isDefault) :
    ∃ t', t.update row.peerId f = .ok t' ∧ t'.get row.peerId = .ok (f row) := by
  have hcolumn {α : Type} {g : Row → α} (hg : ∀ r, g (f r) = g r) :
      g ∘ (fun r => if r.peerId = row.peerId then f r else r) = g := by
    funext r
    simp only [Function.comp]
    split
    · exact hg r
    · rfl
  have hconstraints :
      Constraints (t.rows.map fun r => if r.peerId = row.peerId then f r else r) := by
    constructor
    · rw [List.map_map, hcolumn fun r => (hf r).1]
      exact t.constraints.peerId
    · rw [List.map_map, hcolumn fun r => (hf r).2.1]
      exact t.constraints.publicKey
    · rw [List.map_map, hcolumn fun r => (hf r).2.2.1]
      exact t.constraints.tunnelIp
    · rw [List.map_map, hcolumn fun r => (hf r).2.2.2.1]
      exact t.constraints.configName
    · rw [List.filter_map, hcolumn fun r => (hf r).2.2.2.2, List.length_map]
      exact t.constraints.isDefault
  refine ⟨⟨_, hconstraints⟩, by rw [Table.update, Table.ofRows, dif_pos hconstraints], ?_⟩
  have hget := Table.get_of_mem (t := ⟨_, hconstraints⟩)
    (List.mem_map.mpr ⟨row, hrow, if_pos rfl⟩)
  rwa [(hf row).1] at hget

/-- `revoke` succeeds for every active peer of an accepted store. -/
theorem Valid.exists_revoke (h : Valid w interface s srv profile) (d : Draw)
    (hrow : row ∈ s.table.rows) (hactive : row.status = .active) :
    ∃ c, plan w interface d s (.revoke row.peerId) = .ok c := by
  obtain ⟨content, hread, -⟩ := h.content
  obtain ⟨table, htable, hget⟩ := Table.exists_update (f := revokedRow d) hrow
    fun _ => ⟨rfl, rfl, rfl, rfl, rfl⟩
  simp only [plan, revokeOperation, bind_eq_ok, refuse_eq_ok, path_eq_ok, pure, Except.pure,
    Except.ok.injEq]
  exact ⟨_, _, validateState_eq_ok.mpr ⟨srv, profile, h, rfl⟩, row, Table.get_of_mem hrow, (),
    by rw [hactive]; rfl, table, htable, interface, ⟨h.interfaceName, rfl⟩, _, hget, content, hread,
    rfl⟩

/-- `update` succeeds for every peer of an accepted store, and changes no file. -/
theorem Valid.exists_update (h : Valid w interface s srv profile) (d : Draw)
    (hrow : row ∈ s.table.rows) {name new description text : Text}
    (hname : validateName w name false = .ok new)
    (hdescription : validateName w description true = .ok text) :
    ∃ c, plan w interface d s (.update row.peerId name description) = .ok c ∧ c.newFiles = [] := by
  obtain ⟨table, htable, hget⟩ := Table.exists_update (f := renamedRow d new text) hrow
    fun _ => ⟨rfl, rfl, rfl, rfl, rfl⟩
  refine ⟨⟨table, renamedRow d new text row, none, [], []⟩, ?_, rfl⟩
  simp only [plan, updateOperation, bind_eq_ok, pure, Except.pure, Except.ok.injEq]
  exact ⟨_, hname, _, hdescription, _, validateState_eq_ok.mpr ⟨srv, profile, h, rfl⟩, row,
    Table.get_of_mem hrow, table, htable, _, hget, rfl⟩

section Pair

def pairRow (id : Char) (ip : Text) : Row :=
  ⟨[id], [id], [], ['P', id], ip, [id], .active, false, [], [], none⟩

def pairHead : List Text :=
  ["[Interface]".toList, "PrivateKey = server".toList, "Address = 10.0.0.1/24".toList, []]

/-- A server file of two peers, the first with the given keepalive lines. -/
def pairText (keepalive : List Text) : Text :=
  unlines
    (pairHead ++ ["[Peer]".toList, "PublicKey = Pa".toList, "AllowedIPs = 10.0.0.2/32".toList] ++
    keepalive ++ ["[Peer]".toList, "PublicKey = Pb".toList, "AllowedIPs = 10.0.0.3/32".toList,
      "PersistentKeepalive = 25".toList])

def pairStore (keepalive : List Text) : Store where
  table := ⟨[pairRow 'a' "10.0.0.2".toList, pairRow 'b' "10.0.0.3".toList], by decide⟩
  profile := some demoProfile
  files name :=
    if name = demoInterface then some (written (pairText keepalive))
    else if name = ['a'] then some (written (clientText demoProfile ['a'] "10.0.0.2".toList))
    else if name = ['b'] then some (written (clientText demoProfile ['b'] "10.0.0.3".toList))
    else none

def pairServer (keepalive : Option Text) : Server where
  pre := unlines pairHead
  peers := [⟨"Pa".toList, "10.0.0.2/32".toList, keepalive⟩,
    ⟨"Pb".toList, "10.0.0.3/32".toList, some "25".toList⟩]
  address := ⟨167772161, 24, by decide, by decide⟩
  privateKey := "server".toList

def pairLine : List Text := ["PersistentKeepalive = 7".toList]

theorem pairRow_mem (line : List Text) :
    pairRow 'b' "10.0.0.3".toList ∈ (pairStore line).table.rows :=
  List.mem_cons_of_mem _ (List.mem_cons_self ..)

deriving instance DecidableEq for Server

/-- A row of the pair, with the client file that was written for it. -/
private theorem pairRow_valid {files : Files} {id : Char} {text : Text} (ip : Nat)
    (hspace : isSpace id = false) (hname : isConfigName [id] = true)
    (hfile : files [id] = some (written (clientText demoProfile [id] text)))
    (hsize : utf8Length (clientText demoProfile [id] text) ≤ 65536) (hip : text = ipv4Text ip)
    (hlt : ip < 2 ^ 32) (hass : assignable (pairServer none).address ip = true) :
    RowValid demoPlatform files (pairServer none).address demoProfile.serverPublicKey
      (pairRow id text) := by
  let d : Draw := { demoDraw with
    privateKey := [id], privateKey_ne_nil := List.cons_ne_nil _ _,
    privateKey_noSpace := by simpa using hspace }
  have hkey : demoPlatform.pubkey d.privateKey = some ['P', id] := by
    simp [demoPlatform, d, hspace]
  have hserver : demoPlatform.pubkey "server".toList = some demoProfile.serverPublicKey := rfl
  exact rowValid_clientText (d := d) hname hfile hsize hip hlt hass hkey (by decide +kernel) hserver

theorem pairStore_valid {line : List Text} {keepalive : Option Text}
    (hread : read (some (written (pairText line))) = .ok (pairText line))
    (hserver : server (pairText line) = some (pairServer keepalive)) :
    Valid demoPlatform demoInterface (pairStore line) (pairServer keepalive) demoProfile := by
  refine ⟨by decide, ⟨_, hread, hserver⟩, rfl, fun item => Iff.rfl, rfl, ?_⟩
  intro r hr
  simp only [pairStore, List.mem_cons, List.not_mem_nil, or_false] at hr
  rcases hr with rfl | rfl
  · exact pairRow_valid 167772162 rfl rfl rfl (by decide +kernel) (by decide +kernel)
      (by decide) (by decide +kernel)
  · exact pairRow_valid 167772163 rfl rfl rfl (by decide +kernel) (by decide +kernel)
      (by decide) (by decide +kernel)

theorem pairText_read {line : List Text} (hcr : '\r' ∉ pairText line)
    (hsize : utf8Length (pairText line) ≤ 65536) :
    read (some (written (pairText line))) = .ok (pairText line) := by
  rw [read_written hsize, universalNewlines_of_not_mem hcr]

theorem pairStore_without :
    Valid demoPlatform demoInterface (pairStore []) (pairServer none) demoProfile :=
  pairStore_valid (pairText_read (by decide +kernel) (by decide +kernel)) (by decide +kernel)

theorem pairStore_with :
    Valid demoPlatform demoInterface (pairStore pairLine)
      (pairServer (some ['7'])) demoProfile :=
  pairStore_valid (pairText_read (by decide +kernel) (by decide +kernel)) (by decide +kernel)

end Pair

/-- Revoking one peer writes a keepalive into the block of the other, which had none. -/
theorem revoke_adds_keepalive :
    ∃ v c, validateState demoPlatform demoInterface (pairStore []) = .ok v ∧
      plan demoPlatform demoInterface demoDraw (pairStore []) (.revoke ['b']) = .ok c ∧
      ¬ OthersUntouched demoInterface ['b'] (pairStore []) ((pairStore []).apply c) := by
  obtain ⟨c, hc⟩ := pairStore_without.exists_revoke demoDraw (pairRow_mem []) rfl
  refine ⟨_, c, validateState_eq_ok.mpr ⟨_, _, pairStore_without, rfl⟩, hc, ?_⟩
  intro huntouched
  have hframe : Frame demoInterface ['b'] (pairStore []) ((pairStore []).apply c)
    (pairServer none) true := plan_frame pairStore_without hc trivial
  exact (hframe.untouched_iff pairStore_without).mp huntouched rfl _ (List.mem_cons_self ..)
    (by decide) rfl

/-- **Frame.** A successful operation leaves the other peers as they were exactly when it
does not render the server file, or every other block has a keepalive of its own. -/
theorem othersUntouched_iff {op : Operation} (hv : validateState w interface s = .ok v)
    (hp : plan w interface d s op = .ok c) (hfresh : FreshId d s op) :
    OthersUntouched interface (op.selected d) s (s.apply c) ↔
      (op.renders = true → ∀ peer ∈ v.peers, isOther s.table.rows (op.selected d) peer = true →
        peer.persistentKeepalive ≠ none) := by
  obtain ⟨srv, profile, h, rfl⟩ := validateState_eq_ok.mp hv
  exact (plan_frame h hp hfresh).untouched_iff h

/-- Revoking a peer beside one that has a keepalive leaves that one untouched. -/
theorem revoke_untouched :
    ∃ c, plan demoPlatform demoInterface demoDraw (pairStore pairLine) (.revoke ['b']) = .ok c ∧
      OthersUntouched demoInterface ['b'] (pairStore pairLine) ((pairStore pairLine).apply c) := by
  obtain ⟨c, hc⟩ := pairStore_with.exists_revoke demoDraw (pairRow_mem pairLine) rfl
  have hstate := validateState_eq_ok.mpr ⟨_, _, pairStore_with, rfl⟩
  have hkept : ∀ peer ∈ (pairServer (some ['7'])).peers, peer.persistentKeepalive ≠ none := by
    decide
  exact ⟨c, hc, (othersUntouched_iff hstate hc trivial).mpr fun _ peer hpeer _ => hkept peer hpeer⟩

end ExitLane.Peers
