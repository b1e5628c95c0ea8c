import Mathlib.Data.List.TakeWhile
import TorrentEngine.Library.Decimal
import TorrentEngine.PeerEndpoints
import TorrentEngine.TrackerAnswers

/-! The two formats of a list of peers, for the same IPv4 endpoints: the compact string and the list of
dictionaries. Both are read into the same contacts in the same order, but only the dictionary path
refuses a port. -/

namespace TorrentEngine

open Bencode PeerContact Tracker

/-- An IPv4 address, in network order, and a port. -/
structure V4Peer where
  addr : Vector Byte 4
  port : UInt16

namespace V4Peer

/-- The contact of the endpoint, on which nothing is known of its peer id. -/
def contact (peer : V4Peer) : PeerContact :=
  ⟨copyInto PeerContact.fresh.nAddr peer.addr.toList, htons peer.port.toNat, false, none⟩

/-- The six bytes of the endpoint in a compact string. -/
def compact (peer : V4Peer) : List Byte :=
  peer.addr.toList ++ [(htons peer.port.toNat).1, (htons peer.port.toNat).2]

/-- The dotted address. -/
def dotted (addr : Vector Byte 4) : List Byte :=
  Decimal.print addr[0].toNat ++ ascii '.' :: (Decimal.print addr[1].toNat ++
    ascii '.' :: (Decimal.print addr[2].toNat ++ ascii '.' :: Decimal.print addr[3].toNat))

/-- An entry `{ip: dotted address, port: integer}` for the endpoint. -/
def Describes (peer : V4Peer) (entry : Data) : Prop :=
  ∃ (ip : ByteString) (port : Int64) (ipPosition portPosition position : SourceStats),
    ip.bytes = dotted peer.addr ∧ port.toInt = peer.port.toNat ∧
      entry = .dictionary [(.ofString "ip", .string ip ipPosition),
        (.ofString "port", .integer port portPosition)] position

end V4Peer

/-! ### The compact string -/

theorem compactPeers_eq (peers : List V4Peer) :
    compactPeers (peers.flatMap V4Peer.compact) = peers.map V4Peer.contact := by
  induction peers with
  | nil => rfl
  | cons peer peers ih =>
      obtain ⟨a, b, c, d, haddr⟩ : ∃ a b c d, peer.addr.toList = [a, b, c, d] :=
        List.length_eq_four.mp peer.addr.length_toList
      rw [List.flatMap_cons, V4Peer.compact, haddr, List.map_cons, ← ih, V4Peer.contact, haddr]
      rfl

theorem length_flatMap_compact (peers : List V4Peer) :
    (peers.flatMap V4Peer.compact).length = 6 * peers.length := by
  induction peers with
  | nil => rfl
  | cons peer peers ih =>
      rw [List.flatMap_cons, List.length_append, ih, V4Peer.compact, List.length_append,
        peer.addr.length_toList, List.length_cons]
      simp only [List.length_cons, List.length_nil]
      omega

/-! ### The list of dictionaries -/

theorem isDigit_of_mem_print {n : Nat} {b : Byte} (h : b ∈ Decimal.print n) :
    Decimal.isDigit b = true := by
  by_cases hzero : n = 0
  · rw [Decimal.print, if_pos hzero, List.mem_singleton] at h
    rw [h]
    rfl
  · exact (Decimal.print_nonzeroLeading hzero).digits b h

theorem ne_zero_of_mem_dotted {addr : Vector Byte 4} {b : Byte} (h : b ∈ V4Peer.dotted addr) :
    b ≠ 0 := by
  have hprint : ∀ n, b ∈ Decimal.print n → b ≠ 0 := by
    intro n hmem hzero
    have hdigit := isDigit_of_mem_print hmem
    rw [hzero] at hdigit
    exact absurd hdigit (by decide)
  have hdot : ascii '.' ≠ 0 := by decide
  simp only [V4Peer.dotted, List.mem_append, List.mem_cons] at h
  rcases h with h | h | h | h | h | h | h
  · exact hprint _ h
  · rwa [h]
  · exact hprint _ h
  · rwa [h]
  · exact hprint _ h
  · rwa [h]
  · exact hprint _ h

section Entries

variable {env : TrackerEnvironment}

/-- An entry is read into the contact of its endpoint, unless its port is 0. -/
theorem listPeer_describes {peer : V4Peer} {entry : Data}
    (hpton : env.inetPton4 (V4Peer.dotted peer.addr) = some peer.addr.toList) (h : peer.Describes entry) :
    listPeer env entry = .ok (if peer.port = 0 then none else some peer.contact) := by
  obtain ⟨ip, port, ipPosition, portPosition, position, hip, hport, rfl⟩ := h
  have hcStr : ip.bytes.takeWhile (· ≠ 0) = V4Peer.dotted peer.addr := by
    rw [hip, List.takeWhile_eq_self_iff]
    intro b hb
    exact decide_eq_true (ne_zero_of_mem_dotted hb)
  have hreadIp : readIp env [(.ofString "ip", .string ip ipPosition),
      (.ofString "port", .integer port portPosition)] =
      .ok (some (false, copyInto PeerContact.fresh.nAddr peer.addr.toList)) := by
    rw [@readIp_eq env _ ip ipPosition rfl, parsedAddress, hcStr, hpton]
  have hreadPort : readPort [(.ofString "ip", .string ip ipPosition),
      (.ofString "port", .integer port portPosition)] =
      .ok (if peer.port = 0 then none else some (htons peer.port.toNat)) := by
    refine Except.bind_eq_ok.mpr ⟨port, rfl, congrArg Except.ok ?_⟩
    rw [hport, Int.toNat_natCast]
    have hlt := peer.port.toNat_lt
    have hone : (1 : Int64).toInt = 1 := rfl
    have hmax : maxPort.toInt = 65535 := rfl
    by_cases hzero : peer.port = 0
    · have hnone : peer.port.toNat = 0 := congrArg UInt16.toNat hzero
      have hbelow : port < 1 := by
        rw [Int64.lt_iff_toInt_lt, hport, hnone, hone]
        decide
      rw [if_pos hzero, if_pos (Or.inl hbelow)]
    · have hne : peer.port.toNat ≠ 0 := fun h => hzero (UInt16.toNat_inj.mp h)
      rw [if_neg hzero, if_neg]
      rw [gt_iff_lt, Int64.lt_iff_toInt_lt, Int64.lt_iff_toInt_lt, hport, hone, hmax]
      omega
  refine Except.bind_eq_ok.mpr ⟨_, rfl, Except.bind_eq_ok.mpr ⟨none, rfl, ?_⟩⟩
  refine Except.bind_eq_ok.mpr ⟨_, hreadIp, Except.bind_eq_ok.mpr ⟨_, hreadPort, ?_⟩⟩
  by_cases hzero : peer.port = 0
  · rw [if_pos hzero, if_pos hzero]
    rfl
  · rw [if_neg hzero, if_neg hzero]
    rfl

/-- The loop pushes the endpoints with a port. -/
theorem pushListPeers_describes {peers : List V4Peer} {entries : List Data}
    (hpton : ∀ peer ∈ peers, env.inetPton4 (V4Peer.dotted peer.addr) = some peer.addr.toList)
    (hentries : List.Forall₂ V4Peer.Describes peers entries) (queued : List PeerContact × Bool) :
    pushListPeers env entries queued =
      .ok (((peers.filter fun peer => peer.port ≠ 0).map V4Peer.contact).foldl pushDiscovery
        queued) := by
  induction hentries generalizing queued with
  | nil => rfl
  | @cons peer entry peers entries hentry _ ih =>
      obtain ⟨hfirst, hothers⟩ := List.forall_mem_cons.mp hpton
      rw [pushListPeers]
      refine Except.bind_eq_ok.mpr ⟨_, listPeer_describes hfirst hentry, ?_⟩
      by_cases hzero : peer.port = 0
      · rw [if_pos hzero, List.filter_cons_of_neg (by simp [hzero])]
        exact ih hothers queued
      · rw [if_neg hzero, List.filter_cons_of_pos (by simp [hzero]), List.map_cons, List.foldl_cons]
        exact ih hothers (pushDiscovery queued peer.contact)

end Entries

/-! ### The queue -/

/-- The queue takes as many contacts as it has room for. -/
theorem foldl_pushDiscovery (contacts : List PeerContact) (queued : List PeerContact × Bool) :
    (contacts.foldl pushDiscovery queued).1 =
      queued.1 ++ contacts.take (discoveriesCapacity - queued.1.length) := by
  induction contacts generalizing queued with
  | nil => rw [List.foldl_nil, List.take_nil, List.append_nil]
  | cons contact contacts ih =>
      rw [List.foldl_cons, ih, pushDiscovery]
      split
      · rename_i hroom
        obtain ⟨free, hfree⟩ := Nat.exists_eq_succ_of_ne_zero (Nat.sub_ne_zero_of_lt hroom)
        have hless : discoveriesCapacity - (queued.1 ++ [contact]).length = free := by
          rw [List.length_append, List.length_singleton]
          omega
        dsimp only
        rw [hless, hfree, List.append_assoc, List.singleton_append, List.take_succ_cons]
      · rename_i hfull
        rw [Nat.sub_eq_zero_of_le (Nat.le_of_not_lt hfull), List.take_zero, List.take_zero]

/-- What the handler leaves in the queue. -/
theorem activeStateHandler_discoveries {env : TrackerEnvironment} {this : ByteString}
    {manager : TrackerManager} {tracker : Tracker} {parse : Dictionary}
    {result : TrackerManager × Tracker} {queued : Option (List PeerContact × Bool)}
    (h : activeStateHandler env this manager tracker parse = .ok result)
    (hpush : pushPeers env parse manager.discoveries = .ok queued) :
    result.1.discoveries = (queued.map Prod.fst).getD manager.discoveries := by
  rw [activeStateHandler] at h
  obtain ⟨⟨tracker₃, queued'⟩, hread, hrest⟩ := Except.bind_eq_ok.mp h
  obtain ⟨_, _, -, -, -, hpush'⟩ := readResponse_eq_ok.mp hread
  obtain rfl := Except.ok.inj (hpush.symm.trans hpush')
  cases queued with
  | none =>
      cases hrest
      rfl
  | some queued =>
      cases hrest
      rw [finish]
      split
      · rfl
      · rfl

/-- A filter leaves the first of a list alone exactly where it keeps each of them, if it keeps them by
what they are mapped to. -/
theorem take_map_filter_eq_iff {α β : Type} {f : α → β} {keep : α → Bool}
    (hkeep : ∀ x y, f x = f y → keep x = keep y) (n : Nat) (xs : List α) :
    (xs.map f).take n = ((xs.filter keep).map f).take n ↔ ∀ x ∈ xs.take n, keep x = true := by
  constructor
  · intro heq x hx
    have hmem : f x ∈ (xs.map f).take n := by
      rw [← List.map_take]
      exact List.mem_map_of_mem hx
    rw [heq] at hmem
    obtain ⟨y, hy, hxy⟩ := List.mem_map.mp (List.mem_of_mem_take hmem)
    rw [← hkeep y x hxy]
    exact (List.mem_filter.mp hy).2
  · intro hall
    have hfilter : xs.filter keep = xs.take n ++ (xs.drop n).filter keep := by
      rw [← List.filter_eq_self.mpr hall, ← List.filter_append, List.take_append_drop]
    rw [hfilter, ← List.map_take, ← List.map_take]
    rcases Nat.le_total n xs.length with hle | hle
    · rw [List.take_append_of_le_length (by rw [List.length_take, Nat.min_eq_left hle]),
        List.take_of_length_le (List.length_take_le n xs)]
    · rw [List.drop_of_length_le hle, List.filter_nil, List.append_nil, List.take_take, Nat.min_self]

theorem port_eq_zero_of_contact_eq {peer peer' : V4Peer} (h : peer.contact = peer'.contact) :
    peer.port = peer'.port := by
  have hports : htons peer.port.toNat = htons peer'.port.toNat := congrArg PeerContact.nPort h
  rw [htons, htons, Prod.mk.injEq] at hports
  have hhigh := congrArg UInt8.toNat hports.1
  have hlow := congrArg UInt8.toNat hports.2
  rw [UInt8.toNat_ofNat', UInt8.toNat_ofNat'] at hhigh hlow
  have hlt := peer.port.toNat_lt
  have hlt' := peer'.port.toNat_lt
  apply UInt16.toNat_inj.mp
  omega

/-! ### Both formats -/

/-- The fields that the handler reads before the peers have the types it expects. -/
structure TypedHeader (parse : Dictionary) : Prop where
  interval : IntegerField "interval" parse
  minInterval : IntegerField "min interval" parse
  trackerId : StringField "tracker id" parse

section Formats

variable {env : TrackerEnvironment} {peers : List V4Peer} {parse : Dictionary} {p : SourceStats}

/-- Behind a header with the right types the handler queues what the peers push. -/
theorem activeStateHandler_pushed {queued : Option (List PeerContact × Bool)} (hheader : TypedHeader parse)
    (this : ByteString) (manager : TrackerManager) (tracker : Tracker)
    (hpush : pushPeers env parse manager.discoveries = .ok queued) :
    ∃ result, activeStateHandler env this manager tracker parse = .ok result ∧
      result.1.discoveries = (queued.map Prod.fst).getD manager.discoveries := by
  have hlists : ∀ peerList position, find "peers" parse = some (.list peerList position) →
      ∃ pushed, pushListPeers env peerList (manager.discoveries, false) = .ok pushed := by
    intro peerList position hlist
    rw [pushPeers, hlist] at hpush
    obtain ⟨pushed, hpushed, -⟩ := Except.bind_eq_ok.mp hpush
    exact ⟨pushed, hpushed⟩
  obtain ⟨result, hresult⟩ := (@activeStateHandler_returns env this manager tracker parse).mpr
    ⟨hheader.interval, hheader.minInterval, hheader.trackerId, fun peerList position hlist =>
      (pushListPeers_returns peerList (manager.discoveries, false)).mp (hlists peerList position hlist)⟩
  exact ⟨result, hresult, activeStateHandler_discoveries hresult hpush⟩

/-- Of a compact string the handler queues as many endpoints as there is room for. -/
theorem compact_pushed {compact : ByteString} (hcompact : compact.bytes = peers.flatMap V4Peer.compact)
    (hparse : find "peers" parse = some (.string compact p)) (hheader : TypedHeader parse)
    (this : ByteString) (manager : TrackerManager) (tracker : Tracker) :
    ∃ result, activeStateHandler env this manager tracker parse = .ok result ∧
      result.1.discoveries = manager.discoveries ++
        (peers.map V4Peer.contact).take (discoveriesCapacity - manager.discoveries.length) := by
  have hwhole : compact.size % peer4UnitLength = 0 := by
    rw [ByteString.size, hcompact, length_flatMap_compact, peer4UnitLength]
    omega
  by_cases hempty : compact.bytes = []
  · have hnone : peers = [] := by
      have hlength := length_flatMap_compact peers
      rw [← hcompact, hempty, List.length_nil] at hlength
      exact List.eq_nil_of_length_eq_zero (by omega)
    have hpush : pushPeers env parse manager.discoveries = .ok none := by
      rw [pushPeers, hparse]
      exact if_pos (.inl hempty)
    rw [hnone, List.map_nil, List.take_nil, List.append_nil]
    exact activeStateHandler_pushed hheader this manager tracker hpush
  · have hpush : pushPeers env parse manager.discoveries =
        .ok (some ((compactPeers compact.bytes).foldl pushDiscovery (manager.discoveries, false))) := by
      rw [pushPeers, hparse]
      exact if_neg (not_or.mpr ⟨hempty, not_not.mpr hwhole⟩)
    have hqueued := activeStateHandler_pushed hheader this manager tracker hpush
    rwa [Option.map_some, Option.getD_some, foldl_pushDiscovery, hcompact, compactPeers_eq] at hqueued

/-- Of a list of dictionaries it queues as many endpoints with a port as there is room for. -/
theorem listed_pushed {entries : List Data}
    (hpton : ∀ peer ∈ peers, env.inetPton4 (V4Peer.dotted peer.addr) = some peer.addr.toList)
    (hentries : List.Forall₂ V4Peer.Describes peers entries)
    (hparse : find "peers" parse = some (.list entries p)) (hheader : TypedHeader parse)
    (this : ByteString) (manager : TrackerManager) (tracker : Tracker) :
    ∃ result, activeStateHandler env this manager tracker parse = .ok result ∧
      result.1.discoveries = manager.discoveries ++
        ((peers.filter fun peer => peer.port ≠ 0).map V4Peer.contact).take
          (discoveriesCapacity - manager.discoveries.length) := by
  have hlisted := @pushListPeers_describes env _ _ hpton hentries (manager.discoveries, false)
  have hpush : pushPeers env parse manager.discoveries =
      .ok (some (((peers.filter fun peer => peer.port ≠ 0).map V4Peer.contact).foldl pushDiscovery
        (manager.discoveries, false))) := by
    rw [pushPeers, hparse]
    exact Except.bind_eq_ok.mpr ⟨_, hlisted, rfl⟩
  have hqueued := activeStateHandler_pushed hheader this manager tracker hpush
  rwa [Option.map_some, Option.getD_some, foldl_pushDiscovery] at hqueued

end Formats

/-- Of the same endpoints, the compact string pushes as many as the queue has room for, and the list of
dictionaries as many of those with a port; so that both push the same contacts exactly when none of the
endpoints that the queue has room for has port 0. -/
theorem formats_agree_iff {env : TrackerEnvironment} {peers : List V4Peer}
    (hpton : ∀ peer ∈ peers, env.inetPton4 (V4Peer.dotted peer.addr) = some peer.addr.toList)
    {compact : ByteString}
    (hcompact : compact.bytes = peers.flatMap V4Peer.compact) {entries : List Data}
    (hentries : List.Forall₂ V4Peer.Describes peers entries) {parse parse' : Dictionary}
    {p p' : SourceStats} (hparse : find "peers" parse = some (.string compact p))
    (hparse' : find "peers" parse' = some (.list entries p')) (hheader : TypedHeader parse)
    (hheader' : TypedHeader parse') (this this' : ByteString) (manager manager' : TrackerManager)
    (tracker tracker' : Tracker)
    (hfree : manager.discoveries.length = manager'.discoveries.length) :
    let free := discoveriesCapacity - manager.discoveries.length
    let pushed := (peers.map V4Peer.contact).take free
    let pushed' := ((peers.filter fun peer => peer.port ≠ 0).map V4Peer.contact).take free
    (∃ result, activeStateHandler env this manager tracker parse = .ok result ∧
        result.1.discoveries = manager.discoveries ++ pushed) ∧
      (∃ result, activeStateHandler env this' manager' tracker' parse' = .ok result ∧
        result.1.discoveries = manager'.discoveries ++ pushed') ∧
      (pushed = pushed' ↔ ∀ peer ∈ peers.take free, peer.port ≠ 0) := by
  intro free pushed pushed'
  refine ⟨compact_pushed hcompact hparse hheader this manager tracker, ?_, ?_⟩
  · have hlisted := listed_pushed hpton hentries hparse' hheader' this' manager' tracker'
    rwa [← hfree] at hlisted
  · have hkeep : ∀ peer peer' : V4Peer, peer.contact = peer'.contact →
        decide (peer.port ≠ 0) = decide (peer'.port ≠ 0) := fun peer peer' h => by
      rw [port_eq_zero_of_contact_eq h]
    rw [show (pushed = pushed' ↔ _) from take_map_filter_eq_iff hkeep free peers]
    simp only [decide_eq_true_eq]

/-! One endpoint at the address 1.2.3.4, and the two responses that list it. -/

def sampleV4Peer (port : UInt16) : V4Peer := ⟨sampleAddress, port⟩

def sampleCompact (port : UInt16) : ByteString :=
  ⟨[sampleV4Peer port].flatMap V4Peer.compact, by
    rw [length_flatMap_compact, List.length_singleton]
    decide⟩

def sampleListEntry (port : UInt16) : Data :=
  .dictionary [(.ofString "ip", .string (.ofString "1.2.3.4") ⟨0, 0⟩),
    (.ofString "port", .integer (Int64.ofNat port.toNat) ⟨0, 0⟩)] ⟨0, 0⟩

def sampleCompactResponse (port : UInt16) : Dictionary :=
  [(.ofString "peers", .string (sampleCompact port) ⟨0, 0⟩)]

def sampleListResponse (port : UInt16) : Dictionary :=
  [(.ofString "peers", .list [sampleListEntry port] ⟨0, 0⟩)]

theorem dotted_sampleAddress :
    V4Peer.dotted sampleAddress = (ByteString.ofString "1.2.3.4").bytes := by
  decide

theorem sampleListEntry_describes (port : UInt16) :
    (sampleV4Peer port).Describes (sampleListEntry port) := by
  have hlt := port.toNat_lt
  refine ⟨.ofString "1.2.3.4", Int64.ofNat port.toNat, ⟨0, 0⟩, ⟨0, 0⟩, ⟨0, 0⟩,
    dotted_sampleAddress.symm, ?_, rfl⟩
  exact Int64.toInt_ofNat_of_lt (by omega)

theorem typedHeader_singleton (peers : Data) : TypedHeader [(.ofString "peers", peers)] :=
  ⟨nofun, nofun, nofun⟩

/-- Three endpoints, the last of them with port 0. -/
def samplePorts : List UInt16 := [6881, 6882, 0]

def samplePortsCompact : ByteString := ⟨(samplePorts.map sampleV4Peer).flatMap V4Peer.compact, by decide⟩

/-- A queue that has room for two endpoints. -/
def crowdedManager : TrackerManager :=
  { announcedManager [] with discoveries := List.replicate 98 .fresh }

/-- With room for two of the three endpoints, the one with port 0 is dropped by both formats. -/
theorem formats_agree_iff_crowded :
    (∃ result, activeStateHandler samplePton trackerName crowdedManager (announcedTracker [])
          [(.ofString "peers", .string samplePortsCompact ⟨0, 0⟩)] = .ok result ∧
        result.1.discoveries =
          crowdedManager.discoveries ++ [(sampleV4Peer 6881).contact, (sampleV4Peer 6882).contact]) ∧
      (∃ result, activeStateHandler samplePton trackerName crowdedManager (announcedTracker [])
          [(.ofString "peers", .list (samplePorts.map sampleListEntry) ⟨0, 0⟩)] = .ok result ∧
        result.1.discoveries =
          crowdedManager.discoveries ++ [(sampleV4Peer 6881).contact, (sampleV4Peer 6882).contact]) := by
  have hpton : ∀ peer ∈ samplePorts.map sampleV4Peer,
      samplePton.inetPton4 (V4Peer.dotted peer.addr) = some peer.addr.toList := by
    intro peer hpeer
    obtain ⟨port, -, rfl⟩ := List.mem_map.mp hpeer
    rw [sampleV4Peer, dotted_sampleAddress]
    rfl
  have hentries : List.Forall₂ V4Peer.Describes (samplePorts.map sampleV4Peer)
      (samplePorts.map sampleListEntry) :=
    List.forall₂_map_left_iff.mpr (List.forall₂_map_right_iff.mpr
      (List.forall₂_same.mpr fun port _ => sampleListEntry_describes port))
  have hfree : discoveriesCapacity - crowdedManager.discoveries.length = 2 := by
    rw [show crowdedManager.discoveries.length = 98 from List.length_replicate]
    rfl
  have hbytes : samplePortsCompact.bytes = (samplePorts.map sampleV4Peer).flatMap V4Peer.compact := rfl
  obtain ⟨hcompact, hlisted, hiff⟩ := formats_agree_iff hpton hbytes hentries rfl rfl
    (typedHeader_singleton _) (typedHeader_singleton _) trackerName trackerName crowdedManager crowdedManager
    (announcedTracker []) (announcedTracker []) rfl
  rw [hfree] at hcompact hlisted hiff
  rw [← hiff.mpr (by decide)] at hlisted
  exact ⟨hcompact, hlisted⟩

/-- The endpoint 1.2.3.4:0 is pushed from a compact string and skipped in a list. -/
theorem formats_disagree_portZero :
    samplePton.inetPton4 (V4Peer.dotted (sampleV4Peer 0).addr) = some (sampleV4Peer 0).addr.toList ∧
      (sampleCompact 0).bytes = [sampleV4Peer 0].flatMap V4Peer.compact ∧
      List.Forall₂ V4Peer.Describes [sampleV4Peer 0] [sampleListEntry 0] ∧
      (activeStateHandler samplePton trackerName (announcedManager []) (announcedTracker [])
          (sampleCompactResponse 0)).map (fun result => result.1.discoveries) =
        .ok [(sampleV4Peer 0).contact] ∧
      (activeStateHandler samplePton trackerName (announcedManager []) (announcedTracker [])
          (sampleListResponse 0)).map (fun result => result.1.discoveries) = .ok [] := by
  refine ⟨?_, rfl, .cons (sampleListEntry_describes 0) .nil, rfl, rfl⟩
  rw [sampleV4Peer, dotted_sampleAddress]
  rfl

end TorrentEngine
