import TorrentEngine.PeerConnection
import TorrentEngine.Tracker

/-! The key of an endpoint. A contact is built from a compact list, from an entry of a list of peers, or
from the address of an accepted connection, and the manager tells peers apart by what `operator ==`
compares of it. -/

namespace TorrentEngine

open Bencode PeerContact

/-! ### Addresses -/

/-- The IPv6 address that stands for an IPv4 address. -/
def v4Mapped (addr : Vector Byte 4) : Vector Byte 16 :=
  ⟨(List.replicate 10 0 ++ [0xff, 0xff] ++ addr.toList).toArray, by simp⟩

/-- The addresses that `IN6_IS_ADDR_V4MAPPED` tells from the others. -/
def IsV4Mapped (addr : Vector Byte 16) : Prop :=
  addr.toList.take 12 = List.replicate 10 0 ++ [0xff, 0xff]

theorem toList_v4Mapped (addr : Vector Byte 4) :
    (v4Mapped addr).toList = List.replicate 10 0 ++ [0xff, 0xff] ++ addr.toList := rfl

theorem isV4Mapped_v4Mapped (addr : Vector Byte 4) : IsV4Mapped (v4Mapped addr) := by
  rw [IsV4Mapped, toList_v4Mapped]
  exact List.take_left' rfl

/-- All sixteen bytes are overwritten. -/
theorem copyInto_toList {n : Nat} (target addr : Vector Byte n) :
    copyInto target addr.toList = addr := by
  ext i hi
  simp [copyInto]

/-! ### The contacts of one endpoint -/

/-- An entry of a list of peers, with this text for its ip and this port, is read as this contact. -/
def ListsPeer (env : TrackerEnvironment) (text : List Byte) (port : Nat) (contact : PeerContact) : Prop :=
  ∃ peerMap position, ∃ ip : ByteString, ∃ ipPosition, ∃ n : Int64, ∃ portPosition,
    find "ip" peerMap = some (.string ip ipPosition) ∧ ip.bytes.takeWhile (· ≠ 0) = text ∧
      find "port" peerMap = some (.integer n portPosition) ∧ n.toInt = port ∧
      Tracker.listPeer env (.dictionary peerMap position) = .ok (some contact)

/-- Where the contact of an IPv4 endpoint comes from. -/
inductive ContactPath where
  | compact
  /-- An entry of a list of peers with the dotted address. -/
  | dotted
  /-- An entry of a list of peers with the IPv6 text of the mapped address. -/
  | mappedText
  /-- An accepted connection of the family `AF_INET`. -/
  | accepted
  /-- An accepted connection of the family `AF_INET6`, from the mapped address. -/
  | acceptedMapped
  deriving DecidableEq

/-- A contact built for an IPv4 endpoint on this path. -/
def BuiltOn (env : TrackerEnvironment) (addr : Vector Byte 4) (port : Nat) (contact : PeerContact) :
    ContactPath → Prop
  | .compact =>
      Tracker.compactPeers (addr.toList ++ [(htons port).1, (htons port).2]) = [contact]
  | .dotted => ∃ text, env.inetPton4 text = some addr.toList ∧ ListsPeer env text port contact
  | .mappedText => ∃ text, env.inetPton4 text = none ∧
      env.inetPton6 text = some (v4Mapped addr).toList ∧ ListsPeer env text port contact
  | .accepted => contact = (SockStore.ipv4 addr (htons port)).contact
  | .acceptedMapped => contact = (SockStore.ipv6 (v4Mapped addr) (htons port)).contact

section Keys

variable {env : TrackerEnvironment} {text : List Byte} {port : Nat} {contact : PeerContact}

/-- The family and the bytes that the text of an address is parsed to. -/
def parsedAddress (env : TrackerEnvironment) (text : List Byte) : Option (Bool × Vector Byte 16) :=
  match env.inetPton4 text with
  | some bytes => some (false, copyInto PeerContact.fresh.nAddr bytes)
  | none => (env.inetPton6 text).map fun bytes => (true, copyInto PeerContact.fresh.nAddr bytes)

theorem readIp_eq {peerMap : Dictionary} {ip : ByteString} {position : SourceStats}
    (hip : find "ip" peerMap = some (.string ip position)) :
    Tracker.readIp env peerMap = .ok (parsedAddress env (ip.bytes.takeWhile (· ≠ 0))) := by
  rw [Tracker.readIp, hip, parsedAddress]
  simp only [bind, Except.bind, Data.getAsString]
  cases env.inetPton4 (ip.bytes.takeWhile (· ≠ 0)) with
  | some bytes => rfl
  | none => cases env.inetPton6 (ip.bytes.takeWhile (· ≠ 0)) <;> rfl

/-- The key of a listed peer is its address as it was parsed. -/
theorem ListsPeer.endpoint (h : ListsPeer env text port contact) :
    ∃ isV6 nAddr, parsedAddress env text = some (isV6, nAddr) ∧
      contact.endpoint = (isV6, nAddr, htons port) := by
  obtain ⟨peerMap, position, ip, ipPosition, n, portPosition, hip, rfl, hport, hn, hlist⟩ := h
  obtain ⟨peerMap', hmap, h₁⟩ := Except.bind_eq_ok.mp hlist
  cases hmap
  obtain ⟨peerId, -, h₂⟩ := Except.bind_eq_ok.mp h₁
  obtain ⟨address, haddress, h₃⟩ := Except.bind_eq_ok.mp h₂
  rw [readIp_eq hip] at haddress
  cases haddress
  cases hparsed : parsedAddress env (ip.bytes.takeWhile (· ≠ 0)) with
  | none =>
      rw [hparsed] at h₃
      cases h₃
  | some parsed =>
      obtain ⟨isV6, nAddr⟩ := parsed
      rw [hparsed] at h₃
      obtain ⟨nPort, hnPort, h₄⟩ := Except.bind_eq_ok.mp h₃
      rw [Tracker.readPort, hport] at hnPort
      simp only [bind, Except.bind, Data.getAsInteger, pure, Except.pure, Except.ok.injEq, hn,
        Int.toNat_natCast] at hnPort
      cases nPort with
      | none => cases h₄
      | some nPort =>
          cases h₄
          split at hnPort
          · cases hnPort
          · cases hnPort
            exact ⟨isV6, nAddr, rfl, rfl⟩

/-- The key of an IPv4 endpoint: the address in the first four bytes. -/
def keyOfV4 (addr : Vector Byte 4) (port : Nat) : Bool × Vector Byte 16 × (Byte × Byte) :=
  (false, copyInto PeerContact.fresh.nAddr addr.toList, htons port)

theorem endpoint_compact {addr : Vector Byte 4} (h : BuiltOn env addr port contact .compact) :
    contact.endpoint = keyOfV4 addr port := by
  rw [BuiltOn] at h
  obtain ⟨a, b, c, d, haddr⟩ : ∃ a b c d, addr.toList = [a, b, c, d] :=
    List.length_eq_four.mp addr.length_toList
  rw [keyOfV4, haddr]
  rw [haddr] at h
  have hcontact := List.singleton_inj.mp h
  rw [← hcontact]
  rfl

theorem contact_isV4Mapped {addr : Vector Byte 16} (h : IsV4Mapped addr) (nPort : Byte × Byte) :
    (SockStore.ipv6 addr nPort).contact.endpoint =
      (false, copyInto PeerContact.fresh.nAddr (addr.toList.drop 12), nPort) := by
  rw [show (SockStore.ipv6 addr nPort).contact = _ from if_pos h]
  rfl

theorem contact_not_isV4Mapped {addr : Vector Byte 16} (h : ¬ IsV4Mapped addr) (nPort : Byte × Byte) :
    (SockStore.ipv6 addr nPort).contact.endpoint = (true, addr, nPort) := by
  rw [show (SockStore.ipv6 addr nPort).contact = _ from if_neg h]
  rfl

theorem endpoint_acceptedMapped (addr : Vector Byte 4) (port : Nat) :
    (SockStore.ipv6 (v4Mapped addr) (htons port)).contact.endpoint = keyOfV4 addr port := by
  have hdrop : (v4Mapped addr).toList.drop 12 = addr.toList := List.drop_left' rfl
  rw [contact_isV4Mapped (isV4Mapped_v4Mapped addr), hdrop, keyOfV4]

/-- On every path but one the key of an IPv4 endpoint is the same. -/
theorem endpoint_of_builtOn {addr : Vector Byte 4} {path : ContactPath}
    (h : BuiltOn env addr port contact path) :
    contact.endpoint =
      if path = .mappedText then (true, v4Mapped addr, htons port) else keyOfV4 addr port := by
  cases path with
  | compact => exact endpoint_compact h
  | dotted =>
      obtain ⟨text, htext, hlists⟩ := h
      obtain ⟨isV6, nAddr, hparsed, hkey⟩ := hlists.endpoint
      rw [parsedAddress, htext] at hparsed
      cases hparsed
      exact hkey
  | mappedText =>
      obtain ⟨text, hnone, htext, hlists⟩ := h
      obtain ⟨isV6, nAddr, hparsed, hkey⟩ := hlists.endpoint
      rw [parsedAddress, hnone, htext, Option.map_some, copyInto_toList] at hparsed
      cases hparsed
      exact hkey
  | accepted =>
      rw [show contact = _ from h]
      rfl
  | acceptedMapped =>
      rw [show contact = _ from h]
      exact endpoint_acceptedMapped addr port

end Keys

/-- **One key for an endpoint.** The contacts of an IPv4 endpoint, on whatever paths they were built, have
one key exactly when none of them, or each, comes from the text of a mapped address, and this is when the
map of peers finds the second under the first; those of an IPv6 endpoint, listed and accepted, have one
key exactly when its address is not a mapped one. -/
theorem one_key_iff (env : TrackerEnvironment) (port : Nat) :
    (∀ addr path path' contact contact', BuiltOn env addr port contact path →
        BuiltOn env addr port contact' path' →
        (contact.endpoint = contact'.endpoint ↔ (path = .mappedText ↔ path' = .mappedText)) ∧
        ∀ (peers : Bool × Vector Byte 16 × (Byte × Byte) → Option Nat) (slot : Nat),
          peers contact'.endpoint = none →
          (Function.update peers contact.endpoint (some slot) contact'.endpoint = some slot ↔
            (path = .mappedText ↔ path' = .mappedText))) ∧
      ∀ addr text contact, env.inetPton4 text = none → env.inetPton6 text = some addr.toList →
        ListsPeer env text port contact →
        (contact.endpoint = (SockStore.ipv6 addr (htons port)).contact.endpoint ↔
          ¬ IsV4Mapped addr) := by
  constructor
  · intro addr path path' contact contact' h h'
    have hiff : contact.endpoint = contact'.endpoint ↔
        (path = .mappedText ↔ path' = .mappedText) := by
      rw [endpoint_of_builtOn h, endpoint_of_builtOn h']
      by_cases hpath : path = .mappedText
      · by_cases hpath' : path' = .mappedText
        · simp [hpath, hpath']
        · simp [hpath, hpath', keyOfV4]
      · by_cases hpath' : path' = .mappedText
        · simp [hpath, hpath', keyOfV4]
        · simp [hpath, hpath']
    refine ⟨hiff, fun peers slot hnone => ?_⟩
    rw [← hiff]
    constructor
    · intro hfound
      by_contra hne
      rw [Function.update_of_ne (Ne.symm hne), hnone] at hfound
      cases hfound
    · intro heq
      rw [heq, Function.update_self]
  · intro addr text contact hnone htext hlists
    obtain ⟨isV6, nAddr, hparsed, hkey⟩ := hlists.endpoint
    rw [parsedAddress, hnone, htext, Option.map_some, copyInto_toList] at hparsed
    cases hparsed
    rw [hkey]
    by_cases hmapped : IsV4Mapped addr
    · rw [contact_isV4Mapped hmapped]
      simp [hmapped]
    · rw [contact_not_isV4Mapped hmapped]
      simp [hmapped]

/-! The address 1.2.3.4, with its two texts. -/

def sampleAddress : Vector Byte 4 := ⟨#[1, 2, 3, 4], rfl⟩

def samplePton : TrackerEnvironment where
  inetPton4 text :=
    if text = (ByteString.ofString "1.2.3.4").bytes then some sampleAddress.toList else none
  inetPton6 text :=
    if text = (ByteString.ofString "::ffff:1.2.3.4").bytes then some (v4Mapped sampleAddress).toList
    else none
  beyondRetryIntervals _ := 0

def sampleEntry (ip : String) : Dictionary :=
  [(.ofString "ip", .string (.ofString ip) ⟨0, 0⟩), (.ofString "port", .integer 6881 ⟨0, 0⟩)]

theorem sampleEntry_dotted :
    BuiltOn samplePton sampleAddress 6881 ⟨copyInto (.replicate 16 0) [1, 2, 3, 4], (26, 225), false, none⟩
      .dotted :=
  ⟨_, rfl, sampleEntry "1.2.3.4", ⟨0, 0⟩, .ofString "1.2.3.4", ⟨0, 0⟩, 6881, ⟨0, 0⟩, rfl, rfl, rfl, rfl,
    rfl⟩

theorem sampleEntry_mapped :
    BuiltOn samplePton sampleAddress 6881 ⟨v4Mapped sampleAddress, (26, 225), true, none⟩ .mappedText :=
  ⟨_, rfl, rfl, sampleEntry "::ffff:1.2.3.4", ⟨0, 0⟩, .ofString "::ffff:1.2.3.4", ⟨0, 0⟩, 6881, ⟨0, 0⟩,
    rfl, rfl, rfl, rfl, rfl⟩

/-- Listed by its dotted address and accepted, the endpoint has one key. -/
theorem one_key_dotted :
    (⟨copyInto (.replicate 16 0) [1, 2, 3, 4], (26, 225), false, none⟩ : PeerContact).endpoint =
      (SockStore.ipv4 sampleAddress (htons 6881)).contact.endpoint :=
  ((one_key_iff samplePton 6881).1 sampleAddress .dotted .accepted _ _ sampleEntry_dotted rfl).1.mpr
    (by decide)

/-- Listed as `::ffff:1.2.3.4` it has another one than accepted from that very address. -/
theorem two_keys_mapped_text :
    ∃ contact contact', BuiltOn samplePton sampleAddress 6881 contact .mappedText ∧
      BuiltOn samplePton sampleAddress 6881 contact' .acceptedMapped ∧
      contact.endpoint ≠ contact'.endpoint :=
  ⟨_, _, sampleEntry_mapped, rfl, by decide⟩

end TorrentEngine
