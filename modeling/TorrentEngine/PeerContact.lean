import TorrentEngine.Bytes

/-! `peer_contact`: the endpoint of a peer, as trackers and accepted connections report it. -/

namespace TorrentEngine

/-- Address and port are kept in network order, the port as its two bytes in memory. -/
structure PeerContact where
  nAddr : Vector Byte 16
  nPort : Byte × Byte
  isV6 : Bool
  peerId : Option (Vector Byte 20)
  deriving DecidableEq

namespace PeerContact

def fresh : PeerContact := ⟨.replicate 16 0, (0, 0), false, none⟩

/-- The first bytes of an array overwritten. -/
def copyInto {n : Nat} (target : Vector Byte n) (bytes : List Byte) : Vector Byte n :=
  .ofFn fun i => bytes.getD i target[i]

/-- `htons`: the bytes of a port in network order. -/
def htons (port : Nat) : Byte × Byte := (UInt8.ofNat (port / 256), UInt8.ofNat port)

/-- What `operator ==` compares. -/
def endpoint (contact : PeerContact) : Bool × Vector Byte 16 × (Byte × Byte) :=
  (contact.isV6, contact.nAddr, contact.nPort)

end PeerContact

end TorrentEngine
