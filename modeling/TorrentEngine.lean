import TorrentEngine.AnnounceRuns
import TorrentEngine.BencodeCanonical
import TorrentEngine.BencodeCursor
import TorrentEngine.BitfieldCodec
import TorrentEngine.BitsetIteration
import TorrentEngine.DiscoveryCache
import TorrentEngine.DiscoveryPushes
import TorrentEngine.Engine
import TorrentEngine.FileLayout
import TorrentEngine.HandshakeDecoding
import TorrentEngine.HttpTransfers
import TorrentEngine.PathContainment
import TorrentEngine.PeerAccounts
import TorrentEngine.PeerAttempts
import TorrentEngine.PeerFormats
import TorrentEngine.PeerGenerations
import TorrentEngine.PeerHandover
import TorrentEngine.PeerLeftovers
import TorrentEngine.PeerOccupancy
import TorrentEngine.PeerRetries
import TorrentEngine.PeerSessions
import TorrentEngine.PeerSockets
import TorrentEngine.PeerTransport
import TorrentEngine.PieceHashes
import TorrentEngine.PieceTable
import TorrentEngine.SlotPoolRuns
import TorrentEngine.SpscQueue
import TorrentEngine.TorrentChecks
import TorrentEngine.TrackerArming
import TorrentEngine.TrackerEvents
import TorrentEngine.TrackerIntervals
import TorrentEngine.TrackerSweeps
