import TorrentEngine.TrackerAttempts

/-! What a tracker's buffer holds while its response arrives. No handler of the manager reads the buffers of
trackers other than its own, so a step does the same whatever has arrived for them. -/

namespace TorrentEngine

open Tracker

namespace TrackerManager

variable {arrived : ByteString → List Byte}

end TrackerManager

namespace TrackerWorld

variable {arrived : ByteString → List Byte}

end TrackerWorld

end TorrentEngine
