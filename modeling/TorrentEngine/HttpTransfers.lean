import TorrentEngine.TrackerBackoff
import TorrentEngine.TrackerBuffers

/-! The HTTP handler below the tracker manager. A response arrives in parts, which `easy_callback` puts one behind
the other, and `chk_finished` runs the tracker's callback on what has arrived by then. In between the other
requests, the timers and the calls go on. -/

open Transition

namespace TorrentEngine

open Tracker

/-- `user_space.data.append`. -/
def Tracker.append (data : List Byte) (tracker : Tracker) : Tracker := { tracker with data := tracker.data ++ data }

namespace TrackerWorld

end TrackerWorld

namespace Transcript

end Transcript

namespace TrackerWorld

variable {env : TrackerEnvironment} {v v' w w' w₀ : TrackerWorld} {es : List HttpEvent}

section Told

variable {t : Transcript} {e : TrackerEvent}

end Told

/-- Nothing has arrived. -/
def nothing : ByteString → List Byte := fun _ => []

end TrackerWorld

end TorrentEngine
