import Qing.Net.Accept
import Qing.Net.Address
import Qing.Net.Buffer
import Qing.Net.Conserved
import Qing.Net.Dispatch
import Qing.Net.Inflight
import Qing.Net.Interest
import Qing.Net.Lifetime
import Qing.Net.Listen
import Qing.Net.Oneshot
import Qing.Net.Receive
import Qing.Net.Registration
import Qing.Net.Routing
import Qing.Net.TcpClient
import Qing.Timer.Placement
import Qing.Timer.Due
import Qing.Timer.Progress
import Qing.Timer.Reclaim
import Qing.Timer.Round
import Qing.Timer.Schedule
import Qing.Timer.Solo
import Qing.Timer.Endless
import Qing.Timer.Sweep
import Qing.Queue.Capacity
import Qing.Queue.Destroy
import Qing.Queue.WaitFree
import Qing.Base64.RoundTrip
