import Breadboard.DataHttp.ClaimProtocol
import Breadboard.DataHttp.Conservation
import Breadboard.DataHttp.LostWakeup
import Breadboard.DataHttp.Cadence
import Breadboard.DataHttp.ConcurrentDrain
import Breadboard.DataHttp.AcquireSafe
import Breadboard.Queue.Refinement
import Breadboard.Pool.Ownership
import Breadboard.Pool.Sizing
import Breadboard.Wifi.NeverWedges
import Breadboard.Lifecycle.Reasons
import Breadboard.HttpServer.TypoGuard
import Breadboard.SerializeJson.Bound
import Breadboard.Reboot.Limited
import Breadboard.Reboot.History
import Breadboard.Str.EnvelopeContract
import Breadboard.LockCond.NoLostWakeup
import Breadboard.Mdns.Conserved
import Breadboard.Settings.Credentials
import Breadboard.ConfigStaged.AllOrNothing
import Breadboard.Cache.Linearizable
import Breadboard.Cache.AgeOut
import Breadboard.DataHttp.ConnectionsAgree
import Breadboard.Data.Apply
import Breadboard.TaskRegistry.Watchdog
import Breadboard.WifiProv.InStep
import Breadboard.Timer.Deferred
import Breadboard.Log.NeverLies
import Breadboard.MemArena.Tls
import Breadboard.MemArena.Session
import Breadboard.MqttClient.Served
import Breadboard.Filter.Reference
import Breadboard.Wdt.Reconfigure
import Breadboard.Ota.OneAtATime
import Breadboard.Lifecycle.Delivered
import Breadboard.SerializeJson.Integers
import Breadboard.SerializeJson.CursorDepth
import Breadboard.Bqueue.Delivers
import Breadboard.Registry.Refinement
import Breadboard.HttpServer.FormField
import Breadboard.OtaCheck.Paths
import Breadboard.OtaCheck.Invariant
import Breadboard.HttpServer.JsonObjContract
import Breadboard.Once.RunFallible
import Breadboard.UdpFrame.Codec
import Breadboard.MqttClient.Reassemble
import Breadboard.ButtonEvents.Gestures
import Breadboard.SerializeLogfmt.Render
import Breadboard.HttpClient.Whole
import Breadboard.OpenApi.Exact
import Breadboard.LedAnim.Levels
import Breadboard.PowerHealth.Watchdog
