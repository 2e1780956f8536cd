import HardLight.Lib.Run
import HardLight.Server.InFlight
import HardLight.Server.Topics
import HardLight.Session.Handshake
import HardLight.Session.Pairing
import HardLight.Session.Leak
import HardLight.Session.Progress
import HardLight.Session.Fields
import HardLight.Session.Bytes
import HardLight.Session.Reading
import HardLight.System.Agreement
import HardLight.System.Delivery
import HardLight.System.Missed
import HardLight.System.Cleanup
import HardLight.System.Audience
import HardLight.System.Log
import HardLight.System.Progress
import HardLight.Client.Loss
import HardLight.Application.Lifecycle
import HardLight.Application.Calls
import HardLight.Application.Attribution
import HardLight.State.Apply
import HardLight.Macro.Rpc
import HardLight.Remote.Linearizable
import HardLight.Session.Shown
