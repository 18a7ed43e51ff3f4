import VrxServer.Base.Angle
import VrxServer.Base.Bits
import VrxServer.Base.Bytes
import VrxServer.Base.Decimal
import VrxServer.Base.Descriptors
import VrxServer.Base.Ends
import VrxServer.Base.Fips180
import VrxServer.Base.Fir
import VrxServer.Base.Interleave
import VrxServer.Base.Json
import VrxServer.Base.Loops
import VrxServer.Base.Nesting
import VrxServer.Base.ReadLoop
import VrxServer.Base.Rfc4648
import VrxServer.Base.Run
import VrxServer.Base.Trace
import VrxServer.Config.Accept
import VrxServer.Config.Load
import VrxServer.Config.Write
import VrxServer.Dsp.Calls
import VrxServer.Dsp.Chunking
import VrxServer.Dsp.Decimator
import VrxServer.Dsp.Mixing
import VrxServer.Dsp.Nco
import VrxServer.Dsp.Overlap
import VrxServer.Dsp.Quantize
import VrxServer.Dsp.Requests
import VrxServer.Dsp.Response
import VrxServer.Dsp.RetuneRace
import VrxServer.Dsp.Tone
import VrxServer.Dsp.Tuning
import VrxServer.Dsp.VirtualReceiver
import VrxServer.Main.Broadcast
import VrxServer.Main.Channel
import VrxServer.Main.Delivery
import VrxServer.Main.Fanout
import VrxServer.Main.Lifetime
import VrxServer.Main.Startup
import VrxServer.Process.Lifetime
import VrxServer.Process.Registry
import VrxServer.Process.Servers
import VrxServer.Process.Stop
import VrxServer.Process.Table
import VrxServer.RtlTcp.Alignment
import VrxServer.RtlTcp.Commands
import VrxServer.RtlTcp.Handling
import VrxServer.RtlTcp.Server
import VrxServer.SdrConnect.Binary
import VrxServer.SdrConnect.Connect
import VrxServer.SdrConnect.Control
import VrxServer.SdrConnect.Feed
import VrxServer.SdrConnect.Teardown
import VrxServer.SdrConnect.Text
import VrxServer.SdrConnect.Uplink
import VrxServer.SdrPlay.Bandwidth
import VrxServer.SdrPlay.Client
import VrxServer.SdrPlay.Decimation
import VrxServer.SdrPlay.Lifecycle
import VrxServer.SdrPlay.Lock
import VrxServer.SdrPlay.Setters
import VrxServer.SdrPlay.Startup
import VrxServer.SdrPlay.Stream
import VrxServer.SdrPlay.Unselected
import VrxServer.SpyServer.Commands
import VrxServer.SpyServer.Framing
import VrxServer.SpyServer.Greeting
import VrxServer.SpyServer.Log
import VrxServer.SpyServer.Protocol
import VrxServer.SpyServer.Received
import VrxServer.SpyServer.Server
import VrxServer.SpyServer.Session
import VrxServer.SpyServer.Stall
import VrxServer.SpyServer.Streaming
import VrxServer.SpyServer.TuningRange
import VrxServer.WebSocket.Arrival
import VrxServer.WebSocket.Base64
import VrxServer.WebSocket.Client
import VrxServer.WebSocket.Dial
import VrxServer.WebSocket.Digest
import VrxServer.WebSocket.Fields
import VrxServer.WebSocket.Frame
import VrxServer.WebSocket.Handshake
import VrxServer.WebSocket.Headers
import VrxServer.WebSocket.Lengths
import VrxServer.WebSocket.Reassembly
import VrxServer.WebSocket.Request
import VrxServer.WebSocket.Segmentation
import VrxServer.WebSocket.Send
import VrxServer.WebSocket.Sha1
import VrxServer.WebSocket.Upgrade
