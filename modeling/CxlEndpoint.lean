import CxlEndpoint.Background
import CxlEndpoint.Background.Checked
import CxlEndpoint.CacheLine
import CxlEndpoint.Capacity.BlockSet
import CxlEndpoint.Capacity.BlockWords
import CxlEndpoint.Capacity.Extent
import CxlEndpoint.Capacity.Ledger
import CxlEndpoint.Capacity.Region
import CxlEndpoint.Clock
import CxlEndpoint.Command.EffectsLog
import CxlEndpoint.Command.Reply
import CxlEndpoint.Command.Standard
import CxlEndpoint.Command.Table
import CxlEndpoint.Config.Device
import CxlEndpoint.Config.Error
import CxlEndpoint.Config.Json
import CxlEndpoint.Config.Json.Reader
import CxlEndpoint.Config.Json.Token
import CxlEndpoint.Config.Reader
import CxlEndpoint.Endpoint
import CxlEndpoint.Endpoint.Dispatch
import CxlEndpoint.Endpoint.Stop
import CxlEndpoint.Endpoint.Tick
import CxlEndpoint.Event.Log
import CxlEndpoint.Event.Logs
import CxlEndpoint.Event.Record
import CxlEndpoint.HostTime
import CxlEndpoint.Identity
import CxlEndpoint.Mailbox
import CxlEndpoint.Memory
import CxlEndpoint.MemoryDevice
import CxlEndpoint.MemoryDevice.Serve
import CxlEndpoint.Message.Capacity
import CxlEndpoint.Message.Component
import CxlEndpoint.Message.Event
import CxlEndpoint.Message.Memory
import CxlEndpoint.Message.Poison
import CxlEndpoint.Message.Switch
import CxlEndpoint.Message.Tunnel
import CxlEndpoint.Opcode
import CxlEndpoint.Payload
import CxlEndpoint.Poison.Checked
import CxlEndpoint.Poison.Record
import CxlEndpoint.Poison.Scan
import CxlEndpoint.Poison.Store
import CxlEndpoint.Proofs.Background.Progress
import CxlEndpoint.Proofs.Capacity.Batch
import CxlEndpoint.Proofs.Capacity.BlockWords
import CxlEndpoint.Proofs.Capacity.FullUse
import CxlEndpoint.Proofs.Capacity.Generation
import CxlEndpoint.Proofs.Capacity.Geometry
import CxlEndpoint.Proofs.Capacity.History
import CxlEndpoint.Proofs.Capacity.Layout
import CxlEndpoint.Proofs.Capacity.Message
import CxlEndpoint.Proofs.Capacity.Operations
import CxlEndpoint.Proofs.Capacity.Pieces
import CxlEndpoint.Proofs.Capacity.Release
import CxlEndpoint.Proofs.Capacity.RoundTrip
import CxlEndpoint.Proofs.Command.EffectsLog
import CxlEndpoint.Proofs.Command.PayloadLength
import CxlEndpoint.Proofs.Command.Table
import CxlEndpoint.Proofs.Device.Labels
import CxlEndpoint.Proofs.Device.Service
import CxlEndpoint.Proofs.Endpoint.CapacityRequests
import CxlEndpoint.Proofs.Endpoint.Completion
import CxlEndpoint.Proofs.Endpoint.Effects
import CxlEndpoint.Proofs.Endpoint.EffectsLog
import CxlEndpoint.Proofs.Endpoint.ExtentList
import CxlEndpoint.Proofs.Endpoint.History
import CxlEndpoint.Proofs.Endpoint.Injection
import CxlEndpoint.Proofs.Endpoint.Labels
import CxlEndpoint.Proofs.Endpoint.ListedPoison
import CxlEndpoint.Proofs.Endpoint.LogRequests
import CxlEndpoint.Proofs.Endpoint.MemoryDevice
import CxlEndpoint.Proofs.Endpoint.MessageSize
import CxlEndpoint.Proofs.Endpoint.PayloadLength
import CxlEndpoint.Proofs.Endpoint.PoisonHistory
import CxlEndpoint.Proofs.Endpoint.PoisonList
import CxlEndpoint.Proofs.Endpoint.PortCount
import CxlEndpoint.Proofs.Endpoint.Ports
import CxlEndpoint.Proofs.Endpoint.Progress
import CxlEndpoint.Proofs.Endpoint.Refusal
import CxlEndpoint.Proofs.Endpoint.RegionMedia
import CxlEndpoint.Proofs.Endpoint.Response
import CxlEndpoint.Proofs.Endpoint.Sanitize
import CxlEndpoint.Proofs.Endpoint.SanitizeTime
import CxlEndpoint.Proofs.Endpoint.Scan
import CxlEndpoint.Proofs.Endpoint.ScanResults
import CxlEndpoint.Proofs.Endpoint.Stop
import CxlEndpoint.Proofs.Event.Delivery
import CxlEndpoint.Proofs.Event.Fetching
import CxlEndpoint.Proofs.Event.History
import CxlEndpoint.Proofs.Event.Message
import CxlEndpoint.Proofs.Event.Overflow
import CxlEndpoint.Proofs.Event.Received
import CxlEndpoint.Proofs.Poison.Clearing
import CxlEndpoint.Proofs.Poison.Filling
import CxlEndpoint.Proofs.Poison.Gaps
import CxlEndpoint.Proofs.Poison.History
import CxlEndpoint.Proofs.Poison.Insertion
import CxlEndpoint.Proofs.Poison.LastLine
import CxlEndpoint.Proofs.Poison.LineMap
import CxlEndpoint.Proofs.Poison.Lines
import CxlEndpoint.Proofs.Poison.Listing
import CxlEndpoint.Proofs.Poison.Message
import CxlEndpoint.Proofs.Poison.Operations
import CxlEndpoint.Proofs.Poison.Overflow
import CxlEndpoint.Proofs.Poison.Queue
import CxlEndpoint.Proofs.Poison.Retention
import CxlEndpoint.Proofs.Poison.Room
import CxlEndpoint.Proofs.Poison.ScanStart
import CxlEndpoint.Proofs.Poison.Scans
import CxlEndpoint.Proofs.Poison.Uncovered
import CxlEndpoint.Proofs.Switch.Message
import CxlEndpoint.Proofs.Switch.Ports
import CxlEndpoint.Proofs.Tunnel.Atomicity
import CxlEndpoint.Proofs.Tunnel.Message
import CxlEndpoint.Proofs.Tunnel.Relay
import CxlEndpoint.Request
import CxlEndpoint.Status
import CxlEndpoint.Text.Hex
import CxlEndpoint.Topology
import CxlEndpoint.Word
