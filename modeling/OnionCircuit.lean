import OnionCircuit.Bytes.Basic
import OnionCircuit.Bytes.Hex
import OnionCircuit.Bytes.Order
import OnionCircuit.Cipher.Aead
import OnionCircuit.Cipher.Aes
import OnionCircuit.Cipher.AesGcm
import OnionCircuit.Cipher.ChaCha
import OnionCircuit.Cipher.ChaChaPoly
import OnionCircuit.Cipher.Ghash
import OnionCircuit.Cipher.Poly1305
import OnionCircuit.Cipher.Substitution
import OnionCircuit.Circuit.Basic
import OnionCircuit.Circuit.Call
import OnionCircuit.Circuit.Hop
import OnionCircuit.Circuit.Key
import OnionCircuit.Json.Basic
import OnionCircuit.Json.Printer
import OnionCircuit.Json.Reader
import OnionCircuit.Json.Token
import OnionCircuit.Layer.Material
import OnionCircuit.Layer.Onion
import OnionCircuit.Layer.Tag
import OnionCircuit.Link
import OnionCircuit.Message.Control
import OnionCircuit.Message.Format
import OnionCircuit.Net.Address
import OnionCircuit.Net.Ip
import OnionCircuit.Net.IpText
import OnionCircuit.Net.Socket
import OnionCircuit.Packet.Datagram
import OnionCircuit.Packet.Header
import OnionCircuit.Proofs.AcceptedPackets
import OnionCircuit.Proofs.AgentRun
import OnionCircuit.Proofs.CallSchedule
import OnionCircuit.Proofs.ChainGrowth
import OnionCircuit.Proofs.ExchangeIds
import OnionCircuit.Proofs.ExchangeLedger
import OnionCircuit.Proofs.ExchangeLife
import OnionCircuit.Proofs.ExchangePostings
import OnionCircuit.Proofs.ExchangeStandings
import OnionCircuit.Proofs.HopChain
import OnionCircuit.Proofs.HopClosing
import OnionCircuit.Proofs.InwardDelivery
import OnionCircuit.Proofs.Journey
import OnionCircuit.Proofs.OnionLayers
import OnionCircuit.Proofs.OutermostBinding
import OnionCircuit.Proofs.OutwardDelivery
import OnionCircuit.Proofs.PointBalance
import OnionCircuit.Proofs.RelayVisit
import OnionCircuit.Proofs.SenderCheck
import OnionCircuit.Proofs.Successors
import OnionCircuit.Proofs.TagLayer
import OnionCircuit.Rehearsal.Activity
import OnionCircuit.Rehearsal.Cache
import OnionCircuit.Rehearsal.Delivery
import OnionCircuit.Rehearsal.Run
import OnionCircuit.Rehearsal.Script
import OnionCircuit.Rehearsal.Supply
import OnionCircuit.Rehearsal.Upkeep
import OnionCircuit.Rehearsal.World
import OnionCircuit.Relay.Agent
import OnionCircuit.Relay.Checked
import OnionCircuit.Relay.Config
import OnionCircuit.Relay.EndpointCache
import OnionCircuit.Relay.Exchange
import OnionCircuit.Relay.Forward
import OnionCircuit.Relay.Table
import OnionCircuit.Settings.Basic
import OnionCircuit.Settings.Document
import OnionCircuit.Settings.File
import OnionCircuit.Settings.Path
import OnionCircuit.Settings.Shape
import OnionCircuit.Settings.Storage
import OnionCircuit.Text.Digits
import OnionCircuit.Upkeep.Signal
import OnionCircuit.Upkeep.Ticker
import OnionCircuit.Upkeep.Watch
import OnionCircuit.Proofs.AgentHistory
import OnionCircuit.Proofs.RestrictionHistory
import OnionCircuit.Proofs.OutboundQueue
import OnionCircuit.Proofs.EndpointOpening
import OnionCircuit.Proofs.AgentFaults
import OnionCircuit.Proofs.ReceivedPackets
import OnionCircuit.Proofs.PacketGate
import OnionCircuit.Proofs.ExchangeOrigins
import OnionCircuit.Proofs.UnknownAdmissions
import OnionCircuit.Proofs.LinkLifetime
import OnionCircuit.Proofs.PackedLayers
import OnionCircuit.Proofs.AuthenticPackets
import OnionCircuit.Proofs.DatagramGrowth
import OnionCircuit.Proofs.ExchangeUses
import OnionCircuit.Proofs.HopJoining
import OnionCircuit.Proofs.ExchangeOwners
import OnionCircuit.Proofs.SweepExactness
import OnionCircuit.Proofs.CacheTouches
import OnionCircuit.Proofs.DeadHops
import OnionCircuit.Proofs.TearDownOrder
import OnionCircuit.Proofs.LoopCancellation
import OnionCircuit.Proofs.CanonicalFormats
import OnionCircuit.Proofs.AddressText
import OnionCircuit.Proofs.SavedSettings
import OnionCircuit.Proofs.PacketDepth
import OnionCircuit.Proofs.FreshIds
import OnionCircuit.Proofs.WireForms
import OnionCircuit.Proofs.UnfailingUpkeep
