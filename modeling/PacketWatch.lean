import PacketWatch.Igmp.Message
import PacketWatch.Main
import PacketWatch.Packet.Basic
import PacketWatch.Watch
import PacketWatch.Proofs.Formats.Bounds
import PacketWatch.Proofs.Formats.Errors
import PacketWatch.Proofs.Formats.Lengths
import PacketWatch.Proofs.Formats.Messages
import PacketWatch.Proofs.Formats.Overflow
import PacketWatch.Proofs.Formats.Prefix
import PacketWatch.Proofs.Framing.Agreement
import PacketWatch.Proofs.Icmpv6.RoundTrip
import PacketWatch.Proofs.Igmp.RoundTrip
import PacketWatch.Proofs.Membership.CutQuery
import PacketWatch.Proofs.Packet.ChainEnd
import PacketWatch.Proofs.Packet.Content
import PacketWatch.Proofs.Packet.Fragmented
import PacketWatch.Proofs.Packet.Options
import PacketWatch.Proofs.Packet.Padding
import PacketWatch.Proofs.Packet.RoundTrip
import PacketWatch.Proofs.Packet.Thread
import PacketWatch.Proofs.Session.Backpressure
import PacketWatch.Proofs.Session.Closing
import PacketWatch.Proofs.Session.EndOfStream
import PacketWatch.Proofs.Session.Ending
import PacketWatch.Proofs.Session.Link
import PacketWatch.Proofs.Session.Sending
import PacketWatch.Proofs.Settings.Load
import PacketWatch.Proofs.Settings.Save
import PacketWatch.Proofs.Text.Numeral
import PacketWatch.Proofs.Watch
import PacketWatch.Proofs.Wire.Bounds
import PacketWatch.Proofs.Yaml.Document
