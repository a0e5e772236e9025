import PacketPro.Jvm.Blacklist
import PacketPro.DpdkJava.Processors
import PacketPro.DpdkJava.Firewall
import PacketPro.DpdkJavaR.PacketListCreate
import PacketPro.DpdkJavaR.PacketList
import PacketPro.DpdkJavaR.Firewall
import PacketPro.DpdkJavaR.Flyweight
import PacketPro.Transmission
import PacketPro.DpdkJava.Config
import PacketPro.DpdkJava.ReceiveBounds
import PacketPro.DpdkJava.ApplicationStarter
import PacketPro.CFirewall.Conservation
import PacketPro.CFirewall.Isolation
import PacketPro.CFirewall.SameFilter
import PacketPro.EalArguments
import PacketPro.DpdkJava.StartUp
import PacketPro.Framework.Layout
import PacketPro.Jvm.Ipv6Packet
import PacketPro.Jvm.HeaderFields
import PacketPro.Jvm.ByteOrder
import PacketPro.DpdkJava.BurstSize
import PacketPro.Framework.Meters
import PacketPro.Stats
import PacketPro.CFirewall.Forwarding
import PacketPro.Jvm.SharedCursor
import PacketPro.DpdkJavaR.ListContents
import PacketPro.Jvm.RangeWarnings
import PacketPro.Jvm.SharedLayout
import PacketPro.Jvm.IpText
import PacketPro.DpdkJava.CoreAssignment
import PacketPro.DpdkJava.QueueLayout
import PacketPro.Native.LinkStatus
import PacketPro.Native.StringBuilding
import PacketPro.Framework.BitPatterns
import PacketPro.Jvm.Swap
import PacketPro.DpdkJava.Threads
import PacketPro.Native.PortStats
import PacketPro.Dpdk.Ring
import PacketPro.Dpdk.Mempool
import PacketPro.Dpdk.RingThreads
import PacketPro.Benchmarks.Serialisation
import PacketPro.DpdkJavaR.Circulation
import PacketPro.Dpdk.MbufThreads
import PacketPro.DpdkJavaR.StartUp
