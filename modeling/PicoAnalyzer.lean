import PicoAnalyzer.CLib.Decimal
import PicoAnalyzer.CLib.Text
import PicoAnalyzer.CLib.Format
import PicoAnalyzer.CLib.Calendar
import PicoAnalyzer.Packet.Record
import PicoAnalyzer.Packet.Parse
import PicoAnalyzer.Packet.Bounds
import PicoAnalyzer.Packet.Frames
import PicoAnalyzer.Lib.Tally
import PicoAnalyzer.Packet.Detector
import PicoAnalyzer.Packet.Flood
import PicoAnalyzer.Ntp.Epoch
import PicoAnalyzer.Web.Sd
import PicoAnalyzer.Web.Accounting
import PicoAnalyzer.Web.History
import PicoAnalyzer.Web.Pagination
import PicoAnalyzer.Web.Pager
import PicoAnalyzer.Web.LogRows
import PicoAnalyzer.Web.RequestLine
import PicoAnalyzer.Web.Segments
import PicoAnalyzer.Ethernet.Ieee
import PicoAnalyzer.Ethernet.HandOver
import PicoAnalyzer.Ethernet.Transmit
import PicoAnalyzer.Ethernet.Reception
import PicoAnalyzer.Ethernet.Loopback
import PicoAnalyzer.Ethernet.Phy
import PicoAnalyzer.Lwip.Chksum
import PicoAnalyzer.Lwip.Timeouts
import PicoAnalyzer.FatFs.Fat
import PicoAnalyzer.Web.Mount
import PicoAnalyzer.Web.Response
import PicoAnalyzer.Web.Leaks
import PicoAnalyzer.Web.RowFlow
import PicoAnalyzer.Web.Alerts
import PicoAnalyzer.Web.Route
