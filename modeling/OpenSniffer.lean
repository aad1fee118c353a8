import OpenSniffer.OsiWalk
import OpenSniffer.DnsCursor
import OpenSniffer.DnsReadBounds
import OpenSniffer.DnsResponses
import OpenSniffer.DnsCompression
import OpenSniffer.HttpDissector
import OpenSniffer.MainStack
import OpenSniffer.FrameSuffixes
import OpenSniffer.LayerOrder
import OpenSniffer.FrameAnatomy
import OpenSniffer.DhcpRoutes
import OpenSniffer.Encapsulation
import OpenSniffer.Trailers
import OpenSniffer.HttpMessageStart
import OpenSniffer.RegistrationOrder
import OpenSniffer.Sessions
import OpenSniffer.Colours
import OpenSniffer.HeaderGuards
import OpenSniffer.NameEncoding
import OpenSniffer.DnsRecords
import OpenSniffer.DnsQuestions
import OpenSniffer.TcpDisplay
import OpenSniffer.IpVersions
import OpenSniffer.FixedHeaderReads
import OpenSniffer.HttpOpenings
import OpenSniffer.CountedLoops
import OpenSniffer.NameSafety
import OpenSniffer.AddressTexts
import OpenSniffer.FramePrints
import OpenSniffer.HttpTargets
import OpenSniffer.LabelledRuns
import OpenSniffer.SnifferRuns
import OpenSniffer.HttpFeeding
import OpenSniffer.HttpSplits
import OpenSniffer.HttpHeaderSizes
import OpenSniffer.DnsAlignment
import OpenSniffer.NameAcceptance
