import Partyline.Machine
import Partyline.Framing
import Partyline.Guarantees
import Partyline.Broadcast
import Partyline.Departures
import Partyline.Hiding
import Partyline.TwoRuns
import Partyline.Reading
import Partyline.Ordering
import Partyline.Stale
import Partyline.Injection
import Partyline.Dispatchers
import Partyline.OutputStream
import Partyline.SignalOrder
import Partyline.RunLoop
import Partyline.RoomLabel
import Partyline.OfferedLoad
import Partyline.Attribution
import Partyline.Sustainable
import Partyline.Commands
import Partyline.RoomIds
import Partyline.Backlog
import Partyline.Peers
import Partyline.BenchFrames
import Partyline.ColumnNames
import Partyline.SheetNames
import Partyline.Cells
import Partyline.LogValue
import Partyline.Percentile
import Partyline.EventPercentiles
import Partyline.VisibleMessages
import Partyline.ClientCalls
import Partyline.PerfectBroadcast
import Partyline.Library.Csv
import Partyline.Library.XmlContent
import Partyline.Package
import Partyline.Party
import Partyline.PartyRefinement
import Partyline.Handshake
import Partyline.TrialEnding
import Partyline.Validity
import Partyline.Accounting
import Partyline.Results
import Partyline.Draining
import Partyline.Screen
import Partyline.Voices
import Partyline.Headlines
import Partyline.Instrumentation
