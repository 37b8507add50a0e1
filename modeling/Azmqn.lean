import Azmqn.Library.BigEndian
import Azmqn.Library.Memory
import Azmqn.Library.PrefixCode
import Azmqn.Library.Stream
import Azmqn.Wire.Header
import Azmqn.Wire.GreetingRoundTrip
import Azmqn.Library.ForcedRun
import Azmqn.Library.LengthPrefix
import Azmqn.Transport.AsyncRead
import Azmqn.Transport.CommandWrite
import Azmqn.Transport.MetadataEncode
import Azmqn.Transport.MetadataReject
import Azmqn.Wire.Schedule
import Azmqn.Wire.SetFraming
import Azmqn.Wire.ReadState
import Azmqn.Transport.MechanismCatalog
import Azmqn.Utility.ExpectedAssign
import Azmqn.Utility.ExpectedOrder
import Azmqn.Utility.ScopeGuard
import Azmqn.Xasio.Dump
import Azmqn.Library.Descent
import Azmqn.Library.Network
import Azmqn.Transport.Conversation
import Azmqn.Library.Incremental
import Azmqn.Transport.Incoming
import Azmqn.Transport.Loss
import Azmqn.Transport.Outstanding
import Azmqn.Transport.Reuse
import Azmqn.Transport.Relay
import Azmqn.Transport.Broadcast
