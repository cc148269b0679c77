import Flo.Wire
import Flo.Nom
import Flo.Nom.Streaming
import Flo.Protocol.Message
import Flo.Protocol.Serialize
import Flo.Protocol.Parse
import Flo.Protocol.Dispatch
import Flo.Protocol.Frame
import Flo.Protocol.Codec
import Flo.Protocol.Incremental
import Flo.Server.AtomicCounter
import Flo.Server.AtomicCounter.Linearizable
