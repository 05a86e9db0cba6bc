import KCNet.Server.Authority
import KCNet.Server.BanEnforcement
import KCNet.Server.Framing
import KCNet.Server.Isolation
import KCNet.Server.Listener
import KCNet.Server.Remainder
import KCNet.Server.StopRequest
import KCNet.Client.Bounded
import KCNet.Client.Exhaustion
import KCNet.Client.KeyText
import KCNet.Client.RandomMessage
import KCNet.Client.Spread
import KCNet.Lib.Base64Texts
import KCNet.Network.Starvation
import KCNet.Network.Succession
import KCNet.Network.Verdict
import KCNet.Network.Waiting
