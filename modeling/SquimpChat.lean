import SquimpChat.QueueIntegrity
import SquimpChat.AuthSoundness
import SquimpChat.StreamLifetime
import SquimpChat.SessionLifetime
import SquimpChat.GhostUsers
import SquimpChat.Client
import SquimpChat.Parsing
import SquimpChat.ClientState
import SquimpChat.LoginOrder
import SquimpChat.Framing
import SquimpChat.KeyFetch
import SquimpChat.Lib.CappedMap
import SquimpChat.Lib.Simulation
import SquimpChat.RegistryMap
import SquimpChat.Atomic
import SquimpChat.Logins
import SquimpChat.SessionRegistry
import SquimpChat.AccessControl
import SquimpChat.PacketReads
import SquimpChat.Relay
import SquimpChat.Refusals
import SquimpChat.Registrations
import SquimpChat.Bindings
import SquimpChat.StateOrder
import SquimpChat.ByeFinal
import SquimpChat.Accounts
import SquimpChat.RoundTrip
import SquimpChat.ClientSession
import SquimpChat.KeyLookup
import SquimpChat.LoginAgreement
import SquimpChat.LoginInput
import SquimpChat.UsersFile
import SquimpChat.ClientMain
import SquimpChat.ClientShutdown
import SquimpChat.Connection
import SquimpChat.StreamSessions
import SquimpChat.AuthStreams
import SquimpChat.SessionIds
import SquimpChat.Lib.Link
import SquimpChat.ByeExchange
import SquimpChat.Rejections
import SquimpChat.AuthQueue
import SquimpChat.ClientPackets
import SquimpChat.CompletePackets
import SquimpChat.Lib.Ledger
import SquimpChat.Wrapper
import SquimpChat.WrapperLedger
import SquimpChat.Callbacks
import SquimpChat.Lib.Sweep
import SquimpChat.Farewell
