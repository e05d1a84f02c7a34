import NetBabbler.Outcome
import NetBabbler.Header
import NetBabbler.Message
import NetBabbler.Socket
import NetBabbler.Protocol
import NetBabbler.Sending
import NetBabbler.Receiving
import NetBabbler.Responder
import NetBabbler.Bounds
import NetBabbler.LockStep
import NetBabbler.Settings
import NetBabbler.Limit
import NetBabbler.Requestor
import NetBabbler.Sizes
import NetBabbler.Interleaving
import NetBabbler.Servers
import NetBabbler.Keeping
import NetBabbler.Threads
import NetBabbler.Cancelling
import NetBabbler.Format
import NetBabbler.Corruption
import NetBabbler.Clipping
import NetBabbler.Consuming
import NetBabbler.Sweep
import NetBabbler.Handles
import NetBabbler.OwnResponses
import NetBabbler.Datagrams
import NetBabbler.Reassembly
import NetBabbler.RoundTrip
import NetBabbler.Senders
import NetBabbler.Regex
import NetBabbler.ValueParser
import NetBabbler.Ports
import NetBabbler.Connection
import NetBabbler.Documented
import NetBabbler.SettingsText
import NetBabbler.Statistics
import NetBabbler.Alarm
import NetBabbler.Shutdown
import NetBabbler.Connecting
import NetBabbler.Summary
import NetBabbler.RequestReply
import NetBabbler.Unfragmented
import NetBabbler.Network
import NetBabbler.Exchanges
import NetBabbler.ClientProgram
import NetBabbler.Interrupted
import NetBabbler.Transfer
import NetBabbler.Streaming
import NetBabbler.Conversation
import NetBabbler.Session
import NetBabbler.Sharing
import NetBabbler.Descriptors
import NetBabbler.ServerProcess
import NetBabbler.Listening
import NetBabbler.StatusUpdates
import NetBabbler.ServerProgram
import NetBabbler.Returning
