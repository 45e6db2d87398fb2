import FtyCommonMlm.Lib.Runs
import FtyCommonMlm.Lib.CString
import FtyCommonMlm.Lib.Hex
import FtyCommonMlm.Lib.Placement
import FtyCommonMlm.Lib.Search
import FtyCommonMlm.Lib.Fields
import FtyCommonMlm.Lib.SortedMap
import FtyCommonMlm.Lib.Simulation
import FtyCommonMlm.Lib.Rpc
import FtyCommonMlm.Lib.Ledger
import FtyCommonMlm.Lib.SharedLog
import FtyCommonMlm.Czmq
import FtyCommonMlm.Guards
import FtyCommonMlm.Pool.Model
import FtyCommonMlm.Pool.NullFree
import FtyCommonMlm.Pool.Ownership
import FtyCommonMlm.Pool.Limits
import FtyCommonMlm.Pool.Reuse
import FtyCommonMlm.Pool.Resizing
import FtyCommonMlm.Pool.Lifetime
import FtyCommonMlm.Tntmlm.Client
import FtyCommonMlm.Tntmlm.Session
import FtyCommonMlm.Tntmlm.Timing
import FtyCommonMlm.Tntmlm.Arithmetic
import FtyCommonMlm.Tntmlm.Pooled
import FtyCommonMlm.Tntmlm.Ownership
import FtyCommonMlm.Mailbox.SyncClient
import FtyCommonMlm.Mailbox.BasicServer
import FtyCommonMlm.Mailbox.Exchange
import FtyCommonMlm.Mailbox.Correlation
import FtyCommonMlm.Mailbox.Blocking
import FtyCommonMlm.Mailbox.Leftovers
import FtyCommonMlm.Mailbox.Cleanup
import FtyCommonMlm.Mailbox.Address
import FtyCommonMlm.Mailbox.Rpc
import FtyCommonMlm.Mailbox.Handling
import FtyCommonMlm.Stream.Client
import FtyCommonMlm.Stream.Moves
import FtyCommonMlm.Stream.Startup
import FtyCommonMlm.Stream.FailedStart
import FtyCommonMlm.Stream.Stopping
import FtyCommonMlm.Stream.Broker
import FtyCommonMlm.Stream.Exposure
import FtyCommonMlm.Stream.Log
import FtyCommonMlm.Stream.Dispatch
import FtyCommonMlm.Stream.Ids
import FtyCommonMlm.Stream.Waking
import FtyCommonMlm.Stream.Cleanup
import FtyCommonMlm.Stream.Order
import FtyCommonMlm.Stream.Calling
import FtyCommonMlm.Agent.Mainloop
import FtyCommonMlm.Agent.Serving
import FtyCommonMlm.Agent.Ticking
import FtyCommonMlm.Agent.Lifetime
import FtyCommonMlm.Mailbox.Hosting
import FtyCommonMlm.RoundTrip
import FtyCommonMlm.Uuid
import FtyCommonMlm.UuidText
import FtyCommonMlm.UuidLifetime
import FtyCommonMlm.Utils
import FtyCommonMlm.Addresses
import FtyCommonMlm.Tntmlm.Answers
import FtyCommonMlm.Traversals
