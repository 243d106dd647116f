import PeerRpc.Decimal.Double
import PeerRpc.Decimal.Layout
import PeerRpc.Decimal.Numeral
import PeerRpc.Decimal.Shortest
import PeerRpc.Document
import PeerRpc.Frame.Decoder
import PeerRpc.Frame.Fault
import PeerRpc.Frame.Reader
import PeerRpc.Frame.Scan
import PeerRpc.Frame.Writer
import PeerRpc.Json.Fault
import PeerRpc.Json.Printer
import PeerRpc.Json.Reader
import PeerRpc.Json.Value
import PeerRpc.Log
import PeerRpc.Proofs.Decimal.Numeral
import PeerRpc.Proofs.Decimal.Spelling
import PeerRpc.Proofs.Frame.Checked
import PeerRpc.Proofs.Frame.Chunking
import PeerRpc.Proofs.Frame.Encoding
import PeerRpc.Proofs.Frame.Excess
import PeerRpc.Proofs.Frame.Grammar
import PeerRpc.Proofs.Frame.Held
import PeerRpc.Proofs.Frame.Hidden
import PeerRpc.Proofs.Frame.Lines
import PeerRpc.Proofs.Frame.Truncation
import PeerRpc.Proofs.Frame.Unread
import PeerRpc.Proofs.Frame.Upkeep
import PeerRpc.Proofs.Json.Reading
import PeerRpc.Proofs.Json.Scalars
import PeerRpc.Proofs.Json.Skipping
import PeerRpc.Proofs.Json.Sorting
import PeerRpc.Proofs.Json.Spacing
import PeerRpc.Proofs.Json.Terms
import PeerRpc.Proofs.Json.Texts
import PeerRpc.Proofs.Json.Written
import PeerRpc.Proofs.Rpc.Arrays
import PeerRpc.Proofs.Rpc.Fields
import PeerRpc.Proofs.Rpc.Kept
import PeerRpc.Proofs.Rpc.LastRegistered
import PeerRpc.Proofs.Rpc.Members
import PeerRpc.Proofs.Rpc.Messages
import PeerRpc.Proofs.Rpc.Payload
import PeerRpc.Proofs.Rpc.Registration
import PeerRpc.Proofs.Rpc.Steady
import PeerRpc.Proofs.Rpc.TypedCalls
import PeerRpc.Proofs.Session.Accounts
import PeerRpc.Proofs.Session.Action
import PeerRpc.Proofs.Session.Aside
import PeerRpc.Proofs.Session.Audience
import PeerRpc.Proofs.Session.Backlog
import PeerRpc.Proofs.Session.Board
import PeerRpc.Proofs.Session.Callers
import PeerRpc.Proofs.Session.Calls
import PeerRpc.Proofs.Session.Conservation
import PeerRpc.Proofs.Session.Consumer
import PeerRpc.Proofs.Session.Desk
import PeerRpc.Proofs.Session.Echoes
import PeerRpc.Proofs.Session.Environment
import PeerRpc.Proofs.Session.ErrorData
import PeerRpc.Proofs.Session.Flushing
import PeerRpc.Proofs.Session.GivenUp
import PeerRpc.Proofs.Session.Isolation
import PeerRpc.Proofs.Session.Mirror
import PeerRpc.Proofs.Session.NullMethod
import PeerRpc.Proofs.Session.Outbox
import PeerRpc.Proofs.Session.Peers
import PeerRpc.Proofs.Session.Pending
import PeerRpc.Proofs.Session.Receiving
import PeerRpc.Proofs.Session.Refused
import PeerRpc.Proofs.Session.Replies
import PeerRpc.Proofs.Session.Report
import PeerRpc.Proofs.Session.Requests
import PeerRpc.Proofs.Session.Responses
import PeerRpc.Proofs.Session.Sending
import PeerRpc.Proofs.Session.Settlement
import PeerRpc.Proofs.Session.Stage
import PeerRpc.Proofs.Session.Surroundings
import PeerRpc.Proofs.Session.Table
import PeerRpc.Proofs.Session.Tickets
import PeerRpc.Proofs.Session.Unreadable
import PeerRpc.Proofs.Session.Unseen
import PeerRpc.Proofs.Session.Willing
import PeerRpc.Proofs.Session.Withdrawal
import PeerRpc.Proofs.Shape.Forms
import PeerRpc.Proofs.Shape.Returns
import PeerRpc.Proofs.Text.Blank
import PeerRpc.Proofs.Text.Utf8
import PeerRpc.Proofs.Tokens.Clamping
import PeerRpc.Proofs.Tokens.Places
import PeerRpc.Proofs.Tokens.Quintuples
import PeerRpc.Proofs.Tokens.Relative
import PeerRpc.Proofs.Tokens.Results
import PeerRpc.Proofs.Tokens.Rewriting
import PeerRpc.Proofs.Tokens.Ties
import PeerRpc.Rpc.Catalog
import PeerRpc.Rpc.Envelope
import PeerRpc.Rpc.Failure
import PeerRpc.Rpc.Id
import PeerRpc.Rpc.Message
import PeerRpc.Rpc.Method
import PeerRpc.Rpc.Payload
import PeerRpc.Rpc.Registry
import PeerRpc.Session.Config
import PeerRpc.Session.Error
import PeerRpc.Session.Handle
import PeerRpc.Session.Outbox
import PeerRpc.Session.State
import PeerRpc.Session.Task
import PeerRpc.Shape.Basic
import PeerRpc.Shape.Record
import PeerRpc.Shape.Union
import PeerRpc.Text.Basic
import PeerRpc.Text.Extending
import PeerRpc.Text.Unprintable
import PeerRpc.Tokens.Buffer
import PeerRpc.Tokens.Result
