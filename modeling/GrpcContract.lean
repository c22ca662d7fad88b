import GrpcContract.Bridge
import GrpcContract.Call.Adapter
import GrpcContract.Call.Outlet
import GrpcContract.Call.Pipe
import GrpcContract.Call.Session
import GrpcContract.Call.State
import GrpcContract.Client.Gather
import GrpcContract.Client.Reply
import GrpcContract.Codec
import GrpcContract.Contract.Basic
import GrpcContract.Contract.Verifier
import GrpcContract.Frame.Basic
import GrpcContract.Http.Headers
import GrpcContract.Http.Status
import GrpcContract.Http.Target
import GrpcContract.Json.Basic
import GrpcContract.Json.Parser
import GrpcContract.Json.Printer
import GrpcContract.Main
import GrpcContract.Message.Basic
import GrpcContract.Message.OfJson
import GrpcContract.Message.Scalar
import GrpcContract.Message.ToTree
import GrpcContract.Message.Tree
import GrpcContract.Message.Wire
import GrpcContract.Number.Binary
import GrpcContract.Number.Format
import GrpcContract.Number.Literal
import GrpcContract.Number.Shortest
import GrpcContract.Proofs.Alike
import GrpcContract.Proofs.Base64
import GrpcContract.Proofs.ByteOrder
import GrpcContract.Proofs.Chunks
import GrpcContract.Proofs.CodecRoundTrip
import GrpcContract.Proofs.CompletedReplies
import GrpcContract.Proofs.Completion
import GrpcContract.Proofs.Consulting
import GrpcContract.Proofs.DecimalReading
import GrpcContract.Proofs.Delivery
import GrpcContract.Proofs.DoubleReading
import GrpcContract.Proofs.EchoedBodies
import GrpcContract.Proofs.Exchange
import GrpcContract.Proofs.ExchangeOutcome
import GrpcContract.Proofs.FieldKeys
import GrpcContract.Proofs.FieldOrder
import GrpcContract.Proofs.FloatText
import GrpcContract.Proofs.FloatValues
import GrpcContract.Proofs.Floatless
import GrpcContract.Proofs.FloatsReadBack
import GrpcContract.Proofs.Frames
import GrpcContract.Proofs.Headers
import GrpcContract.Proofs.Inbound
import GrpcContract.Proofs.InsertedStatus
import GrpcContract.Proofs.Interleavings
import GrpcContract.Proofs.JsonNumbers
import GrpcContract.Proofs.JsonStrings
import GrpcContract.Proofs.JsonText
import GrpcContract.Proofs.JsonViews
import GrpcContract.Proofs.KeyOrder
import GrpcContract.Proofs.LeafTexts
import GrpcContract.Proofs.Leniency
import GrpcContract.Proofs.MapOrder
import GrpcContract.Proofs.MessageJson
import GrpcContract.Proofs.MessageTypes
import GrpcContract.Proofs.Methods
import GrpcContract.Proofs.NearMidpoints
import GrpcContract.Proofs.Nesting
import GrpcContract.Proofs.Numerals
import GrpcContract.Proofs.Outlets
import GrpcContract.Proofs.Percent
import GrpcContract.Proofs.Registries
import GrpcContract.Proofs.PlannedCalls
import GrpcContract.Proofs.Relay
import GrpcContract.Proofs.Replies
import GrpcContract.Proofs.ResponseEnds
import GrpcContract.Proofs.ResponseFlow
import GrpcContract.Proofs.Results
import GrpcContract.Proofs.Rounding
import GrpcContract.Proofs.ScalarJson
import GrpcContract.Proofs.SequenceBodies
import GrpcContract.Proofs.ServedCalls
import GrpcContract.Proofs.ServedResponse
import GrpcContract.Proofs.ShortestDigits
import GrpcContract.Proofs.ShortestIntervals
import GrpcContract.Proofs.SingleBodies
import GrpcContract.Proofs.SingleReading
import GrpcContract.Proofs.SinkCalls
import GrpcContract.Proofs.SmallSteps
import GrpcContract.Proofs.SortedReading
import GrpcContract.Proofs.SpelledNumbers
import GrpcContract.Proofs.SpelledOut
import GrpcContract.Proofs.SpelledTrees
import GrpcContract.Proofs.StayingClient
import GrpcContract.Proofs.SteadyTexts
import GrpcContract.Proofs.StubServer
import GrpcContract.Proofs.TextDepth
import GrpcContract.Proofs.TextNesting
import GrpcContract.Proofs.Tidy
import GrpcContract.Proofs.TidyReading
import GrpcContract.Proofs.TidyTrees
import GrpcContract.Proofs.TimeLimits
import GrpcContract.Proofs.TreeText
import GrpcContract.Proofs.Utf8
import GrpcContract.Proofs.ValueMessages
import GrpcContract.Proofs.Varints
import GrpcContract.Proofs.Waiters
import GrpcContract.Proofs.Wakeups
import GrpcContract.Proofs.WalkedTrees
import GrpcContract.Proofs.WireMessages
import GrpcContract.Proofs.WireReading
import GrpcContract.Rpc.Config
import GrpcContract.Rpc.Registry
import GrpcContract.Rpc.Timeout
import GrpcContract.Sample.Cases
import GrpcContract.Sample.Kitchen
import GrpcContract.Sample.Legacy
import GrpcContract.Sample.Schema
import GrpcContract.Sample.Server
import GrpcContract.Sample.Store
import GrpcContract.Schema.Basic
import GrpcContract.Schema.Declare
import GrpcContract.Status.Basic
import GrpcContract.Status.Code
import GrpcContract.Status.Failure
import GrpcContract.Status.Headers
import GrpcContract.Status.OfHttp
import GrpcContract.Stub.Matcher
import GrpcContract.Stub.Request
import GrpcContract.Stub.Response
import GrpcContract.Switch
import GrpcContract.Text.Base64
import GrpcContract.Text.Blank
import GrpcContract.Text.Numeral
import GrpcContract.Text.Percent
import GrpcContract.Text.Printable
import GrpcContract.Text.Quoted
import GrpcContract.Text.Utf8
