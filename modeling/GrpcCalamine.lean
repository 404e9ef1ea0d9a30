import GrpcCalamine.Service.Incremental
import GrpcCalamine.Service.RangeStream
import GrpcCalamine.Service.Stops
import GrpcCalamine.Service.Dictionary
import GrpcCalamine.Service.Lossless
import GrpcCalamine.Service.Formula
import GrpcCalamine.Service.FormulaSpec
import GrpcCalamine.Service.Bodies
import GrpcCalamine.Service.Spawn
import GrpcCalamine.Service.Served
import GrpcCalamine.Store.Budget
import GrpcCalamine.Store.Pool
import GrpcCalamine.Store.Coverage
import GrpcCalamine.Store.Turns
import GrpcCalamine.Store.Registry
import GrpcCalamine.Store.Accounting
import GrpcCalamine.Store.Alive
import GrpcCalamine.Lib.Search
import GrpcCalamine.Archive.Scan
import GrpcCalamine.Archive.Attributes
import GrpcCalamine.Archive.SstTable
import GrpcCalamine.Archive.Records
import GrpcCalamine.Archive.Verdict
import GrpcCalamine.Archive.CountGuard
import GrpcCalamine.Archive.Inspect
import GrpcCalamine.Archive.Order
import GrpcCalamine.Archive.Work
import GrpcCalamine.Archive.Honest
import GrpcCalamine.Archive.Estimate
import GrpcCalamine.Lib.Wire
import GrpcCalamine.Service.Frames
import GrpcCalamine.Service.Encodable
import GrpcCalamine.Service.Notices
import GrpcCalamine.Service.Headers
import GrpcCalamine.Service.Ascending
import GrpcCalamine.Service.Buffered
import GrpcCalamine.Service.Agreement
import GrpcCalamine.Store.Calls
import GrpcCalamine.Store.Admission
import GrpcCalamine.Store.Idle
import GrpcCalamine.Service.Pushes
import GrpcCalamine.Service.Carriers
import GrpcCalamine.Service.RepairWindow
import GrpcCalamine.Service.Upload
import GrpcCalamine.Service.UploadGrammar
import GrpcCalamine.Service.Uploads
import GrpcCalamine.Service.SortedStream
import GrpcCalamine.Lib.Protobuf
import GrpcCalamine.Service.Prost
import GrpcCalamine.Lib.Receiver
import GrpcCalamine.Service.Plain
import GrpcCalamine.Service.Client
import GrpcCalamine.Service.Sheet
import GrpcCalamine.Service.Contract
import GrpcCalamine.Service.Headed
import GrpcCalamine.Bench.Densify
import GrpcCalamine.Lib.Fill
import GrpcCalamine.Bench.Walks
import GrpcCalamine.Bench.Received
import GrpcCalamine.Bench.Arriving
import GrpcCalamine.Bench.SameWork
import GrpcCalamine.Service.Slots
import GrpcCalamine.Store.Handles
import GrpcCalamine.Store.Open
import GrpcCalamine.Lib.Layout
import GrpcCalamine.Bench.Packed
import GrpcCalamine.Bench.PackedGrid
import GrpcCalamine.Bench.Upload
import GrpcCalamine.Lib.Chunked
import GrpcCalamine.Lib.Handles
import GrpcCalamine.Service.Unary
import GrpcCalamine.Service.Answers
import GrpcCalamine.Service.Kept
import GrpcCalamine.Store.Charge
