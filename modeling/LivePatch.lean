import LivePatch.Bytes.Order
import LivePatch.Host.Journal
import LivePatch.Main
import LivePatch.Proofs.Wire.RoundTrip
import LivePatch.Proofs.Dispatch.Flat
import LivePatch.Proofs.Dispatch.Place
import LivePatch.Proofs.Dispatch.Replay
import LivePatch.Proofs.Program.Offset
import LivePatch.Proofs.Program.Walk
import LivePatch.Proofs.Dispatch.Budget
import LivePatch.Proofs.Dispatch.Parallel
import LivePatch.Proofs.Host.Constant
import LivePatch.Proofs.Dispatch.DryRun
import LivePatch.Proofs.Program.InStep
import LivePatch.Proofs.Wire.Layout
import LivePatch.Proofs.Dispatch.Linear
import LivePatch.Proofs.Dispatch.Concatenation
import LivePatch.Proofs.Dispatch.Passes
import LivePatch.Proofs.Dispatch.Failure
import LivePatch.Proofs.Dispatch.Carryover
import LivePatch.Proofs.Dispatch.Resumption
import LivePatch.Proofs.Program.Timed
import LivePatch.Proofs.Wire.Streaming
import LivePatch.Proofs.Machine.Addressing
import LivePatch.Proofs.Dispatch.DryStream
import LivePatch.Proofs.Program.Canonical
import LivePatch.Proofs.Host.Sparse
import LivePatch.Proofs.Host.Words
import LivePatch.Proofs.Machine.Series
import LivePatch.Proofs.Machine.Replacement
import LivePatch.Proofs.Machine.TemplateSearch
import LivePatch.Proofs.Wire.Requests
import LivePatch.Proofs.Machine.Conditions
import LivePatch.Proofs.Dispatch.Account
import LivePatch.Proofs.Text.Printable
import LivePatch.Proofs.Program.Listing
