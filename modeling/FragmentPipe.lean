import FragmentPipe.Capacity.Settings
import FragmentPipe.Consume.Replay
import FragmentPipe.Control.Cancellation
import FragmentPipe.Pipe.Describe
import FragmentPipe.Position.Counter
import FragmentPipe.Produce.Publish
import FragmentPipe.Produce.Room
import FragmentPipe.Storage.BlockCopy
import FragmentPipe.Stream.FieldView
import FragmentPipe.Proofs.Transfer.Entry
import FragmentPipe.Proofs.Text.Utf8RoundTrip
import FragmentPipe.Proofs.Transfer.Reading
import FragmentPipe.Proofs.Transfer.Change
import FragmentPipe.Proofs.Transfer.Alignment
import FragmentPipe.Proofs.Transfer.SlabSafety
import FragmentPipe.Proofs.Transfer.Strokes
import FragmentPipe.Proofs.Transfer.WordRange
import FragmentPipe.Proofs.Transfer.Records
import FragmentPipe.Proofs.Transfer.Contents
import FragmentPipe.Proofs.Transfer.Fifo
import FragmentPipe.Proofs.Transfer.Occupancy
import FragmentPipe.Proofs.Capacity.Sizing
import FragmentPipe.Proofs.Transfer.Load
import FragmentPipe.Proofs.Transfer.Batching
import FragmentPipe.Proofs.Transfer.Progress
import FragmentPipe.Proofs.Transfer.EndMark
import FragmentPipe.Proofs.Deferral.Calls
import FragmentPipe.Proofs.Deferral.Settled
import FragmentPipe.Proofs.Deferral.Replay
import FragmentPipe.Proofs.Deferral.Tails
import FragmentPipe.Proofs.Deferral.Resuming
import FragmentPipe.Proofs.Deferral.Detour
import FragmentPipe.Proofs.Deferral.Portions
import FragmentPipe.Proofs.Deferral.Postponed
import FragmentPipe.Proofs.Stream.Chunks
import FragmentPipe.Proofs.Stream.Items
import FragmentPipe.Proofs.Stream.RoundTrip
import FragmentPipe.Proofs.Status.Shutdown
import FragmentPipe.Proofs.Status.Calls
import FragmentPipe.Proofs.Status.Errors
import FragmentPipe.Proofs.Text.Utf8Sequence
import FragmentPipe.Proofs.Text.Utf8Canonical
import FragmentPipe.Proofs.Text.Utf8Extent
import FragmentPipe.Proofs.Rollback.Reset
import FragmentPipe.Proofs.Storage.Paint
import FragmentPipe.Proofs.Transfer.Unreleased
import FragmentPipe.Proofs.Text.NumberText
import FragmentPipe.Proofs.Text.Numeral
import FragmentPipe.Proofs.Text.NumberDigits
import FragmentPipe.Proofs.Text.NumberReading
import FragmentPipe.Proofs.Stream.FreeRoom
import FragmentPipe.Proofs.Stream.Lines
import FragmentPipe.Proofs.Rollback.Refused
import FragmentPipe.Proofs.Capacity.LengthGuard
import FragmentPipe.Proofs.Stream.Fetches
import FragmentPipe.Proofs.Stream.Glimpses
import FragmentPipe.Proofs.Stream.Deliveries
import FragmentPipe.Proofs.Stream.Failures
import FragmentPipe.Proofs.Stream.Gathering
import FragmentPipe.Proofs.Stream.Adjoining
import FragmentPipe.Proofs.Position.Checks
import FragmentPipe.Proofs.Storage.BlockCopy
import FragmentPipe.Proofs.Transfer.BlobPosition
import FragmentPipe.Proofs.Layout.CellCounts
import FragmentPipe.Proofs.Deferral.ByteContent
import FragmentPipe.Proofs.Deferral.Bases
