import SegmentedMessage.Layout.PointerCodec
import SegmentedMessage.Proofs.Atomicity
import SegmentedMessage.Proofs.Region
import SegmentedMessage.Template
import SegmentedMessage.Proofs.Safety
import SegmentedMessage.Proofs.Session
import SegmentedMessage.Proofs.Containment
import SegmentedMessage.Proofs.Link
import SegmentedMessage.Proofs.Target
import SegmentedMessage.Proofs.Tree
import SegmentedMessage.Proofs.Settled
import SegmentedMessage.Proofs.Faithful
import SegmentedMessage.Proofs.Duplicate
import SegmentedMessage.Proofs.DeepCopy
import SegmentedMessage.Proofs.Heap
import SegmentedMessage.Proofs.HeapStep
import SegmentedMessage.Proofs.HeapCopy
import SegmentedMessage.Proofs.HeapAssign
import SegmentedMessage.Proofs.HeapEdit
import SegmentedMessage.Proofs.HeapCall
import SegmentedMessage.Proofs.HeapSession
import SegmentedMessage.Proofs.Supply
import SegmentedMessage.Proofs.Growth
import SegmentedMessage.Proofs.Accounting
import SegmentedMessage.Proofs.Decoding
import SegmentedMessage.Proofs.Codec
import SegmentedMessage.Proofs.Ledger
import SegmentedMessage.Proofs.Lasting
import SegmentedMessage.Proofs.Sealing
import SegmentedMessage.Proofs.Agreement
import SegmentedMessage.Proofs.Fill
import SegmentedMessage.Proofs.Migration
import SegmentedMessage.Proofs.RoundTrip
import SegmentedMessage.Proofs.Impartial
import SegmentedMessage.Proofs.Placement
import SegmentedMessage.Proofs.Replica
import SegmentedMessage.Proofs.Reopening
import SegmentedMessage.Proofs.StructCopy
import SegmentedMessage.Proofs.Unread
import SegmentedMessage.Proofs.Moving
import SegmentedMessage.Proofs.Elements
import SegmentedMessage.Proofs.SelfCopy
import SegmentedMessage.Proofs.Addressing
