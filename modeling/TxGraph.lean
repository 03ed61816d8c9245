import TxGraph.Files.Tree
import TxGraph.Main
import TxGraph.Program.Json
import TxGraph.Proofs.Address.Identity
import TxGraph.Proofs.DataType.Flow
import TxGraph.Proofs.Decoding.Returns
import TxGraph.Proofs.Decoding.Wraparound
import TxGraph.Proofs.Document
import TxGraph.Proofs.Graph.Resize
import TxGraph.Proofs.Lowering.Decoded
import TxGraph.Proofs.Lowering.Rename
import TxGraph.Proofs.Lowering.Sender
import TxGraph.Proofs.Lowering.Sharing
import TxGraph.Proofs.Program.Artifact
import TxGraph.Proofs.Program.Classes
import TxGraph.Proofs.Program.EdgeOrder
import TxGraph.Proofs.RoundTrip.Inferred
import TxGraph.Proofs.Script.Binding
import TxGraph.Proofs.Script.PureCall
import TxGraph.Proofs.Snapshot
import TxGraph.Proofs.Transaction.Json
import TxGraph.Proofs.Transaction.Trace
import TxGraph.Proofs.Transaction.WellFormed
