import TensorGraph.Access.Lowering
import TensorGraph.Batch.Ratio
import TensorGraph.Batch.Resize
import TensorGraph.Comparison
import TensorGraph.Operators.Core
import TensorGraph.Proofs.Access.Refusal
import TensorGraph.Proofs.Batch.BatchSize
import TensorGraph.Proofs.Batch.Ceiling
import TensorGraph.Proofs.Batch.CurrentShapes
import TensorGraph.Proofs.Batch.History
import TensorGraph.Proofs.Batch.Relaxability
import TensorGraph.Proofs.Batch.Repetition
import TensorGraph.Proofs.Batch.Resizing
import TensorGraph.Proofs.Comparison.Isomorphism
import TensorGraph.Proofs.Graph.Acyclicity
import TensorGraph.Proofs.Graph.Atomicity
import TensorGraph.Proofs.Graph.Canonical
import TensorGraph.Proofs.Graph.Consistency
import TensorGraph.Proofs.Graph.Grounded
import TensorGraph.Proofs.Graph.Redirection
import TensorGraph.Proofs.Graph.Substitution
import TensorGraph.Proofs.Inference.Coherence
import TensorGraph.Proofs.Inference.Correction
import TensorGraph.Proofs.Inference.Idempotence
import TensorGraph.Proofs.Inference.Monotone
import TensorGraph.Proofs.Inference.Resumption
import TensorGraph.Proofs.Inference.Seams
import TensorGraph.Proofs.Operators.Broadcast
import TensorGraph.Proofs.Operators.Folding
import TensorGraph.Proofs.Operators.Grouping
import TensorGraph.Proofs.Operators.Inversion
import TensorGraph.Proofs.Operators.Reshape
import TensorGraph.Proofs.Pattern
import TensorGraph.Proofs.Pipeline
import TensorGraph.Proofs.RuleGroup.Applications
import TensorGraph.Proofs.RuleGroup.Fixpoint
import TensorGraph.Proofs.RuleGroup.Visits
import TensorGraph.Proofs.Batch.Footprint
