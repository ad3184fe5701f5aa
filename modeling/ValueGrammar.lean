import ValueGrammar.Journal
import ValueGrammar.Proofs.Session.Requests
import ValueGrammar.Proofs.Registry.Grouping
import ValueGrammar.Proofs.Expansion.Meaning
import ValueGrammar.Proofs.Expansion.Distribution
import ValueGrammar.Proofs.Expansion.FixedPoint
import ValueGrammar.Proofs.Expansion.Outcome
import ValueGrammar.Proofs.Expansion.Cap
import ValueGrammar.Proofs.Property.Editing
import ValueGrammar.Proofs.Slot.Prefixes
import ValueGrammar.Proofs.Slot.Union
import ValueGrammar.Proofs.Slot.Unchanged
import ValueGrammar.Proofs.Slot.Changes
import ValueGrammar.Proofs.Expansion.Ranges
import ValueGrammar.Proofs.Expansion.Undefined
import ValueGrammar.Proofs.Registry.Cycles
import ValueGrammar.Proofs.Slot.Ownership
import ValueGrammar.Proofs.Slot.Contents
import ValueGrammar.Proofs.Expansion.Permutation
import ValueGrammar.Proofs.Expansion.Flattening
import ValueGrammar.Proofs.Expansion.GroupOrder
import ValueGrammar.Proofs.Tree.Printing
import ValueGrammar.Proofs.Tree.Acceptance
import ValueGrammar.Proofs.Lexeme.Rendering
import ValueGrammar.Proofs.Registry.Idempotence
import ValueGrammar.Proofs.Reference.Stability
import ValueGrammar.Proofs.Value.Runs
import ValueGrammar.Proofs.Value.Joining
import ValueGrammar.Proofs.Value.Calls
import ValueGrammar.Proofs.Piece.FirstRows
import ValueGrammar.Proofs.Expansion.Truncation
import ValueGrammar.Proofs.Category.Classification
import ValueGrammar.Proofs.Slot.Keywords
