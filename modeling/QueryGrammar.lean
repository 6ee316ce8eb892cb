import QueryGrammar.Main
import QueryGrammar.Proofs.Expansion
import QueryGrammar.Proofs.Outcome
import QueryGrammar.Proofs.Parts
import QueryGrammar.Proofs.Lookup
import QueryGrammar.Proofs.Junction
import QueryGrammar.Proofs.Derive
import QueryGrammar.Proofs.Numbering
import QueryGrammar.Proofs.Grammar
import QueryGrammar.Proofs.Mirror
import QueryGrammar.Proofs.Values
import QueryGrammar.Proofs.Refusal
import QueryGrammar.Proofs.Acceptance
import QueryGrammar.Proofs.Bounds
import QueryGrammar.Proofs.Composition
import QueryGrammar.Proofs.Reading
import QueryGrammar.Proofs.Segments
import QueryGrammar.Proofs.Essence
import QueryGrammar.Proofs.Annotation
import QueryGrammar.Proofs.Congruence
import QueryGrammar.Proofs.Substitution
import QueryGrammar.Proofs.Layout
import QueryGrammar.Proofs.Alternation
import QueryGrammar.Proofs.Parsing
import QueryGrammar.Proofs.Limits
import QueryGrammar.Proofs.WildcardRules
import QueryGrammar.Proofs.References
import QueryGrammar.Proofs.Reordering
import QueryGrammar.Proofs.Fallback
import QueryGrammar.Proofs.Identities
import QueryGrammar.Proofs.Growth
import QueryGrammar.Proofs.Rendering
import QueryGrammar.Proofs.Printing
import QueryGrammar.Proofs.Writing
import QueryGrammar.Proofs.Ranges
import QueryGrammar.Proofs.Storing
import QueryGrammar.Proofs.ReadBack
import QueryGrammar.Proofs.Keys
import QueryGrammar.Proofs.Notices
import QueryGrammar.Proofs.Isolation
import QueryGrammar.Proofs.Files
import QueryGrammar.Proofs.FileConversion
import QueryGrammar.Proofs.Discovery
import QueryGrammar.Proofs.Alternatives
