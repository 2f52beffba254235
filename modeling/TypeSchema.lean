import TypeSchema.Main
import TypeSchema.Proofs.Language
import TypeSchema.Proofs.Lossless
import TypeSchema.Proofs.RoundTrip
import TypeSchema.Proofs.Lookup
import TypeSchema.Proofs.Progress
import TypeSchema.Proofs.Registry
import TypeSchema.Proofs.Spacing
import TypeSchema.Proofs.Concatenation
import TypeSchema.Proofs.Occurrence
import TypeSchema.Proofs.Blame
import TypeSchema.Proofs.Agreement
import TypeSchema.Proofs.Failing
import TypeSchema.Proofs.Refusal
import TypeSchema.Proofs.Rejection
import TypeSchema.Proofs.Composition
import TypeSchema.Proofs.Lookahead
import TypeSchema.Proofs.Surroundings
import TypeSchema.Proofs.Mixture
import TypeSchema.Proofs.Judgement
import TypeSchema.Proofs.Commas
import TypeSchema.Proofs.Flattening
import TypeSchema.Proofs.Unfinished
import TypeSchema.Proofs.Attribution
import TypeSchema.Proofs.Truncation.Value
import TypeSchema.Proofs.Truncation.Definition
import TypeSchema.Proofs.Location
import TypeSchema.Proofs.WordLimit
import TypeSchema.Proofs.Literal
import TypeSchema.Proofs.Respelling
import TypeSchema.Proofs.Bytewise
