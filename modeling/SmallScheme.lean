import SmallScheme.CommandLine
import SmallScheme.Main
import SmallScheme.Proofs.LineByLine
import SmallScheme.Proofs.RoundTrip
import SmallScheme.Proofs.Captures
import SmallScheme.Proofs.Confinement
import SmallScheme.Proofs.StoreHistory
import SmallScheme.Proofs.Continuation
import SmallScheme.Proofs.Recovery
import SmallScheme.Proofs.ReadingFirst
import SmallScheme.Proofs.Completion
import SmallScheme.Proofs.Scoping
import SmallScheme.Proofs.LocalBinding
import SmallScheme.Proofs.LiteralGrammar
import SmallScheme.Proofs.Words
import SmallScheme.Proofs.QuoteForms
import SmallScheme.Proofs.FaultPlaces
import SmallScheme.Proofs.Equality
import SmallScheme.Proofs.Comparisons
import SmallScheme.Proofs.Interning
import SmallScheme.Proofs.ListSpans
