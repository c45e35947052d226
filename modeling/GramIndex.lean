import GramIndex.Config.Json
import GramIndex.Index.Render
import GramIndex.Plan.Render
import GramIndex.Proofs.Compilation
import GramIndex.Proofs.Sessions
import GramIndex.Session
import GramIndex.Proofs.Grammar
import GramIndex.Proofs.Printing
import GramIndex.Proofs.Coverage
import GramIndex.Proofs.LiveSessions
import GramIndex.Proofs.Chains
import GramIndex.Proofs.NullNodes
import GramIndex.Proofs.ClassGrammar
import GramIndex.Proofs.CoveringKeys
import GramIndex.Proofs.Widening
import GramIndex.Proofs.BarePatterns
import GramIndex.Proofs.Completeness
import GramIndex.Proofs.LiteralMatches
import GramIndex.Proofs.LiteralPatterns
import GramIndex.Proofs.LiteralSpans
import GramIndex.Proofs.GivenKeys
import GramIndex.Proofs.Disjunctions
import GramIndex.Proofs.Rounds
import GramIndex.Proofs.Partition
import GramIndex.Proofs.Cursors
import GramIndex.Proofs.SharedTallies
import GramIndex.Proofs.ConfigJson
