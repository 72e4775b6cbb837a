import MatchTree.Main
import MatchTree.Proofs.Compilation
import MatchTree.Tree.Draft
import MatchTree.Proofs.Agreement
import MatchTree.Proofs.Installation
import MatchTree.Proofs.TableLines
import MatchTree.Proofs.Loading
import MatchTree.Proofs.Admission
import MatchTree.Proofs.KeyWidths
import MatchTree.Proofs.Passage
import MatchTree.Proofs.Breaches
import MatchTree.Proofs.Codes
import MatchTree.Proofs.Renumbering
import MatchTree.Proofs.RealValue
import MatchTree.Proofs.Accounts
import MatchTree.Proofs.ArrayWalk
import MatchTree.Proofs.Rounds
import MatchTree.Proofs.Files
import MatchTree.Proofs.Batch
import MatchTree.Proofs.EntryOrder
import MatchTree.Proofs.Budgets
import MatchTree.Proofs.TreeText
import MatchTree.Proofs.GuardedTable
import MatchTree.Proofs.Tallies
import MatchTree.Proofs.Thresholds
import MatchTree.Proofs.RootedTree
import MatchTree.Proofs.RowLimit
import MatchTree.Proofs.Counters
import MatchTree.Proofs.Frames
import MatchTree.Proofs.DraftTree
import MatchTree.Proofs.Clashes
import MatchTree.Proofs.Covering
import MatchTree.Proofs.Scan
