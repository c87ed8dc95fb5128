import GraphViews.Neighborhood.Lemmas
import GraphViews.Table.Lemmas
import GraphViews.Workspace
import GraphViews.Proofs.Counting
import GraphViews.Proofs.Lawful
import GraphViews.Proofs.Record
import GraphViews.Proofs.Lookup
import GraphViews.Proofs.Sound
import GraphViews.Proofs.Scan
import GraphViews.Proofs.Reachable
import GraphViews.Proofs.Shape
import GraphViews.Proofs.Agreement
import GraphViews.Proofs.Alike
import GraphViews.Proofs.Combined
import GraphViews.Proofs.Draws
import GraphViews.Proofs.Within
import GraphViews.Proofs.Passage
import GraphViews.Proofs.Forms
import GraphViews.Proofs.History
import GraphViews.Proofs.BothWays
import GraphViews.Proofs.Reversal
import GraphViews.Proofs.Journal
import GraphViews.Proofs.Refusal
import GraphViews.Proofs.Apart
import GraphViews.Proofs.Handles
import GraphViews.Proofs.Hashing
import GraphViews.Proofs.Updates
import GraphViews.Proofs.AnyOrder
import GraphViews.Proofs.Loops
import GraphViews.Proofs.Draining
import GraphViews.Proofs.Rebuilding
import GraphViews.Proofs.Degrees
import GraphViews.Proofs.Erasing
import GraphViews.Proofs.Checking
import GraphViews.Proofs.Undoing
import GraphViews.Proofs.Sharing
import GraphViews.Proofs.Comparing
import GraphViews.Proofs.Uniting
import GraphViews.Proofs.Opposite
import GraphViews.Proofs.Exact
import GraphViews.Proofs.Delimited
import GraphViews.Proofs.Legible
