import FeatureLint.Main
import FeatureLint.Proofs.Automaton
import FeatureLint.Proofs.Cells
import FeatureLint.Proofs.Classification
import FeatureLint.Proofs.Contents
import FeatureLint.Proofs.CursorReaders
import FeatureLint.Proofs.DocStrings
import FeatureLint.Proofs.FirstError
import FeatureLint.Proofs.GroupedReport
import FeatureLint.Proofs.History
import FeatureLint.Proofs.Independence
import FeatureLint.Proofs.Initialization
import FeatureLint.Proofs.Insertion
import FeatureLint.Proofs.Isolation
import FeatureLint.Proofs.JsonReport
import FeatureLint.Proofs.LintCommand
import FeatureLint.Proofs.Lookahead
import FeatureLint.Proofs.Overlap
import FeatureLint.Proofs.Partition
import FeatureLint.Proofs.Placement
import FeatureLint.Proofs.Recording
import FeatureLint.Proofs.Reports
import FeatureLint.Proofs.RoundTrip
import FeatureLint.Proofs.SavedSettings
import FeatureLint.Proofs.Scopes
import FeatureLint.Proofs.SettingsSearch
import FeatureLint.Proofs.Shape
import FeatureLint.Proofs.Substitution
import FeatureLint.Proofs.Trees
