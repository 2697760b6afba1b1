import SilverTree.Run
import SilverTree.StableSort
import SilverTree.Workbench
import SilverTree.Leaves
import SilverTree.Viewer
import SilverTree.ContentProvider
import SilverTree.MemoryProvider
import SilverTree.View
import SilverTree.Session
import SilverTree.Provenance
import SilverTree.MemoryTable
import SilverTree.TreeView
import SilverTree.Lockstep
import SilverTree.Navigation
import SilverTree.Listeners
import SilverTree.Failures
import SilverTree.CorpusChecker
import SilverTree.CorpusFiles
import SilverTree.CorpusReport
import SilverTree.Damager
import SilverTree.DoubleClick
import SilverTree.StringLiterals
import SilverTree.TagRule
import SilverTree.EditorColors
import SilverTree.EditorLifecycle
import SilverTree.CorpusListing
import SilverTree.FaultyRuns
import SilverTree.WindowViews
import SilverTree.TreeRows
import SilverTree.ViewInterplay
import SilverTree.Repairer
import SilverTree.CorpusRepeat
import SilverTree.Selections
import SilverTree.PartitionEdits
