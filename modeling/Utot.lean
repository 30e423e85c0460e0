import Utot.Sync.Binary
import Utot.Sync.Broadcast
import Utot.Sync.IoSections
import Utot.Labels.Modes
import Utot.Order.Vectors
import Utot.Program.Failures
import Utot.Labels.Canonical
import Utot.Names.Injective
import Utot.Meaning.Folding
import Utot.Meaning.Updates
import Utot.Run.Instances
import Utot.Meaning.Declarations
import Utot.Run.TypeNames
import Utot.Meaning.Safety
import Utot.Run.Promises
import Utot.Format.ReadBack
import Utot.Program.Levels
import Utot.Run.Ranges
import Utot.Meaning.Matching
import Utot.Parameters.Resolution
import Utot.Library.Components
import Utot.Run.Enumeration
import Utot.Network.Vectors
import Utot.Run.Tables
import Utot.Tchecker.Network
import Utot.Program.Behaviour
import Utot.Network.Reordering
import Utot.Run.Layout
