import EECS339.CacheErrors
import EECS339.Replacement
import EECS339.NodeRoundTrip
import EECS339.Insertion
import EECS339.Mounting
import EECS339.AllocationBitmap
import EECS339.ConfigFile
import EECS339.DisplayErrors
import EECS339.HeadModel
import EECS339.BitmapBounds
import EECS339.BitmapFile
import EECS339.DataFile
import EECS339.ConfigReading
import EECS339.OpenErrors
import EECS339.FreshIndexes
import EECS339.SlotCounts
import EECS339.WorkingSet
import EECS339.SequentialReads
import EECS339.KeyOrder
import EECS339.ToolFiles
import EECS339.DrawingRoundTrip
import EECS339.CompareLoops
import EECS339.Comments
import EECS339.Rwb.Browsers
import EECS339.Rwb.ClientRuns
import EECS339.Rwb.Interleaving
import EECS339.Rwb.RenderingModes
