import Libfs.CHeap
import Libfs.Paths
import Libfs.LiveNodes
import Libfs.NodeWalks
import Libfs.Unhooking
import Libfs.LinkedTable
import Libfs.TableMaps
import Libfs.Directory
import Libfs.Common
import Libfs.Run
import Libfs.Inode
import Libfs.Files
import Libfs.Operations
import Libfs.TableSpecs
import Libfs.FileSpecs
import Libfs.StepSpecs
import Libfs.BlockSpecs
import Libfs.Disk
import Libfs.BlockTable
import Libfs.Descriptors
import Libfs.FileIdentity
import Libfs.ReadBack
import Libfs.Namespace
import Libfs.ReqBuffer
import Libfs.BufferSpecs
import Libfs.Ring
import Libfs.RingAccounting
import Libfs.RingOrder
import Libfs.RingOwnership
import Libfs.MsgQueue
import Libfs.Responses
import Libfs.ReadResponses
import Libfs.Calls
import Libfs.Reassembly
import Libfs.Wire
import Libfs.Requests
import Libfs.FailedRequests
import Libfs.WriteFrame
import Libfs.OffsetBounds
import Libfs.FailedWrites
import Libfs.FailedSymlinks
import Libfs.Text
import Libfs.SavedTables
import Libfs.SavedInodes
import Libfs.SavedNames
import Libfs.SavedBlocks
import Libfs.PermissionBits
import Libfs.MissingFiles
import Libfs.Numbering
import Libfs.DescriptorTable
import Libfs.IssuedNumbers
import Libfs.OpenResponses
import Libfs.Answers
import Libfs.Returns
import Libfs.UniqueNames
import Libfs.Renames
import Libfs.ReadStops
import Libfs.Overwrites
import Libfs.MalformedParts
import Libfs.HardLinks
import Libfs.BlockLists
import Libfs.FileSystem
import Libfs.FileSystemRuns
import Libfs.Represents
import Libfs.ServedNames
import Libfs.ServedAccess
import Libfs.ServedHandles
import Libfs.Served
import Libfs.Refinement
import Libfs.Startup
import Libfs.Restarts
import Libfs.Lives
import Libfs.System
import Libfs.SystemInvariant
import Libfs.Schedules
import Libfs.Linearized
import Libfs.Answered
import Libfs.Process
import Libfs.Shutdown
