import KmOS.Lib.Run
import KmOS.Lib.Bitmap
import KmOS.Lib.Bytes
import KmOS.Lib.Dll
import KmOS.Lib.Dyadic
import KmOS.Lib.Regions
import KmOS.Lib.Freelist
import KmOS.Lib.ObjArray
import KmOS.Lib.Chain
import KmOS.Lib.Recency
import KmOS.Lib.Keyed
import KmOS.Lib.Overwrite
import KmOS.Vmm.State
import KmOS.Vmm.PageTable
import KmOS.Vmm.Directory
import KmOS.Vmm.FlatMap
import KmOS.Vmm.FrameCount
import KmOS.Vmm.Init
import KmOS.Swap.Entry
import KmOS.Swap.Model
import KmOS.Swap.Effects
import KmOS.Swap.Transfer
import KmOS.Swap.Integrity
import KmOS.Swap.Accounting
import KmOS.Swap.FailedSwapOut
import KmOS.Swap.Protection
import KmOS.Lib.Fuel
import KmOS.Swap.Pressure
import KmOS.Swap.LruList
import KmOS.Cow.Model
import KmOS.Cow.Effects
import KmOS.Cow.ForkFailure
import KmOS.Cow.FrameSafety
import KmOS.Cow.Isolation
import KmOS.Cow.RefCount
import KmOS.Cow.FrameAccounting
import KmOS.Cow.Teardown
import KmOS.Sched.Model
import KmOS.Sched.Exit
import KmOS.Sched.Ring
import KmOS.Sched.Context
import KmOS.Sched.Reaping
import KmOS.Sched.Search
import KmOS.Buddy.Model
import KmOS.Buddy.Header
import KmOS.Buddy.Invariant
import KmOS.Buddy.Operations
import KmOS.Buddy.Partition
import KmOS.Buddy.Sizes
import KmOS.Buddy.Recovery
import KmOS.Buddy.Completeness
import KmOS.Buddy.DoubleFree
import KmOS.Unified.Model
import KmOS.Unified.Routing
import KmOS.Block.Model
import KmOS.Block.FlatArray
import KmOS.Slob.Model
import KmOS.Slob.Blocks
import KmOS.Slob.Operations
import KmOS.Slob.Merge
import KmOS.Slob.Invariant
import KmOS.Slob.Heap
import KmOS.Slob.Statistics
import KmOS.Slab.Model
import KmOS.Slab.Lists
import KmOS.Slab.Objects
import KmOS.Slab.Operations
import KmOS.Slab.Frame
import KmOS.Slab.Heap
import KmOS.Slab.Classify
import KmOS.Slab.View
import KmOS.Slab.SizeCaches
import KmOS.Slab.Kmem
import KmOS.Slub.Model
import KmOS.Slub.Pages
import KmOS.Slub.Lists
import KmOS.Slub.PerCpu
import KmOS.Slub.Invariant
import KmOS.Slub.Marks
import KmOS.Slub.Alloc
import KmOS.Slub.Free
import KmOS.Slub.Heap
import KmOS.Slub.Drain
import KmOS.Slub.DoubleFree
import KmOS.Slub.Payload
import KmOS.Slab.Payload
import KmOS.PageReplacement.Model
import KmOS.PageReplacement.Links
import KmOS.PageReplacement.Victim
import KmOS.PageReplacement.Listed
import KmOS.PageReplacement.PageList
import KmOS.PageReplacement.Clock
import KmOS.PageReplacement.Switching
import KmOS.Lib.Tokens
import KmOS.Fs.Model
import KmOS.Fs.Path
import KmOS.Ext2.Model
import KmOS.Fs.Descriptor
import KmOS.Fs.Offset
import KmOS.Lib.BlockHeap
import KmOS.Stack.Model
import KmOS.Stack.Rewind
import KmOS.Stack.Records
import KmOS.Stack.Frames
import KmOS.Stack.Placement
import KmOS.Unified.DebugTable
import KmOS.Unified.Contents
import KmOS.Lib.WriteLog
import KmOS.Console.Model
import KmOS.Console.Cursor
import KmOS.Elf.Model
import KmOS.Elf.UserMemory
import KmOS.Ext2.Address
import KmOS.Ext2.EntryBounds
import KmOS.Ext2.Loading
import KmOS.Ext2.ScanFailure
import KmOS.PageReplacement.Score
import KmOS.Ext2.Lookup
import KmOS.Lib.Division
import KmOS.Lib.LoggedArray
import KmOS.Lib.Strings
import KmOS.Runtime.Division
import KmOS.Runtime.Strings
import KmOS.Shell.JoinPath
import KmOS.System.Login
import KmOS.Elf.Image
import KmOS.Fs.Destroy
import KmOS.Fs.Leads
import KmOS.Fs.Parent
import KmOS.Shell.Grammar
import KmOS.Shell.Tokenizer
import KmOS.Shell.WorkingDirectory
import KmOS.Lib.Fifo
import KmOS.Keyboard.Model
import KmOS.Keyboard.Buffer
import KmOS.Vmm.FrameScan
import KmOS.Lib.Numerals
import KmOS.Lib.InPlace
import KmOS.Runtime.Itoa
import KmOS.Console.Print
import KmOS.Lib.LineEdit
import KmOS.Console.Screen
import KmOS.Console.Format
import KmOS.Keyboard.ScanCode
import KmOS.Keyboard.ReadLine
import KmOS.Keyboard.Echo
import KmOS.Lib.BoundedLog
import KmOS.Shell.History
import KmOS.Shell.Run
import KmOS.Lib.Rota
import KmOS.Sched.Fairness
import KmOS.Lib.Lineage
import KmOS.Sched.Parents
import KmOS.Lib.Ports
import KmOS.Ata.Model
import KmOS.Ata.Bus
import KmOS.Ata.Drive
import KmOS.Ata.FlatDisk
import KmOS.Fs.OpenFiles
import KmOS.Fs.Streams
import KmOS.Ext2.RegularFile
import KmOS.Ata.Volume
import KmOS.Shell.Cat
import KmOS.Ext2.Growth
import KmOS.Ext2.Paths
import KmOS.Lib.Places
import KmOS.Shell.Session
