import SmallOs.Base.Crc
import SmallOs.Gpt.Checksum
import SmallOs.Gpt.Guid
import SmallOs.Gpt.Write
import SmallOs.Gpt.Read
import SmallOs.Gpt.Codec
import SmallOs.Gpt.Image
import SmallOs.Gpt.RoundTrip
import SmallOs.Gpt.Backup
import SmallOs.Ntfs.Boot
import SmallOs.Ntfs.Runs
import SmallOs.Ntfs.Attr
import SmallOs.Ntfs.Fixups
import SmallOs.Ntfs.Index
import SmallOs.Ntfs.Entries
import SmallOs.Ntfs.Driver
import SmallOs.Ntfs.Write
import SmallOs.Ntfs.Records
import SmallOs.Base.Run
import SmallOs.Ntfs.Slots
import SmallOs.Ntfs.Atomic
import SmallOs.Ntfs.Clusters
import SmallOs.Ntfs.Walk
import SmallOs.Ntfs.Overwrite
import SmallOs.Ntfs.Created
import SmallOs.Vfs.File
import SmallOs.Vfs.Positioned
import SmallOs.Ntfs.Addresses
import SmallOs.Driver.Block
import SmallOs.Driver.Sectors
import SmallOs.Gpt.Crash
import SmallOs.Boot.DiskProbe
import SmallOs.Gpt.Manager
import SmallOs.Gpt.Frame
import SmallOs.Gpt.Refused
import SmallOs.Gpt.Report
import SmallOs.Gpt.Format
import SmallOs.Vfs.SplitReads
import SmallOs.Driver.Layout
import SmallOs.Driver.Fis
import SmallOs.Boot.ProbeAgrees
import SmallOs.Base.Memory
import SmallOs.Driver.Virtqueue
import SmallOs.Driver.VirtioRuns
import SmallOs.Driver.Transfer
import SmallOs.Vfs.Mount
import SmallOs.Vfs.Resolve
import SmallOs.Vfs.Open
import SmallOs.Base.Links
import SmallOs.Kernel.FixedSizeBlock
import SmallOs.Kernel.Frames
import SmallOs.Kernel.FramesWhole
import SmallOs.Kernel.Dma
import SmallOs.Kernel.DmaExclusive
import SmallOs.Base.Paging
import SmallOs.Boot.SetupPaging
import SmallOs.Boot.VirtioBlk
import SmallOs.Kernel.Heap
import SmallOs.Kernel.DmaReach
import SmallOs.Base.Maps
import SmallOs.Device.Registry
import SmallOs.Driver.Registry
import SmallOs.Driver.Stopped
import SmallOs.Driver.Enumerate
import SmallOs.Vfs.Descriptors
import SmallOs.Boot.Framebuffer
import SmallOs.Screen.Writer
import SmallOs.Screen.Cursor
import SmallOs.Screen.Geometry
import SmallOs.Kernel.Executor
import SmallOs.Kernel.WakeUps
import SmallOs.Base.Backlog
import SmallOs.Kernel.ReadyQueue
import SmallOs.Kernel.Sleepers
import SmallOs.Base.Replace
import SmallOs.Shell.Tokenizer
import SmallOs.Shell.Pipeline
import SmallOs.Shell.Task
import SmallOs.Shell.Typed
import SmallOs.Base.Signed
import SmallOs.Ntfs.MappingPairs
import SmallOs.Ntfs.Scan
import SmallOs.Ntfs.NewRecord
import SmallOs.Ntfs.RecordSpace
import SmallOs.Ntfs.ParseBack
import SmallOs.Vfs.StoredSize
import SmallOs.Ntfs.IndexBlock
import SmallOs.Ntfs.RootInsert
import SmallOs.Base.Stores
import SmallOs.Boot.Fat32
import SmallOs.Boot.ElfLoader
import SmallOs.Boot.MbrTable
import SmallOs.Boot.RootChain
import SmallOs.Boot.ElfSegments
import SmallOs.Boot.KernelSearch
import SmallOs.Boot.GptBounds
import SmallOs.Ntfs.RunList
import SmallOs.Ntfs.RunBits
import SmallOs.Ntfs.Torn
import SmallOs.Ntfs.Walkers
import SmallOs.Ntfs.StatTotal
import SmallOs.Ntfs.Mounting
import SmallOs.Ntfs.HalImpl
import SmallOs.Vfs.Sparse
import SmallOs.Vfs.ReadDir
import SmallOs.Boot.ElfProtected
import SmallOs.Boot.IntendedMap
import SmallOs.Shell.Scancodes
import SmallOs.Base.Regions
import SmallOs.Kernel.LinkedList
import SmallOs.Kernel.LinkedListBlocks
import SmallOs.Kernel.LinkedListWhole
import SmallOs.Base.Zipper
import SmallOs.Shell.Recall
import SmallOs.Shell.Rendering
import SmallOs.Vfs.Reparse
import SmallOs.Ntfs.OpenPath
import SmallOs.Base.FirstMax
import SmallOs.Driver.Selection
import SmallOs.Base.Lanes
import SmallOs.Pci.Ecam
import SmallOs.Pci.ByteAccess
import SmallOs.Pci.Capabilities
import SmallOs.Base.Masks
import SmallOs.Pci.Bar
import SmallOs.Base.Counting
import SmallOs.Screen.Pixels
import SmallOs.Screen.Cells
import SmallOs.Shell.ClearLine
import SmallOs.Base.Scrollback
import SmallOs.Screen.Terminal
import SmallOs.Pci.Enumerate
import SmallOs.Device.Ordered
import SmallOs.Bus.Pci
import SmallOs.Driver.Discovery
import SmallOs.Ntfs.Stored
import SmallOs.Ntfs.Resident
import SmallOs.Ntfs.Catalog
import SmallOs.Ntfs.Crash
import SmallOs.Vfs.Volume
import SmallOs.Kernel.Fairness
import SmallOs.Installer.Scan
import SmallOs.Shell.Session
