import Orion.Lib.Runs
import Orion.Lib.Words
import Orion.Mem.Kmalloc
import Orion.Proc.Table
import Orion.Proc.Run
import Orion.Proc.Proofs.RunProofs
import Orion.Mem.Blocks
import Orion.Mem.Proofs.SegProofs
import Orion.Mem.Proofs.EditProofs
import Orion.Mem.Proofs.AllocProofs
import Orion.Mem.Proofs.FitProofs
import Orion.Mem.Proofs.GrowProofs
import Orion.Mem.Proofs.FreeProofs
import Orion.Mem.Run
import Orion.Mem.Proofs.HeapRunProofs
import Orion.Lib.Bytes
import Orion.Lib.CString
import Orion.Lib.Device
import Orion.Lib.Forest
import Orion.Xvfs.Files
import Orion.Xvfs.Run
import Orion.Xvfs.Proofs.BlockProofs
import Orion.Xvfs.Proofs.TreeProofs
import Orion.Xvfs.Proofs.OpProofs
import Orion.Xvfs.Proofs.OwnershipProofs
import Orion.Xvfs.Proofs.WriteProofs
import Orion.Fat16.Boot
import Orion.Fat32.Boot
import Orion.Mount.Disks
import Orion.Mount.Copy
import Orion.Mount.Run
import Orion.Mount.Proofs.DriverProofs
import Orion.Mount.Proofs.MountProofs
import Orion.Mount.Proofs.CopyProofs
import Orion.Mount.Proofs.JoinProofs
import Orion.Mount.Proofs.MatchProofs
import Orion.Paging.Tables
import Orion.Paging.UserMemory
import Orion.Paging.Proofs.UserMemoryProofs
import Orion.Lib.Paths
import Orion.Proc.Moves
import Orion.Proc.Proofs.MoveProofs
import Orion.Proc.Proofs.KillProofs
import Orion.Proc.Proofs.VforkProofs
import Orion.Proc.Proofs.WaitProofs
import Orion.Proc.Directory
import Orion.Proc.Proofs.DirectoryProofs
import Orion.Paging.Map
import Orion.Space.Exec
import Orion.Paging.Proofs.MapProofs
import Orion.Space.Proofs.ExecProofs
import Orion.Space.Isolation
import Orion.Space.Proofs.IsolationProofs
import Orion.Space.Ledger
import Orion.Space.Proofs.LedgerProofs
import Orion.Elf.Loader
import Orion.Elf.Proofs.LoaderProofs
import Orion.Space.Residue
import Orion.Space.Proofs.ResidueProofs
import Orion.Fat.Names
import Orion.Lib.ChainTree
import Orion.Fat.Volume
import Orion.Fat16.Files
import Orion.Fat.Proofs.ScanProofs
import Orion.Fat.Proofs.VolumeProofs
import Orion.Fat16.Run
import Orion.Fat16.Proofs.LoopProofs
import Orion.Disk.Rescan
import Orion.Disk.Proofs.RescanProofs
import Orion.Usb.Proofs.StorageProofs
import Orion.Lib.Bitmap
import Orion.Pmm.Pages
import Orion.Pmm.Proofs.PagesProofs
import Orion.Fat.Proofs.LongNameProofs
import Orion.Elf.Access
import Orion.Elf.Proofs.AccessProofs
import Orion.Fat16.Format
import Orion.Fat16.Proofs.FormatProofs
import Orion.Fat32.Format
import Orion.Fat32.Proofs.FormatProofs
import Orion.Xvfs.Proofs.FormatProofs
import Orion.Fat32.Files
import Orion.Fat32.Run
import Orion.Fat32.Proofs.MirrorProofs
import Orion.Fat16.Proofs.TreeProofs
import Orion.Fat16.Proofs.GrowProofs
import Orion.Fat.Proofs.EntryProofs
import Orion.Fat16.Proofs.ReserveProofs
import Orion.Fat16.Proofs.EntryProofs
import Orion.Fat16.Proofs.OwnershipProofs
import Orion.Syscall.Gui
import Orion.Syscall.Proofs.GuiProofs
import Orion.Proc.Cleanups
import Orion.Proc.Proofs.CleanupProofs
import Orion.Syscall.Files
import Orion.Syscall.Proofs.FilesProofs
import Orion.Fat32.Reading
import Orion.Syscall.Mounted
import Orion.Syscall.Proofs.ReadProofs
import Orion.Syscall.Proofs.SessionProofs
import Orion.Disk.Block
import Orion.Disk.Proofs.BlockProofs
import Orion.Lib.Toggle
import Orion.Usb.Keyboard
import Orion.Usb.Proofs.KeyboardProofs
import Orion.Usb.Async
import Orion.Usb.Proofs.AsyncProofs
import Orion.Fat.Aliases
import Orion.Fat.Proofs.AliasProofs
import Orion.Fat.Removal
import Orion.Fat.Proofs.RemovalProofs
import Orion.Fat16.Outcomes
import Orion.Fat16.Proofs.TurnProofs
import Orion.Fat16.Proofs.FailureProofs
import Orion.Fat.Proofs.InsertProofs
import Orion.Fat.Proofs.MatchProofs
import Orion.Fat16.Proofs.CreationProofs
import Orion.Fat16.Geometry
import Orion.Fat16.Proofs.GeometryProofs
import Orion.Fat32.Tables
import Orion.Fat32.Proofs.TablesProofs
import Orion.Fat32.Remount
import Orion.Fat32.Proofs.RemountProofs
import Orion.Syscall.Cwd
import Orion.Syscall.Proofs.CwdProofs
import Orion.Fat32.Cwd
import Orion.Fat32.Proofs.CwdProofs
import Orion.Syscall.Ranges
import Orion.Syscall.Proofs.RangeProofs
import Orion.Xvfs.Account
import Orion.Xvfs.Proofs.AccountProofs
import Orion.Xvfs.Proofs.ReclaimProofs
import Orion.Fat.Freeing
import Orion.Fat.Proofs.FreeingProofs
import Orion.Fat16.Scans
import Orion.Fat16.Proofs.ScanLoopProofs
import Orion.Fat.FreeSpace
import Orion.Fat.Proofs.FreeSpaceProofs
import Orion.Mem.Growth
import Orion.Mem.Proofs.PageGrowthProofs
import Orion.Space.UserStack
import Orion.Space.Placement
import Orion.Space.Proofs.PlacementProofs
import Orion.Space.Proofs.UserStackProofs
import Orion.Proc.Proofs.WorkQueueProofs
import Orion.Proc.Proofs.TimerProofs
import Orion.Proc.Proofs.SysMgrProofs
import Orion.Lib.BoundedStack
import Orion.Syscall.Normalize
import Orion.Syscall.Proofs.NormalizeProofs
import Orion.Shell.Modifiers
import Orion.Shell.Proofs.ModifiersProofs
import Orion.Shell.Proofs.SizeArgProofs
import Orion.Shell.DiskWrite
import Orion.Kernel.Log
import Orion.Usb.Bulk
import Orion.Gui.Placement
import Orion.Shell.Note
import Orion.Shell.KeyBuffer
import Orion.Pmm.Proofs.AccountProofs
