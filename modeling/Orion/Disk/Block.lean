import Orion.Lib.Bytes

/-!
# The block layer (`drivers/ata.c`, `drivers/usb/usb.c`, `drivers/ramdisk.c`)

`ata_read` and `ata_write` take a drive number, a 32-bit sector number and a count, and hand the request to the
ramdisk, a USB stick, a SATA port or a disk on one of the two PATA channels. A transfer is the list of the sectors
that were moved, each with its place in the buffer, or `none` for the result false; what a request that failed has
moved is left out.

PATA disks take the request in registers of eight bits: the number of sectors, with 0 for 256, and 28 bits of the
address. USB sticks take `READ(10)` and `WRITE(10)` with 32 bits of address.
-/

namespace Orion.Disk

open Lib

/-- The sectors of a disk. -/
structure Medium where
  sectors : ℕ
  data : ℕ → Bytes

/-- The sectors moved in a request: place in the buffer and sector of the medium. -/
abbrev Moves := List (ℕ × ℕ)

/-- The buffer after a read that moved `moves`. -/
def Medium.load (m : Medium) (moves : Moves) (buffer : Bytes) : Bytes :=
  moves.foldl (fun buf e => buf.splice (512 * e.1) 512 (m.data e.2)) buffer

/-- The medium after a write that moved `moves`. -/
def Medium.save (m : Medium) (moves : Moves) (buffer : Bytes) : Medium :=
  moves.foldl (fun m e => { m with data := Function.update m.data e.2 fun j => buffer (512 * e.1 + j) }) m

/-! ## PATA -/

/-- The registers of an LBA28 command. -/
structure TaskFile where
  count : UInt8
  lba0 : UInt8
  lba1 : UInt8
  lba2 : UInt8
  dev : UInt8

/-- What the driver writes to the registers; `drive` is the number of the PATA disk. -/
def registers (drive : UInt8) (lba : UInt32) (count : UInt16) : TaskFile where
  count := if count = 256 then 0 else count.toUInt8
  lba0 := lba.toUInt8
  lba1 := (lba >>> 8).toUInt8
  lba2 := (lba >>> 16).toUInt8
  dev := (0xE0 : UInt8) ||| ((drive &&& 1) <<< 4) ||| ((lba >>> 24) &&& 0x0F).toUInt8

namespace TaskFile

variable (tf : TaskFile)

/-- The sector that the registers name. -/
def address : ℕ := tf.lba0.toNat + 2 ^ 8 * tf.lba1.toNat + 2 ^ 16 * tf.lba2.toNat + 2 ^ 24 * (tf.dev.toNat % 16)

/-- The number of sectors; 0 stands for 256. -/
def length : ℕ := if tf.count = 0 then 256 else tf.count.toNat

end TaskFile

/-- A disk during one request: whether it is ready, and at which sectors it stops moving data or the medium fails. -/
structure Answers where
  idle : Bool
  stall : ℕ → Bool
  fault : ℕ → Bool

/-- The drive can serve the sector `s` of the command. -/
def onMedium (m : Medium) (a : Answers) (tf : TaskFile) (s : ℕ) : Bool := tf.address + s < m.sectors && !a.fault s

/-- `READ SECTORS`: the disk offers the data of sector `s` of the request. -/
def offers (m : Medium) (a : Answers) (tf : TaskFile) (s : ℕ) : Bool := s < tf.length && !a.stall s && onMedium m a tf s

/-- `WRITE SECTORS`: the disk asks for the data of sector `s`. That a sector could not be stored is only reported in
place of the next such request. -/
def asks (m : Medium) (a : Answers) (tf : TaskFile) (s : ℕ) : Bool :=
  s < tf.length && !a.stall s && (s = 0 || onMedium m a tf (s - 1))

/-- The loops of `ata_read` and `ata_write`: every sector waits until the disk is `ready`; if not `kept`, its data are
lost. -/
def sectorTurns (ready kept : ℕ → Bool) (address : ℕ) : ℕ → ℕ → Option Moves
  | 0, _ => some []
  | n + 1, s =>
    if ready s then
      (sectorTurns ready kept address n (s + 1)).map fun rest => if kept s then (s, address + s) :: rest else rest
    else none

/-- The PATA part of `ata_read`, for the disk `p`. -/
def pata_read (m : Medium) (a : Answers) (p : Fin 4) (lba : UInt32) (count : UInt16) : Option Moves :=
  let tf := registers (UInt8.ofNat p.val) lba count
  if a.idle then sectorTurns (offers m a tf) (fun _ => true) tf.address count.toNat 0 else none

/-- The PATA part of `ata_write`, for the disk `p`. -/
def pata_write (m : Medium) (a : Answers) (p : Fin 4) (lba : UInt32) (count : UInt16) : Option Moves :=
  let tf := registers (UInt8.ofNat p.val) lba count
  if a.idle then sectorTurns (asks m a tf) (onMedium m a tf) tf.address count.toNat 0 else none

/-! ## USB and ramdisk -/

/-- A stick in `storage_devs`. -/
structure Stick where
  block_size : ℕ
  medium : Medium

/-- The loop of `usb_storage_read_sectors` and `usb_storage_write_sectors`; a command succeeds when the stick has its
sectors and does not fail. -/
def usbTurns (m : Medium) (a : Answers) (lba : UInt32) (count : ℕ) : ℕ → ℕ → Option Moves
  | 0, _ => some []
  | n + 1, done =>
    if done < count then
      let chunk := min (count - done) 32
      let first := (lba + UInt32.ofNat done).toNat
      if first + chunk ≤ m.sectors ∧ a.fault done = false then
        (usbTurns m a lba count n (done + chunk)).map fun rest =>
          ((List.range chunk).map fun j => (done + j, first + j)) ++ rest
      else none
    else some []

/-- `usb_storage_read_sectors`, `usb_storage_write_sectors` -/
def usb_storage_sectors (stick : Option Stick) (a : Answers) (lba : UInt32) (count : ℕ) : Option Moves :=
  match stick with
  | none => none
  | some dev => if dev.block_size ≠ 512 then none else usbTurns dev.medium a lba count count 0

/-- The consecutive sectors from `lba` on. -/
def run (lba count : ℕ) : Moves := (List.range count).map fun k => (k, lba + k)

/-- `ramdisk_read`, `ramdisk_write`: one `memcpy`, after a check with numbers of 64 bits. -/
def ramdisk_sectors (m : Medium) (lba : UInt32) (count : ℕ) : Option Moves :=
  if lba.toNat * 512 + count * 512 > m.sectors * 512 then none else some (run lba.toNat count)

/-! ## The drives -/

/-- `USB_DRIVE_BASE` -/
abbrev usbDriveBase : UInt8 := 4

/-- The ramdisk with its number, the sticks, the maps of the first four drive numbers to SATA ports and PATA disks, and
the PATA disks that `ata_available` reports. -/
structure Drives where
  ramdisk : Option (UInt8 × Medium)
  usb : UInt8 → Option Stick
  drive_to_ahci : UInt8 → Option ℕ
  drive_to_pata : UInt8 → Option (Fin 4)
  ata_available : Fin 4 → Bool
  pata : Fin 4 → Medium

/-- What serves a drive number. -/
inductive Backend where
  | ramdisk (m : Medium)
  | usb (stick : Option Stick)
  | ahci
  | pata (p : Fin 4)
  | none

/-- The order of the tests in `ata_read` and `ata_write`. -/
def Drives.backend (d : Drives) (drive : UInt8) : Backend :=
  match d.ramdisk.filter fun r => r.1 = drive with
  | some r => .ramdisk r.2
  | Option.none =>
    if usbDriveBase ≤ drive then .usb (d.usb drive)
    else if (d.drive_to_ahci drive).isSome then .ahci
    else
      match d.drive_to_pata drive with
      | Option.none => .none
      | some p => if d.ata_available p then .pata p else .none

/-- `if (count == 0) count = 256;` -/
def sectorCount (count : UInt16) : UInt16 := if count = 0 then 256 else count

/-- `ata_read`; `ahci` is what the SATA driver does, which is not modelled. -/
def ata_read (d : Drives) (a : Answers) (ahci : Option Moves) (drive : UInt8) (lba : UInt32) (count : UInt16) :
    Option Moves :=
  let count := sectorCount count
  match d.backend drive with
  | .ramdisk m => ramdisk_sectors m lba count.toNat
  | .usb stick => usb_storage_sectors stick a lba count.toNat
  | .ahci => ahci
  | .none => none
  | .pata p => pata_read (d.pata p) a p lba count

/-- The dispatch of `ata_write`; the sectors it moves, or `none` for a failure. -/
def ata_write (d : Drives) (a : Answers) (ahci : Option Moves) (drive : UInt8) (lba : UInt32) (count : UInt16) :
    Option Moves :=
  let count := sectorCount count
  match d.backend drive with
  | .ramdisk m => ramdisk_sectors m lba count.toNat
  | .usb stick => usb_storage_sectors stick a lba count.toNat
  | .ahci => ahci
  | .none => none
  | .pata p => pata_write (d.pata p) a p lba count

/-- The 32 bits of a USB command reach every sector of a stick. -/
structure Addressable (d : Drives) : Prop where
  usb : ∀ drive stick, d.usb drive = some stick → stick.medium.sectors ≤ 2 ^ 32

/-- The disk behind a drive number, where it is modelled. -/
def Drives.medium (d : Drives) (drive : UInt8) : Option Medium :=
  match d.backend drive with
  | .ramdisk m => some m
  | .usb stick => stick.map Stick.medium
  | .pata p => some (d.pata p)
  | .ahci | .none => none

/-- The sectors from `lba` on, in order and all on the medium, end up in the buffer; the rest of it is kept. -/
structure ReadExact (m : Medium) (lba n : ℕ) (moved : Moves) : Prop where
  order : moved = run lba n
  inside : lba + n ≤ m.sectors
  buffer : ∀ buf i, m.load moved buf i = if i < 512 * n then m.data (lba + i / 512) (i % 512) else buf i

/-- A write of `n` sectors changed these sectors of the disk and no others. -/
structure WriteExact (m : Medium) (lba n : ℕ) (moved : Moves) : Prop where
  order : moved = run lba n
  inside : lba + n ≤ m.sectors
  medium : ∀ buf s, (m.save moved buf).data s =
    if lba ≤ s ∧ s < lba + n then fun j => buf (512 * (s - lba) + j) else m.data s

/-- The numbers of the sectors fit the command. -/
def Fits (d : Drives) (drive : UInt8) (lba n : ℕ) : Prop :=
  match d.backend drive with
  | .pata _ => lba < 2 ^ 28
  | .usb _ => lba + n ≤ 2 ^ 32
  | _ => True

/-- The drive stored the last sector, of which `ata_write_pio` does not see the status. -/
def LastStored (d : Drives) (a : Answers) (drive : UInt8) (lba : UInt32) (count : UInt16) : Prop :=
  match d.backend drive with
  | .pata p => onMedium (d.pata p) a (registers (UInt8.ofNat p.val) lba count) (count.toNat - 1) = true
  | _ => True

end Orion.Disk
