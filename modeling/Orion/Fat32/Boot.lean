import Orion.Lib.Device

/-!
# Mounting a FAT32 volume

Model of `fat32_init` of `fs/fat32.c`. The boot sector is copied into the static variable `bpb` before its
fields are checked, so that a failed call can leave the driver with the fields of another volume.
-/

namespace Orion.Fat32

open Lib

/-- The fields of `FAT32_BPB_t` that the driver reads. -/
structure Bpb where
  BytsPerSec : UInt16
  SecPerClus : UInt8
  RsvdSecCnt : UInt16
  NumFATs : UInt8
  FATSz16 : UInt16
  TotSec32 : UInt32
  FATSz32 : UInt32
  RootClus : UInt32
  deriving DecidableEq, Repr

/-- The fields of a boot sector, at their offsets in `FAT32_BPB_t`. -/
def decodeBpb (sec : Bytes) : Bpb where
  BytsPerSec := sec.get16 11
  SecPerClus := sec 13
  RsvdSecCnt := sec.get16 14
  NumFATs := sec 16
  FATSz16 := sec.get16 22
  TotSec32 := sec.get32 32
  FATSz32 := sec.get32 36
  RootClus := sec.get32 44

/-- The static variables of `fat32.c` that describe the mounted volume. -/
structure Params where
  bpb : Bpb
  fat_start_lba : UInt32
  data_start_lba : UInt32
  root_dir_cluster32 : UInt32
  deriving DecidableEq, Repr

/-- "FAT32", the name that `fat32_init` looks for. -/
def typeName : List UInt8 := [0x46, 0x41, 0x54, 0x33, 0x32]

/-- The tests of `fat32_init` on the fields and on the end of the sector. -/
def accepted (bpb : Bpb) (sec : Bytes) : Bool :=
  bpb.BytsPerSec = 512 &&
    !(bpb.SecPerClus = 0 || bpb.SecPerClus &&& (bpb.SecPerClus - 1) ≠ 0 || bpb.SecPerClus > 128) &&
    !(bpb.NumFATs = 0 || bpb.RsvdSecCnt = 0 || bpb.FATSz32 = 0) &&
    !(bpb.RootClus < 2) && !(sec 510 ≠ 0x55 || sec 511 ≠ 0xAA) &&
    !(bpb.FATSz16 ≠ 0 && bpb.FATSz32 = 0)

/-- The variables for a volume at `base_lba`. -/
def paramsAt (base_lba : UInt32) (bpb : Bpb) : Params where
  bpb := bpb
  fat_start_lba := base_lba + bpb.RsvdSecCnt.toUInt32
  data_start_lba := base_lba + bpb.RsvdSecCnt.toUInt32 + bpb.NumFATs.toUInt32 * bpb.FATSz32
  root_dir_cluster32 := bpb.RootClus

/-- `fat32_init`: whether it succeeds, and the variables after it. -/
def fat32_init (p : Params) (dev : Device) (base_lba : UInt32) : Bool × Params :=
  if !dev.inRange base_lba then (false, p)
  else
    let buf := dev.data base_lba
    if buf.slice 0x52 5 ≠ typeName then (false, p)
    else
      let bpb := decodeBpb buf
      if accepted bpb buf then (true, paramsAt base_lba bpb) else (false, { p with bpb := bpb })

end Orion.Fat32
