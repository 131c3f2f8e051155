import Orion.Lib.Device

/-!
# Mounting a FAT16 volume

Model of the part of `fs/fat16.c` that reads boot sectors: `probe_fat16_pbr`, `find_fat16_in_mbr` and
`fat16_init`.
-/

namespace Orion.Fat16

open Lib

/-- The fields of `FAT16_BPB_t` that the driver reads. -/
structure Bpb where
  BytsPerSec : UInt16
  SecPerClus : UInt8
  RsvdSecCnt : UInt16
  NumFATs : UInt8
  RootEntCnt : UInt16
  TotSec16 : UInt16
  FATSz16 : UInt16
  TotSec32 : UInt32
  deriving DecidableEq, Repr

/-- The fields of the boot sector. -/
def decodeBpb (sec : Bytes) : Bpb where
  BytsPerSec := sec.get16 11
  SecPerClus := sec 13
  RsvdSecCnt := sec.get16 14
  NumFATs := sec 16
  RootEntCnt := sec.get16 17
  TotSec16 := sec.get16 19
  FATSz16 := sec.get16 22
  TotSec32 := sec.get32 32

def is_fat16_ptype (t : UInt8) : Bool := t = 0x04 || t = 0x06 || t = 0x0E

def is_valid_bootjmp (sec : Bytes) : Bool := (sec 0 = 0xEB && sec 2 = 0x90) || sec 0 = 0xE9

def has_sig55AA (sec : Bytes) : Bool := sec 510 = 0x55 && sec 511 = 0xAA

/-- `root_dir_sectors` -/
def Bpb.rootDirSectors (bpb : Bpb) : UInt32 :=
  (bpb.RootEntCnt.toUInt32 * 32 + (bpb.BytsPerSec.toUInt32 - 1)) / bpb.BytsPerSec.toUInt32

def Bpb.fatSectors (bpb : Bpb) : UInt32 := bpb.NumFATs.toUInt32 * bpb.FATSz16.toUInt32

/-- The sectors of the data region, as `probe_fat16_pbr` counts them. -/
def Bpb.dataSectors (bpb : Bpb) : UInt32 :=
  (if bpb.TotSec16 ≠ 0 then bpb.TotSec16.toUInt32 else bpb.TotSec32) -
    (bpb.RsvdSecCnt.toUInt32 + bpb.fatSectors + bpb.rootDirSectors)

/-- The tests of `probe_fat16_pbr` on the fields. -/
def Bpb.accepted (bpb : Bpb) : Bool :=
  bpb.BytsPerSec = 512 &&
    !(bpb.SecPerClus = 0 || bpb.SecPerClus &&& (bpb.SecPerClus - 1) ≠ 0 || bpb.SecPerClus > 128) &&
    bpb.NumFATs ≠ 0 && bpb.FATSz16 ≠ 0 && bpb.dataSectors ≠ 0 &&
    (bpb.dataSectors / bpb.SecPerClus.toUInt32 ≥ 4085 && bpb.dataSectors / bpb.SecPerClus.toUInt32 < 65525)

/-- The boot sector at `base_lba`, if it is accepted. -/
def probe_fat16_pbr (dev : Device) (base_lba : UInt32) : Option Bpb :=
  if !dev.inRange base_lba then none
  else
    let sec := dev.data base_lba
    if !has_sig55AA sec || !is_valid_bootjmp sec then none
    else if (decodeBpb sec).accepted then some (decodeBpb sec) else none

/-- `find_fat16_in_mbr`: the first partition of a FAT16 type with a FAT16 boot sector. -/
def find_fat16_in_mbr (dev : Device) : Option (UInt32 × Bpb) :=
  if !dev.inRange 0 || !has_sig55AA (dev.data 0) then none
  else
    let sec := dev.data 0
    (List.range 4).findSome? fun i =>
      let lba_first := sec.get32 (0x1BE + 16 * i + 8)
      if is_fat16_ptype (sec (0x1BE + 16 * i + 4)) && lba_first ≠ 0 then
        (probe_fat16_pbr dev lba_first).map fun bpb => (lba_first, bpb)
      else none

/-- The variables of a mounted volume. -/
structure Params where
  fat16_bpb : Bpb
  fat_start_lba : UInt32
  root_dir_sectors : UInt32
  root_dir_lba : UInt32
  data_region_lba : UInt32
  deriving DecidableEq, Repr

/-- The part of `fat16_init` behind the search for the volume. -/
def paramsAt (base_lba : UInt32) (bpb : Bpb) : Params :=
  let root_dir_lba := base_lba + bpb.RsvdSecCnt.toUInt32 + bpb.fatSectors
  { fat16_bpb := bpb
    fat_start_lba := base_lba + bpb.RsvdSecCnt.toUInt32
    root_dir_sectors := bpb.rootDirSectors
    root_dir_lba := root_dir_lba
    data_region_lba := root_dir_lba + bpb.rootDirSectors }

/-- `fat16_init`: the volume at `base_lba`, else one of the partition table, else one at sector 0. -/
def fat16_init (dev : Device) (base_lba : UInt32) : Option Params :=
  match probe_fat16_pbr dev base_lba with
  | some bpb => some (paramsAt base_lba bpb)
  | none =>
    match find_fat16_in_mbr dev with
    | some (lba, bpb) => some (paramsAt lba bpb)
    | none => (probe_fat16_pbr dev 0).map (paramsAt 0)

end Orion.Fat16
