import Orion.Lib.Runs

/-!
# The table of USB storage devices (`src/drivers/usb/usb.c`)

`storage_devs` holds the attached devices in its first `storage_dev_count` entries, and the drive id of a device is
computed from its position. Of a device the model keeps controller and handle, the drive id, and which physical device
it is: every attachment gets a number of its own.
-/

namespace Orion.Usb

open Lib

/-- `USB_DRIVE_BASE` -/
abbrev driveBase : ℕ := 4

/-- `USB_MAX_STORAGE_DEVS` -/
abbrev maxDevs : ℕ := 4

/-- `usb_msc_dev_t` -/
structure Dev where
  hc : ℕ
  dev : ℕ
  drive_id : UInt8
  /-- The physical device. -/
  device : ℕ
deriving DecidableEq

/-- The table of sticks. -/
structure State where
  /-- The first `storage_dev_count` entries of `storage_devs`. -/
  devs : List Dev
  /-- The number of attachments so far. -/
  attached : ℕ

def init : State := ⟨[], 0⟩

def driveId (i : ℕ) : UInt8 := UInt8.ofNat (driveBase + i)

def find_dev_by_drive (s : State) (drive : UInt8) : Option Dev := s.devs.find? fun d => d.drive_id = drive

/-- The end of `usb_enumerate_default` for a storage device; `capacity` tells whether the device answers
`READ_CAPACITY`. -/
def attach (s : State) (hc dev : ℕ) (capacity : Bool) : State :=
  if s.devs.length ≥ maxDevs then s
  else if !capacity then s
  else ⟨s.devs ++ [⟨hc, dev, driveId s.devs.length, s.attached⟩], s.attached + 1⟩

/-- An entry stands for the device `dev` of the controller `hc`. -/
def Dev.is (hc dev : ℕ) (d : Dev) : Bool := d.hc = hc ∧ d.dev = dev

/-- The entry at `i` is overwritten with the last one, which gets the drive id of its new position. -/
def removeAt (devs : List Dev) (i : ℕ) (x : Dev) : List Dev :=
  if i ≠ devs.length - 1 then (devs.set i { x with drive_id := driveId i }).dropLast else devs.dropLast

/-- The loop of `usb_storage_drop_device` from the position `i` on. -/
def dropLoop (p : Dev → Bool) : ℕ → ℕ → List Dev → List Dev
  | 0, _, devs => devs
  | n + 1, i, devs =>
    match devs[i]?, devs.getLast? with
    | some d, some x => if p d then dropLoop p n i (removeAt devs i x) else dropLoop p n (i + 1) devs
    | _, _ => devs

/-- The entries of the device are taken out and the rest moves up. -/
def usb_storage_drop_device (s : State) (hc dev : ℕ) : State :=
  { s with devs := dropLoop (Dev.is hc dev) s.devs.length 0 s.devs }

def usb_storage_reset (s : State) : State := { s with devs := [] }

/-- Attachments and removals. The removal of a controller is a sequence of removals of its devices. -/
inductive Op where
  | attach (hc dev : ℕ) (capacity : Bool)
  | drop (hc dev : ℕ)
  | reset

def step (s : State) : Op → State
  | .attach hc dev capacity => attach s hc dev capacity
  | .drop hc dev => usb_storage_drop_device s hc dev
  | .reset => usb_storage_reset s

/-- No drive id is given twice. -/
def DistinctIds (s : State) : Prop := (s.devs.map Dev.drive_id).Nodup

/-- A device that is attached in both states has one drive id, and in the second state this id leads to
it. -/
def KeepsIds (s s' : State) : Prop :=
  ∀ d ∈ s.devs, ∀ d' ∈ s'.devs, d.device = d'.device →
    d'.drive_id = d.drive_id ∧ find_dev_by_drive s' d.drive_id = some d'

/-- In every state of the run the drive ids are distinct, and devices that are attached at two moments have the same id
at both. -/
def StableIds (ops : List Op) : Prop :=
  ∀ pre mid, pre ++ mid <+: ops →
    DistinctIds (exec step init pre) ∧ KeepsIds (exec step init pre) (exec step init (pre ++ mid))

/-- The operation moves an entry that stays. -/
def Moves (s : State) : Op → Prop
  | .drop hc dev => ¬ s.devs.filter (fun d => !Dev.is hc dev d) <+: s.devs
  | _ => False

end Orion.Usb
