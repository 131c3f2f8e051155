import Orion.Lib.Runs

/-!
# Data toggles of the bulk endpoints (`src/drivers/usb/usb.c`, `src/drivers/usb/ehci.c`)

The driver keeps the toggle with which the next transfer of an endpoint starts. `ehci_bulk_transfer` hands it to the
controller in one qTD, which flips it with every packet, and never reads it back. Transfers succeed and have their
full length.
-/

namespace Orion.Usb

open Lib

/-- An endpoint with its data toggle. -/
structure Bulk where
  mps : UInt16
  toggle : UInt8
  /-- The packets since the last reset of the toggle. -/
  packets : ℕ

/-- The packets of a qTD; one without data has an empty packet. -/
def packetsOf (mps len : UInt16) : ℕ := max 1 ((len.toNat + mps.toNat - 1) / mps.toNat)

/-- A transfer of the endpoint: the driver flips the toggle once. -/
def Bulk.transfer (b : Bulk) (len : UInt16) : Bulk where
  mps := b.mps
  toggle := if len > 0 then b.toggle ^^^ 1 else b.toggle
  packets := b.packets + packetsOf b.mps len

def Bulk.reset (b : Bulk) : Bulk := ⟨b.mps, 0, 0⟩

/-- `usb_msc_dev_t` -/
structure MscDev where
  bulk_in : Bulk
  bulk_out : Bulk

def attached (in_mps out_mps : UInt16) : MscDev := ⟨⟨in_mps, 0, 0⟩, ⟨out_mps, 0, 0⟩⟩

def msc_bulk_in (d : MscDev) (len : UInt16) : MscDev := { d with bulk_in := d.bulk_in.transfer len }

def msc_bulk_out (d : MscDev) (len : UInt16) : MscDev := { d with bulk_out := d.bulk_out.transfer len }

def msc_reset_recovery (d : MscDev) : MscDev := ⟨d.bulk_in.reset, d.bulk_out.reset⟩

/-- A transfer or a reset. -/
inductive BulkOp where
  | bulk_in (len : UInt16)
  | bulk_out (len : UInt16)
  | recovery

def bulkStep (d : MscDev) : BulkOp → MscDev
  | .bulk_in len => msc_bulk_in d len
  | .bulk_out len => msc_bulk_out d len
  | .recovery => msc_reset_recovery d

/-- The transfers of a successful attempt of `msc_bot_cmd`: the command block, the data, the status. -/
def msc_bot_cmd (data_in : Bool) (data_len : UInt32) : List BulkOp :=
  [.bulk_out 31] ++ (if data_len > 0 then
    [if data_in then .bulk_in data_len.toUInt16 else .bulk_out data_len.toUInt16] else []) ++ [.bulk_in 13]

/-- The toggle is that of the next packet. -/
def Bulk.Synced (b : Bulk) : Prop := b.toggle = UInt8.ofNat (b.packets % 2)

/-- The toggle that the next transfer gets fits the packets of its endpoint. -/
def MscDev.Synced (d : MscDev) : Prop := d.bulk_in.Synced ∧ d.bulk_out.Synced

/-- The transfer has an odd number of packets. -/
def Bulk.Flips (b : Bulk) (len : UInt16) : Prop := len > 0 ∧ packetsOf b.mps len % 2 = 1

/-- A transfer has data and an odd number of packets. -/
def OddTransfer (d : MscDev) : BulkOp → Prop
  | .bulk_in len => d.bulk_in.Flips len
  | .bulk_out len => d.bulk_out.Flips len
  | .recovery => True

variable {b : Bulk}

theorem packetsOf_zero (mps : UInt16) : packetsOf mps 0 = 1 := by
  have hnone : (0 + mps.toNat - 1) / mps.toNat = 0 := by
    rw [Nat.div_eq_zero_iff]
    omega
  exact congrArg (max 1) hnone

theorem Bulk.Synced.transfer_iff (h : b.Synced) (len : UInt16) : (b.transfer len).Synced ↔ b.Flips len := by
  unfold Bulk.Synced at h
  simp only [Bulk.Synced, Bulk.transfer, Bulk.Flips, h, Nat.add_mod b.packets]
  by_cases hlen : len = 0
  · rcases Nat.mod_two_eq_zero_or_one b.packets with hb | hb <;> simp [hb, hlen, packetsOf_zero]
  · have hpos : len > 0 := UInt16.pos_iff_ne_zero.mpr hlen
    rcases Nat.mod_two_eq_zero_or_one b.packets with hb | hb <;>
      rcases Nat.mod_two_eq_zero_or_one (packetsOf b.mps len) with hp | hp <;> simp [hb, hp, hpos]

theorem MscDev.Synced.step_iff {d : MscDev} (h : d.Synced) (op : BulkOp) :
    (bulkStep d op).Synced ↔ OddTransfer d op := by
  cases op with
  | bulk_in len => exact (and_iff_left h.2).trans (h.1.transfer_iff len)
  | bulk_out len => exact (and_iff_right h.1).trans (h.2.transfer_iff len)
  | recovery => exact iff_of_true ⟨rfl, rfl⟩ trivial

/-- In every state of a run the toggles fit the packets exactly when every transfer has data and an odd number of
packets. -/
theorem toggles_synced_iff (in_mps out_mps : UInt16) (ops : List BulkOp) :
    Throughout bulkStep MscDev.Synced (attached in_mps out_mps) ops ↔
      EachStep bulkStep OddTransfer (attached in_mps out_mps) ops := by
  have h0 : (attached in_mps out_mps).Synced := ⟨rfl, rfl⟩
  refine throughout_iff_eachStep (fun _ h => h) (fun d op h hodd => ?_) (fun d op h hnext => ?_) h0
  · exact (h.step_iff op).mpr hodd
  · exact (h.step_iff op).mp hnext

/-- A command that reads eight sectors in packets of 512 bytes: the status is awaited with the wrong toggle. -/
theorem read_loses_toggle : ¬ Throughout bulkStep MscDev.Synced (attached 512 512) (msc_bot_cmd true 4096) := by
  intro h
  have htoggle : (1 : UInt8) = 0 := h.2.2.head.1
  cases htoggle

end Orion.Usb
