import Orion.Space.UserStack

/-!
# The stack that a program starts with is never right

Whenever `setup_user_stack` succeeds, the second word at the stack pointer is the kernel's address of the array, which
the program cannot use.
-/

namespace Orion.Space

open Proc Lib List
open UInt32 (toNat_ofNat' toNat_add lt_iff_toNat_lt toNat_sub_of_le le_iff_toNat_le)

variable {s : UserStack} {args : Args} {base sp sp' : UInt32} {argv : List (List UInt8)} {stack stack' : Bytes}
  {addrs addrs' : List UInt32} {args_alloc : Bool}

/-- The loop over the arguments moves the stack pointer down by their lengths, if there is room for them. -/
theorem pushArgs_eq (hbase : base.toNat ≤ sp.toNat) (hsp : sp.toNat ≤ 0xBFF00000)
    (hsmall : (argv.map fun arg => arg.length + 1).sum ≤ 0x40000000) :
    (pushArgs base argv sp stack addrs).map (fun r => r.1.toNat) =
      if base.toNat + (argv.map fun arg => arg.length + 1).sum ≤ sp.toNat then
        some (sp.toNat - (argv.map fun arg => arg.length + 1).sum) else none := by
  induction argv generalizing sp stack addrs with
  | nil => simp [pushArgs, hbase]
  | cons arg argv ih =>
    rw [map_cons, sum_cons] at hsmall ⊢
    generalize (argv.map fun arg => arg.length + 1).sum = total at ih hsmall ⊢
    have hlen : (UInt32.ofNat (arg.length + 1)).toNat = arg.length + 1 := by
      rw [toNat_ofNat', Nat.mod_eq_of_lt (by omega)]
    have hsum : (base + UInt32.ofNat (arg.length + 1)).toNat = base.toNat + (arg.length + 1) := by
      rw [toNat_add, hlen, Nat.mod_eq_of_lt (by omega)]
    unfold pushArgs
    by_cases hlow : sp < base + UInt32.ofNat (arg.length + 1)
    · rw [if_pos hlow]
      rw [lt_iff_toNat_lt, hsum] at hlow
      rw [if_neg (by omega)]
      rfl
    · rw [if_neg hlow]
      rw [lt_iff_toNat_lt, hsum] at hlow
      have hdiff : (sp - UInt32.ofNat (arg.length + 1)).toNat = sp.toNat - (arg.length + 1) := by
        rw [toNat_sub_of_le _ _ (by rw [le_iff_toNat_le, hlen]; omega), hlen]
      rw [if_neg (by rw [lt_iff_toNat_lt, hdiff]; omega), ih (by omega) (by omega) (by omega), hdiff]
      by_cases hroom : base.toNat + (arg.length + 1 + total) ≤ sp.toNat
      · rw [if_pos hroom, if_pos (by omega), Nat.sub_sub]
      · rw [if_neg hroom, if_neg (by omega)]

/-- The array and the header are put if there is room for both. The word for the array is an address of the alias. -/
theorem putHeader_spec {kern : UInt32} {argc : ℕ} (hbase : base.toNat ≤ sp.toNat) (hsp : sp.toNat ≤ 0xBFF00000)
    (hargc : 4 * (argc + 1) ≤ 0x40000000) :
    (∀ sp' stack', putHeader base kern argc sp stack addrs = some (sp', stack') →
      base.toNat + 4 * (argc + 1) + 8 ≤ sp.toNat / 4 * 4 ∧
        ∃ off : UInt32, off.toNat ≤ sp.toNat - base.toNat ∧ stack'.get32 ((sp' - base).toNat + 4) = kern + off) ∧
    (putHeader base kern argc sp stack addrs = none → sp.toNat / 4 * 4 < base.toNat + 4 * (argc + 1) + 8) := by
  have hround : (sp &&& ~~~3).toNat = 4 * (sp.toNat / 4) := toNat_and_not_pred (a := 4) (k := 2) rfl sp
  have hbytes : (UInt32.ofNat (argc + 1) * 4).toNat = 4 * (argc + 1) := by
    rw [UInt32.toNat_mul, toNat_ofNat']
    change (argc + 1) % 2 ^ 32 * 4 % 2 ^ 32 = _
    omega
  unfold putHeader
  generalize sp &&& ~~~3 = p at hround ⊢
  generalize UInt32.ofNat (argc + 1) * 4 = bytes at hbytes ⊢
  have hsum : (base + bytes).toNat = base.toNat + 4 * (argc + 1) := by
    rw [toNat_add, hbytes, Nat.mod_eq_of_lt (by omega)]
  have height : (base + 8).toNat = base.toNat + 8 := by
    rw [toNat_add]
    exact Nat.mod_eq_of_lt (by change base.toNat + 8 < _; omega)
  by_cases harray : p < base + bytes
  · rw [if_pos harray]
    rw [lt_iff_toNat_lt, hsum] at harray
    exact ⟨fun _ _ h => (nomatch h), fun _ => by omega⟩
  rw [if_neg harray]
  rw [lt_iff_toNat_lt, hsum] at harray
  have hq : (p - bytes).toNat = p.toNat - 4 * (argc + 1) := by
    rw [toNat_sub_of_le _ _ (by rw [le_iff_toNat_le]; omega), hbytes]
  rw [if_neg (by rw [lt_iff_toNat_lt]; omega)]
  generalize p - bytes = q at hq ⊢
  by_cases hheader : q < base + 8
  · rw [if_pos hheader]
    rw [lt_iff_toNat_lt, height] at hheader
    exact ⟨fun _ _ h => (nomatch h), fun _ => by omega⟩
  rw [if_neg hheader]
  rw [lt_iff_toNat_lt, height] at hheader
  have height' : (8 : UInt32).toNat = 8 := rfl
  rw [if_neg (by
    rw [lt_iff_toNat_lt, toNat_sub_of_le _ _ (by rw [le_iff_toNat_le]; omega)]
    omega)]
  refine ⟨fun sp' stack' h => ?_, fun h => (nomatch h)⟩
  obtain ⟨rfl, rfl⟩ := Prod.mk.inj (Option.some.inj h)
  refine ⟨by omega, q - base, ?_, Bytes.get32_put32 _ _ _⟩
  rw [toNat_sub_of_le _ _ (by rw [le_iff_toNat_le]; omega)]
  omega

theorem UserStack.toNat_base (s : UserStack) : s.base.toNat = 0xBFF00000 - s.size.toNat := by
  have habove := s.above
  have hroom := s.room
  exact toNat_sub_of_le _ _ (by rw [le_iff_toNat_le]; change _ ≤ 0xBFF00000; omega)

/-- The stub is at its place right below `USER_STACK_TOP`, whatever the size. -/
theorem setupUserStack_eq (s : UserStack) (argv : List (List UInt8)) (args_alloc : Bool) :
    ∃ (stub : UInt32) (stack : Bytes), stub.toNat = 0xBFEFFFF0 ∧ setupUserStack s.base s.size s.kern argv args_alloc =
        if stub < s.base then none else if argv ≠ [] && !args_alloc then none else
          (pushArgs s.base argv.reverse stub stack []).bind fun r =>
            putHeader s.base s.kern argv.length r.1 r.2.1 r.2.2 := by
  have hstub : ((s.base + s.size - 16) &&& ~~~0xF).toNat = 0xBFEFFFF0 := by
    rw [UserStack.base, UInt32.sub_add_cancel]
    rfl
  unfold setupUserStack
  generalize (s.base + s.size - 16) &&& ~~~0xF = stub at hstub ⊢
  refine ⟨stub, Bytes.splice (fun _ => 0) (stub - s.base).toNat user_exit_stub.length (Bytes.ofList user_exit_stub),
    hstub, ?_⟩
  dsimp only
  generalize pushArgs s.base argv.reverse stub _ _ = pushed
  cases pushed with
  | none => rw [Option.bind_none]
  | some r => rw [Option.bind_some]

/-- The setup succeeds exactly if the layout fits and the array was allocated; the program is given an address of the
alias. -/
theorem setupUserStack_spec (s : UserStack) (args : Args) (args_alloc : Bool) :
    (∀ sp stack, setupUserStack s.base s.size s.kern args.argv args_alloc = some (sp, stack) →
      Fits s args ∧ Allocated args args_alloc ∧ s.kern.toNat ≤ (stack.get32 (s.at sp + 4)).toNat) ∧
    (setupUserStack s.base s.size s.kern args.argv args_alloc = none → ¬Fits s args ∨ ¬Allocated args args_alloc) := by
  have hsmall := args.small
  have hroom := s.room
  have hbase := s.toNat_base
  obtain ⟨stub, stack, hstub, heq⟩ := setupUserStack_eq s args.argv args_alloc
  rw [heq]
  unfold Fits Args.bytes
  split
  · rename_i hlow
    rw [lt_iff_toNat_lt] at hlow
    exact ⟨fun _ _ h => (nomatch h), fun _ => .inl (by omega)⟩
  rename_i hlow
  rw [lt_iff_toNat_lt] at hlow
  split
  · rename_i halloc
    refine ⟨fun _ _ h => (nomatch h), fun _ => .inr ?_⟩
    simpa [Allocated] using halloc
  rename_i halloc
  have hallocated : Allocated args args_alloc := by
    simpa [Allocated, imp_iff_not_or] using halloc
  have hpush : (pushArgs s.base args.argv.reverse stub stack []).map _ = _ :=
    pushArgs_eq (by omega) (by omega) (by rw [map_reverse, sum_reverse]; omega)
  rw [map_reverse, sum_reverse] at hpush
  generalize (args.argv.map fun arg => arg.length + 1).sum = total at hsmall hpush ⊢
  rcases hr : pushArgs s.base args.argv.reverse stub stack [] with _ | r
  · rw [hr] at hpush
    refine ⟨fun _ _ h => (nomatch h), fun _ => .inl ?_⟩
    split at hpush
    · cases hpush
    · omega
  rw [hr] at hpush
  split at hpush
  · have hsp : r.1.toNat = stub.toNat - total := Option.some.inj hpush
    have hput : (∀ sp' stack', putHeader s.base s.kern args.argv.length r.1 r.2.1 r.2.2 = some (sp', stack') → _) ∧ _ :=
      putHeader_spec (by omega) (by omega) (by omega)
    rw [Option.bind_some]
    refine ⟨fun sp' stack' h => ?_, fun h => .inl ?_⟩
    · obtain ⟨hfits, off, hoff, hword⟩ := hput.1 sp' stack' h
      refine ⟨by omega, hallocated, ?_⟩
      rw [UserStack.at, hword, toNat_add, Nat.mod_eq_of_lt (by omega)]
      omega
    · have hshort := hput.2 h
      omega
  · cases hpush

/-- If the setup succeeds, the address of the array is in the kernel's alias, outside the stack of the program. -/
theorem not_stackOk (hfits : Fits s args) (halloc : Allocated args args_alloc) : ¬StackOk s args args_alloc := by
  intro hok
  obtain ⟨hsome, hnone⟩ := setupUserStack_spec s args args_alloc
  rcases hsetup : setupUserStack s.base s.size s.kern args.argv args_alloc with _ | r
  · rcases hnone hsetup with hnot | hnot
    · exact hnot hfits
    · exact hnot halloc
  obtain ⟨array, texts, hstart⟩ := hok.success r.1 r.2 hsetup
  obtain ⟨-, -, hword⟩ := hsome r.1 r.2 hsetup
  rw [hstart.argv] at hword
  have hinside := hstart.laidOut.inside (array.toNat, 4 * (args.argv.length + 1)) (by simp)
  have hbase := s.toNat_base
  have habove := s.above
  have hroom := s.room
  omega

/-- The stack is right only when there is none. -/
theorem stack_ok_iff (s : UserStack) (args : Args) (args_alloc : Bool) :
    StackOk s args args_alloc ↔ ¬(Fits s args ∧ Allocated args args_alloc) := by
  constructor
  · rintro hok ⟨hfits, halloc⟩
    exact not_stackOk hfits halloc hok
  intro hnot
  obtain ⟨hsome, hnone⟩ := setupUserStack_spec s args args_alloc
  refine ⟨fun sp stack hsetup => absurd ?_ hnot, hnone⟩
  obtain ⟨hfits, halloc, -⟩ := hsome sp stack hsetup
  exact ⟨hfits, halloc⟩

theorem stack_of_one_argument :
    ¬StackOk ⟨PROC_STACK_SIZE, 0xC1000000, by decide, by decide⟩ ⟨[[0x61]], by decide⟩ true := by
  refine not_stackOk ?_ (.inr rfl)
  show 16 + (Args.bytes _ + 3) / 4 * 4 + 4 * (1 + 1) + 8 ≤ 16384
  decide

end Orion.Space
