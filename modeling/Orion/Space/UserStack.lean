import Orion.Lib.Device
import Orion.Space.Residue

/-!
# The stack that a program starts with

`setup_user_stack` writes through the kernel's alias of the stack, at `stack_kern_base`, what the program will read
at `stack_base`.
-/

namespace Orion.Space

open Proc Lib

/-- A user stack of any size below `USER_STACK_TOP`, with its alias in the kernel's part of the address space. -/
structure UserStack where
  size : UInt32
  kern : UInt32
  above : 0xC0000000 ≤ kern.toNat
  room : kern.toNat + size.toNat ≤ 2 ^ 32

def UserStack.base (s : UserStack) : UInt32 := USER_STACK_TOP - s.size

/-- The place of an address of the user's in the stack. -/
def UserStack.at (s : UserStack) (addr : UInt32) : ℕ := (addr - s.base).toNat

/-- Arguments in the kernel's part of the address space, with the array of pointers to them; a null argument counts as
empty. -/
structure Args where
  argv : List (List UInt8)
  small : 4 * (argv.length + 1) + (argv.map fun arg => arg.length + 1).sum ≤ 0x40000000

def Args.bytes (args : Args) : ℕ := (args.argv.map fun arg => arg.length + 1).sum

/-- The array of the arguments is at `array`, and they are at `texts`. -/
structure StartsWith (s : UserStack) (args : Args) (sp : UInt32) (stack : Bytes) (array : UInt32)
    (texts : List UInt32) : Prop where
  aligned : 4 ∣ sp.toNat
  argc : stack.get32 (s.at sp) = UInt32.ofNat args.argv.length
  argv : stack.get32 (s.at sp + 4) = array
  entries : ∀ i < args.argv.length, stack.get32 (s.at array + 4 * i) = texts.getD i 0
  last : stack.get32 (s.at array + 4 * args.argv.length) = 0
  copies : ∀ i < args.argv.length, stack.slice (s.at (texts.getD i 0)) ((args.argv.getD i []).length + 1) =
    args.argv.getD i [] ++ [0]
  stub : stack.slice (s.at (USER_STACK_TOP - 16)) 11 = user_exit_stub
  laidOut : LaidOut s.base.toNat (s.base.toNat + s.size.toNat)
    (((USER_STACK_TOP - 16).toNat, 11) :: (array.toNat, 4 * (args.argv.length + 1)) :: (sp.toNat, 8) ::
      (texts.zip args.argv).map fun t => (t.1.toNat, t.2.length + 1))

/-- The sixteen bytes of the stub, the arguments up to a multiple of four, the array and the header fit. -/
def Fits (s : UserStack) (args : Args) : Prop :=
  16 + (args.bytes + 3) / 4 * 4 + 4 * (args.argv.length + 1) + 8 ≤ s.size.toNat

/-- `arg_addrs` is not needed or could be allocated. -/
def Allocated (args : Args) (args_alloc : Bool) : Prop := args.argv = [] ∨ args_alloc = true

/-- If the setup succeeds, the program finds its arguments; it fails only if they do not fit or `arg_addrs` cannot be
allocated. -/
structure StackOk (s : UserStack) (args : Args) (args_alloc : Bool) : Prop where
  success : ∀ sp stack, setupUserStack s.base s.size s.kern args.argv args_alloc = some (sp, stack) →
    ∃ array texts, StartsWith s args sp stack array texts
  failure : setupUserStack s.base s.size s.kern args.argv args_alloc = none →
    ¬Fits s args ∨ ¬Allocated args args_alloc

end Orion.Space
