import Orion.Lib.BoundedStack
import Orion.Syscall.Mounted

/-!
# The paths of `normalize_path` (`kernel/cmd.c`)

What the function is for is a rule on the components of a path, without stacks and buffers. What it works on are
pieces: it cuts a component of more than 63 bytes.
-/

namespace Orion.Syscall

open Lib Fat

/-! ## The lexical normal form -/

/-- What a component does to the path so far. -/
def componentEffect (part : Path) : Effect :=
  if part = [] ∨ part = [dot] then .skip else if part = [dot, dot] then .back else .put

def components (path : Path) : List Path := path.splitOn slash

/-- The components as an absolute path. -/
def absolute (parts : List Path) : Path := if parts = [] then [slash] else parts.flatMap (slash :: ·)

/-- The path, taken relative to `cwd` if it does not start at the root. -/
def fromRoot (cwd path : Path) : Path := if path.head? = some slash then path else cwd ++ slash :: path

/-- Without empty components and ".", and with each ".." gone together with the component before it, if there is one. -/
def lexicalForm (path : Path) : Path := absolute (left componentEffect (components path))

/-- No component is empty, "." or "..". -/
def Names (parts : List Path) : Prop := ∀ part ∈ parts, slash ∉ part ∧ part ≠ [] ∧ part ≠ [dot] ∧ part ≠ [dot, dot]

/-- The root, or a path from it without trailing slash and without empty, "." and ".." components. -/
def Canonical (path : Path) : Prop := ∃ parts, Names parts ∧ path = absolute parts

/-! ## Pieces -/

/-- A row of the stack: from which text it is, from which of its components, and its bytes. -/
structure Piece where
  ofCwd : Bool
  component : ℕ
  text : Path
deriving DecidableEq

/-- The loops that fill the rows, like `partsFrom`, with the number of the component. -/
def piecesFrom (ofCwd : Bool) : ℕ → Path → Path → List Piece
  | i, [], cur => if cur = [] then [] else [⟨ofCwd, i, cur⟩]
  | i, c :: s, cur =>
    if c = slash then (if cur = [] then [] else [⟨ofCwd, i, cur⟩]) ++ piecesFrom ofCwd (i + 1) s []
    else if cur.length = 62 then ⟨ofCwd, i, cur ++ [c]⟩ :: piecesFrom ofCwd i s []
    else piecesFrom ofCwd i s (cur ++ [c])

/-- The pieces of `cwd` are not looked at. -/
def Piece.effect (p : Piece) : Effect := if p.ofCwd then .put else componentEffect p.text

def cwdPieces (cwd path : Path) : List Piece := if path.head? = some slash then [] else piecesFrom true 0 cwd []

/-- The rows that are put together, as long as the loop over `cwd` keeps to the stack. -/
def rows (cwd path : Path) : List Piece :=
  (piecesFrom false 0 path []).foldl (stackStep Piece.effect 64) (cwdPieces cwd path)

/-- No two rows come from one component. -/
def Unsplit (ps : List Piece) : Prop := (ps.map fun p => (p.ofCwd, p.component)).Nodup

/-- `normalize_path` keeps to its stack and to the buffer of its caller, and makes two components of none. -/
structure StaysInside (cwd path : Path) : Prop where
  buffers : (normalize_path cwd path).isSome = true
  unsplit : Unsplit (rows cwd path)

/-- The pieces that no ".." takes back; a piece that comes when there are 64 of them is lost. -/
def keptPieces (cwd path : Path) : List Piece :=
  left Piece.effect ((piecesFrom false 0 path []).foldl (accept Piece.effect 64) (cwdPieces cwd path))

/-- At most 64 pieces are of `cwd`, the pieces that are kept, but for the last, leave room for a slash, and no two of
them come from one component. -/
structure PiecesFit (cwd path : Path) : Prop where
  depth : (cwdPieces cwd path).length ≤ 64
  room : ((keptPieces cwd path).dropLast.map fun p => p.text.length + 1).sum ≤ 254
  unsplit : Unsplit (keptPieces cwd path)

end Orion.Syscall
