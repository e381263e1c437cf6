/-!
# Reading a file in blocks

A file that is read bit by bit is fetched in blocks of one size, and each only when the bytes of the
one before are used up. What is written to the file in the meantime shows in the blocks that are
fetched later; the bytes fetched before stay what they were.
-/

namespace SceneScript

/-- How far a file has been read. -/
structure FileCursor where
  /-- The bytes that are fetched and not used. -/
  fetched : List UInt8
  /-- Where the next block starts. -/
  offset : Nat
deriving Repr, DecidableEq

namespace FileCursor

/-- The bytes of a block. -/
def blockSize : Nat := 8192

/-- The most bytes that a file may have. -/
def longestFile : Nat := 9223372036854775807

/-- Nothing has been read. -/
def start : FileCursor := ⟨[], 0⟩

/-- The bytes that are still to come from a file that stays as it is. -/
def toCome (c : FileCursor) (file : List UInt8) : List UInt8 := c.fetched ++ file.drop c.offset

/-- How many bytes whole blocks have that hold `n` bytes. -/
def wholeBlocks (n : Nat) : Nat := (n + blockSize - 1) / blockSize * blockSize

/-- The cursor when the next `n` bytes of a file have been used. -/
def use (c : FileCursor) (file : List UInt8) (n : Nat) : FileCursor :=
  if n ≤ c.fetched.length then ⟨c.fetched.drop n, c.offset⟩
  else
    let missing := n - c.fetched.length
    let blocks := (file.drop c.offset).take (wholeBlocks missing)
    ⟨blocks.drop missing, c.offset + blocks.length⟩

end FileCursor

end SceneScript
