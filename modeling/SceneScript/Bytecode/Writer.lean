/-!
# Writers

Where bytes go: a writer takes all of them in one piece, or takes what it can and fails. What has
been written is its state, so that a failed write is seen there too.
-/

namespace SceneScript

/-- A way to write all of some bytes, with the state of what has been written. -/
structure Writer (σ : Type) where
  write : List UInt8 → σ → Except String Unit × σ

/-- A buffer of fixed size: what it holds, and how much room is left. -/
structure FixedBuffer where
  written : List UInt8
  room : Nat
deriving Repr, DecidableEq

namespace Writer

/-- Writing to memory that grows: nothing fails. -/
def growing : Writer (List UInt8) := ⟨fun bytes held => (.ok (), held ++ bytes)⟩

/-- Writing to a buffer of fixed size: what does not fit is left out, and the write fails. -/
def fixed : Writer FixedBuffer :=
  ⟨fun bytes b =>
    (if bytes.length ≤ b.room then .ok () else .error "failed to write whole buffer",
      ⟨b.written ++ bytes.take b.room, b.room - bytes.length⟩)⟩

end Writer

/-- The whole of a buffer, zero where nothing was written. -/
def FixedBuffer.contents (b : FixedBuffer) : List UInt8 := b.written ++ List.replicate b.room 0

end SceneScript
