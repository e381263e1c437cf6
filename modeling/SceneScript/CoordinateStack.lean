import SceneScript.Matrix

/-!
# Nested coordinate systems

Shapes are placed in the coordinate system on top of a stack. Opening a system copies the top one,
and closing it goes back to the one below. A stack is its top and what lies below, so there always
is a system to draw in, and the first one cannot be closed.
-/

namespace SceneScript

/-- Why a stack could not be changed. -/
inductive StackError where
  /-- No system lies below the top one. -/
  | underflow
deriving Repr, DecidableEq

/-- The error in words. -/
def StackError.message : StackError → String
  | underflow => "cannot pop the last coordinate system"

/-- The open coordinate systems. -/
structure CoordinateStack where
  /-- The innermost system. -/
  top : Matrix
  /-- The systems around it, from the inside out. -/
  below : List Matrix
deriving Repr, DecidableEq

namespace CoordinateStack

/-- Only the system that everything is seen in. -/
def new : CoordinateStack := ⟨.identity, []⟩

/-- Open a system that agrees with the top one. -/
def push (s : CoordinateStack) : CoordinateStack := ⟨s.top, s.top :: s.below⟩

/-- Close the top system: it, and the stack without it. -/
def pop (s : CoordinateStack) : Except StackError (Matrix × CoordinateStack) :=
  match s.below with
  | [] => .error .underflow
  | m :: below => .ok (s.top, ⟨m, below⟩)

/-- Change the top system by a transform that happens inside it. -/
def compose (m : Matrix) (s : CoordinateStack) : CoordinateStack := { s with top := s.top * m }

/-- The systems, from the inside out. -/
def frames (s : CoordinateStack) : List Matrix := s.top :: s.below

/-- The number of open systems. -/
def depth (s : CoordinateStack) : Nat := s.frames.length

@[simp] theorem depth_push (s : CoordinateStack) : s.push.depth = s.depth + 1 := rfl

end CoordinateStack

end SceneScript
