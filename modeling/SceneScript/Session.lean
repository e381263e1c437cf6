import SceneScript.Config
import SceneScript.CoordinateStack
import SceneScript.Output.Sink
import SceneScript.Raster.Line
import SceneScript.Raster.Surface
import SceneScript.Script.Reader
import SceneScript.Shape.Box
import SceneScript.Shape.Curve
import SceneScript.Shape.Mesh

/-!
# Sessions

A session carries operations out one after the other: it keeps the coordinate systems, the picture
under way, and the state of the sink that pictures go to. Every shape is made in its own space, as
the points of its edges or of its polygons. These are gathered, placed by the coordinate system on
top, drawn and let go of, so that nothing of a shape is kept but what the picture shows.

An operation that fails leaves the coordinate systems and the picture as they were, and a run goes
on behind it. A script runs as it is read, one command at a time, and only a stream that fails to
deliver ends it early.
-/

namespace SceneScript

/-- A session part way through. -/
structure Session (σ : Type) where
  config : Config
  stack : CoordinateStack
  framebuffer : Framebuffer
  /-- The points gathered for a curve, two to an edge. -/
  edges : List (Vec3 Float)
  /-- The points gathered for a solid, three to a triangle. -/
  polygons : List (Vec3 Float)
  /-- The state of the sink. -/
  delivered : σ
deriving DecidableEq

/-- Why an operation or a run failed. -/
inductive SessionError where
  | stack (error : StackError)
  | output (error : OutputError)
  | script (error : ScriptError)
deriving Repr, DecidableEq

/-- The error in words. -/
def SessionError.message (e : SessionError) : String :=
  String.ofList <|
    match e with
    | stack e => "stack error: ".toList ++ e.message.toList
    | output e => "output error: ".toList ++ e.message.toList
    | script e => "script error: ".toList ++ e.message.toList

/-- What became of the operations of a run. -/
structure Tally where
  /-- The operations that were carried out. -/
  executed : Nat
  /-- The operations that failed, and the commands that could not be read. -/
  failed : Nat
deriving Repr, DecidableEq

namespace Tally

/-- The summary of no operations. -/
def zero : Tally := ⟨0, 0⟩

/-- Nothing failed. -/
def isClean (s : Tally) : Bool := s.failed = 0

/-- One more operation that was carried out, or failed. -/
def count {ε β : Type} (s : Tally) : Except ε β → Tally
  | .ok _ => { s with executed := s.executed + 1 }
  | .error _ => { s with failed := s.failed + 1 }

end Tally

namespace Session

variable {σ : Type}

/-- A session at its start. -/
def new (config : Config) (delivered : σ) : Session σ where
  config := config
  stack := .new
  framebuffer := .new config.width config.height config.background
  edges := []
  polygons := []
  delivered := delivered

/-! ## Single operations -/

/-- Change the top coordinate system. -/
def compose (m : Matrix) (s : Session σ) : Session σ := { s with stack := s.stack.compose m }

/-- Place and draw the polygons that are gathered, and let go of them. -/
def flushPolygons (profile : Option Reflectance) (s : Session σ) : Session σ :=
  let lighting := s.config.lighting
  let placed := s.polygons.map s.stack.top.point
  { s with
    framebuffer := (s.framebuffer.drawSurface lighting (profile.getD lighting.reflectance)
      (Triangle.ofPoints placed)).1
    polygons := [] }

/-- Place and draw the edges that are gathered, and let go of them. -/
def flushEdges (s : Session σ) : Session σ :=
  let placed := s.edges.map s.stack.top.point
  { s with
    framebuffer := s.framebuffer.drawEdges s.config.foreground (Edge.ofPoints placed)
    edges := [] }

/-- Gather the polygons of a solid and draw them. -/
def drawSolid (profile : Option Reflectance) (ts : List (Triangle (Vec3 Float)))
    (s : Session σ) : Session σ :=
  flushPolygons profile { s with polygons := s.polygons ++ Triangle.points ts }

/-- Gather the edges of a curve and draw them. -/
def drawCurve (es : List (Edge (Vec3 Float))) (s : Session σ) : Session σ :=
  flushEdges { s with edges := s.edges ++ Edge.points es }

/-- Close the top coordinate system. -/
def pop (s : Session σ) : Except SessionError Unit × Session σ :=
  match s.stack.pop with
  | .error e => (.error (.stack e), s)
  | .ok (_, stack) => (.ok (), { s with stack := stack })

/-- Deliver the picture. -/
def deliver (sink : Sink σ) (destination : Destination) (s : Session σ) :
    Except SessionError Unit × Session σ :=
  let (result, delivered) := sink.deliver s.framebuffer destination s.delivered
  (result.mapError .output, { s with delivered := delivered })

/-- Carry out one operation. A definition has no effect of its own: whoever made the operation has
put the profile into the solids already. -/
def execute (sink : Sink σ) (op : Operation) (s : Session σ) :
    Except SessionError Unit × Session σ :=
  let steps := s.config.tessellation
  match op with
  | .push => (.ok (), { s with stack := s.stack.push })
  | .pop => s.pop
  | .move offset => (.ok (), s.compose (.translation offset))
  | .rotate axis degrees => (.ok (), s.compose (.rotation axis degrees))
  | .scale factors => (.ok (), s.compose (.scaling factors))
  | .box corner size k => (.ok (), s.drawSolid k (Shape.box corner size))
  | .sphere center radius k => (.ok (), s.drawSolid k (Shape.sphere center radius steps.sphere))
  | .torus center minor major k =>
    (.ok (), s.drawSolid k (Shape.torus center minor major steps.torus))
  | .circle center radius => (.ok (), s.drawCurve (Shape.circle center radius steps.curve))
  | .hermite p0 p1 r0 r1 => (.ok (), s.drawCurve (Shape.hermite p0 p1 r0 r1 steps.curve))
  | .bezier p0 p1 p2 p3 => (.ok (), s.drawCurve (Shape.bezier p0 p1 p2 p3 steps.curve))
  | .line p0 p1 => (.ok (), s.drawCurve [⟨p0, p1⟩])
  | .clear => (.ok (), { s with framebuffer := s.framebuffer.clear })
  | .save path => s.deliver sink (.file path)
  | .display => s.deliver sink .display
  | .constants .. => (.ok (), s)

/-! ## Runs -/

/-- Carry out one more operation of a run. -/
def advance (sink : Sink σ) (run : Tally × Session σ) (op : Operation) :
    Tally × Session σ :=
  let (result, s) := execute sink op run.2
  (run.1.count result, s)

/-- Carry out operations, going on behind those that fail. -/
def executeAll (sink : Sink σ) (ops : List Operation) (s : Session σ) :
    Tally × Session σ :=
  ops.foldl (advance sink) (.zero, s)

/-- Carry out the items of a script from a given summary on. -/
def executeItems (sink : Sink σ) : List Item → Tally × Session σ →
    Except SessionError Tally × Session σ
  | [], (summary, s) => (.ok summary, s)
  | .ok op :: items, run => executeItems sink items (advance sink run op)
  | .error e :: items, (summary, s) =>
    if e.isRecoverable then
      executeItems sink items ({ summary with failed := summary.failed + 1 }, s)
    else (.error (.script e), s)

/-- Carry out a script as it is read. -/
def executeScript (sink : Sink σ) (reader : Reader) (s : Session σ) :
    Except SessionError Tally × Session σ :=
  executeItems sink reader.items (.zero, s)

end Session

end SceneScript
