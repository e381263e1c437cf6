import SceneScript.Config.Writing
import SceneScript.Main
import SceneScript.Proofs.Bytecode.Accounting
import SceneScript.Proofs.Bytecode.Canonical
import SceneScript.Proofs.Bytecode.Truncation
import SceneScript.Proofs.Bytecode.Wire
import SceneScript.Proofs.CommandLine.Compiling
import SceneScript.Proofs.Framebuffer.Overwriting
import SceneScript.Proofs.Pixmap.Lossless
import SceneScript.Proofs.Raster.Clipping
import SceneScript.Proofs.Raster.Orders
import SceneScript.Proofs.Raster.Stepping
import SceneScript.Proofs.Script.Breaks
import SceneScript.Proofs.Script.Composition
import SceneScript.Proofs.Script.Listing
import SceneScript.Proofs.Script.Padding
import SceneScript.Proofs.Session.Backends
import SceneScript.Proofs.Session.Clearing
import SceneScript.Proofs.Session.Commuting
import SceneScript.Proofs.Session.Deliveries
import SceneScript.Proofs.Session.Failures
import SceneScript.Proofs.Session.Frames
import SceneScript.Proofs.Shape.Points
import SceneScript.Proofs.Binary64.Whole
import SceneScript.Proofs.Raster.Reversal
import SceneScript.Proofs.Raster.Uncut
import SceneScript.Proofs.Framebuffer.EitherEnd
import SceneScript.Proofs.Binary64.Magnitude
import SceneScript.Proofs.Raster.Culling
import SceneScript.Proofs.Config.Requirements
import SceneScript.Proofs.Decimal.Shortest
import SceneScript.Proofs.Json.Strings
import SceneScript.Proofs.Json.Numbers
import SceneScript.Proofs.Json.RoundTrip
import SceneScript.Proofs.Config.Omission
import SceneScript.Proofs.Config.Order
import SceneScript.Proofs.Config.RoundTrip
import SceneScript.Proofs.Shape.Box
import SceneScript.Proofs.Lighting.Saturation
import SceneScript.Proofs.CommandLine.Disassembly
import SceneScript.Proofs.Script.Definitions
import SceneScript.Proofs.CommandLine.Refusal
