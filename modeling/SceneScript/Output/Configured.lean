import SceneScript.Config
import SceneScript.Output.Encoder
import SceneScript.Output.External

/-!
# The sink of a configuration

A configuration chooses between the encoder and the programs that it names.
-/

namespace SceneScript

/-- The sink that a configuration chooses. -/
def Delivery.sink (programs : Programs) (o : Delivery) : Sink FileStore :=
  match o.backend with
  | .external => .external programs o.converter o.viewer
  | .native => .encoder

end SceneScript
