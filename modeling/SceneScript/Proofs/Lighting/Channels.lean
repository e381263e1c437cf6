import SceneScript.Lighting
import SceneScript.Proofs.Binary64.Integers

/-!
# Channels do not mix

What a scene and a profile hold of one channel is five numbers (`Channel.share`). These, the normal,
the view and the place of the lamp make that channel of the shaded color, by one formula for all
three (`Lighting.ofColor_shade_eq`). So two scenes that have their share of a channel in common, and
the directions, show the same there, whatever else is in them.

The directions reach a channel only as factors of its light. Where there is none they are without
effect, even where they are no directions at all: what is multiplied by zero is zero or undefined,
and either is read as zero (`Lighting.litTerm_zero`). Then the light from everywhere is alone
(`Lighting.shadeChannel_unlit`).
-/

namespace SceneScript

/-- A channel of a color. -/
inductive Channel where
  | red
  | green
  | blue
deriving Repr, DecidableEq

/-- What a scene and a profile hold of one channel: the light from everywhere, that of the lamp, and
the three coefficients. -/
structure ChannelShare where
  ambient : UInt8
  light : UInt8
  ka : Float
  kd : Float
  ks : Float
deriving Repr, DecidableEq

namespace Channel

/-- The value of a color in a channel. -/
def ofColor : Channel → Color → UInt8
  | red, c => c.red
  | green, c => c.green
  | blue, c => c.blue

/-- The coordinate of a vector that belongs to a channel. -/
def ofVec {α : Type} : Channel → Vec3 α → α
  | red, v => v.x
  | green, v => v.y
  | blue, v => v.z

/-- The share of a channel in a scene and a profile. -/
def share (i : Channel) (l : Lighting) (k : Reflectance) : ChannelShare :=
  ⟨i.ofColor l.ambient, i.ofColor l.light.color, i.ofVec k.ambient, i.ofVec k.diffuse,
    i.ofVec k.specular⟩

end Channel

/-- The byte nearest to a whole number is that number brought into the range of a byte. -/
theorem Color.toNat_channel (c : Int) : ((channel c).toNat : Int) = max 0 (min 255 c) := by
  have hbyte : min c.toNat maximum.toNat < UInt8.size := by
    change min c.toNat 255 < 256
    omega
  rw [channel, UInt8.toNat_ofNat_of_lt' hbyte]
  change ((min c.toNat 255 : Nat) : Int) = _
  omega

namespace Lighting

open Binary64

/-! ## One channel -/

/-- The light from everywhere that is given back in a channel. -/
def unlitTerm (c : ChannelShare) : Int := toInt (Float.ofNat c.ambient.toNat * c.ka)

/-- The light of a lamp that is given back in a channel, in the proportion `k` and as strong as the
directions make it. -/
def litTerm (light : UInt8) (k strength : Float) : Int :=
  toInt (Float.ofNat light.toNat * k * strength)

/-- A channel of the shaded color, from its share and the directions alone. -/
def shadeChannel (c : ChannelShare) (normal view location : Vec3 Float) : UInt8 :=
  let n := normal.normalize
  let scattered := litTerm c.light c.kd (facing n location)
  let mirrored := litTerm c.light c.ks (mirrored n location view)
  Color.channel (boundedSum (boundedSum (unlitTerm c) scattered) mirrored)

/-- All channels are shaded by the same formula. -/
theorem ofColor_shade_eq (i : Channel) (l : Lighting) (normal : Vec3 Float) (k : Reflectance) :
    i.ofColor (l.shade normal k) = shadeChannel (i.share l k) normal l.view l.light.location := by
  cases i <;> rfl

/-! ## Channels without light -/

/-- Where a lamp has no light none is given back, whatever the coefficient and the directions. -/
theorem litTerm_zero (k strength : Float) : litTerm 0 k strength = 0 := by
  have hzero : IsNull (Float.ofNat (0 : UInt8).toNat) := .zero .positive (by rfl)
  exact (IsNull.mul (.inl (.mul (.inl hzero)))).toInt_eq

/-- Adding nothing does not change which byte is nearest. -/
theorem channel_boundedSum_zero (a : Int) :
    Color.channel (boundedSum (boundedSum a 0) 0) = Color.channel a := by
  rw [← UInt8.toNat_inj, ← Int.natCast_inj, Color.toNat_channel, Color.toNat_channel, boundedSum,
    boundedSum, minInt, maxInt]
  omega

/-- A channel without light shows the light from everywhere alone. -/
theorem shadeChannel_unlit {c : ChannelShare} (h : c.light = 0)
    (normal view location : Vec3 Float) :
    shadeChannel c normal view location = Color.channel (unlitTerm c) := by
  rw [shadeChannel, h, litTerm_zero, litTerm_zero, channel_boundedSum_zero]

/-- Each channel of a shaded color comes from its share and the directions by one formula, so it is
the same for any two shares of any two channels that are equal, as long as the directions are. And a
channel in which the lamp has no light is the light from everywhere times its coefficient, cut to a
whole number and brought into the range of a byte, for all directions and coefficients. -/
theorem shade_by_channel :
    (∀ (i : Channel) (l : Lighting) (normal : Vec3 Float) (k : Reflectance),
      i.ofColor (l.shade normal k) = shadeChannel (i.share l k) normal l.view l.light.location) ∧
    (∀ (i j : Channel) (l l' : Lighting) (normal : Vec3 Float) (k k' : Reflectance),
      i.share l k = j.share l' k' → l.view = l'.view → l.light.location = l'.light.location →
        i.ofColor (l.shade normal k) = j.ofColor (l'.shade normal k')) ∧
    ∀ (i : Channel) (l : Lighting) (normal : Vec3 Float) (k : Reflectance),
      i.ofColor l.light.color = 0 → ((i.ofColor (l.shade normal k)).toNat : Int) =
        max 0 (min 255 (toInt (Float.ofNat (i.ofColor l.ambient).toNat * i.ofVec k.ambient))) := by
  refine ⟨ofColor_shade_eq, fun i j l l' normal k k' hshare hview hlocation => ?_,
    fun i l normal k hlight => ?_⟩
  · rw [ofColor_shade_eq, ofColor_shade_eq, hshare, hview, hlocation]
  · rw [ofColor_shade_eq, shadeChannel_unlit hlight, Color.toNat_channel]
    rfl

/-- A surface without a direction, lit by a lamp that has neither a direction nor any red. Its red
is that of the light from everywhere, and the same as the blue of another surface in another
light. -/
theorem shade_by_channel_undefined :
    let nan := Float.ofBits 0x7ff8000000000000
    let infinity := Float.ofBits 0x7ff0000000000000
    let zero : Vec3 Float := ⟨0.0, 0.0, 0.0⟩
    let l : Lighting := ⟨⟨200, 10, 20⟩, ⟨zero, ⟨0, 90, 80⟩⟩, ⟨nan, infinity, 0.0⟩, .standard⟩
    let l' : Lighting := ⟨⟨30, 40, 200⟩, ⟨zero, ⟨70, 60, 0⟩⟩, ⟨nan, infinity, 0.0⟩, .standard⟩
    let k : Reflectance := ⟨⟨0.75, 1.0, nan⟩, ⟨infinity, 0.5, 0.5⟩, ⟨nan, 0.25, 0.25⟩⟩
    let k' : Reflectance := ⟨⟨0.5, nan, 0.75⟩, ⟨0.5, 0.5, infinity⟩, ⟨infinity, 1.0, nan⟩⟩
    Channel.red.share l k = Channel.blue.share l' k' ∧ Channel.red.ofColor l.light.color = 0 ∧
      (l.shade zero k).red = (l'.shade zero k').blue ∧
      ((l.shade zero k).red.toNat : Int) = 150 := by
  intro nan infinity zero l l' k k'
  obtain ⟨-, htwo, hunlit⟩ := shade_by_channel
  have hred := hunlit .red l zero k rfl
  refine ⟨rfl, rfl, htwo .red .blue l l' zero k k' rfl rfl rfl, hred.trans ?_⟩
  decide +kernel

end Lighting

end SceneScript
