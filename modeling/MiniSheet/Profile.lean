import MiniSheet.Number.Double
import MiniSheet.Text.Basic

/-!
# Devices

A profile is what rendering has to know of a device; metrics are the readings it is made from, any
of which may be missing. A device-relative length is scaled by the width of the screen and cut down
to whole pixels. What is cut down to nothing becomes a hairline of one pixel on coarse screens and
on one platform, and vanishes elsewhere.
-/

namespace MiniSheet

/-- How a device is held. -/
inductive Orientation where
  /-- upright -/
  | portrait
  /-- sideways -/
  | landscape
  deriving Repr, DecidableEq, Inhabited

/-- Readings of a device. -/
structure Metrics where
  /-- the name of the platform -/
  platform : Option Text := none
  /-- the width of the screen -/
  screenWidth : Option Float := none
  /-- the height of the screen -/
  screenHeight : Option Float := none
  /-- device pixels for each pixel -/
  pixelRatio : Option Float := none
  /-- how it is held -/
  orientation : Orientation := .portrait
  deriving Repr

/-- What rendering has to know of a device. -/
structure Profile where
  /-- the name of the platform -/
  platform : Text
  /-- the width that lengths are scaled to -/
  width : Float
  /-- the height -/
  height : Float
  /-- device pixels for each pixel -/
  pixelRatio : Float
  deriving Repr

namespace Profile

/-- The width, in `rpx`, that all devices are scaled from unless a package says otherwise. -/
def referenceWidth : Float := 750

/-- What is added before a length is cut down, so that a whole number of pixels stays whole. -/
def tolerance : Float := 1e-4

/-- The profile of a device. Held sideways, its width is the reading of its height. -/
def ofMetrics (metrics : Metrics) : Profile :=
  let height := metrics.screenHeight.getD 375
  { platform := metrics.platform.getD "android".toList
    width :=
      match metrics.orientation with
      | .portrait => metrics.screenWidth.getD 375
      | .landscape => height
    height
    pixelRatio := metrics.pixelRatio.getD 2 }

/-- Whether the platform is the one that always shows hairlines. -/
def isIos (profile : Profile) : Bool := profile.platform == "ios".toList

/-- Whether a length that is cut down to nothing shows as one pixel. -/
def showsHairlines (profile : Profile) : Bool := profile.pixelRatio == 1.0 || profile.isIos

/-- A length in whole pixels, given the width in `rpx` that devices are scaled from. -/
def resolve (profile : Profile) (reference raw : Float) : Int :=
  if raw == 0.0 then 0
  else
    let pixels := (Double.ofFloat (raw / reference * profile.width + tolerance)).floorWord
    if pixels = 0 then if profile.showsHairlines then 1 else 0 else pixels

end Profile

end MiniSheet
