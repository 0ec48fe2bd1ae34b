import Mathlib.Data.Rat.Defs
import Mathlib.Algebra.Order.Ring.Unbundled.Rat
import ManInTheBox.Emulator.Callback

/-! # Colours and styles

The attributes a cell is drawn with, and the sequence `CSI m` that sets them. A
component of a colour is the exact fraction that the program rounds to a float.
-/

namespace ManInTheBox.Emulator

structure Color where
  r : ℚ
  g : ℚ
  b : ℚ
  deriving DecidableEq

namespace Color

def fromRgb (r g b : ℚ) : Color := ⟨r, g, b⟩

def BLACK : Color := fromRgb 0 0 0

def WHITE : Color := fromRgb 1 1 1

/-- A component of the colour cube. -/
def cube (level : ℕ) : ℚ := if level = 0 then 0 else (level * 40 + 55) / 255

def color256 (index : UInt16) : Color :=
  match index with
  | 0 => BLACK
  | 1 => fromRgb 0.8 0 0
  | 2 => fromRgb 0 0.8 0
  | 3 => fromRgb 0.8 0.8 0
  | 4 => fromRgb 0 0 0.8
  | 5 => fromRgb 0.8 0 0.8
  | 6 => fromRgb 0 0.8 0.8
  | 7 => fromRgb 0.75 0.75 0.75
  | 8 => fromRgb 0.5 0.5 0.5
  | 9 => fromRgb 1 0 0
  | 10 => fromRgb 0 1 0
  | 11 => fromRgb 1 1 0
  | 12 => fromRgb 0 0 1
  | 13 => fromRgb 1 0 1
  | 14 => fromRgb 0 1 1
  | 15 => WHITE
  | _ =>
    if index ≤ 231 then
      let n := index.toNat - 16
      fromRgb (cube (n / 36 % 6)) (cube (n / 6 % 6)) (cube (n % 6))
    else if index ≤ 255 then
      let gray : ℚ := ((index.toNat - 232) * 10 + 8 : ℕ) / 255
      fromRgb gray gray gray
    else WHITE

def colorTrue (r g b : UInt16) : Color :=
  fromRgb (min r.toNat 255 / 255) (min g.toNat 255 / 255) (min b.toNat 255 / 255)

end Color

structure Style where
  fgColor : Color
  bgColor : Option Color
  bold : Bool
  italic : Bool
  deriving DecidableEq

namespace Style

open Color

def default : Style := ⟨WHITE, none, false, false⟩

/-- One value of `CSI m` that stands for itself. -/
def set (style : Style) (value : UInt16) : Style :=
  match value with
  | 0 => default
  | 1 => { style with bold := true }
  | 3 => { style with italic := true }
  | 22 => { style with bold := false }
  | 23 => { style with italic := false }
  | 30 => { style with fgColor := BLACK }
  | 31 => { style with fgColor := fromRgb 0.8 0.2 0.2 }
  | 32 => { style with fgColor := fromRgb 0.2 0.8 0.2 }
  | 33 => { style with fgColor := fromRgb 0.8 0.8 0.2 }
  | 34 => { style with fgColor := fromRgb 0.2 0.2 0.8 }
  | 35 => { style with fgColor := fromRgb 0.8 0.2 0.8 }
  | 36 => { style with fgColor := fromRgb 0.2 0.8 0.8 }
  | 37 => { style with fgColor := WHITE }
  | 39 => { style with fgColor := WHITE }
  | 40 => { style with bgColor := some BLACK }
  | 41 => { style with bgColor := some (fromRgb 0.8 0.2 0.2) }
  | 42 => { style with bgColor := some (fromRgb 0.2 0.8 0.2) }
  | 43 => { style with bgColor := some (fromRgb 0.8 0.8 0.2) }
  | 44 => { style with bgColor := some (fromRgb 0.2 0.2 0.8) }
  | 45 => { style with bgColor := some (fromRgb 0.8 0.2 0.8) }
  | 46 => { style with bgColor := some (fromRgb 0.2 0.8 0.8) }
  | 47 => { style with bgColor := some WHITE }
  | 49 => { style with bgColor := none }
  | 90 => { style with fgColor := fromRgb 0.5 0.5 0.5 }
  | 91 => { style with fgColor := fromRgb 1 0.3 0.3 }
  | 92 => { style with fgColor := fromRgb 0.3 1 0.3 }
  | 93 => { style with fgColor := fromRgb 1 1 0.3 }
  | 94 => { style with fgColor := fromRgb 0.3 0.3 1 }
  | 95 => { style with fgColor := fromRgb 1 0.3 1 }
  | 96 => { style with fgColor := fromRgb 0.3 1 1 }
  | 97 => { style with fgColor := WHITE }
  | 100 => { style with bgColor := some (fromRgb 0.5 0.5 0.5) }
  | 101 => { style with bgColor := some (fromRgb 1 0.3 0.3) }
  | 102 => { style with bgColor := some (fromRgb 0.3 1 0.3) }
  | 103 => { style with bgColor := some (fromRgb 1 1 0.3) }
  | 104 => { style with bgColor := some (fromRgb 0.3 0.3 1) }
  | 105 => { style with bgColor := some (fromRgb 1 0.3 1) }
  | 106 => { style with bgColor := some (fromRgb 0.3 1 1) }
  | 107 => { style with bgColor := some WHITE }
  | _ => style

/-- The loop over the values; a 38 or 48 takes the values of its colour with it if they are there,
and is skipped alone otherwise. -/
def setAll (style : Style) : List UInt16 → Style
  | [] => style
  | 38 :: 5 :: index :: values => setAll { style with fgColor := color256 index } values
  | 38 :: 2 :: r :: g :: b :: values => setAll { style with fgColor := colorTrue r g b } values
  | 48 :: 5 :: index :: values => setAll { style with bgColor := some (color256 index) } values
  | 48 :: 2 :: r :: g :: b :: values =>
    setAll { style with bgColor := some (colorTrue r g b) } values
  | value :: values => setAll (style.set value) values

/-- `CSI m`: the parts of all parameters in a row, and no parameters at all for a reset. -/
def select (style : Style) (params : Params) : Style :=
  let values := params.flatten
  if values.isEmpty then default else style.setAll values

end Style

end ManInTheBox.Emulator
