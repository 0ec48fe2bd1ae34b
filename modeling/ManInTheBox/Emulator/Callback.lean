import Mathlib.Data.List.Basic

/-! # What the parser of control sequences hands over

Both emulators are performers of the same parser: it cuts the output of the child
into callbacks, and an emulator is a function of the callbacks alone. A parameter
is the list of its colon-separated parts.
-/

namespace ManInTheBox.Emulator

abbrev Bytes := List UInt8

abbrev Params := List (List UInt16)

inductive Callback
  | print (c : Char)
  | execute (byte : UInt8)
  | hook (params : Params) (intermediates : List UInt8) (ignore : Bool) (action : Char)
  | put (byte : UInt8)
  | unhook
  | oscDispatch (params : List (List UInt8)) (bellTerminated : Bool)
  | csiDispatch (params : Params) (intermediates : List UInt8) (ignore : Bool) (action : Char)
  | escDispatch (intermediates : List UInt8) (ignore : Bool) (byte : UInt8)
  deriving DecidableEq

/-- The value of a parameter; one that is missing, empty or zero counts as the default. -/
def paramAt (params : Params) (index : ℕ) (default : UInt16) : ℕ :=
  let value := (params[index]?.bind List.head?).getD default
  if value = 0 then default.toNat else value.toNat

def paramCount (params : Params) (default : UInt16) : ℕ := paramAt params 0 default

theorem paramAt_of_ne_zero {params : Params} {index : ℕ} {value default : UInt16}
    {parts : List UInt16} (h : params[index]? = some (value :: parts)) (hne : value ≠ 0) :
    paramAt params index default = value.toNat := by
  simp [paramAt, h, hne]

/-- `c.is_control()`: the category Cc. -/
def isControl (c : Char) : Bool := c.toNat < 0x20 || (0x7f ≤ c.toNat && c.toNat < 0xa0)

/-- `c.is_ascii()`. -/
def isAscii (c : Char) : Bool := c.toNat < 0x80

end ManInTheBox.Emulator
