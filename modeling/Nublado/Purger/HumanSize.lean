import Nublado.Foundations.Numbers

/-!
# Human-readable sizes

`_validate_human_size_bytes`, which turns texts such as `2.37 MB` into a number of bytes.

* A final `B` is removed, and what is left is an integer, or a number with one of the suffixes of
  `multMap`, which are tried in order.
* The arithmetic is exact; see `FloatValue`. An infinite number cannot be converted to an integer, which
  is not a `ValueError`.
-/

namespace Nublado.Purger

/-! ### Conversion to integers -/

/-- Exceptions of the conversion. -/
inductive SizeError
  | valueError (message : String)
  | overflowError (message : String)
  deriving DecidableEq

/-- The integer that is left when the digits after the point are removed. -/
@[grind =] def truncate (x : ℚ) : ℤ := if 0 ≤ x then ⌊x⌋ else ⌈x⌉

/-- `int(x)` of a `float` -/
@[grind =] def intOfFloat : FloatValue → Except SizeError ℤ
  | .finite x => .ok (truncate x)
  | .infinite _ => .error (.overflowError "cannot convert float infinity to integer")
  | .nan => .error (.valueError "cannot convert float NaN to integer")

/-- `x * multiplier` -/
@[grind =] def scaleFloat (multiplier : ℕ) : FloatValue → FloatValue
  | .finite x => .finite (x * multiplier)
  | .infinite negative => .infinite negative
  | .nan => .nan

/-- `x + 0.5` -/
@[grind =] def plusHalf : FloatValue → FloatValue
  | .finite x => .finite (x + 1 / 2)
  | .infinite negative => .infinite negative
  | .nan => .nan

/-! ### Suffixes -/

/-- Intermediate results of the conversion. -/
structure MantissaAndMultiplier where
  mantissa : List Char
  multiplier : ℕ
  deriving DecidableEq

/-- The suffixes, in the order in which they are tried. -/
def multMap : List (String × ℕ) :=
  [("k", 10 ^ 3), ("K", 10 ^ 3), ("M", 10 ^ 6), ("G", 10 ^ 9), ("T", 10 ^ 12), ("P", 10 ^ 15),
    ("E", 10 ^ 18), ("ki", 2 ^ 10), ("Ki", 2 ^ 10), ("Mi", 2 ^ 20), ("Gi", 2 ^ 30), ("Ti", 2 ^ 40),
    ("Pi", 2 ^ 50), ("Ei", 2 ^ 60)]

/-- Take off the suffix. -/
@[grind =] def extractBaseAndMultFromString (v : List Char) : MantissaAndMultiplier :=
  match multMap.find? fun s ↦ s.1.toList <:+ v with
  | some (s, mult) => ⟨strip (v.take (v.length - s.toList.length)), mult⟩
  | none => ⟨strip v, 1⟩

/-- Take off whitespace and a final `B`. -/
@[grind =] def removeByte (v : List Char) : List Char :=
  let v := strip v
  if ['B'] <:+ v ∨ ['b'] <:+ v then strip v.dropLast else v

/-! ### Validation -/

/-- What is validated. -/
inductive SizeInput
  | int (v : ℤ)
  | float (v : FloatValue)
  | text (v : String)

/-- The product as an integer: rounded, unless the multiplier is a multiple of ten. -/
@[grind =] def convert (mam : MantissaAndMultiplier) : Except SizeError ℤ := do
  match floatOf mam.mantissa with
  | none => .error (.valueError "could not convert string to float")
  | some n_v =>
    let m_v := scaleFloat mam.multiplier n_v
    let m_v ← if mam.multiplier % 10 ≠ 0 then
        (intOfFloat (plusHalf m_v)).map fun n ↦ FloatValue.finite n
      else .ok m_v
    let n ← intOfFloat m_v
    if m_v ≠ .finite n then .error (.valueError "") else .ok n

/-- Parse an input indicating a number of bytes into an integer. -/
@[grind =] def validateHumanSizeBytes : SizeInput → Except SizeError ℤ
  | .int v => .ok v
  | .float v => do
    let n ← intOfFloat v
    if v = .finite n then .ok n else .error (.valueError "Could not convert {v} to integer")
  | .text v =>
    match intOf (removeByte v.toList) with
    | some n => .ok n
    | none =>
      match convert (extractBaseAndMultFromString (removeByte v.toList)) with
      -- The text of the error is replaced.
      | .error (.valueError _) => .error (.valueError s!"Could not convert '{v}' to integer")
      | result => result

end Nublado.Purger
