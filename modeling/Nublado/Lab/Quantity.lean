import Nublado.Foundations.Numbers
import Nublado.Foundations.Regex
import Nublado.Lab.Models

/-!
# Amounts of resources

What the configuration and requests say of CPU and memory is read from text, or from numbers that are
turned into text first: `cpu_to_cores` and `memory_to_bytes`, the validation of a `ResourceQuantity`, and
the comparison of requests with limits. The text of a floating-point number and the reading of an amount
of memory are the language's and a library's, and are parameters.
-/

namespace Nublado.Lab

/-- What an amount of CPU has to look like. -/
def cpuMessage : String :=
  "CPU must be specified as a whole number of milli-cores, like 500m, or a decimal number with no more " ++
    "than three places of precision, like 1.234"

/-- `^\d+m$` -/
def millicoresRegex : Regex := .many isDecimal 1 true ++ .char 'm' ++ .eol

/-- Convert a Kubernetes CPU resource value to a number of cores. -/
def cpuToCores (cpu : List Char) : Except String FloatValue :=
  -- Specified in milli-cores, without decimals.
  if (millicoresRegex.matchStart cpu).isSome then
    match floatPadded cpu.dropLast with
    | some (.finite x) => .ok (.finite (x / 1000))
    | some x => .ok x
    | none => .error ("could not convert string to float: '" ++ String.ofList cpu.dropLast ++ "'")
  else match floatPadded cpu with
    | none => .error cpuMessage
    | some cores =>
      if '.' ∈ cpu ∧ 3 < (cpu.dropWhile (· ≠ '.')).tail.length then .error cpuMessage
      else .ok cores

/-- What amounts of resources are read with. -/
structure Numerals where
  /-- `str` of a `float` -/
  floatText : ℚ → List Char
  /-- The library's reading of an amount of memory, in bytes. -/
  parseBytes : String → Except String ℤ

/-- The validation of a `ResourceQuantity`: the number of cores and of bytes. -/
def validateQuantity (numerals : Numerals) (cpu : ℚ) (memory : ℤ) :
    Except String (FloatValue × ℤ) := do
  let cpu ← cpuToCores (numerals.floatText cpu)
  let memory ← numerals.parseBytes (toString memory)
  .ok (cpu, memory)

/-- The validation of a `ResourceQuantity` that is given as texts. -/
def validateQuantityText (numerals : Numerals) (cpu memory : String) :
    Except String (FloatValue × ℤ) := do
  let cpu ← cpuToCores cpu.toList
  let memory ← numerals.parseBytes memory
  .ok (cpu, memory)

/-- `x < y` of two `float`s -/
def floatLT : FloatValue → FloatValue → Bool
  | .finite x, .finite y => x < y
  | .finite _, .infinite negative => !negative
  | .infinite negative, .finite _ => negative
  | .infinite negative, .infinite negative' => negative && !negative'
  | .nan, _ | _, .nan => false

/-- The validators of a `LabResources`. -/
def validateResources (limits requests : FloatValue × ℤ) : Except String Unit :=
  if floatLT limits.1 requests.1 then
    .error "requests.cpu must be less than or equal to limits.cpu"
  else if limits.2 < requests.2 then
    .error "requests.memory must be less than or equal to limits.memory"
  else .ok ()

end Nublado.Lab
