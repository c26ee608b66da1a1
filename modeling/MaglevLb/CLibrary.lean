import MaglevLb.Bytes
import MaglevLb.HealthChecker

/-!
# C library functions that read the command line

`strtol`, `inet_pton` for IPv4 and GNU `getopt_long`, on byte strings without their
terminating zero.
-/
namespace MaglevLb.CLibrary

open Bytes (le32)
open HealthChecker (isSpace isDigit decimal)

abbrev CText := List UInt8

/-- The bytes of an ASCII literal. -/
def ascii (s : String) : CText := s.toList.map Char.toUInt8

/-! ### Numbers -/

def splitSign : CText → Bool × CText
  | 43 :: rest => (false, rest)
  | 45 :: rest => (true, rest)
  | rest => (false, rest)

theorem splitSign_cons {c : UInt8} (hplus : c ≠ 43) (hminus : c ≠ 45) (t : CText) :
    splitSign (c :: t) = (false, c :: t) := by
  unfold splitSign
  split
  · next heq => exact absurd (List.cons.inj heq).1 hplus
  · next heq => exact absurd (List.cons.inj heq).1 hminus
  · rfl

def longMax : ℤ := 9223372036854775807

def longMin : ℤ := -9223372036854775808

/-- `strtol` to base ten: the value, and where it stops reading. Without a number it stops at
the start. -/
def strtol (s : CText) : ℤ × CText :=
  let signed := splitSign (s.dropWhile isSpace)
  let digits := signed.2.takeWhile isDigit
  if digits = [] then (0, s)
  else
    let v : ℤ := if signed.1 then -(decimal digits : ℤ) else decimal digits
    (max longMin (min v longMax), signed.2.drop digits.length)

theorem strtol_le (s : CText) : (strtol s).1 ≤ longMax := by
  unfold strtol
  dsimp only
  split
  · exact (show (0 : ℤ) ≤ longMax by decide)
  · exact max_le (by decide) (min_le_right _ _)

/-! ### Addresses -/

/-- A number from 0 to 255, without leading zeros. -/
def octet (s : CText) : Option UInt8 :=
  if s ≠ [] ∧ s.all isDigit ∧ (s.head? = some 48 → s.length = 1) ∧ decimal s ≤ 255 then
    some (UInt8.ofNat (decimal s))
  else none

/-- `inet_pton(AF_INET, …)`: the address as it lies in memory. -/
def inetPton (s : CText) : Option UInt32 :=
  match (s.splitOn 46).mapM octet with
  | some [a, b, c, d] => some (le32 a b c d)
  | _ => none

/-! ### Options -/

section Getopt

variable {φ ν : Type*}

/-- What one call of `getopt_long` returns: an option without argument, one with its
argument, or `?`. -/
inductive Item (φ ν : Type*) where
  | flag (f : φ)
  | valued (o : ν) (optarg : CText)
  | unknown

/-- The option of a name: an exact match, or all that the name abbreviates if they are one. -/
def findLong [DecidableEq φ] [DecidableEq ν] (longOpts : List (CText × (φ ⊕ ν))) (name : CText) :
    Option (φ ⊕ ν) :=
  match longOpts.lookup name with
  | some o => some o
  | none =>
      match longOpts.filter fun e => name.isPrefixOf e.1 with
      | [] => none
      | e :: es => if es.all fun e' => e'.2 = e.2 then some e.2 else none

/-- The letters behind a dash. The second component is the option whose argument is the next
element. -/
def scanShort (shortOpts : List (UInt8 × (φ ⊕ ν))) : CText → List (Item φ ν) × Option ν
  | [] => ([], none)
  | c :: cs =>
      match shortOpts.lookup c with
      | none =>
          let r := scanShort shortOpts cs
          (.unknown :: r.1, r.2)
      | some (.inl f) =>
          let r := scanShort shortOpts cs
          (.flag f :: r.1, r.2)
      | some (.inr o) => if cs = [] then ([], some o) else ([.valued o cs], none)

/-- Everything `getopt_long` returns for the elements behind the program's name. Elements that
are no options are passed over, unless `posixlyCorrect` makes the first of them the end. -/
def getoptLong [DecidableEq φ] [DecidableEq ν] (longOpts : List (CText × (φ ⊕ ν)))
    (shortOpts : List (UInt8 × (φ ⊕ ν))) (posixlyCorrect : Bool) :
    List CText → List (Item φ ν)
  | [] => []
  | arg :: args =>
      match arg with
      | 45 :: 45 :: [] => []
      | 45 :: 45 :: body =>
          let name := body.takeWhile (· ≠ 61)
          match findLong longOpts name, body.dropWhile (· ≠ 61) with
          | none, _ => .unknown :: getoptLong longOpts shortOpts posixlyCorrect args
          | some (.inl f), [] => .flag f :: getoptLong longOpts shortOpts posixlyCorrect args
          | some (.inl _), _ :: _ => .unknown :: getoptLong longOpts shortOpts posixlyCorrect args
          | some (.inr o), _ :: optarg =>
              .valued o optarg :: getoptLong longOpts shortOpts posixlyCorrect args
          | some (.inr o), [] =>
              match args with
              | [] => [.unknown]
              | optarg :: args =>
                  .valued o optarg :: getoptLong longOpts shortOpts posixlyCorrect args
      | 45 :: c :: cs =>
          let r := scanShort shortOpts (c :: cs)
          match r.2, args with
          | none, args => r.1 ++ getoptLong longOpts shortOpts posixlyCorrect args
          | some _, [] => r.1 ++ [.unknown]
          | some o, optarg :: args =>
              r.1 ++ .valued o optarg :: getoptLong longOpts shortOpts posixlyCorrect args
      | _ => if posixlyCorrect then [] else getoptLong longOpts shortOpts posixlyCorrect args

end Getopt

end MaglevLb.CLibrary
