import ScriptVM.Decimal.Shortest

/-!
Decimal texts of binary64 numbers: how they are written and which texts can be read.

Writing takes the fewest digits that read back. Magnitudes from `10 ^ -4` up to but excluding
`10 ^ 16` are positional and always have a point; all others have an exponent.
-/
namespace ScriptVM.Decimal

/-- The digits of a natural number. -/
def digitsOf (n : Nat) : List Char :=
  Nat.toDigits 10 n

/-- The exponents of ten at which magnitudes are written positionally. -/
structure Layout where
  leastPositional : Int
  mostPositional : Int
deriving DecidableEq, Repr

/-- The layout of reals in listings and results. -/
def layout : Layout := ⟨-4, 15⟩

/-- A decimal with a point and no exponent. -/
def positional (digits : List Char) (scale : Int) : List Char :=
  if 0 ≤ scale then digits ++ List.replicate scale.toNat '0' ++ ['.', '0']
  else
    let places := (-scale).toNat
    if places < digits.length then
      digits.take (digits.length - places) ++ '.' :: digits.drop (digits.length - places)
    else '0' :: '.' :: (List.replicate (places - digits.length) '0' ++ digits)

/-- A decimal with one digit before the point and an exponent. -/
def scientific (digits : List Char) (exponent : Int) : List Char :=
  digits.take 1 ++ (if digits.length ≤ 1 then [] else '.' :: digits.drop 1) ++
    'e' :: (toString exponent).toList

/-- A decimal in the form that a layout gives it. -/
def Scaled.format (layout : Layout) (d : Scaled) : List Char :=
  let digits := digitsOf d.digits
  let exponent := d.scale + digits.length - 1
  if layout.leastPositional ≤ exponent ∧ exponent ≤ layout.mostPositional then
    positional digits d.scale
  else scientific digits exponent

/-- A sign before a text, if the number is negative. -/
def signed (negative : Bool) (text : List Char) : String :=
  String.ofList (if negative then '-' :: text else text)

/-- The text of a binary64 number. -/
def render (x : Float) : String :=
  match classify x with
  | .notANumber => "NaN"
  | .infinite negative => signed negative ['i', 'n', 'f']
  | .zero negative => signed negative ['0', '.', '0']
  | .finite negative magnitude => signed negative ((shortest magnitude).format layout)

/-- The value of a digit in bases up to sixteen. -/
def digitValue? (c : Char) : Option Nat :=
  if '0' ≤ c ∧ c ≤ '9' then some (c.toNat - '0'.toNat)
  else if 'a' ≤ c ∧ c ≤ 'f' then some (c.toNat - 'a'.toNat + 10)
  else if 'A' ≤ c ∧ c ≤ 'F' then some (c.toNat - 'A'.toNat + 10)
  else none

/-- The value of a text of digits, after a value read before it. -/
def foldDigits? (base acc : Nat) : List Char → Option Nat
  | [] => some acc
  | c :: rest =>
    match digitValue? c with
    | some d => if d < base then foldDigits? base (acc * base + d) rest else none
    | none => none

/-- The value of a text of at least one digit. -/
def ofDigits? (base : Nat) : List Char → Option Nat
  | [] => none
  | digits => foldDigits? base 0 digits

/-- The sign at the front of a text, and the rest. -/
def takeSign : List Char → Bool × List Char
  | '-' :: rest => (true, rest)
  | '+' :: rest => (false, rest)
  | text => (false, text)

/-- The value of a text of digits after an optional sign. -/
def ofSigned? (base : Nat) (text : List Char) : Option Int :=
  let (negative, digits) := takeSign text
  (ofDigits? base digits).map fun n => if negative then -(n : Int) else n

/-- The binary64 number nearest to a decimal. Magnitudes far outside the range are decided by their
exponent alone. -/
def nearest (d : Scaled) : Float :=
  let places := (digitsOf d.digits).length + d.scale
  if d.digits = 0 ∨ places < -400 then 0
  else if 400 < places then 1 / 0
  else if 0 ≤ d.scale then Float.ofScientific d.digits false d.scale.toNat
  else Float.ofScientific d.digits true (-d.scale).toNat

/-- The exponent of a decimal text: nothing at all, or a mark and a whole number. -/
def exponent? : List Char → Option Int
  | [] => some 0
  | c :: rest => if c = 'e' ∨ c = 'E' then ofSigned? 10 rest else none

/-- A decimal without a sign: digits, an optional point and fraction, an optional exponent. Digits
may be missing before or after the point, but not on both sides. -/
def unsigned? (text : List Char) : Option Scaled :=
  let whole := text.takeWhile Char.isDigit
  let rest := text.dropWhile Char.isDigit
  let (fraction, rest) :=
    match rest with
    | '.' :: after => (after.takeWhile Char.isDigit, after.dropWhile Char.isDigit)
    | _ => ([], rest)
  match ofDigits? 10 (whole ++ fraction), exponent? rest with
  | some digits, some exponent => some ⟨digits, exponent - fraction.length⟩
  | _, _ => none

/-- The number that a text denotes: an optional sign, then a decimal or, in any case, the word for
infinity or for what is no number. -/
def parse? (text : String) : Option Float :=
  let (negative, rest) := takeSign text.toList
  let word := String.ofList (rest.map Char.toLower)
  let magnitude :=
    if word = "inf" ∨ word = "infinity" then some (1 / 0)
    else if word = "nan" then some (0 / 0)
    else (unsigned? rest).map nearest
  magnitude.map fun x => if negative then -x else x

end ScriptVM.Decimal
