import TypeInference.Toml.Value

/-!
# Numbers, booleans and dates

A scalar without quotes is a run of letters, digits and `+ - . : _` (`isTokenChar`); what may follow
it is none of these, so the whole run has to be one scalar. `scalar?` says which one.
-/

namespace TypeInference.Toml

def isTokenChar (c : Char) : Bool :=
  c.isAlphanum || c == '+' || c == '-' || c == '.' || c == ':' || c == '_'

/-! ## Integers -/

/-- The value of a digit in a base of at most sixteen. -/
def digit? (base : Nat) (c : Char) : Option Nat :=
  let n :=
    if c.isDigit then some (c.toNat - '0'.toNat)
    else if 'a' ≤ c && c ≤ 'f' then some (c.toNat - 'a'.toNat + 10)
    else if 'A' ≤ c && c ≤ 'F' then some (c.toNat - 'A'.toNat + 10)
    else none
  n.filter (· < base)

/-- Whether the characters are digits, with single underscores between digits only. -/
def isDigitRun (base : Nat) : List Char → Bool
  | [] => false
  | [c] => (digit? base c).isSome
  | c :: '_' :: cs => (digit? base c).isSome && isDigitRun base cs
  | c :: cs => (digit? base c).isSome && isDigitRun base cs

/-- The number written by digits, underscores passed over. -/
def digitsValue (base : Nat) (cs : List Char) : Nat :=
  cs.foldl (fun n c =>
    match digit? base c with
    | some d => n * base + d
    | none => n) 0

/-- Whether the characters are decimal digits without a needless zero in front. -/
def isDecimal (cs : List Char) : Bool :=
  isDigitRun 10 cs && (cs.length == 1 || cs.head? != some '0')

/-- A sign, if there is one, and what follows. -/
def splitSign : List Char → Bool × List Char
  | '-' :: cs => (true, cs)
  | '+' :: cs => (false, cs)
  | cs => (false, cs)

/-- An integer: decimal with an optional sign, or hexadecimal, octal or binary without. -/
def integerText? : List Char → Option Int
  | '0' :: 'x' :: cs => if isDigitRun 16 cs then some (digitsValue 16 cs) else none
  | '0' :: 'o' :: cs => if isDigitRun 8 cs then some (digitsValue 8 cs) else none
  | '0' :: 'b' :: cs => if isDigitRun 2 cs then some (digitsValue 2 cs) else none
  | cs =>
    let (negative, digits) := splitSign cs
    if isDecimal digits then
      some (if negative then -(digitsValue 10 digits : Int) else digitsValue 10 digits)
    else none

/-- An integer of 64 bits. -/
def integer? (cs : List Char) : Option Int :=
  (integerText? cs).filter fun n => Int64.minValue.toInt ≤ n && n ≤ Int64.maxValue.toInt

/-! ## Floats -/

/-- The parts before and after the first character that `p` holds of. -/
def cut (p : Char → Bool) (cs : List Char) : List Char × Option (List Char) :=
  match cs.dropWhile (!p ·) with
  | [] => (cs, none)
  | _ :: rest => (cs.takeWhile (!p ·), some rest)

/-- Whether `n` times the power of ten rounds to more than the largest double. -/
def exceedsDouble (n : Nat) (exponent : Int) : Bool :=
  let bound := Nat.pow 2 1024 - Nat.pow 2 970
  let magnitude := (toString n).length + exponent
  if n = 0 || magnitude < 300 then false
  else if 320 < magnitude then true
  else if 0 ≤ exponent then bound ≤ n * Nat.pow 10 exponent.toNat
  else bound * Nat.pow 10 (-exponent).toNat ≤ n

/-- A float: a decimal with a fraction, an exponent or both, or one of the special values. A
positive one has to fit a double. -/
def isFloat (cs : List Char) : Bool :=
  let (negative, body) := splitSign cs
  if body == "inf".toList || body == "nan".toList then true
  else
    let (mantissa, exponent) := cut (fun c => c == 'e' || c == 'E') body
    let (whole, fraction) := cut (· == '.') mantissa
    let (down, power) := splitSign (exponent.getD ['0'])
    let digits := fraction.getD []
    let places : Int := (digits.filter (· != '_')).length
    let power10 : Int := if down then -(digitsValue 10 power) else digitsValue 10 power
    (fraction.isSome || exponent.isSome) && isDecimal whole && isDigitRun 10 power &&
      (fraction.isNone || isDigitRun 10 digits) &&
      (negative || !exceedsDouble (digitsValue 10 (whole ++ digits)) (power10 - places))

/-! ## Dates and times -/

/-- A number of two digits up to `most`. -/
def twoDigits? (most : Nat) (a b : Char) : Option Nat := do
  let n := (← digit? 10 a) * 10 + (← digit? 10 b)
  if n ≤ most then some n else none

def daysInMonth (year month : Nat) : Nat :=
  if month = 2 then
    if year % 4 = 0 && (year % 100 ≠ 0 || year % 400 = 0) then 29 else 28
  else if month = 4 || month = 6 || month = 9 || month = 11 then 30
  else 31

/-- What follows a date `YYYY-MM-DD`. -/
def afterDate? : List Char → Option (List Char)
  | a :: b :: c :: d :: '-' :: m :: n :: '-' :: p :: q :: rest => do
    let year := (← twoDigits? 99 a b) * 100 + (← twoDigits? 99 c d)
    let month ← twoDigits? 12 m n
    let day ← twoDigits? 31 p q
    if 1 ≤ month && 1 ≤ day && day ≤ daysInMonth year month then some rest else none
  | _ => none

/-- What follows a time `HH:MM:SS`, with a fraction of the second if one is written. -/
def afterTime? : List Char → Option (List Char)
  | a :: b :: ':' :: c :: d :: ':' :: e :: f :: rest => do
    let _ ← twoDigits? 23 a b
    let _ ← twoDigits? 59 c d
    let _ ← twoDigits? 60 e f
    match rest with
    | '.' :: s :: rest => if s.isDigit then some (rest.dropWhile Char.isDigit) else none
    | '.' :: [] => none
    | rest => some rest
  | _ => none

/-- Nothing, or an offset from universal time. -/
def isOffset : List Char → Bool
  | [] => true
  | ['Z'] | ['z'] => true
  | [s, a, b, ':', c, d] =>
    (s == '+' || s == '-') && (twoDigits? 23 a b).isSome && (twoDigits? 59 c d).isSome
  | _ => false

/-- A time of day that follows a date. -/
def isOffsetTime (cs : List Char) : Bool := (afterTime? cs).any isOffset

def isDate (cs : List Char) : Bool := afterDate? cs == some []

/-- A date, a time, or both joined by `T`. -/
def isDateTime (cs : List Char) : Bool :=
  afterTime? cs == some [] ||
    match afterDate? cs with
    | some [] => true
    | some ('T' :: rest) | some ('t' :: rest) => isOffsetTime rest
    | _ => false

/-! ## Any scalar -/

/-- The scalar that a run of token characters is. -/
def scalar? (cs : List Char) : Option Value :=
  if cs == "true".toList then some (.boolean true)
  else if cs == "false".toList then some (.boolean false)
  else
    match integer? cs with
    | some n => some (.integer n)
    | none =>
      if isFloat cs then some .float
      else if isDateTime cs then some .dateTime
      else none

end TypeInference.Toml
