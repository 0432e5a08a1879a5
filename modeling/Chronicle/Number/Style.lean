import Chronicle.Number.Shortest

/-!
# Written forms of numbers

The formats in which a floating-point number is written: as a plain text, in a dump, and in JSON. All
three write the shortest digits that read back and differ only in where they change to an exponent
and how they mark a whole number.
-/

namespace Chronicle

namespace Number

/-- The decisions a format takes about the digits of a number. -/
structure Style where
  /-- The leading digit's least exponent that is written without an exponent, if there is one. -/
  leastPositional : Option Int
  /-- The leading digit's greatest exponent that is written without an exponent, if there is one. -/
  greatestPositional : Option Int
  /-- Whether a whole number keeps one fraction digit. -/
  marksWhole : Bool
  /-- Whether an exponent that is not negative carries a plus sign. -/
  signsExponent : Bool

namespace Style

/-- Plain texts never use an exponent. -/
def plain : Style := ⟨none, none, false, false⟩

/-- Dumps use an exponent from `1e16` and below `1e-4`, and mark whole numbers. -/
def dump : Style := ⟨some (-4), some 15, true, false⟩

/-- JSON uses a signed exponent from `1e+16` and below `1e-5`, and marks whole numbers. -/
def json : Style := ⟨some (-5), some 15, true, true⟩

/-- Whether a decimal whose leading digit has this exponent is written without an exponent. -/
def isPositional (style : Style) (exponent : Int) : Bool :=
  style.leastPositional.all (· ≤ exponent) && style.greatestPositional.all (exponent ≤ ·)

/-- Digits with a point among them, as the exponent demands. -/
def positional (style : Style) (digits : List Char) (exponent : Int) : List Char :=
  if 0 ≤ exponent then
    digits ++ List.replicate exponent.toNat '0' ++ (if style.marksWhole then ['.', '0'] else [])
  else
    let fraction := (-exponent).toNat
    if fraction < digits.length then
      digits.take (digits.length - fraction) ++ '.' :: digits.drop (digits.length - fraction)
    else '0' :: '.' :: (List.replicate (fraction - digits.length) '0' ++ digits)

/-- Digits with a point after the first and an exponent. -/
def scientific (style : Style) (digits : List Char) (exponent : Int) : List Char :=
  let lead :=
    match digits with
    | [] => []
    | [d] => [d]
    | d :: rest => d :: '.' :: rest
  let sign :=
    if exponent < 0 then ['-'] else if style.signsExponent then ['+'] else []
  lead ++ 'e' :: sign ++ Nat.toDigits 10 exponent.natAbs

/-- A decimal in a style. -/
def write (style : Style) (x : Decimal) : List Char :=
  if style.isPositional x.scientificExponent then style.positional x.numeral x.exponent
  else style.scientific x.numeral x.scientificExponent

end Style

namespace Double

/-- A number in a style, with the digits that tell it apart within a layout. -/
def format (style : Style) (layout : Layout) (x : Double) : String :=
  match x.read with
  | .nan => "NaN"
  | .infinite negative => if negative then "-inf" else "inf"
  | .finite negative magnitude =>
    let (num, den) := magnitude.ratio
    let digits :=
      match Magnitude.ofRatio? layout num den with
      | some narrowed => narrowed.shortest layout
      | none => magnitude.shortest .double
    String.ofList ((if negative then ['-'] else []) ++ style.write digits)

/-- The plain text of a number. -/
def text (x : Double) : String :=
  x.format .plain .double

end Double

end Number

end Chronicle
