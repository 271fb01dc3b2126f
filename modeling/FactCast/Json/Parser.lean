import FactCast.Json.Value

/-! Reading a JSON text into a document, as `::jsonb` does.

The reader is a recursive descent over characters. A value is bounded by the
number of characters left, which is also the fuel it runs on. A string is first
scanned up to its closing quote, where a backslash takes the next character with
it, and then joined: `\u` escapes name UTF-16 units, and a pair of surrogates is
one character. Control characters, the character zero and lone surrogates are
refused.

Two facts about texts are used elsewhere. A text written around a plain string
(no quote, no backslash, no control character) reads as that string in that
place. And a text is at least as long as the strings of the document it reads
as, so a text with no room to spare was written around a plain string. -/
namespace Json

/-- A character that stands for itself between quotes. -/
def plainChar (c : Char) : Bool := c != '"' && c != '\\' && !decide (c.toNat < 0x20)

/-- A string that can be spliced between quotes as it is. -/
def Plain (s : String) : Prop := s.toList.all plainChar = true

instance : DecidablePred Plain := fun s => inferInstanceAs (Decidable (s.toList.all plainChar = true))

/-! ### Strings -/

/-- What a scanned string is made of: characters, and UTF-16 units from `\u`. -/
inductive Piece where
  | char (c : Char)
  | unit (n : Nat)

def hexDigit (c : Char) : Option Nat :=
  if '0' ≤ c ∧ c ≤ '9' then some (c.toNat - '0'.toNat)
  else if 'a' ≤ c ∧ c ≤ 'f' then some (c.toNat - 'a'.toNat + 10)
  else if 'A' ≤ c ∧ c ≤ 'F' then some (c.toNat - 'A'.toNat + 10)
  else none

def hexUnit (a b c d : Char) : Option Nat := do
  return (((← hexDigit a) * 16 + (← hexDigit b)) * 16 + (← hexDigit c)) * 16 + (← hexDigit d)

/-- What a backslash and one character stand for. -/
def escaped (c : Char) : Option Char :=
  match c with
  | '"' => some '"'
  | '\\' => some '\\'
  | '/' => some '/'
  | 'b' => some '\x08'
  | 'f' => some '\x0c'
  | 'n' => some '\n'
  | 'r' => some '\r'
  | 't' => some '\t'
  | _ => none

/-- One more piece in front. -/
def pieceBefore (p : Piece) (r : Option (List Piece × List Char)) :
    Option (List Piece × List Char) :=
  r.map fun (ps, rest) => (p :: ps, rest)

/-- The pieces up to the closing quote, and the text after it. -/
def scan : List Char → Option (List Piece × List Char)
  | [] => none
  | c :: rest =>
    if c = '"' then some ([], rest)
    else if c = '\\' then
      match rest with
      | 'u' :: h₁ :: h₂ :: h₃ :: h₄ :: rest =>
        (hexUnit h₁ h₂ h₃ h₄).bind fun n => pieceBefore (.unit n) (scan rest)
      | e :: rest => (escaped e).bind fun c => pieceBefore (.char c) (scan rest)
      | [] => none
    else if c.toNat < 0x20 then none
    else pieceBefore (.char c) (scan rest)

def highSurrogate (n : Nat) : Bool := decide (0xD800 ≤ n) && decide (n ≤ 0xDBFF)

def lowSurrogate (n : Nat) : Bool := decide (0xDC00 ≤ n) && decide (n ≤ 0xDFFF)

/-- The characters that pieces stand for. -/
def join : List Piece → Option (List Char)
  | [] => some []
  | .char c :: ps => do return c :: (← join ps)
  | .unit n :: ps =>
    if n = 0 then none
    else if highSurrogate n then
      match ps with
      | .unit m :: ps =>
        if lowSurrogate m then do
          return Char.ofNat (0x10000 + (n - 0xD800) * 0x400 + (m - 0xDC00)) :: (← join ps)
        else none
      | _ => none
    else if lowSurrogate n then none
    else do return Char.ofNat n :: (← join ps)

/-- A string whose opening quote has been read. -/
def string (text : List Char) : Option (String × List Char) := do
  let (ps, rest) ← scan text
  return (String.ofList (← join ps), rest)

/-! ### Numbers and words -/

def isSpace (c : Char) : Bool := c == ' ' || c == '\t' || c == '\n' || c == '\r'

def skip (text : List Char) : List Char := text.dropWhile isSpace

def digits (text : List Char) : List Char × List Char := text.span Char.isDigit

def digitsValue (ds : List Char) : Nat := ds.foldl (fun n d => n * 10 + (d.toNat - '0'.toNat)) 0

/-- The digits before the point: no leading zero. -/
def intPart (text : List Char) : Option (List Char × List Char) :=
  match digits text with
  | ([], _) => none
  | ('0' :: _ :: _, _) => none
  | (ds, rest) => some (ds, rest)

/-- The digits after the point, if there is one. -/
def fracPart : List Char → Option (List Char × List Char)
  | '.' :: rest =>
    match digits rest with
    | ([], _) => none
    | (ds, rest) => some (ds, rest)
  | rest => some ([], rest)

def expDigits (text : List Char) : Option (Nat × List Char) :=
  match digits text with
  | ([], _) => none
  | (ds, rest) => some (digitsValue ds, rest)

/-- The exponent, zero if there is none. -/
def expPart : List Char → Option (Int × List Char)
  | c :: rest =>
    if c = 'e' ∨ c = 'E' then
      match rest with
      | '-' :: rest => (expDigits rest).map fun (n, rest) => (-(n : Int), rest)
      | '+' :: rest => (expDigits rest).map fun (n, rest) => ((n : Int), rest)
      | rest => (expDigits rest).map fun (n, rest) => ((n : Int), rest)
    else some (0, c :: rest)
  | [] => some (0, [])

/-- `mantissa · 10 ^ (exp - scale)` as a decimal. -/
def Numeric.scaled (mantissa : Int) (scale : Nat) (exp : Int) : Numeric :=
  let shift := exp - scale
  if 0 ≤ shift then ⟨mantissa * 10 ^ shift.toNat, 0⟩ else ⟨mantissa, (-shift).toNat⟩

def unsigned (neg : Bool) (text : List Char) : Option (Jsonb × List Char) := do
  let (ip, rest) ← intPart text
  let (fp, rest) ← fracPart rest
  let (exp, rest) ← expPart rest
  let mantissa : Int := digitsValue (ip ++ fp)
  return (.num (Numeric.scaled (if neg then -mantissa else mantissa) fp.length exp), rest)

def number : List Char → Option (Jsonb × List Char)
  | '-' :: rest => unsigned true rest
  | text => unsigned false text

/-- The text after a word, if it begins with it. -/
def word (w text : List Char) : Option (List Char) :=
  if w.isPrefixOf text then some (text.drop w.length) else none

def literal (text : List Char) : Option (Jsonb × List Char) :=
  if let some rest := word "null".toList text then some (.null, rest)
  else if let some rest := word "true".toList text then some (.bool true, rest)
  else if let some rest := word "false".toList text then some (.bool false, rest)
  else number text

/-- A value that is neither string, object nor array. It ends where no letter,
digit or underscore follows. -/
def scalar (text : List Char) : Option (Jsonb × List Char) :=
  (literal text).filter fun r => !r.2.head?.any fun c => c.isAlphanum || c == '_'

/-! ### Values -/

/-- A colon, with spaces around it. -/
def colon (text : List Char) : Option (List Char) :=
  match skip text with
  | ':' :: rest => some (skip rest)
  | _ => none

mutual

/-- A value that begins where the text begins, and the text after it. -/
def value : Nat → List Char → Option (Jsonb × List Char)
  | 0, _ => none
  | _ + 1, [] => none
  | fuel + 1, c :: rest =>
    if c = '"' then (string rest).map fun (s, rest) => (.str s, rest)
    else if c = '{' then
      match skip rest with
      | '}' :: rest => some (.obj [], rest)
      | text => (members fuel text).map fun (ms, rest) => (.obj (Jsonb.lastOfEach ms), rest)
    else if c = '[' then
      match skip rest with
      | ']' :: rest => some (.arr [], rest)
      | text => (elements fuel text).map fun (vs, rest) => (.arr vs, rest)
    else scalar (c :: rest)

/-- The members of an object up to its closing brace. -/
def members : Nat → List Char → Option (List (String × Jsonb) × List Char)
  | 0, _ => none
  | _ + 1, [] => none
  | fuel + 1, c :: rest =>
    if c = '"' then do
      let (name, rest) ← string rest
      let (v, rest) ← value fuel (← colon rest)
      match skip rest with
      | '}' :: rest => return ([(name, v)], rest)
      | ',' :: rest =>
        let (ms, rest) ← members fuel (skip rest)
        return ((name, v) :: ms, rest)
      | _ => none
    else none

/-- The elements of an array up to its closing bracket. -/
def elements : Nat → List Char → Option (List Jsonb × List Char)
  | 0, _ => none
  | fuel + 1, text => do
    let (v, rest) ← value fuel text
    match skip rest with
    | ']' :: rest => return ([v], rest)
    | ',' :: rest =>
      let (vs, rest) ← elements fuel (skip rest)
      return (v :: vs, rest)
    | _ => none

end

/-- The document a text reads as, if it is a JSON text. Every level of a value
spends two of the fuel and at least one character. -/
def parse (text : String) : Option Jsonb :=
  match value (2 * text.toList.length + 1) (skip text.toList) with
  | some (v, rest) => if (skip rest).isEmpty then some v else none
  | none => none

end Json
