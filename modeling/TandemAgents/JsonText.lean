import TandemAgents.ByteFields
import TandemAgents.JsonData

/-!
# JSON as text

`json.dumps` with its default separators and ASCII output, and `json.loads`. Floats stay
texts: how a literal is read and spelled again is a parameter. A surrogate that stands
alone, which a Lean string cannot hold, reads as the replacement character.
-/
namespace JsonText

open ByteFields JsonData

set_option maxRecDepth 20000

/-- What the language does with floats: `repr(float(text))` and `repr(float(text) + 1)`. -/
structure Floats where
  read : String → String
  succ : String → String

/-! ## Strings -/

def codeUnits (c : Char) : List Nat :=
  if c.toNat < 0x10000 then [c.toNat]
  else [0xd800 + (c.toNat - 0x10000) / 1024, 0xdc00 + (c.toNat - 0x10000) % 1024]

/-- `'\\u{0:04x}'.format(unit)`. -/
def unicodeEscape (unit : Nat) : List Char :=
  ['\\', 'u', hexDigit (unit / 4096 % 16), hexDigit (unit / 256 % 16), hexDigit (unit / 16 % 16), hexDigit (unit % 16)]

def escapeChar (c : Char) : List Char :=
  if c = '"' then ['\\', '"']
  else if c = '\\' then ['\\', '\\']
  else if c = '\n' then ['\\', 'n']
  else if c = '\r' then ['\\', 'r']
  else if c = '\t' then ['\\', 't']
  else if c = '\x0c' then ['\\', 'f']
  else if c = '\x08' then ['\\', 'b']
  else if 32 ≤ c.toNat ∧ c.toNat ≤ 126 then [c]
  else (codeUnits c).flatMap unicodeEscape

def encodeString (s : String) : List Char := '"' :: (s.toList.flatMap escapeChar ++ ['"'])

/-- Where in a string the reader stands. -/
inductive Mode where
  | plain
  | escape
  | unicode (missing value : Nat)

inductive Reading where
  | fail
  | close
  | next (mode : Mode) (units : List Nat)

def escaped (c : Char) : Option Nat :=
  if c = '"' ∨ c = '\\' ∨ c = '/' then some c.toNat
  else if c = 'b' then some 8
  else if c = 'f' then some 12
  else if c = 'n' then some 10
  else if c = 'r' then some 13
  else if c = 't' then some 9
  else none

def Mode.step : Mode → Char → Reading
  | .plain, c =>
    if c = '"' then .close
    else if c = '\\' then .next .escape []
    else if c.toNat < 32 then .fail
    else .next .plain [c.toNat]
  | .escape, c =>
    if c = 'u' then .next (.unicode 3 0) []
    else
      match escaped c with
      | some unit => .next .plain [unit]
      | none => .fail
  | .unicode missing value, c =>
    match hexValue c, missing with
    | none, _ => .fail
    | some digit, 0 => .next .plain [16 * value + digit]
    | some digit, missing + 1 => .next (.unicode missing (16 * value + digit)) []

/-- The code units of a string up to its closing quote, and what stands behind it. -/
def scanString : Mode → List Char → Option (List Nat × List Char)
  | _, [] => none
  | mode, c :: cs =>
    match mode.step c with
    | .fail => none
    | .close => some ([], cs)
    | .next mode units => (scanString mode cs).map (fun r => (units ++ r.1, r.2))

def isHigh (unit : Nat) : Bool := 0xd800 ≤ unit && unit ≤ 0xdbff

def isLow (unit : Nat) : Bool := 0xdc00 ≤ unit && unit ≤ 0xdfff

def unitChar (unit : Nat) : Char := if isHigh unit || isLow unit then '\ufffd' else Char.ofNat unit

/-- Two surrogates in a row are one character. -/
def joinUnits : List Nat → List Char
  | [] => []
  | [unit] => [unitChar unit]
  | unit :: other :: units =>
    if isHigh unit && isLow other then
      Char.ofNat (0x10000 + (unit - 0xd800) * 1024 + (other - 0xdc00)) :: joinUnits units
    else unitChar unit :: joinUnits (other :: units)

def readString (cs : List Char) : Option (String × List Char) :=
  (scanString .plain cs).map (fun r => (String.ofList (joinUnits r.1), r.2))

/-! ## Numbers and literals -/

/-- The characters that numbers and literals are spelled with. -/
def atomChar (c : Char) : Bool := c.isDigit || "+-.aefilnrstuyEIN".toList.contains c

def isDigits (s : List Char) : Bool := !s.isEmpty && s.all Char.isDigit

def readNat (s : List Char) : Option Nat :=
  if isDigits s ∧ (s.head? = some '0' → s.length = 1) then some (Nat.ofDigitChars 10 s 0) else none

def readInt (s : List Char) : Option Int :=
  if s.head? = some '-' then (readNat s.tail).map (fun n : Nat => -(n : Int)) else (readNat s).map Int.ofNat

def isExponent (s : List Char) : Bool :=
  (s.head? = some 'e' || s.head? = some 'E') &&
    isDigits (if s.tail.head? = some '+' ∨ s.tail.head? = some '-' then s.tail.tail else s.tail)

/-- A number with a fraction, an exponent or both. -/
def isFloat (s : List Char) : Bool :=
  let whole := s.takeWhile (fun c => c.isDigit || c = '-')
  let rest := s.drop whole.length
  (readInt whole).isSome &&
    if rest.head? = some '.' then
      !(rest.tail.takeWhile Char.isDigit).isEmpty &&
        ((rest.tail.dropWhile Char.isDigit).isEmpty || isExponent (rest.tail.dropWhile Char.isDigit))
    else isExponent rest

variable (floats : Floats)

def readAtom (s : List Char) : Option Json :=
  if s = "null".toList then some .null
  else if s = "true".toList then some (.bool true)
  else if s = "false".toList then some (.bool false)
  else if s = "NaN".toList then some (.float "nan")
  else if s = "Infinity".toList then some (.float "inf")
  else if s = "-Infinity".toList then some (.float "-inf")
  else
    match readInt s with
    | some n => some (.int n)
    | none => if isFloat s then some (.float (floats.read (String.ofList s))) else none

def spellFloat (text : String) : List Char :=
  if text = "nan" then "NaN".toList
  else if text = "inf" then "Infinity".toList
  else if text = "-inf" then "-Infinity".toList
  else text.toList

/-! ## `json.dumps` -/

mutual

def dumps : Json → List Char
  | .null => "null".toList
  | .bool true => "true".toList
  | .bool false => "false".toList
  | .int n => (toString n).toList
  | .float text => spellFloat text
  | .str s => encodeString s
  | .arr [] => ['[', ']']
  | .arr (v :: items) => '[' :: (dumps v ++ dumpsItems items ++ [']'])
  | .obj [] => ['{', '}']
  | .obj ((k, v) :: fields) => '{' :: (encodeString k ++ [':', ' '] ++ dumps v ++ dumpsFields fields ++ ['}'])

def dumpsItems : List Json → List Char
  | [] => []
  | v :: items => [',', ' '] ++ dumps v ++ dumpsItems items

def dumpsFields : List (String × Json) → List Char
  | [] => []
  | (k, v) :: fields => [',', ' '] ++ encodeString k ++ [':', ' '] ++ dumps v ++ dumpsFields fields

end

/-! ## `json.loads` -/

def isBlank (c : Char) : Bool := c = ' ' || c = '\t' || c = '\n' || c = '\r'

def skipBlanks (cs : List Char) : List Char := cs.dropWhile isBlank

def expect (c : Char) : List Char → Option (List Char)
  | [] => none
  | d :: cs => if d = c then some cs else none

mutual

/-- `scan_once`; a number or a literal ends where none of its characters follows. -/
def value : Nat → List Char → Option (Json × List Char)
  | 0, _ => none
  | _ + 1, [] => none
  | fuel + 1, c :: cs =>
    if c = '"' then (readString cs).map (fun r => (.str r.1, r.2))
    else if c = '{' then
      match expect '}' (skipBlanks cs) with
      | some rest => some (.obj [], rest)
      | none => (members fuel [] (skipBlanks cs)).map (fun r => (.obj r.1, r.2))
    else if c = '[' then
      match expect ']' (skipBlanks cs) with
      | some rest => some (.arr [], rest)
      | none => (elements fuel (skipBlanks cs)).map (fun r => (.arr r.1, r.2))
    else (readAtom floats ((c :: cs).takeWhile atomChar)).map (fun v => (v, (c :: cs).dropWhile atomChar))

/-- The fields up to the closing brace; a key that comes again replaces its value. -/
def members : Nat → Dict → List Char → Option (Dict × List Char)
  | 0, _, _ => none
  | fuel + 1, d, cs => do
    let cs ← expect '"' cs
    let (key, cs) ← readString cs
    let cs ← expect ':' (skipBlanks cs)
    let (v, cs) ← value fuel (skipBlanks cs)
    match expect '}' (skipBlanks cs) with
    | some rest => some (d.set key v, rest)
    | none =>
      let cs ← expect ',' (skipBlanks cs)
      members fuel (d.set key v) (skipBlanks cs)

/-- The items up to the closing bracket. -/
def elements : Nat → List Char → Option (List Json × List Char)
  | 0, _ => none
  | fuel + 1, cs => do
    let (v, cs) ← value fuel cs
    match expect ']' (skipBlanks cs) with
    | some rest => some ([v], rest)
    | none =>
      let cs ← expect ',' (skipBlanks cs)
      (elements fuel (skipBlanks cs)).map (fun r => (v :: r.1, r.2))

end

/-- `json.loads(text)`; nothing where it raises. -/
def loads (text : List Char) : Option Json :=
  match value floats (text.length + 1) (skipBlanks text) with
  | none => none
  | some (v, rest) => if skipBlanks rest = [] then some v else none

/-- What a value has to satisfy for its text to say it all: keys differ, and a float is
spelled the way `repr` spells it. -/
inductive Valid : Json → Prop where
  | null : Valid .null
  | bool (b : Bool) : Valid (.bool b)
  | int (n : Int) : Valid (.int n)
  | float {text : String} (hchars : ∀ c ∈ spellFloat text, atomChar c = true)
      (hread : readAtom floats (spellFloat text) = some (.float text)) : Valid (.float text)
  | str (s : String) : Valid (.str s)
  | arr {items : List Json} (h : ∀ v ∈ items, Valid v) : Valid (.arr items)
  | obj {fields : Dict} (hkeys : (fields.map Prod.fst).Nodup) (h : ∀ f ∈ fields, Valid f.2) : Valid (.obj fields)

example : (loads ⟨id, id⟩ " [1, -20 , \x7b\"a\": \"\\u00e9\\ud83d\\ude00\", \"b\":0.5\x7d]".toList).map dumps =
    some "[1, -20, \x7b\"a\": \"\\u00e9\\ud83d\\ude00\", \"b\": 0.5\x7d]".toList := by decide +kernel

end JsonText
