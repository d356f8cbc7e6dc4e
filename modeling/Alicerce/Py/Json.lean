import Alicerce.Py.Except
import Alicerce.Py.Text

/-!
# `json.dumps` and `json.loads`

The JSON text of a value, in the compact key-sorted form canonical formats use, and the scanner that
reads JSON back.

* `Py.Json` is what `json.loads` builds: `dict`s are association lists in insertion order.
* `Py.dumps` is `json.dumps(value, ensure_ascii=False, allow_nan=False, sort_keys=True,
  separators=(",", ":"))`.
* `Py.loads` is `json.loads(text, object_pairs_hook=…, parse_constant=…)`, with the two hooks as a
  parameter (`Hooks`).  It is the scanner of the standard library, one function for each of its:
  strings are strict, so a raw control character is refused; `\u` escapes may produce lone
  surrogates; numbers follow the JSON grammar, a fraction or an exponent making a `float`; `NaN` and
  the infinities are handed to `parse_constant`; every object goes through `object_pairs_hook`; and
  a container nested deeper than the interpreter can recurse is a `RecursionError`, raised as soon
  as it is entered, whatever the rest of the text may say.

The scanner recurses on a fuel that is twice the length of the text, plus two, and of two nested
calls at least one consumes a character.
-/

set_option autoImplicit false

namespace Py

variable [Interpreter] {ε : Type}

/-- A value `json.loads` can build. -/
inductive Json [Interpreter]
  | null
  | bool (b : Bool)
  | int (n : ℤ)
  | float (x : Interpreter.Float)
  | str (s : Text)
  | arr (items : List Json)
  | obj (members : List (Text × Json))

/-! ## Printing -/

/-- A lower-case hexadecimal digit. -/
def hexChar (n : ℕ) : CodePoint :=
  .scalar (if n % 16 < 10 then Char.ofNat (48 + n % 16) else Char.ofNat (87 + n % 16))

/-- How one code point stands between the quotes of a JSON string when `ensure_ascii` is off. -/
def escape (c : CodePoint) : Text :=
  if c = .scalar '"' then "\\\""
  else if c = .scalar '\\' then "\\\\"
  else if c.ord = 8 then "\\b"
  else if c.ord = 12 then "\\f"
  else if c.ord = 10 then "\\n"
  else if c.ord = 13 then "\\r"
  else if c.ord = 9 then "\\t"
  else if c.ord < 0x20 then text "\\u00" ++ [hexChar (c.ord / 16), hexChar c.ord]
  else [c]

/-- A JSON string. -/
def quote (s : Text) : Text := .scalar '"' :: (s.flatMap escape ++ [.scalar '"'])

/-- `int.__repr__`; `none` is the `ValueError` of the digit limit. -/
def intRepr (n : ℤ) : Option Text :=
  if (decimal n.natAbs).length ≤ maxStrDigits then
    some (if n < 0 then .scalar '-' :: decimal n.natAbs else decimal n.natAbs)
  else none

/-- The order `sort_keys=True` puts the printed members of an object in. -/
def keyLe (p q : Text × Text) : Bool := p.1.le q.1

/-- A printed member. -/
def member (p : Text × Text) : Text := quote p.1 ++ .scalar ':' :: p.2

/-- The printed members of an object between its braces. -/
def braces (parts : List (Text × Text)) : Text :=
  .scalar '{' :: ((text ",").intercalate (parts.map member) ++ [.scalar '}'])

mutual

/-- `json.dumps(value, ensure_ascii=False, allow_nan=False, sort_keys=True,
separators=(",", ":"))`; `none` is `ValueError`. -/
def dumps : Json → Option Text
  | .null => some "null"
  | .bool true => some "true"
  | .bool false => some "false"
  | .int n => intRepr n
  | .float x => Interpreter.floatRepr x
  | .str s => some (quote s)
  | .arr items => (dumpsItems items).map fun parts ↦
      .scalar '[' :: ((text ",").intercalate parts ++ [.scalar ']'])
  | .obj members => (dumpsMembers members).map fun parts ↦ braces (parts.mergeSort keyLe)

/-- The items of an array, printed. -/
def dumpsItems : List Json → Option (List Text)
  | [] => some []
  | v :: items => (dumps v).bind fun part ↦ (dumpsItems items).map (part :: ·)

/-- The members of an object, each key with its printed value. -/
def dumpsMembers : List (Text × Json) → Option (List (Text × Text))
  | [] => some []
  | (k, v) :: members => (dumps v).bind fun part ↦ (dumpsMembers members).map ((k, part) :: ·)

end

/-! ## Reading: strings -/

/-- The value of a hexadecimal digit. -/
def hexVal (c : CodePoint) : Option ℕ :=
  if range '0' '9' c then some (c.ord - 48)
  else if range 'a' 'f' c then some (c.ord - 87)
  else if range 'A' 'F' c then some (c.ord - 55)
  else none

/-- The code unit four hexadecimal digits spell. -/
def hex4 (a b c d : CodePoint) : Option ℕ := do
  return (← hexVal a) * 4096 + (← hexVal b) * 256 + (← hexVal c) * 16 + (← hexVal d)

/-- The code point of a code unit: a scalar value or a lone surrogate. -/
def ofUnit (u : ℕ) : CodePoint :=
  if h : 0xD800 ≤ u ∧ u < 0xE000 then .surrogate ⟨u - 0xD800, by omega⟩ else .scalar (Char.ofNat u)

/-- The scalar value of a surrogate pair. -/
def ofPair (high low : ℕ) : CodePoint :=
  .scalar (Char.ofNat (0x10000 + (high - 0xD800) * 0x400 + (low - 0xDC00)))

/-- The escapes of one letter. -/
def simpleEscape (c : CodePoint) : Option CodePoint :=
  if c = .scalar '"' then some c
  else if c = .scalar '\\' then some c
  else if c = .scalar '/' then some c
  else if c = .scalar 'b' then some (.scalar (Char.ofNat 8))
  else if c = .scalar 'f' then some (.scalar (Char.ofNat 12))
  else if c = .scalar 'n' then some (.scalar (Char.ofNat 10))
  else if c = .scalar 'r' then some (.scalar (Char.ofNat 13))
  else if c = .scalar 't' then some (.scalar (Char.ofNat 9))
  else none

/-- A low surrogate spelled by an escape at the front of a text, which is what completes a high
one just read; the text behind it is `t.drop 6`. -/
def lowEscape : Text → Option ℕ
  | p :: q :: a :: b :: c :: d :: _ =>
    if p = .scalar '\\' ∧ q = .scalar 'u' then
      (hex4 a b c d).filter fun u ↦ 0xDC00 ≤ u ∧ u < 0xE000
    else none
  | _ => none

/-- `scanstring`, from behind the opening quote: the text of the string and what follows the
closing quote. -/
def scanString : Text → Option (Text × Text)
  | [] => none
  | c :: t =>
    if c = .scalar '"' then some ([], t)
    else if c = .scalar '\\' then
      match t with
      | [] => none
      | e :: t =>
        if e = .scalar 'u' then
          match t with
          | h₁ :: h₂ :: h₃ :: h₄ :: t =>
            (hex4 h₁ h₂ h₃ h₄).bind fun u ↦
              if 0xD800 ≤ u ∧ u < 0xDC00 then
                match lowEscape t with
                | none => (scanString t).map fun r ↦ (ofUnit u :: r.1, r.2)
                | some low =>
                  match t with
                  | _ :: _ :: _ :: _ :: _ :: _ :: t =>
                    (scanString t).map fun r ↦ (ofPair u low :: r.1, r.2)
                  | _ => none
              else (scanString t).map fun r ↦ (ofUnit u :: r.1, r.2)
          | _ => none
        else (simpleEscape e).bind fun x ↦ (scanString t).map fun r ↦ (x :: r.1, r.2)
    else if c.ord < 0x20 then none
    else (scanString t).map fun r ↦ (c :: r.1, r.2)

/-! ## Reading: numbers -/

/-- A numeral as the scanner cuts it out: its sign, its integer part, and whether a fraction or an
exponent follows, whose text it then includes. -/
structure Numeral where
  /-- A minus sign was read. -/
  negative : Bool
  /-- The digits of the integer part. -/
  digits : Text
  /-- The text of the fraction and the exponent; empty for an integer. -/
  tail : Text

/-- A fraction: a point and at least one digit, else nothing is consumed. -/
def scanFraction (t : Text) : Text × Text :=
  match t with
  | c :: t' =>
    if c = .scalar '.' ∧ t'.takeWhile isDigit ≠ [] then
      (c :: t'.takeWhile isDigit, t'.dropWhile isDigit)
    else ([], t)
  | [] => ([], [])

/-- An exponent: a letter, an optional sign and at least one digit, else nothing is consumed. -/
def scanExponent (t : Text) : Text × Text :=
  match t with
  | c :: t' =>
    let sign := t'.take (if t'.head?.any (oneOf "+-") then 1 else 0)
    let t'' := t'.drop sign.length
    if oneOf "eE" c ∧ t''.takeWhile isDigit ≠ [] then
      (c :: (sign ++ t''.takeWhile isDigit), t''.dropWhile isDigit)
    else ([], t)
  | [] => ([], [])

/-- `_match_number`, from behind the sign.  A leading zero is a whole integer part. -/
def scanNumber (negative : Bool) (t : Text) : Option (Numeral × Text) :=
  match t with
  | [] => none
  | c :: t' =>
    if isDigit c then
      let digits := if c = .scalar '0' then [c] else t.takeWhile isDigit
      let rest := if c = .scalar '0' then t' else t.dropWhile isDigit
      let fraction := scanFraction rest
      let exponent := scanExponent fraction.2
      some (⟨negative, digits, fraction.1 ++ exponent.1⟩, exponent.2)
    else none

/-- The number a numeral denotes, an `int` or a `float`; `none` is the `ValueError` of the digit
limit. -/
def Numeral.value (n : Numeral) : Option Json :=
  if n.tail = [] then
    if n.digits.length ≤ maxStrDigits then
      some (.int (if n.negative then -(ofDecimal n.digits : ℤ) else ofDecimal n.digits))
    else none
  else some (.float (Interpreter.floatOf
    ((if n.negative then text "-" else []) ++ n.digits ++ n.tail)))

/-! ## Reading: values -/

/-- What `json.loads` can raise. -/
inductive LoadsError (ε : Type)
  /-- `json.JSONDecodeError`. -/
  | jsonDecodeError
  /-- The `ValueError` of the digit limit. -/
  | valueError
  /-- `RecursionError`. -/
  | recursionError
  /-- An exception one of the hooks raised. -/
  | hook (e : ε)

/-- The two hooks `json.loads` is called with. -/
structure Hooks [Interpreter] (ε : Type) where
  /-- `object_pairs_hook`. -/
  objectPairs : List (Text × Json) → Except ε Json
  /-- `parse_constant`. -/
  parseConstant : Text → Except ε Json

/-- The whitespace of JSON. -/
def isWs : CharClass := oneOf " \t\n\r"

/-- Skip whitespace. -/
def skipWs (t : Text) : Text := t.dropWhile isWs

/-- Run a hook on what was scanned. -/
def callHook (r : Except ε Json) (rest : Text) : Except (LoadsError ε) (Json × Text) :=
  match r with
  | .ok v => .ok (v, rest)
  | .error e => .error (.hook e)

/-- The values a letter or a minus sign can open, besides numbers. -/
def scanConstant (h : Hooks ε) (t : Text) : Option (Except (LoadsError ε) (Json × Text)) :=
  if text "null" <+: t then some (.ok (.null, t.drop 4))
  else if text "true" <+: t then some (.ok (.bool true, t.drop 4))
  else if text "false" <+: t then some (.ok (.bool false, t.drop 5))
  else if text "NaN" <+: t then some (callHook (h.parseConstant "NaN") (t.drop 3))
  else if text "Infinity" <+: t then some (callHook (h.parseConstant "Infinity") (t.drop 8))
  else if text "-Infinity" <+: t then some (callHook (h.parseConstant "-Infinity") (t.drop 9))
  else none

/-- A number, or nothing the grammar knows. -/
def scanNumeral (t : Text) : Except (LoadsError ε) (Json × Text) :=
  match (if t.head? = some (.scalar '-') then scanNumber true t.tail else scanNumber false t) with
  | none => .error .jsonDecodeError
  | some (n, rest) =>
    match n.value with
    | some v => .ok (v, rest)
    | none => .error .valueError

mutual

/-- `scan_once`: the value at the front of a text and what follows it.  `depth` is how many
containers may still be entered. -/
def scanValue (h : Hooks ε) (fuel depth : ℕ) (t : Text) :
    Except (LoadsError ε) (Json × Text) :=
  match fuel, t with
  | 0, _ => .error .jsonDecodeError
  | _ + 1, [] => .error .jsonDecodeError
  | fuel + 1, c :: t' =>
    if c = .scalar '"' then
      match scanString t' with
      | some (s, rest) => .ok (.str s, rest)
      | none => .error .jsonDecodeError
    else if c = .scalar '{' then
      match depth with
      | 0 => .error .recursionError
      | depth + 1 => do
        let (pairs, rest) ← if (skipWs t').head? = some (.scalar '}') then
            .ok ([], (skipWs t').tail)
          else scanMembers h fuel depth (skipWs t')
        callHook (h.objectPairs pairs) rest
    else if c = .scalar '[' then
      match depth with
      | 0 => .error .recursionError
      | depth + 1 => do
        let (items, rest) ← if (skipWs t').head? = some (.scalar ']') then
            .ok ([], (skipWs t').tail)
          else scanItems h fuel depth (skipWs t')
        .ok (.arr items, rest)
    else (scanConstant h t).getD (scanNumeral t)

/-- The members of an object up to its closing brace. -/
def scanMembers (h : Hooks ε) (fuel depth : ℕ) (t : Text) :
    Except (LoadsError ε) (List (Text × Json) × Text) :=
  match fuel, t with
  | 0, _ => .error .jsonDecodeError
  | _ + 1, [] => .error .jsonDecodeError
  | fuel + 1, c :: t' =>
    if c = .scalar '"' then
      match scanString t' with
      | none => .error .jsonDecodeError
      | some (k, rest) =>
        match skipWs rest with
        | [] => .error .jsonDecodeError
        | colon :: rest =>
          if colon = .scalar ':' then do
            let (v, rest) ← scanValue h fuel depth (skipWs rest)
            match skipWs rest with
            | [] => .error .jsonDecodeError
            | c :: rest =>
              if c = .scalar '}' then .ok ([(k, v)], rest)
              else if c = .scalar ',' then do
                let (members, rest) ← scanMembers h fuel depth (skipWs rest)
                .ok ((k, v) :: members, rest)
              else .error .jsonDecodeError
          else .error .jsonDecodeError
    else .error .jsonDecodeError

/-- The items of an array up to its closing bracket. -/
def scanItems (h : Hooks ε) (fuel depth : ℕ) (t : Text) :
    Except (LoadsError ε) (List Json × Text) :=
  match fuel with
  | 0 => .error .jsonDecodeError
  | fuel + 1 => do
    let (v, rest) ← scanValue h fuel depth t
    match skipWs rest with
    | [] => .error .jsonDecodeError
    | c :: rest =>
      if c = .scalar ']' then .ok ([v], rest)
      else if c = .scalar ',' then do
        let (items, rest) ← scanItems h fuel depth (skipWs rest)
        .ok (v :: items, rest)
      else .error .jsonDecodeError

end

/-- `json.loads(text, object_pairs_hook=…, parse_constant=…)`.  A byte order mark is refused. -/
def loads (h : Hooks ε) (t : Text) : Except (LoadsError ε) Json :=
  if t.head? = some (.scalar (Char.ofNat 0xFEFF)) then .error .jsonDecodeError
  else do
    let (v, rest) ← scanValue h (2 * t.length + 2) Interpreter.recursionLimit (skipWs t)
    if skipWs rest = [] then .ok v else .error .jsonDecodeError

end Py
