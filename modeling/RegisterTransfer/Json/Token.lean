import RegisterTransfer.Json.Literal
import RegisterTransfer.Json.Value
import RegisterTransfer.Text.Numeral

namespace RegisterTransfer.Json

inductive Token
  | openArray | closeArray | openObject | closeObject | comma | colon
  | text (value : Option String)
  | scalar (value : Json)
deriving Repr

namespace Token

def isSpace (c : Char) : Bool := c == ' ' || c == '\n' || c == '\r' || c == '\t'

def isDigit (c : Char) : Bool := (Text.digit? c).isSome

def isExponent : List Char → Bool
  | [] => true
  | e :: '+' :: digits | e :: '-' :: digits | e :: digits =>
    (e == 'e' || e == 'E') && !digits.isEmpty && digits.all isDigit

def isFractionAndExponent : List Char → Bool
  | '.' :: rest => !(rest.takeWhile isDigit).isEmpty && isExponent (rest.dropWhile isDigit)
  | rest => isExponent rest

def isWholePart (digits : List Char) : Bool :=
  !digits.isEmpty && (digits.head? != some '0' || digits.length == 1)

def unsigned? (negative : Bool) (literal s : List Char) : Option Json :=
  let whole := s.takeWhile isDigit
  let rest := s.dropWhile isDigit
  if !isWholePart whole || !isFractionAndExponent rest then none
  else if rest.isEmpty && !(negative && whole == ['0']) then
    (Text.signed? literal).map .integer
  else some (.decimal (String.ofList literal))

def number? (literal : List Char) : Option Json :=
  match literal with
  | '-' :: s => unsigned? true literal s
  | s => unsigned? false literal s

def isNumberChar (c : Char) : Bool :=
  isDigit c || c == '-' || c == '+' || c == '.' || c == 'e' || c == 'E'

def word? (letters : List Char) : Option Json :=
  if letters = "null".toList then some .null
  else if letters = "true".toList then some (.bool true)
  else if letters = "false".toList then some (.bool false)
  else none

def punctuation? : Char → Option Token
  | '[' => some .openArray
  | ']' => some .closeArray
  | '\x7b' => some .openObject
  | '\x7d' => some .closeObject
  | ',' => some .comma
  | ':' => some .colon
  | _ => none

def span (inClass : Char → Bool) : Source → List Char × Source
  | some c :: rest =>
    if inClass c then
      let (more, rest) := span inClass rest
      (c :: more, rest)
    else ([], some c :: rest)
  | s => ([], s)

def next? (c : Char) (rest : Source) : Option (Token × Source) :=
  if let some token := punctuation? c then some (token, rest)
  else if c = '"' then
    (Literal.pieces? rest).map fun (pieces, rest) =>
      (.text ((Literal.textOf? pieces).map String.ofList), rest)
  else if isNumberChar c && c != 'e' && c != 'E' then
    let (more, rest) := span isNumberChar rest
    (number? (c :: more)).map fun j => (.scalar j, rest)
  else
    let (more, rest) := span Char.isAlpha rest
    (word? (c :: more)).map fun j => (.scalar j, rest)

/-- Each token takes a character, so the length of the text is enough fuel. -/
def scan : Nat → Source → Option (List Token)
  | _, [] => some []
  | 0, _ :: _ => none
  | _ + 1, none :: _ => none
  | fuel + 1, some c :: rest =>
    if isSpace c then scan fuel rest
    else (next? c rest).bind fun (token, rest) => (scan fuel rest).map (token :: ·)

end Token

def tokens? (s : Source) : Option (List Token) := Token.scan s.length s

end RegisterTransfer.Json
