import BindingEngine.Binary64.Text
import BindingEngine.Path.Parser
import BindingEngine.Text.Alphanumeric

namespace BindingEngine

inductive Flaw where
  | emptyBrackets
  | negativeIndex
  | noIndexOrKey
  | noField
deriving DecidableEq

def Flaw.message : Flaw → String
  | emptyBrackets => "empty brackets"
  | negativeIndex => "negative index"
  | noIndexOrKey => "brackets expect an index or a quoted key"
  | noField => "expected a field name after '.'"

inductive Token where
  | identifier (name : String)
  | int (i : Int64)
  | double (x : Binary64)
  | string (s : String)
  | trueWord | falseWord | nullWord
  | dot | leftBracket | rightBracket | leftParen | rightParen
  -- The mark `@` and a brace, which open a binding.
  | openBinding
  | closeBrace
  | question | colon | bang
  | eq | ne | lt | le | gt | ge | and | or
  | plus | minus | star | slash | percent
deriving DecidableEq

def Token.description : Token → String
  | identifier name => "identifier '" ++ name ++ "'"
  | int i => "number " ++ toString i.toInt
  | double x => "number " ++ x.plain
  | string s => "string '" ++ s ++ "'"
  | trueWord => "'true'"
  | falseWord => "'false'"
  | nullWord => "'null'"
  | dot => "'.'"
  | leftBracket => "'['"
  | rightBracket => "']'"
  | leftParen => "'('"
  | rightParen => "')'"
  | openBinding => "'@\x7b'"
  | closeBrace => "'\x7d'"
  | question => "'?'"
  | colon => "':'"
  | bang => "'!'"
  | eq => "'=='"
  | ne => "'!='"
  | lt => "'<'"
  | le => "'<='"
  | gt => "'>'"
  | ge => "'>='"
  | and => "'&&'"
  | or => "'||'"
  | plus => "'+'"
  | minus => "'-'"
  | star => "'*'"
  | slash => "'/'"
  | percent => "'%'"

-- What is wrong with a text that cannot be read, with the offset in bytes at which it shows.
inductive ParseError where
  | unterminated (offset : Nat)
  | unterminatedString (offset : Nat)
  | unbalancedBrackets (offset : Nat)
  | unknownOperator (operator : String) (offset : Nat)
  | malformedPath (offset : Nat) (flaw : Flaw)
  | unexpectedToken (found : Token) (offset : Nat)
  | empty (offset : Nat)
  | invalidNumber (text : String) (offset : Nat)
  | tooDeep (offset : Nat)
deriving DecidableEq

namespace ParseError

def offset : ParseError → Nat
  | unterminated offset => offset
  | unterminatedString offset => offset
  | unbalancedBrackets offset => offset
  | unknownOperator _ offset => offset
  | malformedPath offset _ => offset
  | unexpectedToken _ offset => offset
  | empty offset => offset
  | invalidNumber _ offset => offset
  | tooDeep offset => offset

def message (e : ParseError) : String :=
  let place := " at offset " ++ toString e.offset
  match e with
  | unterminated _ => "unterminated binding starting" ++ place
  | unterminatedString _ => "unterminated string starting" ++ place
  | unbalancedBrackets _ => "unbalanced brackets" ++ place
  | unknownOperator operator _ => "unknown operator '" ++ operator ++ "'" ++ place
  | malformedPath _ flaw => "malformed path" ++ place ++ ": " ++ flaw.message
  | unexpectedToken found _ => "unexpected " ++ found.description ++ place
  | empty _ => "empty binding" ++ place
  | invalidNumber text _ => "invalid number '" ++ text ++ "'" ++ place
  | tooDeep _ => "binding nested too deeply" ++ place

end ParseError

-- A token and where it stands, from `start` up to `stop`.
structure Lexeme where
  token : Token
  start : Nat
  stop : Nat
deriving DecidableEq

-- A run of tokens, with what follows the last: nothing more to read, or text that is no token.
inductive Lexemes where
  | done (offset : Nat)
  | stuck (e : ParseError)
  | cons (head : Lexeme) (tail : Lexemes)

namespace Token

def symbol? : List Char → Option (Token × Nat)
  | '@' :: '{' :: _ => some (openBinding, 2)
  | '=' :: '=' :: _ => some (eq, 2)
  | '!' :: '=' :: _ => some (ne, 2)
  | '<' :: '=' :: _ => some (le, 2)
  | '>' :: '=' :: _ => some (ge, 2)
  | '&' :: '&' :: _ => some (and, 2)
  | '|' :: '|' :: _ => some (or, 2)
  | '.' :: _ => some (dot, 1)
  | '[' :: _ => some (leftBracket, 1)
  | ']' :: _ => some (rightBracket, 1)
  | '(' :: _ => some (leftParen, 1)
  | ')' :: _ => some (rightParen, 1)
  | '}' :: _ => some (closeBrace, 1)
  | '?' :: _ => some (question, 1)
  | ':' :: _ => some (colon, 1)
  | '!' :: _ => some (bang, 1)
  | '<' :: _ => some (lt, 1)
  | '>' :: _ => some (gt, 1)
  | '+' :: _ => some (plus, 1)
  | '-' :: _ => some (minus, 1)
  | '*' :: _ => some (star, 1)
  | '/' :: _ => some (slash, 1)
  | '%' :: _ => some (percent, 1)
  | _ => none

-- The text of a string up to its closing quote, and how many characters it takes with the quote. A
-- backslash before anything but a quote, a backslash or an `n` stands for itself.
def stringBody? : List Char → Option (List Char × Nat)
  | [] => none
  | '\'' :: _ => some ([], 1)
  | '\\' :: c :: rest =>
    let text := match c with
      | '\'' => ['\'']
      | '\\' => ['\\']
      | 'n' => ['\n']
      | c => ['\\', c]
    (stringBody? rest).map fun (cs, n) => (text ++ cs, n + 2)
  | c :: rest => (stringBody? rest).map fun (cs, n) => (c :: cs, n + 1)

-- The digits of a number. A point belongs to it if a digit follows, else it begins a field.
def numberText (cs : List Char) : List Char × Option (List Char) :=
  let whole := cs.takeWhile Char.isDigit
  match cs.drop whole.length with
  | '.' :: rest =>
    let fraction := rest.takeWhile Char.isDigit
    if fraction.isEmpty then (whole, none) else (whole, some fraction)
  | _ => (whole, none)

def word (name : String) : Token :=
  if name = "true" then trueWord
  else if name = "false" then falseWord
  else if name = "null" then nullWord
  else identifier name

def isSymbol (c : Char) : Bool := !(Text.isAlphanumeric c || Text.isBlank c || c = '\'')

def symbols : List Char → List Char
  | [] => []
  | c :: cs => if isSymbol c then c :: cs.takeWhile isSymbol else [c]

-- The token at the beginning of a text that does not begin with a blank, and how many characters it
-- takes.
def read (offset : Nat) : List Char → Except ParseError (Token × Nat)
  | [] => .error (.unterminated offset)
  | c :: cs =>
    match symbol? (c :: cs) with
    | some found => .ok found
    | none =>
      if c = '\'' then
        match stringBody? cs with
        | some (text, n) => .ok (string (String.ofList text), n + 1)
        | none => .error (.unterminatedString offset)
      else if c.isDigit then
        match numberText (c :: cs) with
        | (whole, some fraction) =>
          let x := Binary64.ofDecimal false (Path.decimalValue (whole ++ fraction))
            (-fraction.length)
          .ok (double x, whole.length + 1 + fraction.length)
        | (whole, none) =>
          let i := Path.decimalValue whole
          if i < Nat.pow 2 63 then .ok (int (.ofNat i), whole.length)
          else .error (.invalidNumber (String.ofList whole) offset)
      else if isIdentifierStart c then
        let name := c :: cs.takeWhile isIdentifierPart
        .ok (word (String.ofList name), name.length)
      else .error (.unknownOperator (String.ofList (symbols (c :: cs))) offset)

end Token

namespace Lexemes

-- The tokens of a binding and the text behind it. `depth` counts the bindings opened inside it and
-- not yet closed.
def scan : Nat → Nat → Nat → List Char → Lexemes × List Char
  | 0, _, offset, cs => (done offset, cs)
  | fuel + 1, depth, offset, cs =>
    let blanks := cs.takeWhile Text.isBlank
    let cs := cs.dropWhile Text.isBlank
    let start := offset + byteLength blanks
    if cs.isEmpty then (done start, [])
    else
      match Token.read start cs with
      | .error e => (stuck e, cs)
      | .ok (token, n) =>
        let stop := start + byteLength (cs.take n)
        let cs := cs.drop n
        if token = .closeBrace ∧ depth = 0 then (cons ⟨token, start, stop⟩ (done stop), cs)
        else
          let depth := match token with
            | .openBinding => depth + 1
            | .closeBrace => depth - 1
            | _ => depth
          let (tail, rest) := scan fuel depth stop cs
          (cons ⟨token, start, stop⟩ tail, rest)

def head? : Lexemes → Except ParseError (Option Lexeme)
  | done _ => .ok none
  | stuck e => .error e
  | cons head _ => .ok (some head)

def length : Lexemes → Nat
  | cons _ tail => tail.length + 1
  | _ => 0

end Lexemes

end BindingEngine
