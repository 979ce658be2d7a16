import BindingEngine.Table

namespace BindingEngine

inductive PatternError where
  | invalidName
  | severalInSegment
  | restNotLast
  | conflict
deriving DecidableEq

def PatternError.message : PatternError → String
  | invalidName => "Parameters must be registered with a valid name"
  | severalInSegment => "Only one parameter is allowed per path segment"
  | restNotLast => "Catch-all parameters are only allowed at the end of a route"
  | conflict => "Insertion failed due to conflict with previously registered route"

namespace Pattern

-- A character of a pattern. It is doubled if it is a brace that was written twice.
structure Letter where
  char : Char
  doubled : Bool := false
deriving DecidableEq

end Pattern

abbrev Pattern := List Pattern.Letter

namespace Pattern

def Letter.opens (l : Letter) : Bool := l.char = '{' && !l.doubled

def text (p : Pattern) : List Char := p.map Letter.char

def ofChars : List Char → Pattern
  | '{' :: '{' :: cs => ⟨'{', true⟩ :: ofChars cs
  | '}' :: '}' :: cs => ⟨'}', true⟩ :: ofChars cs
  | c :: cs => ⟨c, false⟩ :: ofChars cs
  | [] => []

def readName? : Pattern → Option (Pattern × Pattern)
  | [] => none
  | ⟨'}', false⟩ :: p => some ([], p)
  | l :: p =>
    if l.char = '*' || l.char = '/' then none
    else (readName? p).map fun (name, p) => (l :: name, p)

structure Parameter where
  front : Pattern
  name : Pattern
  back : Pattern

namespace Parameter

def isRest (p : Parameter) : Bool := p.name.head?.any (·.char = '*')

def label (p : Parameter) : Pattern := ⟨'{', false⟩ :: p.name ++ [⟨'}', false⟩]

end Parameter

def parameter? : Pattern → Except PatternError (Option Parameter)
  | [] => .ok none
  | ⟨'}', false⟩ :: _ => .error .invalidName
  | ⟨'{', false⟩ :: [] => .error .invalidName
  | ⟨'{', false⟩ :: ⟨'}', _⟩ :: _ => .error .invalidName
  | ⟨'{', false⟩ :: first :: p =>
    match readName? p with
    | none => .error .invalidName
    | some (name, back) =>
      if first.char = '*' && name.isEmpty then .error .invalidName
      else .ok (some ⟨[], first :: name, back⟩)
  | l :: p => (parameter? p).map (Option.map fun q => { q with front := l :: q.front })

-- Marks the letter that is `n` bytes further as doubled, if a letter begins there.
def markAt : Nat → Pattern → Pattern
  | _, [] => []
  | 0, l :: p => { l with doubled := true } :: p
  | n, l :: p => if n < l.char.utf8Size then l :: p else l :: markAt (n - l.char.utf8Size) p

-- What stands behind a parameter when its name has been replaced by a name of one byte. Doubled
-- letters are known by their places, and a place right behind the parameter does not move along:
-- the letter which is there in the end counts as doubled.
def shiftMark (name : Pattern) : Pattern → Pattern
  | [] => []
  | l :: back =>
    let shift := (String.ofList name.text).utf8ByteSize - 1
    if l.doubled then markAt shift ({ l with doubled := false } :: back) else l :: back

def placeholder (n : Nat) : Pattern := [⟨Char.ofNat ('a'.toNat + n), false⟩]

-- Names parameters in their order and gives their own names. Every round but the last takes a
-- letter at least, so `fuel` is one more than their number.
def number : Nat → Nat → Pattern → Except PatternError (Pattern × List String)
  | 0, _, p => .ok (p, [])
  | fuel + 1, n, p => do
    match ← parameter? p with
    | none => return (p, [])
    | some q =>
      if q.isRest then
        let (back, names) ← number fuel n q.back
        return (q.front ++ q.label ++ back, names)
      else
        let (back, names) ← number fuel (n + 1) (shiftMark q.name q.back)
        return (q.front ++ { q with name := placeholder n }.label ++ back,
          String.ofList q.name.text :: names)

-- The pattern that a text spells, and the names of its parameters. The name of the rest of a path
-- stays in the pattern.
def parse (s : String) : Except PatternError (Pattern × List String) :=
  let p := ofChars s.toList
  number (p.length + 1) 0 p

def segment : Pattern → Pattern
  | [] => []
  | l :: p => if l.char = '/' then [l] else l :: segment p

def splitCommon : Pattern → Pattern → Pattern × Pattern × Pattern
  | l :: p, l' :: p' =>
    if l = l' then
      let (common, p, p') := splitCommon p p'
      (l :: common, p, p')
    else ([], l :: p, l' :: p')
  | p, p' => ([], p, p')

def stripFrom? : Pattern → List Char → Option (List Char)
  | [], cs => some cs
  | l :: p, c :: cs => if l.char = c then stripFrom? p cs else none
  | _ :: _, [] => none

end Pattern

end BindingEngine
