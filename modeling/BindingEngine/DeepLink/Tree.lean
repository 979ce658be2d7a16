import BindingEngine.DeepLink.Pattern

namespace BindingEngine

-- What a pattern leads to, and the names of its parameters.
structure RouteTarget where
  screen : Option String := none
  names : List String := []

mutual

inductive RouteTree where
  | node (label : Pattern) (target : RouteTarget) (branches : RouteBranches)

inductive RouteBranches where
  | nil
  | literal (first : Char) (child : RouteTree) (others : RouteBranches)
  | parameter (label : Pattern) (target : RouteTarget) (suffixes : RouteSuffixes)
  | rest (label : Pattern) (target : RouteTarget)

inductive RouteSuffixes where
  | nil
  | cons (child : RouteTree) (others : RouteSuffixes)

end

structure RouteMatch where
  screen : String
  names : List String
  values : List String := []
  rest : Option (String × String) := none

namespace RouteMatch

def behind (m : RouteMatch) (value : List Char) : RouteMatch :=
  { m with values := String.ofList value :: m.values }

def arguments (m : RouteMatch) : List (String × String) := m.names.zip m.values ++ m.rest.toList

end RouteMatch

namespace RouteTarget

def reach? (t : RouteTarget) : Option RouteMatch :=
  t.screen.map fun screen => { screen, names := t.names }

def cleared (t : RouteTarget) : RouteTarget := { t with screen := none }

end RouteTarget

def Pattern.restName (label : Pattern) : String := String.ofList ((text label).drop 2).dropLast

def firstSegment (cs : List Char) : List Char := cs.take ((cs.takeWhile (· ≠ '/')).length + 1)

namespace RouteTree

def empty : RouteTree := .node [] {} .nil

def label : RouteTree → Pattern
  | .node label _ _ => label

end RouteTree

mutual

-- Finds what a path leads to. Literal text goes before a parameter wherever both fit, and where the
-- literal text leads nowhere the parameter is tried.
def RouteTree.find? : RouteTree → List Char → Option RouteMatch
  | .node label target branches, path =>
    match label.stripFrom? path with
    | none => none
    | some [] => target.reach?
    | some path => branches.find? path

def RouteBranches.find? : RouteBranches → List Char → Option RouteMatch
  | .nil, _ => none
  | .literal first child others, path =>
    match if path.head? = some first then child.find? path else none with
    | some m => some m
    | none => others.find? path
  | .parameter _ target suffixes, path =>
    let segment := path.takeWhile (· ≠ '/')
    if segment.isEmpty then none
    else
      suffixes.find? (firstSegment path) path
        (if segment.length = path.length then target.reach?.map (·.behind segment) else none)
  | .rest label target, path =>
    target.reach?.map ({ · with rest := some (label.restName, String.ofList path) })

-- Takes the first suffix that the rest of a segment ends with and that leaves something for the
-- parameter; no other is tried. Without one the segment is the parameter's.
def RouteSuffixes.find? : RouteSuffixes → List Char → List Char → Option RouteMatch →
    Option RouteMatch
  | .nil, _, _, whole => whole
  | .cons child others, segment, path, whole =>
    let n := segment.length - child.label.length
    if 0 < n && segment.drop n = child.label.text then
      (child.find? (path.drop n)).map (·.behind (path.take n))
    else others.find? segment path whole

end

end BindingEngine
