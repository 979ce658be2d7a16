import BindingEngine.DeepLink.Tree

namespace BindingEngine

-- Takes the screen off a node. A node with nothing behind it goes altogether.
def RouteTree.clear (names : List String) : RouteTree → Option RouteTree × Option String
  | .node label target branches =>
    if target.names ≠ names then (some (.node label target branches), none)
    else
      match branches with
      | .nil => (none, target.screen)
      | branches => (some (.node label target.cleared branches), target.screen)

namespace RouteBranches

def literal? (first : Char) (others : RouteBranches) : Option RouteTree → RouteBranches
  | some child => .literal first child others
  | none => others

end RouteBranches

namespace RouteSuffixes

def size : RouteSuffixes → Nat
  | .nil => 0
  | .cons _ others => others.size + 1

def cons? (others : RouteSuffixes) : Option RouteTree → RouteSuffixes
  | some child => .cons child others
  | none => others

end RouteSuffixes

mutual

def RouteTree.erase (names : List String) : RouteTree → List Char → RouteTree × Option String
  | .node label target branches, text =>
    match label.stripFrom? text with
    | none | some [] => (.node label target branches, none)
    | some text =>
      let (branches, old) := branches.erase names text
      (.node label target branches, old)

def RouteBranches.erase (names : List String) : RouteBranches → List Char →
    RouteBranches × Option String
  | .nil, _ => (.nil, none)
  | .literal first child others, text =>
    if text.head? = some first then
      if child.label.text = text then
        let (child, old) := child.clear names
        (.literal? first others child, old)
      else
        let (child, old) := child.erase names text
        (.literal first child others, old)
    else
      let (others, old) := others.erase names text
      (.literal first child others, old)
  | .parameter label target suffixes, text =>
    match label.stripFrom? text with
    | none => (.parameter label target suffixes, none)
    | some [] =>
      if target.names ≠ names then (.parameter label target suffixes, none)
      else
        match suffixes with
        | .nil => (.nil, target.screen)
        | suffixes => (.parameter label target.cleared suffixes, target.screen)
    | some text =>
      let (suffixes, old) := suffixes.erase names (suffixes.size = 1) text
      (.parameter label target suffixes, old)
  | .rest label target, text =>
    if label.text = text && target.names = names then (.nil, target.screen)
    else (.rest label target, none)

-- Removes a text from suffixes. One that is alone is taken in any case, and of several the one that
-- is the whole segment.
def RouteSuffixes.erase (names : List String) : RouteSuffixes → Bool → List Char →
    RouteSuffixes × Option String
  | .nil, _, _ => (.nil, none)
  | .cons child others, alone, text =>
    if alone || child.label.text = firstSegment text then
      if child.label.text = text then
        let (child, old) := child.clear names
        (others.cons? child, old)
      else
        let (child, old) := child.erase names text
        (.cons child others, old)
    else
      let (others, old) := others.erase names alone text
      (.cons child others, old)

end

def RouteTree.remove (t : RouteTree) (names : List String) (p : Pattern) :
    RouteTree × Option String :=
  match t with
  | .node label target branches =>
    if label.text = p.text then
      match branches with
      | .nil => (.empty, target.screen)
      | branches => (.node label target.cleared branches, target.screen)
    else RouteTree.erase names t p.text

end BindingEngine
