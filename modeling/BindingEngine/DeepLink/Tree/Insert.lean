import BindingEngine.DeepLink.Tree

namespace BindingEngine

-- A part of a tree after an insertion, and whether the insertion went well.
abbrev Grown (α : Type) := α × Except PatternError Unit

namespace Grown

variable {α β : Type}

def map (f : α → β) (g : Grown α) : Grown β := (f g.1, g.2)

end Grown

def Pattern.Parameter.misplaced (q : Pattern.Parameter) : Bool := q.isRest && !q.back.isEmpty

abbrev Growth := Pattern → Grown RouteBranches

namespace Growth

def suffix (grow : Growth) (target : RouteTarget) (p : Pattern) : Grown RouteTree :=
  let segment := p.segment
  if segment.length = p.length then (.node segment target .nil, .ok ())
  else (grow (p.drop segment.length)).map (.node segment {} ·)

def parameter (grow : Growth) (target : RouteTarget) (q : Pattern.Parameter) :
    Grown RouteBranches :=
  if q.misplaced then (.nil, .error .restNotLast)
  else if q.isRest then (.rest q.label target, .ok ())
  else if q.back.segment.any Pattern.Letter.opens then (.nil, .error .severalInSegment)
  else if q.back.isEmpty then (.parameter q.label target .nil, .ok ())
  else (grow.suffix target q.back).map fun child => .parameter q.label {} (.cons child .nil)

-- The node for a pattern. `held` is the target of the node that it takes over.
def tree (grow : Growth) (held target : RouteTarget) (p : Pattern) : Grown RouteTree :=
  match p.parameter? with
  | .error e => (.node [] held .nil, .error e)
  | .ok none => (.node p target .nil, .ok ())
  | .ok (some q) =>
    (grow.parameter target q).map (.node (if q.misplaced then [] else q.front) held ·)

end Growth

-- The branches for a pattern. Every round takes a letter at least, so `fuel` is their number.
def RouteBranches.grow (target : RouteTarget) : Nat → Growth
  | 0, _ => (.nil, .ok ())
  | _, [] => (.nil, .ok ())
  | fuel + 1, l :: p =>
    let more : Growth := grow target fuel
    if l.opens then
      match Pattern.parameter? (l :: p) with
      | .error e => (.nil, .error e)
      | .ok none => (.nil, .ok ())
      | .ok (some q) => more.parameter target q
    else (more.tree {} target (l :: p)).map (.literal l.char · .nil)

namespace RouteBranches

def ofPattern (target : RouteTarget) (p : Pattern) : Grown RouteBranches :=
  grow target p.length p

def extend (branches : RouteBranches) (target : RouteTarget) (p : Pattern) :
    Grown RouteBranches :=
  match branches with
  | .nil => ofPattern target p
  | .literal first child others =>
    (extend others target p).map (.literal first child ·)
  | .parameter .. | .rest .. =>
    match ofPattern target p with
    | (.literal first child _, r) => (.literal first child branches, r)
    | (_, r) => (branches, r)

end RouteBranches

namespace RouteSuffixes

def has (segment : Pattern) : RouteSuffixes → Bool
  | .nil => false
  | .cons child others => child.label.text = segment.text || others.has segment

-- Adds a child behind those that are as long.
def place (new : RouteTree) : RouteSuffixes → RouteSuffixes
  | .nil => .cons new .nil
  | .cons child others =>
    if new.label.length ≤ child.label.length then .cons child (others.place new)
    else .cons new (.cons child others)

end RouteSuffixes

mutual

-- Adds a pattern below a node. A node whose label goes on differently is split.
def RouteTree.add (new : RouteTarget) : RouteTree → Pattern → Grown RouteTree
  | .node label target branches, p =>
    match label.splitCommon p with
    | (_, [], []) =>
      if target.screen.isSome then (.node label target branches, .error .conflict)
      else (.node label new branches, .ok ())
    | (_, [], p) => (branches.add new p).map (.node label target ·)
    | (common, l :: rest, p) =>
      let lower := RouteBranches.literal l.char (.node (l :: rest) target branches) .nil
      if p.isEmpty then (.node common new lower, .ok ())
      else (lower.extend new p).map (.node common {} ·)

def RouteBranches.add (new : RouteTarget) : RouteBranches → Pattern → Grown RouteBranches
  | .nil, p => RouteBranches.ofPattern new p
  | .literal first child others, p =>
    if p.head?.any fun l => l.char = first && !l.opens then
      (child.add new p).map (.literal first · others)
    else (others.add new p).map (.literal first child ·)
  | .parameter label target suffixes, p =>
    if p.head?.any Pattern.Letter.opens then
      let front : Pattern := p.take label.length
      if front.text = label.text then
        let p : Pattern := p.drop label.length
        if p.isEmpty then
          if target.screen.isSome then (.parameter label target suffixes, .error .conflict)
          else (.parameter label new suffixes, .ok ())
        else if suffixes.has p.segment then
          (suffixes.add new p.segment p).map (.parameter label target ·)
        else if p.segment.any Pattern.Letter.opens then
          (.parameter label target suffixes, .error .severalInSegment)
        else
          (Growth.suffix (RouteBranches.ofPattern new) new p).map fun child =>
            .parameter label target (suffixes.place child)
      else (.parameter label target suffixes, .error .conflict)
    else (RouteBranches.parameter label target suffixes).extend new p
  | .rest label target, p =>
    if p.head?.any Pattern.Letter.opens then (.rest label target, .error .conflict)
    else (RouteBranches.rest label target).extend new p

def RouteSuffixes.add (new : RouteTarget) (segment : Pattern) : RouteSuffixes → Pattern →
    Grown RouteSuffixes
  | .nil, _ => (.nil, .ok ())
  | .cons child others, p =>
    if child.label.text = segment.text then (child.add new p).map (.cons · others)
    else (others.add new segment p).map (.cons child ·)

end

-- Adds a pattern to a tree. A tree without a label and branches is taken over as it is.
def RouteTree.insert (t : RouteTree) (new : RouteTarget) (p : Pattern) : Grown RouteTree :=
  match t with
  | .node [] held .nil => Growth.tree (RouteBranches.ofPattern new) held new p
  | t => t.add new p

end BindingEngine
