import BindingEngine.Navigation.Basic
import BindingEngine.Tree.NodeId

namespace BindingEngine

structure Screen where
  url : Option String
  identifier : Option String
  root : NodeId
deriving DecidableEq

-- The screens of one flow, the topmost first.
structure Stack where
  controller : Option String
  screens : List Screen
deriving DecidableEq

-- The stacks, the topmost first.
structure Navigator where
  presented : List Stack := []
deriving DecidableEq

namespace Stack

def roots (s : Stack) : List NodeId := s.screens.map (·.root)

end Stack

namespace Navigator

def roots (n : Navigator) : List NodeId := n.presented.flatMap Stack.roots

def current? (n : Navigator) : Option Screen := n.presented.head?.bind (·.screens.head?)

def clear (n : Navigator) : List NodeId × Navigator := (n.roots, {})

def resetApplication (n : Navigator) (s : Screen) (controller : Option String) :
    List NodeId × Navigator :=
  (n.roots, ⟨[⟨controller, [s]⟩]⟩)

def resetStack (n : Navigator) (s : Screen) : List NodeId × Navigator :=
  match n.presented with
  | [] => ([], ⟨[⟨none, [s]⟩]⟩)
  | stack :: others => (stack.roots, ⟨{ stack with screens := [s] } :: others⟩)

def pushStack (n : Navigator) (s : Screen) (controller : Option String) : Navigator :=
  ⟨⟨controller, [s]⟩ :: n.presented⟩

def pushView (n : Navigator) (s : Screen) : Navigator :=
  match n.presented with
  | [] => ⟨[⟨none, [s]⟩]⟩
  | stack :: others => ⟨{ stack with screens := s :: stack.screens } :: others⟩

def popStack (n : Navigator) : List NodeId × Navigator :=
  match n.presented with
  | stack :: other :: others => (stack.roots, ⟨other :: others⟩)
  | _ => ([], n)

-- Whether `popStack` and `popView` find nothing but the last stack to take away.
def popsLastStack (n : Navigator) : Bool := n.presented.length < 2

-- Takes the current screen away, with its stack if it is the only one in it.
def popView (n : Navigator) : List NodeId × Navigator :=
  match n.presented with
  | ⟨controller, screen :: below :: more⟩ :: others =>
    ([screen.root], ⟨⟨controller, below :: more⟩ :: others⟩)
  | _ => n.popStack

def hasViewBelow (n : Navigator) : Bool :=
  match n.presented with
  | ⟨_, _ :: _ :: _⟩ :: _ => true
  | _ => false

-- The screens above the topmost one that `p` holds of, and that one with those below it.
def splitAt? (p : Screen → Bool) (screens : List Screen) : Option (List Screen × List Screen) :=
  if screens.any p then some (screens.span (!p ·)) else none

-- Takes the screens of the current stack away that are above the target: the topmost screen with
-- the URL `absolute`, or else the topmost one with the identifier `target`.
def popToView (n : Navigator) (target absolute : String) : Option (List NodeId × Navigator) :=
  match n.presented with
  | [] => none
  | stack :: others =>
    match (splitAt? (·.url = some absolute) stack.screens).or
        (splitAt? (·.identifier = some target) stack.screens) with
    | none => none
    | some (above, rest) =>
      some (above.map (·.root), ⟨{ stack with screens := rest } :: others⟩)

end Navigator

end BindingEngine
