import BindingEngine.DeepLink.Tree.Insert
import BindingEngine.DeepLink.Tree.Remove

namespace BindingEngine

structure Router where
  tree : RouteTree := .empty

namespace Router

-- Maps a pattern to a screen and gives the screen that it led to. A route with the same spelling
-- gives way first, also if the pattern turns out to be wrong.
def insert (r : Router) (route screen : String) :
    Router × Except PatternError (Option String) :=
  match Pattern.parse route with
  | .error e => (r, .error e)
  | .ok (pattern, names) =>
    let (tree, old) := r.tree.remove names pattern
    let (tree, result) := tree.insert ⟨some screen, names⟩ pattern
    (⟨tree⟩, result.map fun _ => old)

-- The screen for a path, with the values of the parameters. A name that is repeated keeps its first
-- place and has its last value.
def lookup? (r : Router) (path : String) : Option (Table String String × String) :=
  (r.tree.find? path.toList).map fun m => (Table.extend [] m.arguments, m.screen)

end Router

end BindingEngine
