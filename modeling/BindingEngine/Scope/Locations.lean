import BindingEngine.Scope.Basic

namespace BindingEngine

structure Locations where
  id : String
  known : Table NodeId (Option Location) := []

namespace Locations

-- The nodes that a search passes on the way `way`, and its outcome.
def search (l : Locations) (t : Tree) : List NodeId → List NodeId × Option Location
  | [] => ([], none)
  | n :: way =>
    match Table.get? l.known n with
    | some location => ([], location)
    | none =>
      if (t.context? n l.id).isSome then ([n], some (.node n))
      else
        let (passed, location) := l.search t way
        (n :: passed, location)

def locate? (l : Locations) (t : Tree) (n : NodeId) : Option Location × Locations :=
  if l.id = globalId then (some .global, l)
  else
    let (passed, location) := l.search t (t.ancestors n)
    (location,
      { l with known := passed.foldl (fun known n => Table.insert known n location) l.known })

end Locations

end BindingEngine
