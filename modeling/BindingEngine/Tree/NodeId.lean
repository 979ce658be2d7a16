namespace BindingEngine

structure NodeId where
  index : Nat
  generation : Nat
deriving DecidableEq, Inhabited

def NodeId.text (n : NodeId) : String :=
  "#" ++ toString n.index ++ "v" ++ toString n.generation

end BindingEngine
