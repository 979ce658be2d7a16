import BindingEngine.Document.Record

namespace BindingEngine

structure Context where
  id : String
  value : Value

def globalId : String := "global"

def handoffId : String := "navigationContext"

def isReserved (id : String) : Bool := id = globalId || id = handoffId

namespace Context

def decode : Value → Decoded Context :=
  Record.read ["id", "value"] ["id"] ⟨"", .null⟩ fun c name v =>
    match name with
    | "id" => (Decoded.string v).map fun id => { c with id := id }
    | "value" => .ok { c with value := v }
    | _ => .ok c

def written (c : Context) : Value :=
  Record.written [Record.field "id" (.string c.id), Record.field "value" c.value.documented]

end Context

end BindingEngine
