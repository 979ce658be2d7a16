import BindingEngine.Engine.Basic
import BindingEngine.Navigation.Basic

namespace BindingEngine

structure Request where
  url : String
  method : Method
  headers : Headers
  body : Option Value

structure Response where
  data : Value := .null
  status : Nat := 0
  statusText : String := ""

structure RequestFailure where
  data : Value := .null
  status : Option Nat := none
  statusText : Option String := none
  message : String := ""

structure Event where
  name : String
  value : Value

structure Platform (σ : Type) where
  -- Builds the screen for a destination below a root that is in the tree.
  buildScreen : σ → Engine → NodeId → Destination → Except String Unit × Engine × σ
  -- Starts a request. What comes of it is told to the session later.
  sendRequest : σ → Nat → Request → Except String Unit × σ
  openUrl : σ → String → Except String Unit × σ
  openNative : σ → NativeScreen → Except String Unit × σ
  -- Whether the inputs of a form are valid.
  validateForm : σ → Engine → NodeId → Bool × σ := fun s _ _ => (true, s)
  -- Hears of a screen before its tree is removed.
  dismissScreen : σ → NodeId → σ := fun s _ => s

end BindingEngine
