import BindingEngine.DeepLink.Pattern
import BindingEngine.Path.Update
import BindingEngine.Expr.Token
import BindingEngine.Tree.NodeId

namespace BindingEngine

namespace Error

inductive Kind where
  | parse | serialization | nodeNotFound | contextAlreadyDeclared | reservedContext
  | unresolvedContext | structuralConflict | invalidRoute | platform
  -- no error that is returned: the stack ran out
  | overflow
deriving DecidableEq

def Kind.text : Kind → String
  | parse => "malformed expression"
  | serialization => "serialization failed"
  | nodeNotFound => "node not found"
  | contextAlreadyDeclared => "node already declares a context"
  | reservedContext => "context id is reserved"
  | unresolvedContext => "context not found in scope"
  | structuralConflict => "path segment has an incompatible kind"
  | invalidRoute => "invalid route"
  | platform => "platform error"
  | overflow => "stack overflow"

inductive Cause where
  | missingNode (n : NodeId)
  | declared (n : NodeId) (context : String)
  | reserved (context : String)
  | unresolved (context : String)
  | noLaunchUrl
  | conflict (c : Conflict)
  | parse (e : ParseError)
  | path (e : InvalidPath)
  | pattern (e : PatternError)
  | text (s : String)
deriving DecidableEq

def Cause.message : Cause → String
  | missingNode n => "no live node " ++ n.text
  | declared n context => "node " ++ n.text ++ " already declares context '" ++ context ++ "'"
  | reserved context => "context id '" ++ context ++ "' cannot be declared by a node"
  | unresolved context => "'" ++ context ++ "'"
  | noLaunchUrl => "launch route does not evaluate to a URL"
  | conflict c => c.message
  | parse e => e.message
  | path e => e.message
  | pattern e => e.message
  | text s => s

end Error

structure Error where
  kind : Error.Kind
  cause : Option Error.Cause := none
deriving DecidableEq

namespace Error

def message (e : Error) : String :=
  match e.cause with
  | some cause => e.kind.text ++ ": " ++ cause.message
  | none => e.kind.text

-- Whether nothing changed and the steps that follow may run.
def isRecoverable (e : Error) : Bool :=
  e.kind = .unresolvedContext || e.kind = .structuralConflict

def missingNode (n : NodeId) : Error := ⟨.nodeNotFound, some (.missingNode n)⟩

def alreadyDeclared (n : NodeId) (context : String) : Error :=
  ⟨.contextAlreadyDeclared, some (.declared n context)⟩

def reserved (context : String) : Error := ⟨.reservedContext, some (.reserved context)⟩

def unresolved (context : String) : Error := ⟨.unresolvedContext, some (.unresolved context)⟩

def noLaunchUrl : Error := ⟨.unresolvedContext, some .noLaunchUrl⟩

def ofConflict (c : Conflict) : Error := ⟨.structuralConflict, some (.conflict c)⟩

def ofParse (e : ParseError) : Error := ⟨.parse, some (.parse e)⟩

def ofPath (e : InvalidPath) : Error := ⟨.serialization, some (.path e)⟩

def ofPattern (e : PatternError) : Error := ⟨.invalidRoute, some (.pattern e)⟩

def ofPlatform (text : String) : Error := ⟨.platform, some (.text text)⟩

def overflow : Error := ⟨.overflow, none⟩

end Error

end BindingEngine
