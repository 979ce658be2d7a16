import BindingEngine.Path.Basic

namespace BindingEngine

inductive UnaryOp where
  | not | neg
deriving DecidableEq

inductive BinaryOp where
  | eq | ne | lt | le | gt | ge | and | or | add | sub | mul | div | rem
deriving DecidableEq

def BinaryOp.symbol : BinaryOp → String
  | .eq => "=="
  | .ne => "!="
  | .lt => "<"
  | .le => "<="
  | .gt => ">"
  | .ge => ">="
  | .and => "&&"
  | .or => "||"
  | .add => "+"
  | .sub => "-"
  | .mul => "*"
  | .div => "/"
  | .rem => "%"

mutual

inductive Accessor where
  | static (s : Segment)
  | computed (e : Expr)

inductive Expr where
  | literal (v : Value)
  | read (context : String) (accessors : List Accessor)
  | unary (op : UnaryOp) (operand : Expr)
  | binary (op : BinaryOp) (left right : Expr)
  | conditional (condition whenTrue whenFalse : Expr)

end

instance : Inhabited Expr := ⟨.literal .null⟩

def distinct (names : List String) : List String :=
  names.foldl (fun seen name => if name ∈ seen then seen else seen ++ [name]) []

namespace Expr

mutual

def reads : Expr → List String
  | literal _ => []
  | read context accessors => context :: accessorReads accessors
  | unary _ operand => operand.reads
  | binary _ left right => left.reads ++ right.reads
  | conditional condition whenTrue whenFalse =>
    condition.reads ++ whenTrue.reads ++ whenFalse.reads

def accessorReads : List Accessor → List String
  | [] => []
  | .static _ :: rest => accessorReads rest
  | .computed e :: rest => e.reads ++ accessorReads rest

end

def contextIds (e : Expr) : List String := distinct e.reads

end Expr

end BindingEngine
