import BindingEngine.Value.Basic

namespace BindingEngine.Value

mutual

def equals : Value → Value → Bool
  | null, null => true
  | bool a, bool b => a = b
  | int a, int b => a = b
  | double a, double b => a.equals b
  | string a, string b => a = b
  | array as, array bs => itemsEqual as bs
  | map as, map bs => as.length = bs.length && entriesWithin as bs
  | _, _ => false

def itemsEqual : List Value → List Value → Bool
  | [], [] => true
  | a :: as, b :: bs => equals a b && itemsEqual as bs
  | _, _ => false

def entriesWithin : List (String × Value) → Table String Value → Bool
  | [], _ => true
  | (key, a) :: as, bs =>
    (match Table.get? bs key with
      | some b => equals a b
      | none => false) && entriesWithin as bs

end

end BindingEngine.Value
