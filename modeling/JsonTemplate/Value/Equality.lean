import JsonTemplate.Value.Conversion

namespace JsonTemplate.Value

mutual

-- Equality without coercion. Objects are compared without regard to the order of their entries,
-- functions by identity, numbers so that NaN differs from itself.
def strictEq : Value → Value → Bool
  | null, null => true
  | bool a, bool b => a == b
  | number a, number b => a == b
  | string a, string b => a == b
  | array a, array b => itemsEq a b
  | object a, object b => a.length == b.length && entriesEq a b
  | function f, function g => f == g
  | accessor i _ _, accessor j _ _ => i == j
  | _, _ => false

def itemsEq : List Value → List Value → Bool
  | [], [] => true
  | a :: as, b :: bs => strictEq a b && itemsEq as bs
  | _, _ => false

-- Every entry has an equal one under its key among the others.
def entriesEq : List (String × Value) → List (String × Value) → Bool
  | [], _ => true
  | (key, value) :: entries, others =>
      (match Fields.get? others key with
        | some other => strictEq value other
        | none => false) && entriesEq entries others

end

-- Truth values count as numbers.
def withoutBool : Value → Value
  | bool b => number (bool b).toNumber
  | v => v

-- Arrays and objects count as their text when they are compared with text or a number.
def comparand (v other : Value) : Value :=
  match v with
  | array items =>
      match other with
      | number _ | string _ => string (array items).text
      | _ => array items
  | object entries =>
      match other with
      | number _ | string _ => string (object entries).text
      | _ => object entries
  | v => v

-- Equality with coercion. Null equals null only, and text counts as a number when it is compared
-- with one.
def looseEq : Value → Value → Bool
  | null, null => true
  | null, _ => false
  | _, null => false
  | a, b =>
      let a := a.withoutBool
      let b := b.withoutBool
      match a.comparand b, b.comparand a with
      | number x, string t => x == numberOfText t
      | string s, number y => numberOfText s == y
      | u, v => strictEq u v

end JsonTemplate.Value
