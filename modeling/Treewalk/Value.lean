import Treewalk.Number

/-! Values of expressions, their texts, and the two equalities on them. -/

namespace Treewalk

inductive Value where
  | nil
  | bool (b : Bool)
  | number (x : Float)
  | string (s : String)
deriving DecidableEq

/-- Only `nil` and `false` count as false. -/
def Value.truthy : Value → Bool
  | .nil => false
  | .bool b => b
  | .number _ => true
  | .string _ => true

def Value.typeName : Value → String
  | .nil => "nil"
  | .bool _ => "bool"
  | .number _ => "number"
  | .string _ => "string"

def Value.text : Value → String
  | .nil => "nil"
  | .bool true => "true"
  | .bool false => "false"
  | .number x => numberText x
  | .string s => s

/-- The text of a value as a literal: strings stand in quotes. -/
def Value.literalText : Value → String
  | .string s => "\"" ++ s ++ "\""
  | v => v.text

/-- Values of one type with equal contents, numbers compared as numbers: a NaN differs from
itself and the two zeros are equal. -/
def Value.numericallyEqual : Value → Value → Bool
  | .nil, .nil => true
  | .bool a, .bool b => a == b
  | .number x, .number y => x == y
  | .string s, .string t => s == t
  | _, _ => false

/-- The equality of the language: as `Value.numericallyEqual`, except that NaNs are equal. -/
def Value.equal : Value → Value → Bool
  | .number x, .number y => x == y || (x.isNaN && y.isNaN)
  | v, w => v.numericallyEqual w

end Treewalk
