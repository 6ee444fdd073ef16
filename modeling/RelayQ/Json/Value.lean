import Mathlib.Data.List.Nodup
import Mathlib.Tactic.Common

/-! # JSON values

The values a JSON text denotes. An object is the list of its items in order. A number with a
fraction or an exponent is kept as its decimal text.

* `isIntText`, `isFloatText`: the texts of numbers.
* `JVal.wf`: the keys of every object are distinct and every float is the text of one.
* `Dict`: a dictionary with string keys, the well-formed items of an object. -/

namespace RelayQ

/-! ## The texts of numbers -/

/-- Drop a digit and the digits that follow it; `none` when there is no digit. -/
def dropDigits : List Char → Option (List Char)
  | [] => none
  | c :: cs => if c.isDigit then some (cs.dropWhile Char.isDigit) else none

/-- Drop a natural number without leading zeros. -/
def dropNat : List Char → Option (List Char)
  | '0' :: cs => some cs
  | cs => dropDigits cs

/-- Drop an integer. -/
def dropInt : List Char → Option (List Char)
  | '-' :: cs => dropNat cs
  | cs => dropNat cs

/-- Drop a fraction, if there is one. -/
def dropFraction : List Char → Option (List Char)
  | '.' :: cs => dropDigits cs
  | cs => some cs

/-- Drop the sign of an exponent, if there is one. -/
def dropSign : List Char → List Char
  | '+' :: cs => cs
  | '-' :: cs => cs
  | cs => cs

/-- Drop an exponent, if there is one. -/
def dropExponent : List Char → Option (List Char)
  | 'e' :: cs => dropDigits (dropSign cs)
  | 'E' :: cs => dropDigits (dropSign cs)
  | cs => some cs

/-- Is the text an integer? -/
def isIntText (cs : List Char) : Bool := dropInt cs == some []

/-- Is the text a number? -/
def isNumberText (cs : List Char) : Bool :=
  ((dropInt cs).bind fun cs => (dropFraction cs).bind dropExponent) == some []

/-- Is the text a float: a number that is no integer, or one of the three names? -/
def isFloatText (cs : List Char) : Bool :=
  cs == ['N', 'a', 'N'] || cs == ['I', 'n', 'f', 'i', 'n', 'i', 't', 'y'] ||
    cs == ['-', 'I', 'n', 'f', 'i', 'n', 'i', 't', 'y'] || (isNumberText cs && !isIntText cs)

/-! ## Values -/

/-- A JSON value. -/
inductive JVal where
  | null
  | bool (b : Bool)
  | int (i : Int)
  | float (repr : String)
  | str (s : String)
  | arr (xs : List JVal)
  | obj (items : List (String × JVal))

namespace JVal

mutual

/-- The keys of every object in the value are distinct, and every float is the text of one. -/
def wf : JVal → Bool
  | float r => isFloatText r.toList
  | arr xs => wfList xs
  | obj kvs => decide (kvs.map Prod.fst).Nodup && wfItems kvs
  | _ => true

/-- Every element is well formed. -/
def wfList : List JVal → Bool
  | [] => true
  | x :: xs => x.wf && wfList xs

/-- Every value is well formed. -/
def wfItems : List (String × JVal) → Bool
  | [] => true
  | (_, v) :: kvs => v.wf && wfItems kvs

end

/-- The items of an object, nothing of any other value. -/
def items? : JVal → Option (List (String × JVal))
  | obj kvs => some kvs
  | _ => none

/-- The text of a string. -/
def str? : JVal → Option String
  | str s => some s
  | _ => none

/-- The value of an integer. -/
def int? : JVal → Option Int
  | int i => some i
  | _ => none

/-- A string or nothing at all: `null` reads as `none`. -/
def optStr? : JVal → Option (Option String)
  | str s => some (some s)
  | null => some none
  | _ => none

/-- A string, or `null` when there is none. -/
def ofOptStr : Option String → JVal
  | some s => str s
  | none => null

/-- An optional text is read back. -/
@[simp] theorem optStr?_ofOptStr (o : Option String) : (ofOptStr o).optStr? = some o := by
  cases o <;> rfl

/-- An optional text is well formed. -/
@[simp] theorem wf_ofOptStr (o : Option String) : (ofOptStr o).wf = true := by
  cases o <;> rfl

end JVal

/-! ## Dictionaries -/

/-- A dictionary with string keys. -/
structure Dict where
  /-- The items, in order. -/
  items : List (String × JVal)
  /-- They make a well-formed object. -/
  items_wf : (JVal.obj items).wf = true

namespace Dict

/-- The dictionary without items. -/
def empty : Dict := ⟨[], rfl⟩

/-- The dictionary as a value. -/
def toJVal (d : Dict) : JVal := .obj d.items

/-- A dictionary is well formed. -/
@[simp] theorem wf_toJVal (d : Dict) : d.toJVal.wf = true := d.items_wf

/-- Its members are read back. -/
@[simp] theorem items?_toJVal (d : Dict) : d.toJVal.items? = some d.items := rfl

/-- A dictionary is its members. -/
@[ext] theorem ext {d d' : Dict} (h : d.items = d'.items) : d = d' := by
  cases d
  cases d'
  cases h
  rfl

end Dict

namespace JVal

/-- The dictionary an object is, when it is well formed. -/
def dict? : JVal → Option Dict
  | obj kvs => if h : (obj kvs).wf = true then some ⟨kvs, h⟩ else none
  | _ => none

/-- A dictionary is read back. -/
@[simp] theorem dict?_toJVal (d : Dict) : d.toJVal.dict? = some d := by
  simp only [Dict.toJVal, dict?, d.items_wf, dite_true]

end JVal

end RelayQ
