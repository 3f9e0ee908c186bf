import Mathlib.Data.List.DropRight
import OpenGauss.Lib.ByteOrder

/-! The minimum and maximum of a CU (`cstore_minmax_func.cpp`) and the check of a scan key against
them (`cstore_roughcheck_func.cpp`). -/

namespace OpenGauss.CStore

open Lib

abbrev Datum := BitVec 64

/-- `CStoreStrategyNumber`; every other number is `invalid`. -/
inductive CStoreStrategy where
  | invalid
  | less
  | lessEqual
  | equal
  | greaterEqual
  | greater
deriving DecidableEq, Repr

inductive FixedType where
  | char
  | int2
  | int4
  | int8
  | oid
  | date
  | time
  | timestamp
  | timestamptz
deriving DecidableEq, Repr

inductive StringType where
  | bpchar
  | varchar
  | text
deriving DecidableEq, Repr

/-- `MIN_MAX_LEN - 1`, the bytes of a string that are kept. -/
def minMaxBytes : Nat := 31

structure CUMinMax (Value : Type) where
  cuMin : Value
  cuMax : Value
deriving DecidableEq, Repr

variable (type : FixedType)

/-- What the `Compare` functions read of a value; a `char` is signed. -/
def FixedType.storedValue (v : Datum) : Int :=
  match type with
  | .char => (v.setWidth 8).toInt
  | .int2 => (v.setWidth 16).toInt
  | .int4 | .date => (v.setWidth 32).toInt
  | .oid => (v.setWidth 32).toNat
  | .int8 | .time | .timestamp | .timestamptz => v.toInt

/-- One more value; without bounds it is the first one. -/
def widen {Value : Type} (less : Value → Value → Bool) (bounds : Option (CUMinMax Value))
    (value : Value) : Option (CUMinMax Value) :=
  match bounds with
  | none => some ⟨value, value⟩
  | some bounds =>
    if less value bounds.cuMin then some { bounds with cuMin := value }
    else if less bounds.cuMax value then some { bounds with cuMax := value }
    else some bounds

def compareFixed (bounds : Option (CUMinMax Int)) (value : Int) : Option (CUMinMax Int) :=
  widen (fun left right => left < right) bounds value

/-- `CompareVarStrType`, on as many bytes as are kept. -/
def compareVarStrType (bounds : Option (CUMinMax (List UInt8))) (value : List UInt8) :
    Option (CUMinMax (List UInt8)) :=
  widen bytesLess bounds (value.take minMaxBytes)

def fixedBounds (values : List Datum) : Option (CUMinMax Int) :=
  (values.map type.storedValue).foldl compareFixed none

def stringBounds (values : List (List UInt8)) : Option (CUMinMax (List UInt8)) :=
  values.foldl compareVarStrType none

def FixedType.argValue (arg : Datum) : Int :=
  match type with
  | .char => (arg.setWidth 8).toInt
  | .date => (arg.setWidth 32).toInt
  | .int2 | .int4 | .int8 | .oid => arg.toInt
  | .time | .timestamp | .timestamptz => arg.toInt

variable (strategy : CStoreStrategy)

def roughCheckIntCU (min max arg : Int) : Bool :=
  match strategy with
  | .less => ¬ arg ≤ min
  | .lessEqual => ¬ arg < min
  | .equal => ¬ (arg < min ∨ max < arg)
  | .greaterEqual => ¬ max < arg
  | .greater => ¬ max ≤ arg
  | .invalid => true

def roughCheckStringCU (min max arg : List UInt8) : Bool :=
  match strategy with
  | .less | .lessEqual => memcmp min arg ≠ .gt
  | .equal => ¬ (memcmp min arg = .gt ∨ memcmp max arg = .lt)
  | .greaterEqual | .greater => memcmp max arg ≠ .lt
  | .invalid => true

/-- The C collation, or another one with its comparison. -/
inductive Collation where
  | c
  | other (compare : List UInt8 → List UInt8 → Ordering)

/-- Without values, a CU of nulls, there is no check. -/
def roughCheckFixed (values : List Datum)
    (arg : Datum) : Bool :=
  match fixedBounds type values with
  | none => true
  | some bounds => roughCheckIntCU strategy bounds.cuMin bounds.cuMax (type.argValue arg)

/-- With the choice of `GetRoughCheckFunc`: collations other than C are checked for equality only. -/
def roughCheckString (collation : Collation) (strategy : CStoreStrategy)
    (values : List (List UInt8)) (arg : List UInt8) : Bool :=
  match stringBounds values with
  | none => true
  | some bounds =>
    match collation, strategy with
    | .other _, .equal => roughCheckStringCU .equal bounds.cuMin bounds.cuMax arg
    | .other _, _ => true
    | .c, strategy => roughCheckStringCU strategy bounds.cuMin bounds.cuMax arg

/-- What the operators compare; those of `char` compare unsigned bytes. -/
def FixedType.rowValue (v : Datum) : Int :=
  match type with
  | .char => (v.setWidth 8).toNat
  | type => type.storedValue v

def FixedType.keyValue (arg : Datum) : Int :=
  match type with
  | .char => (arg.setWidth 8).toNat
  | type => type.argValue arg

/-- Nothing is known of an operator without a strategy. -/
def ordered (order : Ordering) : Prop :=
  match strategy with
  | .less => order = .lt
  | .lessEqual => order ≠ .gt
  | .equal => order = .eq
  | .greaterEqual => order ≠ .lt
  | .greater => order = .gt
  | .invalid => True

instance (strategy : CStoreStrategy) (order : Ordering) : Decidable (ordered strategy order) :=
  match strategy with
  | .less => inferInstanceAs (Decidable (order = .lt))
  | .lessEqual => inferInstanceAs (Decidable (order ≠ .gt))
  | .equal => inferInstanceAs (Decidable (order = .eq))
  | .greaterEqual => inferInstanceAs (Decidable (order ≠ .lt))
  | .greater => inferInstanceAs (Decidable (order = .gt))
  | .invalid => inferInstanceAs (Decidable True)

def satisfiesFixed (v arg : Datum) : Prop :=
  ordered strategy (compare (type.rowValue v) (type.keyValue arg))

instance (type : FixedType) (strategy : CStoreStrategy) (v arg : Datum) :
    Decidable (satisfiesFixed type strategy v arg) :=
  inferInstanceAs (Decidable (ordered _ _))

/-- `bcTruelen`: trailing blanks of a `bpchar` do not count. -/
def StringType.compared (type : StringType) (bytes : List UInt8) : List UInt8 :=
  match type with
  | .bpchar => bytes.rdropWhile (· == 32)
  | .varchar | .text => bytes

def varstrCmp (collation : Collation) (left right : List UInt8) : Ordering :=
  match collation with
  | .c => (memcmp left right).then (compare left.length right.length)
  | .other compare => compare left right

/-- Equality compares bytes under every collation. -/
def satisfiesString (type : StringType) (collation : Collation) (strategy : CStoreStrategy)
    (row arg : List UInt8) : Prop :=
  match strategy with
  | .equal => type.compared row = type.compared arg
  | strategy => ordered strategy (varstrCmp collation (type.compared row) (type.compared arg))

instance (type : StringType) (collation : Collation) (strategy : CStoreStrategy)
    (row arg : List UInt8) : Decidable (satisfiesString type collation strategy row arg) :=
  match strategy with
  | .equal => inferInstanceAs (Decidable (type.compared row = type.compared arg))
  | .less => inferInstanceAs (Decidable (ordered .less
      (varstrCmp collation (type.compared row) (type.compared arg))))
  | .lessEqual => inferInstanceAs (Decidable (ordered .lessEqual
      (varstrCmp collation (type.compared row) (type.compared arg))))
  | .greaterEqual => inferInstanceAs (Decidable (ordered .greaterEqual
      (varstrCmp collation (type.compared row) (type.compared arg))))
  | .greater => inferInstanceAs (Decidable (ordered .greater
      (varstrCmp collation (type.compared row) (type.compared arg))))
  | .invalid => inferInstanceAs (Decidable (ordered .invalid
      (varstrCmp collation (type.compared row) (type.compared arg))))

end OpenGauss.CStore
