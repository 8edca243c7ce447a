import GridStencil.Number.Binary64

/-!
Element types of fields and scalar parameters, and the shapes that fields come in.

All values are computed as doubles. Storing one into an element rounds it to the element type, so
an element only ever holds values of its type.
-/

namespace GridStencil

/-- The type of the elements of a field. -/
inductive ElementType
  | f64
  | f32
  | i64
  | i32
  | bool
deriving DecidableEq

namespace ElementType

/-- All element types. -/
def all : List ElementType := [f64, f32, i64, i32, bool]

/-- The short name of a type. -/
def name : ElementType → String
  | f64 => "f64"
  | f32 => "f32"
  | i64 => "i64"
  | i32 => "i32"
  | bool => "bool"

/-- The long name of a type, where it has one. -/
def longName : ElementType → String
  | f64 => "float64"
  | f32 => "float32"
  | i64 => "int64"
  | i32 => "int32"
  | bool => "bool"

/-- The type that a short or long name stands for. -/
def named? (word : String) : Option ElementType :=
  all.find? fun type => type.name == word || type.longName == word

/-- The name of a type as a tag of structured data. -/
def tag : ElementType → String
  | f64 => "F64"
  | f32 => "F32"
  | i64 => "I64"
  | i32 => "I32"
  | bool => "Bool"

/-- Whether the elements are floating point numbers. -/
def isFloat : ElementType → Bool
  | f64 | f32 => true
  | i64 | i32 | bool => false

/-- The value that an element of this type holds after `x` was stored into it. -/
def cast (type : ElementType) (x : Float) : Float :=
  match type with
  | f64 => x
  | f32 => x.toFloat32.toFloat
  | i64 => Float.ofInt (Number.Binary64.clampTo 64 x)
  | i32 => Float.ofInt (Number.Binary64.clampTo 32 x)
  | bool => if x != 0.0 then 1.0 else 0.0

theorem named?_name (type : ElementType) : named? type.name = some type := by
  cases type <;> decide

theorem named?_longName (type : ElementType) : named? type.longName = some type := by
  cases type <;> decide

end ElementType

/-- Over which axes a field varies. -/
inductive Dimensions
  /-- One value for the whole grid. -/
  | zero
  /-- One value per grid point. -/
  | ijk
deriving DecidableEq

namespace Dimensions

/-- The dimensions as listings show them. -/
def name : Dimensions → String
  | zero => "()"
  | ijk => "IJK"

/-- The name of the dimensions as a tag of structured data. -/
def tag : Dimensions → String
  | zero => "Zero"
  | ijk => "IJK"

end Dimensions

end GridStencil
