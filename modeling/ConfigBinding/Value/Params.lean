import ConfigBinding.Value

/-!
# Parameters

The final values of a configurable's parameters by name, in the order of its signature. A
constructor reads them through accessors that fail with a message when a parameter is missing or
has another shape.

Results:
1. `Params.get?_insert`: what is found after an insertion.
-/

namespace ConfigBinding

/-- Values by parameter name. -/
structure Params where
  entries : List (String × Value)

namespace Params

def empty : Params := ⟨[]⟩

def ofList (entries : List (String × Value)) : Params := ⟨Entries.ofList entries⟩

def insert (params : Params) (name : String) (value : Value) : Params :=
  ⟨Entries.insert name value params.entries⟩

def get? (params : Params) (name : String) : Option Value := Entries.get? name params.entries

def names (params : Params) : List String := params.entries.map Prod.fst

def size (params : Params) : Nat := params.entries.length

def isEmpty (params : Params) : Bool := params.entries.isEmpty

/-- Whether two records hold equal values under the same names. -/
def same (a b : Params) : Bool :=
  a.size == b.size && Value.sameEntries a.entries b.entries

/-- The value of a parameter that has to be there. -/
def require (params : Params) (name : String) : Except String Value :=
  match params.get? name with
  | some value => .ok value
  | none => .error ("no parameter `" ++ name ++ "`")

/-- The parameter seen through `view`, which is undefined for values that are no `expected`. -/
def read (view : Value → Option α) (expected : String) (params : Params) (name : String) :
    Except String α := do
  let value ← params.require name
  match view value with
  | some a => return a
  | none =>
    throw ("parameter `" ++ name ++ "` should be " ++ expected ++ ", found " ++ value.shape)

def int (params : Params) (name : String) : Except String Int64 :=
  params.read Value.int? "int" name

def float (params : Params) (name : String) : Except String Binary64 :=
  params.read Value.float? "float" name

def bool (params : Params) (name : String) : Except String Bool :=
  params.read Value.bool? "bool" name

def string (params : Params) (name : String) : Except String String :=
  params.read Value.str? "string" name

/-- The parameters of a constructed configurable that is a plain record. `expected` is what the
message calls such a record. -/
def record (expected : String) (params : Params) (name : String) : Except String Params :=
  params.read (fun
    | .object _ inner none => some ⟨inner⟩
    | _ => none) expected name

/-- What a constructor made of the configurable that the parameter refers to. `expected` is what the
message calls such a product. -/
def product (expected : String) (params : Params) (name : String) : Except String String :=
  params.read (fun
    | .object _ _ made => made
    | _ => none) expected name

theorem get?_insert (params : Params) (name other : String) (value : Value) :
    (params.insert name value).get? other =
      if name = other then some value else params.get? other :=
  Entries.get?_insert ..

end Params

end ConfigBinding
