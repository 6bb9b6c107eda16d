import Mathlib.Data.List.Basic

/-! JSON trees over a type of numbers, and what their paths lead to. -/

/-- A value. The fields of an object stand in the order of their keys. -/
inductive JsonTree (Number : Type) where
  | null
  | bool (value : Bool)
  | number (value : Number)
  | string (value : String)
  | array (items : List (JsonTree Number))
  | object (fields : List (String × JsonTree Number))

namespace JsonTree

variable {Number : Type}

section
variable [BEq Number]

mutual

/-- Deep equality. -/
def beq : JsonTree Number → JsonTree Number → Bool
  | .null, .null => true
  | .bool a, .bool b => a == b
  | .number a, .number b => a == b
  | .string a, .string b => a == b
  | .array a, .array b => beqItems a b
  | .object a, .object b => beqFields a b
  | _, _ => false

def beqItems : List (JsonTree Number) → List (JsonTree Number) → Bool
  | [], [] => true
  | a :: as, b :: bs => beq a b && beqItems as bs
  | _, _ => false

def beqFields : List (String × JsonTree Number) → List (String × JsonTree Number) → Bool
  | [], [] => true
  | (k, a) :: as, (l, b) :: bs => k == l && beq a b && beqFields as bs
  | _, _ => false

end

instance : BEq (JsonTree Number) := ⟨beq⟩

end

/-- Into a field of an object or to an item of an array. -/
inductive Step where
  | key (name : String)
  | index (place : Nat)

/-- The value directly below another. -/
def child? : JsonTree Number → Step → Option (JsonTree Number)
  | .object fields, .key name => fields.lookup name
  | .array items, .index place => items[place]?
  | _, _ => none

def at? (value : JsonTree Number) : List Step → Option (JsonTree Number)
  | [] => some value
  | step :: path => (value.child? step).bind fun child => child.at? path

/-- No object inside has two fields of one key. -/
def WellFormed (value : JsonTree Number) : Prop :=
  ∀ path fields, value.at? path = some (.object fields) → (fields.map Prod.fst).Nodup

theorem WellFormed.child {value child : JsonTree Number} {step : Step} (h : value.WellFormed)
    (hChild : value.child? step = some child) : child.WellFormed := by
  intro path fields hAt
  apply h (step :: path) fields
  rw [at?, hChild]
  exact hAt

end JsonTree
