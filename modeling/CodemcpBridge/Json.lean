import CodemcpBridge.Text

/-!
# JSON values and their digests

Inputs, results and stored documents are JSON values.  A digest is kept symbolically: `sha256 l v`
is the string `l` followed by the hex digest of the JSON text of `v`, so two digests are equal
exactly when their texts are, which is what it means to take SHA-256 to be injective.  The JSON text
written with sorted keys depends on the value up to the order of its keys, which `canonical` fixes.
-/

namespace CodemcpBridge

/-- Byte strings are compared in one way, whatever else is imported. -/
instance instDecidableEqByteArray : DecidableEq ByteArray := ByteArray.instDecidableEq

/-- A JSON value, with digests as values of their own. -/
inductive Json
  | null
  | bool (b : Bool)
  | num (n : Int)
  | str (s : String)
  | sha256 (label : String) (of : Json)
  | sha256Bytes (of : ByteArray)
  | arr (xs : List Json)
  | obj (fields : List (String × Json))

namespace Json

instance : Inhabited Json := ⟨null⟩

mutual
/-- Equality of values, decided. -/
def beq : Json → Json → Bool
  | .null, .null => true
  | .bool a, .bool b => a == b
  | .num a, .num b => a == b
  | .str a, .str b => a == b
  | .sha256 k a, .sha256 l b => k == l && beq a b
  | .sha256Bytes a, .sha256Bytes b => decide (a = b)
  | .arr xs, .arr ys => beqList xs ys
  | .obj xs, .obj ys => beqFields xs ys
  | _, _ => false
def beqList : List Json → List Json → Bool
  | [], [] => true
  | x :: xs, y :: ys => beq x y && beqList xs ys
  | _, _ => false
def beqFields : List (String × Json) → List (String × Json) → Bool
  | [], [] => true
  | (k, x) :: xs, (l, y) :: ys => k == l && beq x y && beqFields xs ys
  | _, _ => false
end

mutual
theorem beq_iff : ∀ a b : Json, beq a b = true ↔ a = b
  | .null, b => by cases b <;> simp [beq]
  | .bool a, b => by cases b <;> simp [beq]
  | .num a, b => by cases b <;> simp [beq]
  | .str a, b => by cases b <;> simp [beq]
  | .sha256 k a, b => by cases b <;> simp [beq, beq_iff a]
  | .sha256Bytes a, b => by cases b <;> simp [beq]
  | .arr xs, b => by cases b <;> simp [beq, beqList_iff xs]
  | .obj xs, b => by cases b <;> simp [beq, beqFields_iff xs]
theorem beqList_iff : ∀ xs ys : List Json, beqList xs ys = true ↔ xs = ys
  | [], ys => by cases ys <;> simp [beqList]
  | x :: xs, ys => by cases ys <;> simp [beqList, beq_iff x, beqList_iff xs]
theorem beqFields_iff : ∀ xs ys : List (String × Json), beqFields xs ys = true ↔ xs = ys
  | [], ys => by cases ys <;> simp [beqFields]
  | (k, x) :: xs, ys => by
      rcases ys with _ | ⟨⟨l, y⟩, ys⟩ <;> simp [beqFields, beq_iff x, beqFields_iff xs]
end

instance : DecidableEq Json := fun a b => decidable_of_iff _ (beq_iff a b)

/-- `sort_keys` goes by code points. -/
def insertKey (x : String × Json) : List (String × Json) → List (String × Json)
  | [] => [x]
  | y :: ys => if Text.le x.1 y.1 then x :: y :: ys else y :: insertKey x ys

def sortKeys : List (String × Json) → List (String × Json)
  | [] => []
  | x :: xs => insertKey x (sortKeys xs)

mutual
/-- The value with every object's keys in order: what `sort_keys` leaves of it. -/
def canonical : Json → Json
  | .arr xs => .arr (canonicalList xs)
  | .obj fields => .obj (sortKeys (canonicalFields fields))
  | j => j
def canonicalList : List Json → List Json
  | [] => []
  | x :: xs => x.canonical :: canonicalList xs
def canonicalFields : List (String × Json) → List (String × Json)
  | [] => []
  | (k, x) :: xs => (k, x.canonical) :: canonicalFields xs
end

/-- The text of a string value. -/
def str? : Json → Option String
  | .str s => some s
  | _ => none

/-- A string, or null where there is none. -/
def ofOption : Option String → Json
  | some s => .str s
  | none => .null

def ofStrings (xs : List String) : Json := .arr (xs.map .str)

end Json

/-- A dictionary, in the order in which it was written. -/
abbrev Dict := List (String × Json)

/-- `dict.get`. -/
def Dict.get? (d : Dict) (key : String) : Option Json :=
  (d.find? fun f => f.1 == key).map Prod.snd

/-- `d[key] = value`. -/
def Dict.set (d : Dict) (key : String) (value : Json) : Dict :=
  if d.any fun f => f.1 == key then d.map fun f => if f.1 == key then (key, value) else f
  else d ++ [(key, value)]

/-- The digest that `request_hash` takes of a value. -/
def requestHash (value : Json) : Json := .sha256 "" value.canonical

theorem requestHash_inj {a b : Json} :
    requestHash a = requestHash b ↔ a.canonical = b.canonical := by
  simp [requestHash]

/-- Two objects that differ in the order of their keys only have one digest. -/
example (p d : String) : requestHash (.obj [("path", .str p), ("description", .str d)]) =
    requestHash (.obj [("description", .str d), ("path", .str p)]) := by
  simp [requestHash, Json.canonical, Json.canonicalFields, Json.sortKeys, Json.insertKey,
    Text.le, Text.leChars]

end CodemcpBridge
