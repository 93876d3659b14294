import LinkageAudit.Proofs.Json.Grammar

/-!
# Reading JSON values

* `Json.Value.get?` and its companions: a value read by key and by type. A reader that expects
  another type gets nothing.
* `Json.Schema`: the part of JSON Schema that report schemas use; `Json.Schema.accepts` decides
  whether a value satisfies a schema.
-/

namespace LinkageAudit.Json

namespace Value

/-- The member of an object with a name. -/
def get? : Value → String → Option Value
  | object members, name => members.lookup name
  | _, _ => none

/-- The string that a value is. -/
def string? : Value → Option String
  | string s => some s
  | _ => none

/-- The natural number that a value is. -/
def nat? : Value → Option Nat
  | number q => if q.den = 1 ∧ 0 ≤ q then some q.num.toNat else none
  | _ => none

/-- The items of an array, each of them read. -/
def items? {α : Type} (read : Value → Option α) : Value → Option (List α)
  | array items => items.mapM read
  | _ => none

/-- The first member with a name counts. -/
@[simp] theorem get?_object_cons (key : String) (v : Value) (members : List (String × Value))
    (name : String) : (object ((key, v) :: members)).get? name =
      if name = key then some v else (object members).get? name := by
  rw [get?, List.lookup_cons]
  by_cases h : name = key
  · rw [if_pos h, beq_iff_eq.2 h]
  · rw [if_neg h, beq_eq_false_iff_ne.2 h, get?]

@[simp] theorem string?_string (s : String) : (string s).string? = some s := rfl

@[simp] theorem nat?_number (n : Nat) : (number n).nat? = some n := by
  rw [nat?, if_pos ⟨Rat.den_natCast n, Rat.natCast_nonneg⟩, Rat.num_natCast, Int.toNat_natCast]

/-- What is written item by item is read item by item. -/
theorem items?_map {α : Type} {read : Value → Option α} {write : α → Value}
    (h : ∀ a, read (write a) = some a) (as : List α) :
    (array (as.map write)).items? read = some as := by
  show (as.map write).mapM read = some as
  induction as with
  | nil => rfl
  | cons a as ih => rw [List.map_cons, List.mapM_cons, h, ih]; rfl

end Value

/-! ## Schemas -/

/-- A description of values. Of an object it says which members there must be, whether there may be
others than the described ones, and what these are. -/
inductive Schema where
  | boolean
  | string
  | integer (minimum : Int)
  | enum (strings : List String)
  | array (items : Schema)
  | object (required : List String) (closed : Bool) (properties : List (String × Schema))
  deriving Repr

namespace Schema

mutual

/-- The value is as the schema describes it. An object that has a member twice satisfies no
schema. -/
def accepts : Schema → Value → Bool
  | boolean, .bool _ => true
  | string, .string _ => true
  | integer minimum, .number q => q.den = 1 && (minimum : Rat) ≤ q
  | enum strings, .string s => s ∈ strings
  | array schema, .array items => items.all fun v => schema.accepts v
  | object required closed properties, .object members =>
    let names := members.map (·.1)
    decide names.Nodup && required.all (· ∈ names) &&
      (!closed || names.all (· ∈ properties.map (·.1))) && acceptsMembers properties members
  | _, _ => false

/-- Each described member is as its description says. -/
def acceptsMembers : List (String × Schema) → List (String × Value) → Bool
  | [], _ => true
  | (name, schema) :: properties, members =>
    (members.all fun m => m.1 != name || schema.accepts m.2) && acceptsMembers properties members

end

@[simp] theorem boolean_accepts (b : Bool) : boolean.accepts (.bool b) := rfl

@[simp] theorem string_accepts (s : String) : string.accepts (.string s) := rfl

@[simp] theorem integer_accepts_natCast (n : Nat) : (integer 0).accepts (.number n) := by
  have hminimum : ((0 : Int) : Rat) ≤ n := Rat.natCast_nonneg
  rw [accepts, decide_eq_true (Rat.den_natCast n), decide_eq_true hminimum, Bool.and_true]

@[simp] theorem enum_accepts_iff {strings : List String} {s : String} :
    (enum strings).accepts (.string s) ↔ s ∈ strings := by
  simp [accepts]

theorem array_accepts_map {α : Type} {schema : Schema} {write : α → Value}
    (h : ∀ a, schema.accepts (write a)) (as : List α) :
    (array schema).accepts (.array (as.map write)) := by
  simp [accepts, h]

theorem acceptsMembers_iff {properties : List (String × Schema)} {members : List (String × Value)} :
    acceptsMembers properties members ↔
      ∀ p ∈ properties, ∀ m ∈ members, m.1 = p.1 → p.2.accepts m.2 := by
  induction properties with
  | nil => simp [acceptsMembers]
  | cons p properties ih =>
    rw [acceptsMembers, Bool.and_eq_true, ih, List.forall_mem_cons]
    simp [imp_iff_not_or]

/-- An object satisfies a schema if it has the right names, each once, and under each of them a
value that is as described. -/
theorem object_accepts_iff {required : List String} {closed : Bool}
    {properties : List (String × Schema)} {members : List (String × Value)} :
    (object required closed properties).accepts (.object members) ↔
      (members.map (·.1)).Nodup ∧ (∀ name ∈ required, name ∈ members.map (·.1)) ∧
      (closed → ∀ name ∈ members.map (·.1), name ∈ properties.map (·.1)) ∧
      ∀ p ∈ properties, ∀ m ∈ members, m.1 = p.1 → p.2.accepts m.2 := by
  rw [← acceptsMembers_iff]
  cases closed <;> simp [accepts, and_assoc]

end Schema

end LinkageAudit.Json
