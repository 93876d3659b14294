/-!
# TOML values

* `Toml.Value`: what a document can hold. Floats and date-times are kept as they were written.
* `Toml.Table`: keys with their values, in document order.
-/

namespace LinkageAudit.Toml

/-- A TOML value. -/
inductive Value where
  | string (s : String)
  | integer (n : Int)
  | float (written : String)
  | boolean (b : Bool)
  | dateTime (written : String)
  | array (items : List Value)
  | table (entries : List (String × Value))
  deriving Repr

mutual

/-- Decides whether two values are equal. -/
def Value.decEq (v w : Value) : Decidable (v = w) :=
  match v with
  | .string s => match w with
    | .string s' => decidable_of_iff (s = s') (by rw [Value.string.injEq])
    | .integer _ | .float _ | .boolean _ | .dateTime _ | .array _ | .table _ => isFalse nofun
  | .integer n => match w with
    | .integer n' => decidable_of_iff (n = n') (by rw [Value.integer.injEq])
    | .string _ | .float _ | .boolean _ | .dateTime _ | .array _ | .table _ => isFalse nofun
  | .float s => match w with
    | .float s' => decidable_of_iff (s = s') (by rw [Value.float.injEq])
    | .string _ | .integer _ | .boolean _ | .dateTime _ | .array _ | .table _ => isFalse nofun
  | .boolean b => match w with
    | .boolean b' => decidable_of_iff (b = b') (by rw [Value.boolean.injEq])
    | .string _ | .integer _ | .float _ | .dateTime _ | .array _ | .table _ => isFalse nofun
  | .dateTime s => match w with
    | .dateTime s' => decidable_of_iff (s = s') (by rw [Value.dateTime.injEq])
    | .string _ | .integer _ | .float _ | .boolean _ | .array _ | .table _ => isFalse nofun
  | .array vs => match w with
    | .array ws =>
      haveI := itemsDecEq vs ws
      decidable_of_iff (vs = ws) (by rw [Value.array.injEq])
    | .string _ | .integer _ | .float _ | .boolean _ | .dateTime _ | .table _ => isFalse nofun
  | .table es => match w with
    | .table es' =>
      haveI := entriesDecEq es es'
      decidable_of_iff (es = es') (by rw [Value.table.injEq])
    | .string _ | .integer _ | .float _ | .boolean _ | .dateTime _ | .array _ => isFalse nofun

/-- Decides whether two lists of items are equal. -/
def itemsDecEq : (vs ws : List Value) → Decidable (vs = ws)
  | [], [] => isTrue rfl
  | v :: vs, w :: ws =>
    haveI := v.decEq w
    haveI := itemsDecEq vs ws
    decidable_of_iff (v = w ∧ vs = ws) (by rw [List.cons.injEq])
  | [], _ :: _ | _ :: _, [] => isFalse nofun

/-- Decides whether two lists of entries are equal. -/
def entriesDecEq : (es es' : List (String × Value)) → Decidable (es = es')
  | [], [] => isTrue rfl
  | (key, v) :: es, (key', v') :: es' =>
    haveI := v.decEq v'
    haveI := entriesDecEq es es'
    decidable_of_iff ((key = key' ∧ v = v') ∧ es = es') (by rw [List.cons.injEq, Prod.mk.injEq])
  | [], _ :: _ | _ :: _, [] => isFalse nofun

end

instance : DecidableEq Value := Value.decEq

/-- The keys of a table with their values. -/
abbrev Table := List (String × Value)

/-- The text of a string value. -/
def Value.string? : Value → Option String
  | string s => some s
  | _ => none

end LinkageAudit.Toml
