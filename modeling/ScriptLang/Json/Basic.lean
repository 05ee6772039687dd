import ScriptLang.Number.Layout
import ScriptLang.Text.Quoted

/-!
# Data documents

The values of the document format that syntax trees are stored in. Whole numbers and doubles are
different values, the fields of an object keep their order, and a field that is given twice keeps
its first place and its last value.

## Main Definitions

* `Json`: a document.
* `Json.field?`: the value of a field.
* `Json.put`: an object's fields with one more.
* `Json.shown`, `Json.listed`: a document inside a message, a text standing for itself or quoted.
-/

namespace ScriptLang

/-- A document. -/
inductive Json where
  | null
  | bool (b : Bool)
  | int (n : Int)
  | num (x : Float)
  | str (text : String)
  | arr (items : List Json)
  | obj (fields : List (String × Json))
deriving Inhabited

namespace Json

/-! ### Fields -/

/-- The value of a field of an object. -/
def field? (key : String) (fields : List (String × Json)) : Option Json :=
  fields.lookup key

/-- The fields with `key` bound to `value`: in its old place if it has one, else at the end. -/
def put (key : String) (value : Json) : List (String × Json) → List (String × Json)
  | [] => [(key, value)]
  | (k, v) :: fields => if k = key then (k, value) :: fields else (k, v) :: put key value fields

@[simp] theorem put_nil (key : String) (value : Json) : put key value [] = [(key, value)] := rfl

/-- Only the field that is given changes its value. -/
theorem field?_put (key k : String) (value : Json) (fields : List (String × Json)) :
    field? k (put key value fields) = if k = key then some value else field? k fields := by
  induction fields with
  | nil => by_cases h : k = key <;> simp [field?, h, List.lookup_cons, beq_false_of_ne]
  | cons entry fields ih =>
    obtain ⟨m, v⟩ := entry
    unfold field? at ih ⊢
    by_cases hm : m = key
    · by_cases hk : k = key
      · simp [put, hm, hk]
      · simp [put, hm, hk, List.lookup_cons, beq_false_of_ne hk]
    · by_cases hk : k = m
      · simp [put, hm, hk]
      · simp [put, hm, List.lookup_cons, beq_false_of_ne hk, ih]

/-! ### Documents inside messages -/

/-- Texts with a comma and a blank between them. -/
def commas (texts : List String) : String :=
  String.intercalate ", " texts

mutual

/-- A document as a listing shows it, texts in quotes. -/
def listed : Json → String
  | null => "None"
  | bool true => "True"
  | bool false => "False"
  | int n => Number.wholeText n
  | num x => Number.listed x
  | str text => Text.quoted text
  | arr items => "[" ++ commas (listedItems items) ++ "]"
  | obj fields => "\x7b" ++ commas (listedFields fields) ++ "\x7d"

/-- The members of a list as a listing shows them. -/
def listedItems : List Json → List String
  | [] => []
  | item :: items => item.listed :: listedItems items

/-- The fields of an object as a listing shows them. -/
def listedFields : List (String × Json) → List String
  | [] => []
  | (key, value) :: fields => (Text.quoted key ++ ": " ++ value.listed) :: listedFields fields

end

/-- A document inside a message: a text stands for itself, everything else is listed. -/
def shown : Json → String
  | str text => text
  | document => document.listed

@[simp] theorem shown_str (text : String) : (str text).shown = text := rfl

end Json

end ScriptLang
