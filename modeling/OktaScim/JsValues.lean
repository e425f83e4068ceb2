import Mathlib.Data.Nat.Digits.Defs
import Mathlib.Data.Int.Notation

/-!
The JavaScript values that a JSON body can hold, and the conversions the
handlers apply to them: property reads, truthiness, iteration and `String()`.
A value that may be missing (`undefined`) is an `Option Json`. Operations that
raise a `TypeError` return `none`.
-/
namespace OktaScim.JsValues

/-- A parsed number: the digits of its shortest decimal form and the place of
the decimal point, counted from the left of the digits. -/
inductive JsNumber : Type
  | finite (negative : Bool) (digits : ℕ) (point : ℤ)
  | infinite (negative : Bool)
deriving DecidableEq

/-- An object lists its own properties; a parsed object names each one once. -/
inductive Json : Type
  | null
  | bool (b : Bool)
  | num (n : JsNumber)
  | str (s : String)
  | arr (items : List Json)
  | obj (fields : List (String × Json))

/-- A property a typed body may leave out (`undefined`) or set to null. -/
inductive Nullable (α : Type) : Type
  | undefined
  | null
  | value (a : α)
deriving DecidableEq

namespace Nullable

variable {α : Type}

/-- `a ?? b` -/
def orElse (a : Nullable α) (b : α) : α :=
  match a with
  | .value a => a
  | _ => b

/-- A JSON value for the property, when it is not left out. -/
def toData (toJson : α → Json) : Nullable α → Option Json
  | .undefined => none
  | .null => some .null
  | .value a => some (toJson a)

end Nullable

/-- As far as ASCII letters come out of it: their capitals, and the Kelvin sign. -/
def toLowerCase (s : String) : String :=
  String.ofList (s.toList.map fun c => if c = '\u212a' then 'k' else c.toLower)

namespace JsNumber

def zeros (n : ℕ) : String := String.ofList (List.replicate n '0')

/-- `Number::toString` in radix 10. -/
def toStr : JsNumber → String
  | .infinite negative => (if negative then "-" else "") ++ "Infinity"
  | .finite negative digits point =>
    let ds := ((Nat.digits 10 digits).reverse.map Nat.digitChar)
    let k : ℤ := ds.length
    let body :=
      if digits = 0 then "0"
      else if k ≤ point ∧ point ≤ 21 then String.ofList ds ++ zeros (point - k).toNat
      else if 0 < point ∧ point ≤ 21 then
        String.ofList (ds.take point.toNat) ++ "." ++ String.ofList (ds.drop point.toNat)
      else if -6 < point ∧ point ≤ 0 then "0." ++ zeros (-point).toNat ++ String.ofList ds
      else
        let e := point - 1
        let exponent := (if e < 0 then "e-" else "e+") ++ toString e.natAbs
        if ds.length = 1 then String.ofList ds ++ exponent
        else String.ofList (ds.take 1) ++ "." ++ String.ofList (ds.drop 1) ++ exponent
    (if negative ∧ digits ≠ 0 then "-" else "") ++ body

def truthy : JsNumber → Bool
  | .infinite _ => true
  | .finite _ digits _ => digits != 0

/-- `Math.abs(n) <= bound` -/
def atMost (bound : ℕ) : JsNumber → Bool
  | .infinite _ => false
  | .finite _ digits point =>
    let shift := point - ((Nat.digits 10 digits).length : ℤ)
    decide (digits * 10 ^ shift.toNat ≤ bound * 10 ^ (-shift).toNat)

end JsNumber

namespace Json

/-- `value.k` -/
def get (value : Json) (k : String) : Option Json :=
  match value with
  | .obj fields => (fields.find? (fun f => f.1 = k)).map Prod.snd
  | _ => none

/-- `k in value`, for an object value and a name that no prototype has. -/
def has (value : Json) (k : String) : Bool := (value.get k).isSome

def truthy : Json → Bool
  | .null => false
  | .bool b => b
  | .num n => n.truthy
  | .str s => s != ""
  | .arr _ => true
  | .obj _ => true

mutual

/-- `String(value)`. An own property `toString` of a parsed object is not a
function, so such an object has no primitive value. -/
def toStr : Json → Option String
  | .null => some "null"
  | .bool b => some (if b then "true" else "false")
  | .num n => some n.toStr
  | .str s => some s
  | .arr items => (itemStrs items).map (String.intercalate ",")
  | .obj fields =>
    if fields.any (fun f => f.1 = "toString") then none else some "[object Object]"

/-- The texts that `Array.prototype.join` puts together. -/
def itemStrs : List Json → Option (List String)
  | [] => some []
  | item :: items =>
    match item with
    | .null => (itemStrs items).map ("" :: ·)
    | item => (toStr item).bind fun s => (itemStrs items).map (s :: ·)

end

end Json

/-- `Boolean(value)` -/
def toBoolean (value : Option Json) : Bool :=
  match value with
  | none => false
  | some v => v.truthy

/-- `String(value)` -/
def jsString (value : Option Json) : Option String :=
  match value with
  | none => some "undefined"
  | some v => v.toStr

/-- `a ?? b` -/
def coalesce (a b : Option Json) : Option Json :=
  match a with
  | none => b
  | some .null => b
  | a => a

/-- `if (k in value) target = String(value[k])`, as the new content of the target. -/
def assignString (value : Json) (k : String) (target : Option String) : Option (Option String) :=
  if value.has k then (jsString (value.get k)).map some else some target

/-- What `for (const x of value ?? [])` goes through. -/
def iterate : Option Json → Option (List Json)
  | none => some []
  | some .null => some []
  | some (.arr items) => some items
  | some (.str s) => some (s.toList.map (fun c => .str (String.ofList [c])))
  | some _ => none

/-- A string that is neither missing nor empty. -/
def nonempty (s : Option String) : Bool :=
  match s with
  | none => false
  | some t => t != ""

@[simp] theorem toStr_str (s : String) : (Json.str s).toStr = some s := by
  rw [Json.toStr]

/-- The assignment is one to an empty target, with the old content kept behind it. -/
theorem assignString_eq (value : Json) (k : String) (target : Option String) :
    assignString value k target =
      (assignString value k none).map (fun new => new.or target) := by
  unfold assignString
  split
  · cases jsString (value.get k) <;> rfl
  · rfl

example : jsString (some (.arr [.null, .num (.finite true 15 1), .obj []])) =
    some ",-1.5,[object Object]" := by decide

end OktaScim.JsValues
