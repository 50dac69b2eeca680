/-
CoreX/Lib/GoJson.lean

How Go's `encoding/json` stores a JSON value into a struct, on values, not on text.

A struct is a list of field names, each with the function that stores a value there
(`Struct`).  The members of an object are gone through in their order.  A member goes to
the field of its name, or else to the first one whose name differs in case only; if there
is none, it is ignored.  A value of the wrong type is an error for the whole call.
`null` stands for "leave it as it is", except for slices, where it is the empty one.

So an object that has none of the fields of a struct is stored without an error, as a
struct of zero values (`unmarshal_unknown`).
-/
import Mathlib.Data.List.Basic

namespace GoJson

inductive Json
  | null
  | bool (b : Bool)
  | int (n : Int)
  /-- A number with a fraction or an exponent. -/
  | frac
  | str (s : String)
  | arr (items : List Json)
  | obj (members : List (String × Json))

/-! ### Names -/

/-- Case folding, as far as it can lead to an ASCII letter: the long s and the Kelvin
sign fold as well. -/
def foldRune (c : Char) : Char :=
  if c = 'ſ' then 's' else if c = 'K' then 'k' else c.toLower

def foldName (name : String) : List Char := name.toList.map foldRune

/-! ### Structs -/

/-- The fields of a struct type `σ`: name, and how a value is stored. -/
abbrev Struct (σ : Type*) := List (String × (σ → Json → Option σ))

variable {σ : Type*}

namespace Struct

/-- The field that a member of an object goes to. -/
def field? (S : Struct σ) (name : String) : Option (σ → Json → Option σ) :=
  match S.find? fun f => f.1 = name with
  | some f => some f.2
  | none => (S.find? fun f => foldName f.1 = foldName name).map Prod.snd

/-- One member. -/
def store (S : Struct σ) (x : σ) (member : String × Json) : Option σ :=
  match S.field? member.1 with
  | none => some x
  | some set => set x member.2

/-- `json.Unmarshal` into a struct that holds `x`. -/
def unmarshal (S : Struct σ) (x : σ) : Json → Option σ
  | .null => some x
  | .obj members => members.foldlM S.store x
  | _ => none

variable {S : Struct σ} {x y : σ} {member : String × Json} {members : List (String × Json)}

theorem store_unknown (h : S.field? member.1 = none) : S.store x member = some x := by
  rw [store, h]

theorem unmarshal_unknown (h : ∀ m ∈ members, S.field? m.1 = none) :
    S.unmarshal x (.obj members) = some x := by
  show members.foldlM S.store x = some x
  induction members with
  | nil => rfl
  | cons m members ih =>
    rw [List.foldlM_cons, store_unknown (h m List.mem_cons_self)]
    exact ih fun m' hm' => h m' (List.mem_cons_of_mem m hm')

end Struct

/-! ### Values -/

/-- A `string` field. -/
def setString (set : String → σ → σ) (x : σ) : Json → Option σ
  | .str s => some (set s x)
  | .null => some x
  | _ => none

/-- A `uint64` field. -/
def setUint64 (set : Nat → σ → σ) (x : σ) : Json → Option σ
  | .int n => if 0 ≤ n ∧ n.toNat < UInt64.size then some (set n.toNat x) else none
  | .null => some x
  | _ => none

/-- An element of a `[]string`. -/
def stringItem : Json → Option String
  | .str s => some s
  | .null => some ""
  | _ => none

/-- A `[]string` field. -/
def setStrings (set : List String → σ → σ) (x : σ) : Json → Option σ
  | .arr items => (items.mapM stringItem).map fun l => set l x
  | .null => some (set [] x)
  | _ => none

theorem setStrings_strings (set : List String → σ → σ) (x : σ) (l : List String) :
    setStrings set x (.arr (l.map .str)) = some (set l x) := by
  have hitems : (l.map Json.str).mapM stringItem = some l := by
    induction l with
    | nil => rfl
    | cons s l ih =>
      rw [List.map_cons, List.mapM_cons, ih]
      rfl
  rw [setStrings, hitems]
  rfl

end GoJson
