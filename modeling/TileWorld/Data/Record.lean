import TileWorld.Data.Value

/-!
# Reading stored values

A type with fields is stored as a record, in which fields may come in any
order and unknown ones are ignored, or as the list of its fields in their
own order. `FieldReader` reads the fields one after another from either
form; what stands for a missing field is up to each field.
-/

namespace TileWorld.Data

/-- What is left of a stored value whose fields are being read. -/
inductive FieldSource where
  | named (fields : List (String × Value))
  | listed (rest : List Value)

/-- Reads some fields of a stored value. -/
abbrev FieldReader (α : Type) := StateT FieldSource Option α

namespace FieldReader

/-- Reads one field. A record without it gives `absent`, and a list that
is too short gives `beyond`, if there is such a thing. -/
def field {α : Type} (name : String) (read : Value → Option α) (absent beyond : Option α) :
    FieldReader α := fun source =>
  match source with
  | .named fields =>
    match fields.lookup name with
    | some value => (read value).map (·, source)
    | none => absent.map (·, source)
  | .listed [] => beyond.map (·, source)
  | .listed (value :: rest) => (read value).map (·, .listed rest)

/-- Reads a field that must be there. -/
def required {α : Type} (name : String) (read : Value → Option α) : FieldReader α :=
  field name read none none

/-- Reads a field that a record may leave out in favour of a default. -/
def optional {α : Type} (name : String) (read : Value → Option α) (default : α) :
    FieldReader α :=
  field name read (some default) none

/-- Reads a field for which a default stands wherever it is missing. -/
def defaulted {α : Type} (name : String) (read : Value → Option α) (default : α) :
    FieldReader α :=
  field name read (some default) (some default)

end FieldReader

namespace Value

/-- Reads a value with fields, from its record or its list. -/
def fields? {α : Type} (rule : ListRule) (read : FieldReader α) : Value → Option α
  | record fields => (read (.named fields)).map (·.1)
  | list elements => do
    let (a, source) ← read (.listed elements)
    match rule, source with
    | .refuseSurplus, .listed (_ :: _) => none
    | _, _ => some a
  | _ => none

def int? (lowest largest : Int) : Value → Option Int
  | int n => if lowest ≤ n ∧ n ≤ largest then some n else none
  | _ => none

def uint8? (v : Value) : Option UInt8 :=
  (v.int? 0 255).map fun n => UInt8.ofNat n.toNat

def uint16? (v : Value) : Option UInt16 :=
  (v.int? 0 65535).map fun n => UInt16.ofNat n.toNat

def uint32? (v : Value) : Option UInt32 :=
  (v.int? 0 4294967295).map fun n => UInt32.ofNat n.toNat

def int32? (v : Value) : Option Int32 :=
  (v.int? (-2147483648) 2147483647).map Int32.ofInt

/-- Reads a natural number of sixty-four bits. -/
def count? (v : Value) : Option Nat :=
  (v.int? 0 18446744073709551615).map Int.toNat

def bool? : Value → Option Bool
  | bool b => some b
  | _ => none

def option? {α : Type} (read : Value → Option α) : Value → Option (Option α)
  | null => some none
  | v => (read v).map some

/-- Reads the name of one of several constants. The name may also be the
only field of a record, with nothing in it. -/
def constant? {α : Type} (all : List α) (name : α → String) : Value → Option α
  | text s => all.find? (name · == s)
  | record [(s, null)] => all.find? (name · == s)
  | _ => none

end Value

end TileWorld.Data
