/-! Values of TOML documents. Numbers with a fraction or an exponent, and dates and times, are
told from the other values but not read. -/

namespace PolicyReview.Toml

inductive Value where
  | text (text : String)
  | integer (value : Int)
  | boolean (value : Bool)
  | float
  | moment
  | array (items : List Value)
  | table (entries : List (String × Value))
  deriving Repr, Inhabited

inductive Origin where
  | implied
  | header
  | dotted
  deriving DecidableEq, Repr

inductive Entry where
  | value (value : Value)
  | table (origin : Origin) (entries : List (String × Entry))
  | tables (items : List (List (String × Entry)))
  deriving Repr, Inhabited

abbrev Entries := List (String × Entry)

namespace Entries

def set (name : String) (entry : Entry) : Entries → Entries
  | [] => [(name, entry)]
  | (other, old) :: rest =>
    if other = name then (name, entry) :: rest else (other, old) :: set name entry rest

/-- Puts a value under a path of names. Tables on the way are made where there are none, and may
not have a header of their own. -/
def put? (path : List String) (value : Value) (entries : Entries) : Option Entries :=
  match path with
  | [] => none
  | [name] =>
    match entries.lookup name with
    | none => some (set name (.value value) entries)
    | some _ => none
  | name :: path =>
    match entries.lookup name with
    | none => (put? path value []).map fun inner => set name (.table .dotted inner) entries
    | some (.table .dotted inner) =>
      (put? path value inner).map fun inner => set name (.table .dotted inner) entries
    | some (.table .implied inner) =>
      (put? path value inner).map fun inner => set name (.table .implied inner) entries
    | some _ => none

/-- Changes the entries of the table that a path of names leads to, passing through the last one
of tables under one name. -/
def within? (change : Entries → Option Entries) (path : List String) (entries : Entries) :
    Option Entries :=
  match path with
  | [] => change entries
  | name :: path =>
    match entries.lookup name with
    | none => (within? change path []).map fun inner => set name (.table .implied inner) entries
    | some (.table origin inner) =>
      (within? change path inner).map fun inner => set name (.table origin inner) entries
    | some (.tables (last :: before)) =>
      (within? change path last).map fun last => set name (.tables (last :: before)) entries
    | some _ => none

def openTable? (name : String) (entries : Entries) : Option Entries :=
  match entries.lookup name with
  | none => some (set name (.table .header []) entries)
  | some (.table .implied inner) => some (set name (.table .header inner) entries)
  | some _ => none

def openItem? (name : String) (entries : Entries) : Option Entries :=
  match entries.lookup name with
  | none => some (set name (.tables [[]]) entries)
  | some (.tables items) => some (set name (.tables ([] :: items)) entries)
  | some _ => none

end Entries

mutual

def Entry.toValue : Entry → Value
  | .value value => value
  | .table _ entries => .table (Entries.toValues entries)
  | .tables items => .array (Entries.toTables items).reverse

def Entries.toValues : List (String × Entry) → List (String × Value)
  | [] => []
  | (name, entry) :: rest => (name, entry.toValue) :: Entries.toValues rest

def Entries.toTables : List (List (String × Entry)) → List Value
  | [] => []
  | entries :: rest => .table (Entries.toValues entries) :: Entries.toTables rest

end

end PolicyReview.Toml
