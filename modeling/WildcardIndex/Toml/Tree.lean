import WildcardIndex.Toml.Value
/-!
# TOML — putting a text's lines together

Headers and dotted keys add to tables that earlier lines began. **A table is
defined once**: a value never gets a second one, a table under its own header
gets no second header, and dots only reach into tables that dots made. A header
below another one's table, and a header above one, are both fine; the last
element of an array of tables stands for the array.
-/

namespace WildcardIndex.Toml

/-- Puts another value in the place of a key's. -/
def Entries.replace (es : Entries) (key : String) (v : Value) : Entries :=
  es.map fun (k, old) => (k, if k = key then v else old)

/-- Changes the last table of an array of tables. -/
def changeLast (f : TableKind → Entries → Option Entries) (items : List Value) :
    Option (List Value) :=
  match items.getLast? with
  | some (.table kind es) =>
    (f kind es).map fun es => items.dropLast ++ [.table kind es]
  | _ => none

/-- Adds a key with its value to a table, below the tables its dots name. -/
def Entries.put (key : String) (v : Value) (path : List String) (es : Entries) :
    Option Entries :=
  match path with
  | [] => if (es.lookup key).isSome then none else some (es ++ [(key, v)])
  | k :: path =>
    let below := fun (kind : TableKind) (kids : Entries) =>
      if path.isEmpty && kind != .dotted then none else Entries.put key v path kids
    match es.lookup k with
    | none => (below .dotted []).map fun kids => es ++ [(k, .table .dotted kids)]
    | some (.table kind kids) =>
      if kind = .implied ∨ kind = .dotted then
        (below kind kids).map fun kids => es.replace k (.table kind kids)
      else none
    | some (.array true items) =>
      (changeLast below items).map fun items => es.replace k (.array true items)
    | some _ => none

/-- Goes down the path of a header, making the tables that are missing, and
changes what is there with `f`. -/
def Entries.under (f : Entries → Option Entries) (path : List String) (es : Entries) :
    Option Entries :=
  match path with
  | [] => f es
  | k :: path =>
    match es.lookup k with
    | none => (Entries.under f path []).map fun kids => es ++ [(k, .table .implied kids)]
    | some (.table kind kids) =>
      if kind = .inlined then none
      else (Entries.under f path kids).map fun kids => es.replace k (.table kind kids)
    | some (.array true items) =>
      (changeLast (fun _ kids => Entries.under f path kids) items).map fun items =>
        es.replace k (.array true items)
    | some _ => none

/-- Begins the table of a header. -/
def Entries.openTable (key : String) (es : Entries) : Option Entries :=
  match es.lookup key with
  | none => some (es ++ [(key, .table .header [])])
  | some (.table .implied kids) => some (es.replace key (.table .header kids))
  | some _ => none

/-- Begins the next table of an array of tables. -/
def Entries.openItem (key : String) (es : Entries) : Option Entries :=
  match es.lookup key with
  | none => some (es ++ [(key, .array true [.table .header []])])
  | some (.array true items) =>
    some (es.replace key (.array true (items ++ [.table .header []])))
  | some _ => none

end WildcardIndex.Toml
