import WildcardIndex.Index.Rebuild
/-!
# The registry — indexes behind handles

A host that keeps several indexes registers them and is given a handle for
each. Handles are numbered from 1 in the order of registration, and **a handle
is never given out twice**: the registry remembers every index it was given,
and removing one only takes it off the list. An index that was handed out
before it was removed stays usable.

A registry is commonly a counter for the next handle and a map from handles to
indexes that loses the removed ones. Both are read off the entries here: the
counter is always one more than their number, since each registration adds one
and nothing takes one away; the map has a handle while its entry is listed. The
entries stand in the order of their handles, so listing the handles ascends and
nothing has to be sorted.
-/

namespace WildcardIndex

/-- An index that was registered, and whether it still is. -/
structure Registration (I : Type) where
  /-- The index. -/
  index : Index I
  /-- It has not been removed. -/
  listed : Bool

/-- Indexes behind handles. The next handle given out is the number of entries
and one. -/
structure Registry (I : Type) where
  /-- The settings of the indexes built here. -/
  config : Config
  /-- Every index ever registered; the first has handle 1. -/
  entries : Array (Registration I)

namespace Registry

variable {I α : Type}

/-- A registry without an index, its configuration taken as it is. -/
def fresh (c : Config) : Registry I := ⟨c, #[]⟩

/-- A registry without an index, if the configuration is acceptable. -/
def withConfig (c : Config) : Except Error (Registry I) :=
  match c.validate with
  | .ok () => .ok (fresh c)
  | .error u => .error (.badConfiguration u.message)

/-- What was registered under a handle, removed or not. -/
def entry? (g : Registry I) (handle : Nat) : Option (Registration I) :=
  if handle = 0 then none else g.entries[handle - 1]?

/-- The index handed out under a handle, which may have been removed since. -/
def held? (g : Registry I) (handle : Nat) : Option (Index I) :=
  (g.entry? handle).map Registration.index

/-- Puts another index in the place of the one under a handle. -/
def setIndex (g : Registry I) (handle : Nat) (x : Index I) : Registry I :=
  { g with entries := g.entries.modify (handle - 1) fun e => { e with index := x } }

/-- Registers an index: its handle, and the registry after. -/
def register (g : Registry I) (x : Index I) : Nat × Registry I × List Event :=
  let handle := g.entries.size + 1
  (handle, { g with entries := g.entries.push ⟨x, true⟩ }, [.registered handle x.size])

/-- Builds an index from a source and registers it. **A failed build uses up no
handle.** -/
def build (g : Registry I) (source : Source I) :
    Except Error Nat × Registry I × List Event :=
  match (Index.withConfig g.config : Except Error (Index I)) with
  | .error e => (.error e, g, [])
  | .ok x =>
    match x.rebuild source with
    | ⟨.error e, _, events⟩ => (.error e, g, events)
    | ⟨.ok (), x, events⟩ =>
      let (handle, g, registered) := g.register x
      (.ok handle, g, events ++ registered)

/-- The index registered under a handle. -/
def load (g : Registry I) (handle : Nat) : Except Error (Index I) :=
  match g.entry? handle with
  | some ⟨x, true⟩ => .ok x
  | _ => .error (.unknownHandle handle)

/-- Rebuilds the index under a handle from a source. -/
def rebuild (g : Registry I) (handle : Nat) (source : Source I) :
    Except Error Unit × Registry I × List Event :=
  match g.load handle with
  | .error e => (.error e, g, [])
  | .ok x =>
    let ⟨result, x, events⟩ := x.rebuild source
    (result, g.setIndex handle x, events)

/-- Takes the index under a handle off the list and hands it out. -/
def remove (g : Registry I) (handle : Nat) : Except Error (Index I) × Registry I × List Event :=
  match g.load handle with
  | .error e => (.error e, g, [])
  | .ok x =>
    (.ok x,
      { g with entries := g.entries.modify (handle - 1) fun e => { e with listed := false } },
      [.unregistered handle])

/-- The handles of the listed indexes, ascending. -/
def handles (g : Registry I) : List Nat :=
  g.entries.toList.zipIdx.filterMap fun (e, i) => if e.listed then some (i + 1) else none

/-- The number of listed indexes. -/
def size (g : Registry I) : Nat := g.handles.length

/-- No index is listed. -/
def isEmpty (g : Registry I) : Bool := g.size == 0

end Registry

end WildcardIndex
