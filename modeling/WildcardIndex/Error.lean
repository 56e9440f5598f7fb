import WildcardIndex.RecordSet.Record
import WildcardIndex.Store.Slot
/-!
# Errors — what an index can report

Reading a pattern never fails and a lookup that finds nothing is an empty
answer. What is left is growth, bookkeeping, configuration, handles and sources
that change while they are read. Every cause has a code; only a broken
invariant leaves the index unusable.
-/

namespace WildcardIndex

/-- The ways the sets and the store can disagree. -/
inductive Violation where
  /-- The free list names a slot the store does not have. -/
  | freeSlotBeyond (r : Record) (slots : Nat)
  /-- An answer names a record whose slot is not live. -/
  | notLive (r : Record) (state : SlotState)
  /-- An answer names a record without a slot. -/
  | outOfRange (r : Record) (slots : Nat)
  /-- A disagreement found outside the index, in the finder's words. -/
  | reported (text : String)
  deriving DecidableEq, Repr

/-- The ways the two scans of a source can disagree. -/
inductive SourceChange where
  /-- The second scan has another value, or one too many, at a record. -/
  | differs (r : Nat)
  /-- The second scan stopped early. -/
  | shorter (first second : Nat)
  /-- A change noticed by the source itself, in its words. -/
  | reported (text : String)
  deriving DecidableEq, Repr

/-- What an operation on an index can fail with. -/
inductive Error where
  /-- The store could not be given room for another slot. Memory is taken to
  suffice throughout, so no operation here answers this one: it is listed because
  hosts tell it from the others by its code. -/
  | allocation
  /-- Every record number is taken. -/
  | capacityExceeded (slots : Nat)
  /-- The sets and the store disagree. -/
  | invariantViolated (cause : Violation)
  /-- The configuration is not acceptable, for the reason given. -/
  | badConfiguration (reason : String)
  /-- No index is registered under a handle. -/
  | unknownHandle (handle : Nat)
  /-- A source yielded different records on its two scans. -/
  | sourceChanged (cause : SourceChange)
  deriving DecidableEq, Repr

/-- What is wrong, in words. -/
def Violation.message : Violation → String
  | freeSlotBeyond r slots =>
    "free slot " ++ toString r.toNat ++ " beyond store (" ++ toString slots ++ " slots)"
  | notLive r state => "record " ++ toString r.toNat ++ " in result set is " ++ state.name
  | outOfRange r slots =>
    "record " ++ toString r.toNat ++ " out of range (" ++ toString slots ++ " slots)"
  | reported text => text

/-- What changed, in words. -/
def SourceChange.message : SourceChange → String
  | differs r => "record " ++ toString r ++ " differs between passes"
  | shorter first second =>
    "first pass yielded " ++ toString first ++ " records, second pass " ++ toString second
  | reported text => text

namespace Error

/-- The code of an error, which does not change with its details. -/
def code : Error → String
  | allocation => "LIKEIDX-001"
  | capacityExceeded _ => "LIKEIDX-002"
  | invariantViolated _ => "LIKEIDX-003"
  | badConfiguration _ => "LIKEIDX-004"
  | unknownHandle _ => "LIKEIDX-005"
  | sourceChanged _ => "LIKEIDX-006"

/-- What happened, without the code. -/
def detail : Error → String
  | allocation => "Allocation failed: memory allocation failed because the computed capacity "
      ++ "exceeded the collection's maximum"
  | capacityExceeded slots =>
    "Record capacity exceeded: " ++ toString slots ++ " slots, limit is u32::MAX"
  | invariantViolated cause => "Invariant violation: " ++ cause.message
  | badConfiguration reason => "Configuration error: " ++ reason
  | unknownHandle handle => "Index handle " ++ toString handle ++ " not found"
  | sourceChanged cause => "Record source changed during rebuild: " ++ cause.message

/-- The message of an error, its code in front. -/
def message (e : Error) : String := "[" ++ e.code ++ "] " ++ e.detail

/-- The index can still be used: only a broken invariant makes its sets
untrustworthy. -/
def isRecoverable : Error → Bool
  | invariantViolated _ => false
  | _ => true

end Error

end WildcardIndex
