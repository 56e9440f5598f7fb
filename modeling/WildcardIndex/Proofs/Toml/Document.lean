import Mathlib.Data.List.Basic
import WildcardIndex.Toml.Reader
import WildcardIndex.Toml.Sections
/-!
# TOML — what a text of sections says

These relations are TOML 1.0 as far as sections of plain values go: which texts
spell a character, a string or a value, and which texts say what sections hold.
A string has four forms, and a character between double quotes can be spelt in
several ways, so one list of sections has many documents. **A writer keeps to the
format if what it writes is a document of what it was given, and a reader if it
reads every document as what it says.** The relations are neither: they choose
no form, and they try none.

Of the lines TOML has, these are the ones that a list of sections needs: comments,
dotted keys and names in quotes say nothing more.
-/

namespace WildcardIndex.Toml

/-! ## Strings -/

/-- The spellings of a character between double quotes. -/
inductive CharText (c : Char) : List Char → Prop where
  /-- As it is. -/
  | plain (hallowed : isForbidden c = false) (hquote : c ≠ '\x22') (hback : c ≠ '\\') :
    CharText c [c]
  /-- By the letter of an escape. -/
  | letter (e : Char) (h : escaped? e = some c) : CharText c ['\\', e]
  /-- By its number, in four digits. -/
  | number (ds : List Char) (hfour : ds.length = 4) (h : codePoint? ds = some c) :
    CharText c ('\\' :: 'u' :: ds)
  /-- By its number, in eight digits. -/
  | longNumber (ds : List Char) (height : ds.length = 8) (h : codePoint? ds = some c) :
    CharText c ('\\' :: 'U' :: ds)

/-- What may stand between double quotes for a string. -/
inductive BasicText : List Char → List Char → Prop where
  /-- Nothing, for no character. -/
  | nil : BasicText [] []
  /-- A spelling of the first character, and the others behind it. -/
  | cons {c : Char} {s u w : List Char} (hc : CharText c u) (hs : BasicText s w) :
    BasicText (c :: s) (u ++ w)

/-- What may stand between three double quotes for a string. Of a run of quotes,
so many more may stand as they are. -/
inductive LongBasicText : Nat → List Char → List Char → Prop where
  /-- Nothing, for no character. -/
  | nil {q : Nat} : LongBasicText q [] []
  /-- A quote as it is. -/
  | quote {q : Nat} {s w : List Char} (hs : LongBasicText q s w) :
    LongBasicText (q + 1) ('\x22' :: s) ('\x22' :: w)
  /-- A line end as it is. -/
  | lineEnd {q : Nat} {s w : List Char} (hs : LongBasicText 2 s w) :
    LongBasicText q ('\n' :: s) ('\n' :: w)
  /-- A character as between two quotes. -/
  | char {q : Nat} {c : Char} {s u w : List Char} (hc : CharText c u) (hs : LongBasicText 2 s w) :
    LongBasicText q (c :: s) (u ++ w)

/-- What may stand between three single quotes, where everything is as it is. Of
a run of quotes, there may be so many more. -/
inductive LongLiteralText : Nat → List Char → Prop where
  /-- Nothing. -/
  | nil {q : Nat} : LongLiteralText q []
  /-- A quote. -/
  | quote {q : Nat} {s : List Char} (hs : LongLiteralText q s) : LongLiteralText (q + 1) ('\'' :: s)
  /-- A line end or another character. -/
  | char {q : Nat} {c : Char} {s : List Char} (hquote : c ≠ '\'')
    (hallowed : c = '\n' ∨ isForbidden c = false) (hs : LongLiteralText 2 s) :
    LongLiteralText q (c :: s)

/-- What may stand behind three quotes in front of a text: a line end, which does
not count, or nothing, if the text begins with none. -/
def Opens (first w : List Char) : Prop := first = ['\n'] ∨ first = [] ∧ w.head? ≠ some '\n'

/-- The spellings of a string. -/
inductive StringText (s : List Char) : List Char → Prop where
  /-- In double quotes. -/
  | basic {w : List Char} (h : BasicText s w) : StringText s ('\x22' :: (w ++ ['\x22']))
  /-- In single quotes. -/
  | literal (hallowed : ∀ c ∈ s, isForbidden c = false) (hquote : '\'' ∉ s) :
    StringText s ('\'' :: (s ++ ['\'']))
  /-- In three double quotes. -/
  | longBasic {first w : List Char} (h : LongBasicText 2 s w) (hfirst : Opens first w) :
    StringText s (['\x22', '\x22', '\x22'] ++ (first ++ w) ++ ['\x22', '\x22', '\x22'])
  /-- In three single quotes. -/
  | longLiteral {first : List Char} (h : LongLiteralText 2 s) (hfirst : Opens first s) :
    StringText s (['\'', '\'', '\''] ++ (first ++ s) ++ ['\'', '\'', '\''])

/-! ## Sections -/

/-- The spellings of a plain value. A number has to fit 64 bits with its sign. -/
inductive ScalarText : Scalar → List Char → Prop where
  /-- A truth value. -/
  | flag (b : Bool) : ScalarText (.flag b) (if b then "true" else "false").toList
  /-- A number. -/
  | count {n : Nat} (hroom : (n : Int) ≤ maxInteger) : ScalarText (.count n) (Nat.toDigits 10 n)
  /-- A string. -/
  | word {s : String} {w : List Char} (h : StringText s.toList w) : ScalarText (.word s) w

/-- A name that can be a key without quotes. -/
def IsBareName (name : String) : Prop := name ≠ "" ∧ ∀ c ∈ name.toList, isBare c = true

instance (name : String) : Decidable (IsBareName name) :=
  decidable_of_iff (name ≠ "" ∧ name.toList.all isBare = true) (by rw [List.all_eq_true]; rfl)

/-- The lines of a section. -/
inductive SectionText : Section → List Char → Prop where
  /-- No line, for no key. -/
  | nil : SectionText [] []
  /-- An empty line. -/
  | lineEnd {xs : Section} {w : List Char} (hxs : SectionText xs w) : SectionText xs ('\n' :: w)
  /-- A key with its value, with blanks around the sign between them. -/
  | entry {key : String} {v : Scalar} {before after t w : List Char} {xs : Section}
    (hkey : IsBareName key) (hbefore : ∀ c ∈ before, isBlank c = true)
    (hafter : ∀ c ∈ after, isBlank c = true) (hv : ScalarText v t) (hxs : SectionText xs w) :
    SectionText ((key, v) :: xs) (key.toList ++ (before ++ '=' :: (after ++ (t ++ '\n' :: w))))

/-- The texts that say what sections hold. -/
inductive Document : Sections → List Char → Prop where
  /-- No line, for no section. -/
  | nil : Document [] []
  /-- An empty line. -/
  | lineEnd {ss : Sections} {w : List Char} (hss : Document ss w) : Document ss ('\n' :: w)
  /-- A header with the lines of its section. -/
  | header {name : String} {xs : Section} {ss : Sections} {u w : List Char}
    (hname : IsBareName name) (hxs : SectionText xs u) (hss : Document ss w) :
    Document ((name, xs) :: ss) ('[' :: (name.toList ++ ']' :: '\n' :: (u ++ w)))

namespace Sections

/-- A section has a key with a value. -/
def Holds (ss : Sections) (name key : String) (v : Scalar) : Prop :=
  ∃ xs, (name, xs) ∈ ss ∧ (key, v) ∈ xs

/-- There is room in a document for every number: none is over the greatest of
64 bits with a sign. -/
def Fit (ss : Sections) : Prop :=
  ∀ name key n, ss.Holds name key (.count n) → (n : Int) ≤ maxInteger

/-- No name and no key stands for two, and none of them needs quotes. -/
structure WellFormed (ss : Sections) : Prop where
  /-- No two sections share a name. -/
  names : (ss.map Prod.fst).Nodup
  /-- No two entries of a section share a key. -/
  keys : ∀ x ∈ ss, (x.2.map Prod.fst).Nodup
  /-- Names are bare. -/
  bareNames : ∀ x ∈ ss, IsBareName x.1
  /-- So are keys. -/
  bareKeys : ∀ x ∈ ss, ∀ e ∈ x.2, IsBareName e.1

end Sections

end WildcardIndex.Toml
