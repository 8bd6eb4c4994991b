/-
Grammars as settings: reading a grammar from a structured value, and writing one as such a value.
A table gives the parts by name, and a part that is not named has its default; a list gives them
by position. What is written is read back (`ofSetting?_toSetting`).
-/
import TermTree.Grammar

namespace TermTree

/-- A structured value, as a settings file holds it. -/
inductive Setting where
  | null
  | bool (b : Bool)
  | number (text : Text)
  | text (t : Text)
  | list (items : List Setting)
  | table (entries : List (Text × Setting))
  deriving Inhabited

namespace Setting

/-- The text of a setting that is a text. -/
def text? : Setting → Option Text
  | .text t => some t
  | _ => none

/-- The texts of a setting that is a list of texts. -/
def texts? : Setting → Option (List Text)
  | .list items => items.mapM text?
  | _ => none

/-- The value of an entry of a table; without the entry it is `default`. -/
def entryD (entries : List (Text × Setting)) (name : Text) (read : Setting → Option α) (default : α) : Option α :=
  match entries.lookup name with
  | none => some default
  | some s => read s

/-- The value at a position of a list; beyond its end it is `default`. -/
def itemD (items : List Setting) (i : Nat) (read : Setting → Option α) (default : α) : Option α :=
  match items[i]? with
  | none => some default
  | some s => read s

theorem mapM_text?_map_text (ts : List Text) : (ts.map Setting.text).mapM text? = some ts := by
  induction ts with
  | nil => rfl
  | cons t ts ih => simp [text?, ih]

end Setting

namespace Grammar
open Setting

/-- The name of the entry that holds the opening bracket. -/
def bracketOpenName : Text := "bracketOpen".toList

/-- The name of the entry that holds the closing bracket. -/
def bracketCloseName : Text := "bracketClose".toList

/-- The name of the entry that holds the opening quote. -/
def quoteOpenName : Text := "quoteOpen".toList

/-- The name of the entry that holds the closing quote. -/
def quoteCloseName : Text := "quoteClose".toList

/-- The name of the entry that holds the delimiters. -/
def delimitersName : Text := "delimiters".toList

/-- Reads a grammar. Entries of other names are ignored; a part of the wrong kind is refused, and
so is a list of more than five parts. Whether the grammar is usable is not looked at. -/
def ofSetting? : Setting → Option Grammar
  | .table entries => do
    let d : Grammar := {}
    return {
      bracketOpen := ← entryD entries bracketOpenName text? d.bracketOpen
      bracketClose := ← entryD entries bracketCloseName text? d.bracketClose
      quoteOpen := ← entryD entries quoteOpenName text? d.quoteOpen
      quoteClose := ← entryD entries quoteCloseName text? d.quoteClose
      delimiters := ← entryD entries delimitersName texts? d.delimiters }
  | .list items => do
    let d : Grammar := {}
    if 5 < items.length then none
    return {
      bracketOpen := ← itemD items 0 text? d.bracketOpen
      bracketClose := ← itemD items 1 text? d.bracketClose
      quoteOpen := ← itemD items 2 text? d.quoteOpen
      quoteClose := ← itemD items 3 text? d.quoteClose
      delimiters := ← itemD items 4 texts? d.delimiters }
  | _ => none

/-- Writes a grammar as a table of its five parts. -/
def toSetting (g : Grammar) : Setting :=
  .table [
    (bracketOpenName, .text g.bracketOpen),
    (bracketCloseName, .text g.bracketClose),
    (quoteOpenName, .text g.quoteOpen),
    (quoteCloseName, .text g.quoteClose),
    (delimitersName, .list (g.delimiters.map .text))]

/-- A grammar that was written is read back. -/
theorem ofSetting?_toSetting (g : Grammar) : ofSetting? g.toSetting = some g := by
  have h := mapM_text?_map_text g.delimiters
  simp only [toSetting, ofSetting?, entryD, List.lookup_cons,
    show (bracketCloseName == bracketOpenName) = false from rfl,
    show (quoteOpenName == bracketOpenName) = false from rfl,
    show (quoteOpenName == bracketCloseName) = false from rfl,
    show (quoteCloseName == bracketOpenName) = false from rfl,
    show (quoteCloseName == bracketCloseName) = false from rfl,
    show (quoteCloseName == quoteOpenName) = false from rfl,
    show (delimitersName == bracketOpenName) = false from rfl,
    show (delimitersName == bracketCloseName) = false from rfl,
    show (delimitersName == quoteOpenName) = false from rfl,
    show (delimitersName == quoteCloseName) = false from rfl,
    beq_self_eq_true, text?, texts?, h]
  rfl

end Grammar
end TermTree
