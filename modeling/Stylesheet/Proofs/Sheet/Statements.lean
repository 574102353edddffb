import Mathlib
import Stylesheet.Proofs.Text.Quoting
import Stylesheet.Sheet.Basic

/-!
# Quotes in imports and encodings

An import writes its address between quotes, and a statement of the encoding writes the
encoding, both as they stand. A call of `url` and a quoted text put backslashes where a
reader needs them. So an import has its address as a call of `url` would have it, and the
address is read back, exactly if nothing in it needs a backslash, and with an encoding it is
the same. Otherwise the text leaves its quotes early, or comes back without its backslashes.
-/

namespace Stylesheet.Node

open Text (Plain readQuoted?)

/-- An import with its address written as a call of `url`. -/
def importOfUrl (address : String) (condition : Option String) : String :=
  "@import " ++ (Value.url address).text ++ (condition.map (" " ++ ·)).getD "" ++ ";"

/-- A statement of the encoding with the encoding written as a quoted text. -/
def charsetOfQuoted (encoding : String) : String :=
  "@charset " ++ (Value.quoted encoding).text ++ ";"

/-- What stands in front of the quotes of an import. -/
def importLead : String := "@import url("

/-- What stands behind the quotes of an import. -/
def importRest (condition : Option String) : String :=
  ")" ++ (condition.map (" " ++ ·)).getD "" ++ ";"

/-- What stands in front of the quotes of a statement of the encoding. -/
def charsetLead : String := "@charset "

theorem toList_text_importSheet (address : String) (condition : Option String) :
    (importSheet address condition).text.toList =
      importLead.toList ++ '"' :: (address.toList ++ '"' :: (importRest condition).toList) := by
  simp [text, importLead, importRest]

theorem toList_importOfUrl (address : String) (condition : Option String) :
    (importOfUrl address condition).toList =
      importLead.toList ++ ((Text.quoted address).toList ++ (importRest condition).toList) := by
  simp [importOfUrl, Value.url, Value.text, Value.texts, importLead, importRest]

theorem toList_text_charset (encoding : String) :
    (charset encoding).text.toList =
      charsetLead.toList ++ '"' :: (encoding.toList ++ '"' :: [';']) := by
  simp [text, charsetLead]

theorem toList_charsetOfQuoted (encoding : String) :
    (charsetOfQuoted encoding).toList =
      charsetLead.toList ++ ((Text.quoted encoding).toList ++ [';']) := by
  simp [charsetOfQuoted, Value.text, charsetLead]

theorem drop_lead (lead : String) (cs : List Char) :
    (lead.toList ++ cs).drop lead.length = cs :=
  List.drop_left' String.length_toList

/-- An import has its address as a call of `url` has it exactly if the address is plain, and
exactly then the address is read back from it, and what follows it. With backslashes it
always would be. The same holds of an encoding and a quoted text. -/
theorem bare_quotes_read_back_iff (address : String) (condition : Option String)
    (encoding : String) :
    ((importSheet address condition).text = importOfUrl address condition ↔
        Plain address.toList) ∧
      (readQuoted? ((importSheet address condition).text.toList.drop importLead.length) =
          some (address.toList, (importRest condition).toList) ↔ Plain address.toList) ∧
      readQuoted? ((importOfUrl address condition).toList.drop importLead.length) =
        some (address.toList, (importRest condition).toList) ∧
      ((charset encoding).text = charsetOfQuoted encoding ↔ Plain encoding.toList) ∧
      (readQuoted? ((charset encoding).text.toList.drop charsetLead.length) =
          some (encoding.toList, [';']) ↔ Plain encoding.toList) ∧
      readQuoted? ((charsetOfQuoted encoding).toList.drop charsetLead.length) =
        some (encoding.toList, [';']) := by
  simp only [← String.toList_inj, toList_text_importSheet, toList_importOfUrl,
    toList_text_charset, toList_charsetOfQuoted, drop_lead, List.append_cancel_left_eq]
  refine ⟨Text.bare_eq_quoted_iff, Text.readEscaped?_append_eq_iff, ?_, Text.bare_eq_quoted_iff,
    Text.readEscaped?_append_eq_iff, ?_⟩
  · exact Text.readQuoted?_quoted_append address _
  · exact Text.readQuoted?_quoted_append encoding _

/-- A quote in an address, or in an encoding, ends it: what follows the quote is outside. -/
theorem quote_ends_address :
    (importSheet "a\"b" none).text = "@import url(\"a\"b\");" ∧
      importOfUrl "a\"b" none = "@import url(\"a\\\"b\");" ∧
      readQuoted? ((importSheet "a\"b" none).text.toList.drop importLead.length) =
        some (['a'], ['b', '"', ')', ';']) ∧
      (charset "a\"b").text = "@charset \"a\"b\";" ∧
      charsetOfQuoted "a\"b" = "@charset \"a\\\"b\";" := by
  decide_cbv

end Stylesheet.Node
