import Mathlib.Algebra.Order.Ring.Rat
import Mathlib.Algebra.Order.Group.Abs
import Mathlib.Data.List.Basic
import Mathlib.Data.String.Basic
import DocumentRelay.Lib.Fetch
import DocumentRelay.Models.Foundation

/-!
# The data model

`Models/DocumentModel.swift`: the documents and fields the views edit, the Core
Data rows they are kept in, and the strings a field type is stored as.  Numbers
are exact rationals; every finite `CGFloat` is one.

`pdfData` of `DocumentModel` is left out: only an initialiser nothing calls sets
it, and nothing reads it.
-/

namespace DocumentRelay

/-! ## Rectangles -/

structure CGPoint where
  x : ℚ
  y : ℚ
  deriving DecidableEq, Repr

/-- The stored size of a rectangle; either number may be negative. -/
structure CGSize where
  width : ℚ
  height : ℚ
  deriving DecidableEq, Repr

structure CGRect where
  origin : CGPoint
  size : CGSize
  deriving DecidableEq, Repr

namespace CGRect

/-- `CGRect(x:y:width:height:)`. -/
def make (x y width height : ℚ) : CGRect := ⟨⟨x, y⟩, ⟨width, height⟩⟩

/-- The `width` accessor: the absolute value of the stored width.  The origin
does not move with it. -/
def width (rect : CGRect) : ℚ := |rect.size.width|

/-- The `height` accessor: the absolute value of the stored height. -/
def height (rect : CGRect) : ℚ := |rect.size.height|

/-- The stored size is not negative. -/
def Standardized (rect : CGRect) : Prop := 0 ≤ rect.size.width ∧ 0 ≤ rect.size.height

instance (rect : CGRect) : Decidable rect.Standardized :=
  inferInstanceAs (Decidable (0 ≤ rect.size.width ∧ 0 ≤ rect.size.height))

/-- A rectangle rebuilt from its accessors is the same one exactly when its size
was not negative. -/
theorem make_accessors_eq_iff (rect : CGRect) :
    make rect.origin.x rect.origin.y rect.width rect.height = rect ↔ rect.Standardized := by
  obtain ⟨⟨x, y⟩, ⟨w, h⟩⟩ := rect
  simp [make, width, height, Standardized, abs_eq_self]

end CGRect

/-! ## Field types -/

inductive FieldType where
  | name
  | surname
  | namesurname
  | address
  | serial
  | number
  | custom
  deriving DecidableEq, Repr

def fieldTypeFromString (text : String) : FieldType :=
  if text = "Имя" then .name
  else if text = "Фамилия" then .surname
  else if text = "ФИО" then .namesurname
  else if text = "Адрес" then .address
  else if text = "Серия" then .serial
  else if text = "Номер" then .number
  else if text = "Другое" then .custom
  else .custom

def stringFromFieldType : FieldType → String
  | .name => "Имя"
  | .surname => "Фамилия"
  | .namesurname => "ФИО"
  | .address => "Адрес"
  | .serial => "Серия"
  | .number => "Номер"
  | .custom => "Другое"

/-- The two tables agree: a stored type reads back as itself. -/
@[simp] theorem fieldTypeFromString_stringFromFieldType (type : FieldType) :
    fieldTypeFromString (stringFromFieldType type) = type := by
  cases type <;> decide

/-! ## Documents -/

/-- One field of a document.  `fillWith` is what the user is about to print into
it; it is never stored. -/
structure DocumentField where
  rect : CGRect
  description : String
  fillWith : Option String := none
  type : FieldType
  deriving DecidableEq, Repr

/-- What of a field is shared and stored: its description, type and rectangle. -/
def DocumentField.content (field : DocumentField) : String × FieldType × CGRect :=
  (field.description, field.type, field.rect)

structure DocumentModel where
  id : String
  name : String
  url : Option String
  cdID : String
  fieldsToFill : List DocumentField
  deriving DecidableEq, Repr

/-- **The same document, seen twice**: same id, name, url and cdID, and the same
field contents up to order. -/
structure SameDocument (d d' : DocumentModel) : Prop where
  id : d.id = d'.id
  name : d.name = d'.name
  url : d.url = d'.url
  cdID : d.cdID = d'.cdID
  fields : (d.fieldsToFill.map DocumentField.content).Perm
    (d'.fieldsToFill.map DocumentField.content)

/-- A text selection in a PDF view, by the numbers of the pages it touches.  A
selection the view hands out touches a page, and its bounds there have no
negative size. -/
structure PDFSelection where
  pages : List ℕ
  bounds : ℕ → CGRect
  pages_ne_nil : pages ≠ []
  bounds_standardized : ∀ page, (bounds page).Standardized

/-- `selection.bounds(for: selection.pages[0])`. -/
def PDFSelection.firstBounds (selection : PDFSelection) : CGRect :=
  selection.bounds (selection.pages.head selection.pages_ne_nil)

/-- The `DocumentField` that `addField` and `appendField` build. -/
def DocumentField.ofSelection (selection : PDFSelection) (description : String)
    (type : FieldType) : DocumentField where
  rect := selection.firstBounds
  description := description
  type := type

/-- `DocumentModel.addField`. -/
def DocumentModel.addField (document : DocumentModel) (selection : PDFSelection)
    (description : String) (type : FieldType) : DocumentModel :=
  { document with
    fieldsToFill :=
      document.fieldsToFill ++ [DocumentField.ofSelection selection description type] }

/-! ## Core Data rows

Every attribute of every entity is optional in the data model, and nothing there
links a field row to its document but the string in `parent`. -/

structure CDDocumentModel where
  id : Option String
  name : Option String
  url : Option String
  groupMode : Option String
  cdId : Option String
  deriving DecidableEq, Repr

structure CDDocumentField where
  parent : Option String
  desc : Option String
  type : Option String
  height : Option String
  width : Option String
  x : Option String
  y : Option String
  deriving DecidableEq, Repr

/-- Seconds since the reference date. -/
abbrev Date := ℚ

structure CDPerData where
  info : Option String
  type : Option String
  createdAt : Option Date
  deriving DecidableEq, Repr

/-- `CDDocumentModel.getAllCDDocs`: all document rows, sorted by `groupMode`. -/
def CDDocumentModel.getAllCDDocs (rows fetched : List CDDocumentModel) : Prop :=
  Fetch CDDocumentModel.groupMode rows fetched

/-- `CDDocumentField.getAllCDFields`: all field rows, sorted by `parent`. -/
def CDDocumentField.getAllCDFields (rows fetched : List CDDocumentField) : Prop :=
  Fetch CDDocumentField.parent rows fetched

/-- `CDPerData.getAllCDData`: all personal data rows, sorted by `createdAt`. -/
def CDPerData.getAllCDData (rows fetched : List CDPerData) : Prop :=
  Fetch CDPerData.createdAt rows fetched

/-! ## Between fields and rows -/

variable (F : Foundation)

/-- The row written for a field, the same seven assignments in
`downloadDocument`, `appendField` and `addCreatedDocument`. -/
def CDDocumentField.ofField (parent : String) (field : DocumentField) : CDDocumentField where
  desc := some field.description
  parent := some parent
  type := some (stringFromFieldType field.type)
  x := some (F.description field.rect.origin.x)
  y := some (F.description field.rect.origin.y)
  width := some (F.description field.rect.width)
  height := some (F.description field.rect.height)

/-- A coordinate attribute as `loadDocuments` reads it. -/
def coordinate (text : Option String) : ℚ := (F.double (text.getD "")).getD 0

/-- The field `loadDocuments` builds from a row. -/
def DocumentField.ofRow (row : CDDocumentField) : DocumentField where
  rect := CGRect.make (coordinate F row.x) (coordinate F row.y) (coordinate F row.width)
    (coordinate F row.height)
  description := row.desc.getD ""
  type := fieldTypeFromString (row.type.getD "")

@[simp] theorem coordinate_some_description (x : ℚ) :
    coordinate F (some (F.description x)) = x := by
  simp [coordinate]

/-- A field read back from its row keeps its description and type, and has the
rectangle its accessors describe. -/
theorem DocumentField.content_ofRow_ofField (parent : String) (field : DocumentField) :
    (DocumentField.ofRow F (CDDocumentField.ofField F parent field)).content =
      (field.description, field.type,
        CGRect.make field.rect.origin.x field.rect.origin.y field.rect.width
          field.rect.height) := by
  simp [DocumentField.ofRow, CDDocumentField.ofField, DocumentField.content]

/-- **A field survives its row exactly when its size is not negative.** -/
theorem DocumentField.content_ofRow_ofField_eq_iff (parent : String) (field : DocumentField) :
    (DocumentField.ofRow F (CDDocumentField.ofField F parent field)).content = field.content ↔
      field.rect.Standardized := by
  rw [DocumentField.content_ofRow_ofField, ← CGRect.make_accessors_eq_iff field.rect]
  simp [DocumentField.content]

/-- Rectangles read back from rows of the app are never negative. -/
theorem DocumentField.standardized_ofRow_ofField (parent : String) (field : DocumentField) :
    (DocumentField.ofRow F (CDDocumentField.ofField F parent field)).rect.Standardized := by
  simp [DocumentField.ofRow, CDDocumentField.ofField, CGRect.make, CGRect.Standardized,
    CGRect.width, CGRect.height]

end DocumentRelay
