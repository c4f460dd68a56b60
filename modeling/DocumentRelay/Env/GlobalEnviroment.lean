import DocumentRelay.Lib.WorkingCopy
import DocumentRelay.Models.DocumentModel
import DocumentRelay.Firebase.Node

/-!
# The global environment

`Env/GlobalEnviroment.swift`: the two document lists and the personal data every
view works on, the managed object context under them, and the operations that
change both.

The managed object context is a `WorkingCopy` of the rows: a save that fails
leaves its edits pending, fetches see pending edits, and only committed rows
survive the process.  Each operation lists its edits and saves in the order the
source makes them (`downloadActions`, `addCreatedDocumentActions`, …), so that
the same list says what a completed operation does and what a crash in the
middle of it leaves behind.

`uuidCount` is not a field of the class.  It counts the `UUID()` calls made so
far, across launches, and so names the next value of `Foundation.uuidString`.
-/

namespace DocumentRelay

/-! ## The managed object context -/

/-- The rows of the three entities. -/
structure Rows where
  documents : List CDDocumentModel
  fields : List CDDocumentField
  perData : List CDPerData
  deriving DecidableEq, Repr

/-- Insertions and deletions of managed objects. -/
inductive RowEdit where
  | insertDocument (row : CDDocumentModel)
  | insertField (row : CDDocumentField)
  | insertPerData (row : CDPerData)
  | deleteDocument (row : CDDocumentModel)
  | deleteField (row : CDDocumentField)
  | deletePerData (row : CDPerData)
  deriving DecidableEq, Repr

def applyEdit : RowEdit → Rows → Rows
  | .insertDocument row, rows => { rows with documents := rows.documents ++ [row] }
  | .insertField row, rows => { rows with fields := rows.fields ++ [row] }
  | .insertPerData row, rows => { rows with perData := rows.perData ++ [row] }
  | .deleteDocument row, rows => { rows with documents := rows.documents.erase row }
  | .deleteField row, rows => { rows with fields := rows.fields.erase row }
  | .deletePerData row, rows => { rows with perData := rows.perData.erase row }

abbrev Action := StoreAction RowEdit

/-- The edits of a list of actions, applied to rows. -/
abbrev replayRows (actions : List Action) (rows : Rows) : Rows :=
  WorkingCopy.replay applyEdit actions rows

structure TextPersonalInfo where
  info : Option String
  type : FieldType
  createdAt : Date
  deriving DecidableEq, Repr

structure GlobalEnviroment where
  loadedDocuments : List DocumentModel
  createdDocuments : List DocumentModel
  personalData : List TextPersonalInfo
  managedObjectContext : WorkingCopy Rows
  uuidCount : ℕ

namespace GlobalEnviroment

/-- The first launch: nothing in memory, nothing stored. -/
def initial : GlobalEnviroment where
  loadedDocuments := []
  createdDocuments := []
  personalData := []
  managedObjectContext := WorkingCopy.clean ⟨[], [], []⟩
  uuidCount := 0

/-- The rows a fetch sees. -/
abbrev rows (env : GlobalEnviroment) : Rows := env.managedObjectContext.working

/-- The rows that survive the process. -/
abbrev committedRows (env : GlobalEnviroment) : Rows := env.managedObjectContext.committed

/-- Run actions on the managed object context; `ok n` is the outcome of the
`n`-th `save()` among them. -/
def perform (ok : ℕ → Bool) (actions : List Action) (env : GlobalEnviroment) :
    GlobalEnviroment :=
  { env with
    managedObjectContext := WorkingCopy.exec applyEdit ok actions env.managedObjectContext }

end GlobalEnviroment

variable (F : Foundation)

/-! ## Downloading -/

/-- A `String` attribute under a dictionary, with the default of `?? ""`. -/
def stringAttribute (value : Option (List (String × FNode))) (key : String) : String :=
  ((subscriptValue value key).bind FNode.asString).getD ""

/-- A `Double` attribute under a dictionary, with the default of `?? 0`. -/
def doubleAttribute (value : Option (List (String × FNode))) (key : String) : ℚ :=
  ((subscriptValue value key).bind FNode.asDouble).getD 0

/-- `val?["rect"] as? NSDictionary` of a field snapshot. -/
def rectDictionary (fieldSnap : FNode) : Option (List (String × FNode)) :=
  (subscriptValue fieldSnap.asDictionary "rect").bind FNode.asDictionary

/-- One pass of the field loop of `downloadDocument`. -/
def decodeField (fieldSnap : FNode) : DocumentField where
  rect := CGRect.make (doubleAttribute (rectDictionary fieldSnap) "x")
    (doubleAttribute (rectDictionary fieldSnap) "y")
    (doubleAttribute (rectDictionary fieldSnap) "width")
    (doubleAttribute (rectDictionary fieldSnap) "height")
  description := stringAttribute fieldSnap.asDictionary "desc"
  type := fieldTypeFromString (stringAttribute fieldSnap.asDictionary "type")

/-- The children of `snapshot.childSnapshot(forPath: "fields")`. -/
def fieldSnapshots (snapshot : FNode) : List FNode :=
  ((snapshot.getChild (pathPieces "fields")).entries).map Prod.snd

/-- The document `downloadDocument` builds from a snapshot, given its cdID. -/
def decodeDocument (key : String) (snapshot : FNode) (cdID : String) : DocumentModel where
  id := key
  name := stringAttribute snapshot.asDictionary "name"
  url := some (stringAttribute snapshot.asDictionary "url")
  cdID := cdID
  fieldsToFill := (fieldSnapshots snapshot).map decodeField

/-- The document row of a document: `groupMode` is `"0"` for a downloaded one and
`"1"` for a created one. -/
def CDDocumentModel.ofDocument (groupMode : String) (url : Option String)
    (document : DocumentModel) : CDDocumentModel where
  id := some document.id
  groupMode := some groupMode
  cdId := some document.cdID
  url := url
  name := some document.name

/-- A field row is inserted and saved. -/
def insertFieldActions (parent : String) (field : DocumentField) : List Action :=
  [.edit (.insertField (CDDocumentField.ofField F parent field)), .save]

/-- The saves of `downloadDocument`: the document row first, then one field row
at a time. -/
def downloadActions (document : DocumentModel) : List Action :=
  [.edit (.insertDocument
      (CDDocumentModel.ofDocument "0" (some (document.url.getD "")) document)), .save] ++
    document.fieldsToFill.flatMap (insertFieldActions F document.cdID)

/-- What a call of `downloadDocument` comes to: the node it read, the environment
its callback left, and the value its completion was called with. -/
structure Download where
  path : FPath
  env : GlobalEnviroment
  comletion : Bool

/-- The callback of `observeSingleEvent`. -/
def downloadCallback (key : String) (snapshot : FNode) (ok : ℕ → Bool)
    (env : GlobalEnviroment) : GlobalEnviroment :=
  -- The document, and with it its UUID, is made before the url is looked at.
  let document := decodeDocument key snapshot (F.uuidString env.uuidCount)
  let env := { env with uuidCount := env.uuidCount + 1 }
  if stringAttribute snapshot.asDictionary "url" ≠ "" then
    let env := env.perform ok (downloadActions F document)
    { env with loadedDocuments := env.loadedDocuments ++ [document] }
  else env

def downloadDocument (key : String) (server : FNode) (ok : ℕ → Bool)
    (env : GlobalEnviroment) : Except NSException Download := do
  let path ← dbReference.child ("/shared/" ++ key)
  return { path := path
           env := downloadCallback F key (server.getChild path) ok env
           comletion := true }

/-! ## Sharing -/

/-- One `setValue` call. -/
structure Write where
  path : FPath
  value : FNode

/-- The server applies a write: the whole subtree at its path is replaced. -/
def applyWrite (server : FNode) (write : Write) : FNode :=
  server.updateChild write.path write.value

def applyWrites (server : FNode) (writes : List Write) : FNode :=
  writes.foldl applyWrite server

/-- The path string of an attribute of the field numbered `cnt`. -/
def fieldPath (id : String) (cnt : ℕ) (attr : String) : String :=
  "/shared/" ++ id ++ "/fields/field" ++ toString cnt ++ "/" ++ attr

/-- The rectangle as `setValue` sends it; `width` and `height` are the accessors. -/
def rectNode (rect : CGRect) : FNode :=
  nodeFrom [("width", some (.number rect.width)), ("height", some (.number rect.height)),
    ("x", some (.number rect.origin.x)), ("y", some (.number rect.origin.y))]

/-- The three `setValue` calls of one pass of the loop of `shareDoucment`. -/
def shareField (id : String) (cnt : ℕ) (field : DocumentField) :
    Except NSException (List Write) := do
  let desc ← dbReference.child (fieldPath id cnt "desc")
  let type ← dbReference.child (fieldPath id cnt "type")
  let rect ← dbReference.child (fieldPath id cnt "rect")
  return [⟨desc, .leaf (.string field.description)⟩,
    ⟨type, .leaf (.string (stringFromFieldType field.type))⟩,
    ⟨rect, rectNode field.rect⟩]

/-- The loop of `shareDoucment`, from counter value `cnt`. -/
def shareFields (id : String) : ℕ → List DocumentField → Except NSException (List Write)
  | _, [] => return []
  | cnt, field :: rest => do
      let writes ← shareField id cnt field
      let more ← shareFields id (cnt + 1) rest
      return writes ++ more

/-- The writes `shareDoucment` issues, in order.  A forbidden character in the id
raises at the first one, before anything is issued. -/
def shareDoucment (document : DocumentModel) : Except NSException (List Write) := do
  let root ← dbReference.child ("/shared/" ++ document.id)
  let more ← shareFields document.id 0 document.fieldsToFill
  return ⟨root, nodeFrom [("name", some (.string document.name)),
    ("url", document.url.map .string)]⟩ :: more

/-! ## Editing -/

/-- `DocumentModel(id:name:url:)` with the next UUID as its cdID. -/
def GlobalEnviroment.newDocument (env : GlobalEnviroment) (id name url : String) :
    DocumentModel where
  id := id
  name := name
  url := some url
  cdID := F.uuidString env.uuidCount
  fieldsToFill := []

def appendField (docCDId : String) (selection : PDFSelection) (description : String)
    (type : FieldType) (ok : ℕ → Bool) (env : GlobalEnviroment) : GlobalEnviroment :=
  let newField := DocumentField.ofSelection selection description type
  let env := env.perform ok (insertFieldActions F docCDId newField)
  { env with
    createdDocuments := env.createdDocuments.map fun document =>
      if document.cdID = docCDId then document.addField selection description type
      else document }

/-- The saves of `addCreatedDocument`: the field rows first, the document row
last. -/
def addCreatedDocumentActions (document : DocumentModel) : List Action :=
  document.fieldsToFill.flatMap (insertFieldActions F document.cdID) ++
    [.edit (.insertDocument (CDDocumentModel.ofDocument "1" document.url document)), .save]

def addCreatedDocument (document : DocumentModel) (ok : ℕ → Bool) (env : GlobalEnviroment) :
    GlobalEnviroment :=
  let env := { env with createdDocuments := env.createdDocuments ++ [document] }
  env.perform ok (addCreatedDocumentActions F document)

/-! ## Loading -/

/-- The document `loadDocuments` builds from a row, before its fields. -/
def DocumentModel.ofRow (row : CDDocumentModel) : DocumentModel where
  id := row.id.getD ""
  name := row.name.getD ""
  url := some (row.url.getD "")
  cdID := row.cdId.getD ""
  fieldsToFill := []

/-- The two lists under construction in `loadDocuments`. -/
structure Models where
  downModels : List DocumentModel
  creatModels : List DocumentModel

/-- One pass of the first loop. -/
def Models.addDocument (models : Models) (row : CDDocumentModel) : Models :=
  if row.groupMode = some "0" then
    { models with downModels := models.downModels ++ [DocumentModel.ofRow row] }
  else { models with creatModels := models.creatModels ++ [DocumentModel.ofRow row] }

/-- The inner loops of the second one: every document of the list whose cdID
equals the parent gets the field. -/
def addToParent (parent : String) (field : DocumentField) (models : List DocumentModel) :
    List DocumentModel :=
  models.map fun model =>
    if F.StringEqual model.cdID parent then
      { model with fieldsToFill := model.fieldsToFill ++ [field] }
    else model

/-- One pass of the second loop. -/
def Models.addField (models : Models) (row : CDDocumentField) : Models where
  downModels := addToParent F (row.parent.getD "") (DocumentField.ofRow F row) models.downModels
  creatModels :=
    addToParent F (row.parent.getD "") (DocumentField.ofRow F row) models.creatModels

/-- The lists `loadDocuments` builds from two fetches. -/
def loadModels (cdFields : List CDDocumentField)
    (cdDocuments : List CDDocumentModel) : Models :=
  cdFields.foldl (Models.addField F) (cdDocuments.foldl Models.addDocument ⟨[], []⟩)

def loadDocuments (cdFields : List CDDocumentField) (cdDocuments : List CDDocumentModel)
    (env : GlobalEnviroment) : GlobalEnviroment :=
  { env with
    createdDocuments := (loadModels F cdFields cdDocuments).creatModels
    loadedDocuments := (loadModels F cdFields cdDocuments).downModels
    -- Every row makes a document with a cdID of its own, which the row's replaces.
    uuidCount := env.uuidCount + cdDocuments.length }

/-! ## `loadDocuments` is a join -/

/-- The field rows whose parent equals a cdID, decoded in order. -/
def fieldsOf (cdFields : List CDDocumentField) (cdID : String) : List DocumentField :=
  (cdFields.filter fun row => F.StringEqual (row.parent.getD "") cdID).map
    (DocumentField.ofRow F)

/-- A document with the fields its cdID selects appended to those it has. -/
def joinFields (cdFields : List CDDocumentField) (document : DocumentModel) : DocumentModel :=
  { document with fieldsToFill := document.fieldsToFill ++ fieldsOf F cdFields document.cdID }

/-- The first loop is a partition by `groupMode`. -/
theorem foldl_addDocument (cdDocuments : List CDDocumentModel) (models : Models) :
    cdDocuments.foldl Models.addDocument models =
      ⟨models.downModels ++
          (cdDocuments.filter (fun row => row.groupMode = some "0")).map DocumentModel.ofRow,
        models.creatModels ++
          (cdDocuments.filter (fun row => row.groupMode ≠ some "0")).map
            DocumentModel.ofRow⟩ := by
  induction cdDocuments generalizing models with
  | nil => simp
  | cons row rest ih =>
      rw [List.foldl_cons, ih]
      by_cases down : row.groupMode = some "0" <;> simp [Models.addDocument, down]

theorem joinFields_cons (row : CDDocumentField) (rest : List CDDocumentField)
    (document : DocumentModel) :
    joinFields F (row :: rest) document =
      joinFields F rest
        (if F.StringEqual document.cdID (row.parent.getD "") then
          { document with
            fieldsToFill := document.fieldsToFill ++ [DocumentField.ofRow F row] }
        else document) := by
  by_cases parent : F.StringEqual document.cdID (row.parent.getD "")
  · simp [joinFields, fieldsOf, parent, parent.symm]
  · have apart : ¬ F.StringEqual (row.parent.getD "") document.cdID :=
      fun same => parent same.symm
    simp [joinFields, fieldsOf, parent, apart]

/-- The second loop adds to each document the fields its cdID selects.  The
induction carries the lists as they stand after the rows read so far. -/
theorem foldl_addField (cdFields : List CDDocumentField) (models : Models) :
    cdFields.foldl (Models.addField F) models =
      ⟨models.downModels.map (joinFields F cdFields),
        models.creatModels.map (joinFields F cdFields)⟩ := by
  induction cdFields generalizing models with
  | nil =>
      have unchanged : joinFields F [] = id := by
        funext document
        simp [joinFields, fieldsOf]
      simp [unchanged]
  | cons row rest ih =>
      rw [List.foldl_cons, ih]
      simp only [Models.addField, addToParent, List.map_map]
      congr 1 <;>
        exact List.map_congr_left fun document _ => (joinFields_cons F row rest document).symm

/-- A document row together with the fields its cdID selects. -/
def joinRow (cdFields : List CDDocumentField) (row : CDDocumentModel) : DocumentModel :=
  { DocumentModel.ofRow row with fieldsToFill := fieldsOf F cdFields (row.cdId.getD "") }

/-- **`loadDocuments` is the join of its two fetches.** -/
theorem loadModels_eq (cdFields : List CDDocumentField) (cdDocuments : List CDDocumentModel) :
    loadModels F cdFields cdDocuments =
      ⟨(cdDocuments.filter fun row => row.groupMode = some "0").map (joinRow F cdFields),
        (cdDocuments.filter fun row => row.groupMode ≠ some "0").map (joinRow F cdFields)⟩ := by
  rw [loadModels, foldl_addDocument, foldl_addField]
  simp only [List.nil_append, List.map_map]
  rfl

theorem fieldsOf_congr {cdFields cdFields' : List CDDocumentField}
    (same : ∀ parent, (cdFields'.filter fun row => F.StringEqual (row.parent.getD "") parent) =
      cdFields.filter fun row => F.StringEqual (row.parent.getD "") parent) :
    fieldsOf F cdFields' = fieldsOf F cdFields := by
  funext cdID
  rw [fieldsOf, fieldsOf, same]

theorem joinRow_congr {cdFields cdFields' : List CDDocumentField}
    (same : ∀ parent, (cdFields'.filter fun row => F.StringEqual (row.parent.getD "") parent) =
      cdFields.filter fun row => F.StringEqual (row.parent.getD "") parent) :
    joinRow F cdFields' = joinRow F cdFields := by
  funext row
  rw [joinRow, joinRow, fieldsOf_congr F same]

/-- **Under distinct cdIDs the documents share the field rows out**: what they hold
together are rows of the fetch, each at most once. -/
theorem flatMap_fieldsToFill_perm (cdFields : List CDDocumentField)
    {cdDocuments : List CDDocumentModel}
    (distinct : cdDocuments.Pairwise fun row other =>
      ¬ F.StringEqual (row.cdId.getD "") (other.cdId.getD "")) :
    ((cdDocuments.map (joinRow F cdFields)).flatMap DocumentModel.fieldsToFill).Perm
      ((cdFields.filter fun row => F.canonical (row.parent.getD "") ∈
        cdDocuments.map fun document => F.canonical (document.cdId.getD "")).map
          (DocumentField.ofRow F)) := by
  have nodup : (cdDocuments.map fun row => F.canonical (row.cdId.getD "")).Nodup :=
    List.pairwise_map.mpr distinct
  have groups := (Fetch.flatMap_filter_perm nodup
    (fun row : CDDocumentField => F.canonical (row.parent.getD "")) cdFields).map
      (DocumentField.ofRow F)
  rw [List.map_flatMap, List.flatMap_map] at groups
  rw [List.flatMap_map]
  exact groups

/-- **`loadDocuments` joins its two inputs**, whatever they are.  The rows with
`groupMode` `"0"` make the loaded documents and all others the created ones, in
order; each document has the fields whose `parent` equals its cdID, in order.
Neither the lists there were before nor the order among rows of different parents
matter, and where no two documents have equal cdIDs no field row goes into two of
them. -/
theorem loadDocuments_join (cdFields : List CDDocumentField)
    (cdDocuments : List CDDocumentModel) (env : GlobalEnviroment) :
    (loadDocuments F cdFields cdDocuments env).loadedDocuments =
        (cdDocuments.filter fun row => row.groupMode = some "0").map (joinRow F cdFields) ∧
      (loadDocuments F cdFields cdDocuments env).createdDocuments =
        (cdDocuments.filter fun row => row.groupMode ≠ some "0").map (joinRow F cdFields) ∧
      (∀ (cdFields' : List CDDocumentField) (env' : GlobalEnviroment),
        (∀ parent, (cdFields'.filter fun row => F.StringEqual (row.parent.getD "") parent) =
          cdFields.filter fun row => F.StringEqual (row.parent.getD "") parent) →
        (loadDocuments F cdFields' cdDocuments env').loadedDocuments =
            (loadDocuments F cdFields cdDocuments env).loadedDocuments ∧
          (loadDocuments F cdFields' cdDocuments env').createdDocuments =
            (loadDocuments F cdFields cdDocuments env).createdDocuments) ∧
      ((cdDocuments.Pairwise fun row other =>
          ¬ F.StringEqual (row.cdId.getD "") (other.cdId.getD "")) →
        ((loadDocuments F cdFields cdDocuments env).loadedDocuments ++
          (loadDocuments F cdFields cdDocuments env).createdDocuments).Pairwise
            (fun document other => ¬ F.StringEqual document.cdID other.cdID) ∧
        ∃ used : List CDDocumentField, used.Sublist cdFields ∧
          (((loadDocuments F cdFields cdDocuments env).loadedDocuments ++
            (loadDocuments F cdFields cdDocuments env).createdDocuments).flatMap
              DocumentModel.fieldsToFill).Perm (used.map (DocumentField.ofRow F))) := by
  have down (cdFields : List CDDocumentField) (env : GlobalEnviroment) :
      (loadDocuments F cdFields cdDocuments env).loadedDocuments =
        (cdDocuments.filter fun row => row.groupMode = some "0").map (joinRow F cdFields) :=
    congrArg Models.downModels (loadModels_eq F cdFields cdDocuments)
  have creat (cdFields : List CDDocumentField) (env : GlobalEnviroment) :
      (loadDocuments F cdFields cdDocuments env).createdDocuments =
        (cdDocuments.filter fun row => row.groupMode ≠ some "0").map (joinRow F cdFields) :=
    congrArg Models.creatModels (loadModels_eq F cdFields cdDocuments)
  refine ⟨down cdFields env, creat cdFields env, ?_, ?_⟩
  · intro cdFields' env' same
    rw [down, creat, down, creat, joinRow_congr F same]
    exact ⟨rfl, rfl⟩
  · intro distinct
    have parts : ((loadDocuments F cdFields cdDocuments env).loadedDocuments ++
        (loadDocuments F cdFields cdDocuments env).createdDocuments).Perm
          (cdDocuments.map (joinRow F cdFields)) := by
      rw [down, creat, ← List.map_append]
      refine List.Perm.map _ ?_
      simpa using
        List.filter_append_perm (fun row => decide (row.groupMode = some "0")) cdDocuments
    refine ⟨(parts.pairwise_iff fun apart same => apart same.symm).mpr ?_, _,
      List.filter_sublist,
      (parts.flatMap_right _).trans (flatMap_fieldsToFill_perm F cdFields distinct)⟩
    exact List.pairwise_map.mpr distinct

/-- A field row with a parent and a description, and nothing else. -/
def bareFieldRow (parent : Option String) (desc : String) : CDDocumentField :=
  ⟨parent, some desc, none, none, none, none, none⟩

/-- A field row without a document stays out, and a parent in another spelling of
the cdID finds its document. -/
theorem loadDocuments_join_orphan :
    (loadDocuments Foundation.numbered
        [bareFieldRow none "a", bareFieldRow (some "и\u0306") "b"]
        [⟨some "d", none, none, some "0", some "й"⟩] .initial).loadedDocuments =
      [⟨"d", "", some "", "й",
        [DocumentField.ofRow Foundation.numbered (bareFieldRow (some "и\u0306") "b")]⟩] ∧
    ∃ used : List CDDocumentField,
      used.Sublist [bareFieldRow none "a", bareFieldRow (some "и\u0306") "b"] ∧
        List.Perm [DocumentField.ofRow Foundation.numbered (bareFieldRow (some "и\u0306") "b")]
          (used.map (DocumentField.ofRow Foundation.numbered)) := by
  have join := loadDocuments_join Foundation.numbered
    [bareFieldRow none "a", bareFieldRow (some "и\u0306") "b"]
    [⟨some "d", none, none, some "0", some "й"⟩] .initial
  have rows : [bareFieldRow none "a", bareFieldRow (some "и\u0306") "b"].filter
      (fun row => Foundation.numbered.StringEqual (row.parent.getD "") "й") =
        [bareFieldRow (some "и\u0306") "b"] := by
    decide +kernel
  have loaded : (loadDocuments Foundation.numbered
      [bareFieldRow none "a", bareFieldRow (some "и\u0306") "b"]
      [⟨some "d", none, none, some "0", some "й"⟩] .initial).loadedDocuments =
        [⟨"d", "", some "", "й",
          [DocumentField.ofRow Foundation.numbered (bareFieldRow (some "и\u0306") "b")]⟩] := by
    rw [join.1]
    simp [joinRow, fieldsOf, rows, DocumentModel.ofRow]
  obtain ⟨used, sub, perm⟩ := (join.2.2.2 (List.pairwise_singleton _ _)).2
  refine ⟨loaded, used, sub, ?_⟩
  rw [loaded, join.2.1] at perm
  exact perm

end DocumentRelay
