import DocumentRelay.Env.GlobalEnviroment

/-!
# Deleting, reloading, asking for a download

The steps of `Views/ContentView.swift` and `Views/DetailedDocumentView.swift`
that change documents: the two `onDelete` closures, `removeField` and
`onAppear`, which work on the fetch results the view passes in, and the two
handlers that pass a typed or scanned key to `downloadDocument`.

Rows are deleted by the strings in them, and two attributes are force unwrapped
on the way (`cdId!`, `parent!`).  A row without the attribute traps, and the
functions here answer `none`; `findDocumentRow_eq` and `rowsMatching_eq` say
what the loops do when no attribute is missing.

The description of a field is what somebody typed, so `removeField` compares it by
`Foundation.StringEqual`.  The two `onDelete` closures compare cdIDs only.  Those
are UUIDs in every state the app reaches, and UUIDs are equal when they are the same
(`Foundation.stringEqual_uuidString_iff`), so their loops compare them as they stand.
-/

namespace DocumentRelay

variable (F : Foundation)

/-! ## The loops over rows -/

/-- The loop over `cdDocuments`: the first row whose cdId is `cdID`.  The outer
`none` is a trap of `m.cdId!`. -/
def findDocumentRow (cdID : String) : List CDDocumentModel → Option (Option CDDocumentModel)
  | [] => some none
  | m :: rest =>
      match m.cdId with
      | none => none
      | some cdId => if cdId = cdID then some (some m) else findDocumentRow cdID rest

/-- A loop over `cdFields` that collects the rows a test accepts, given the
unwrapped parent.  `none` is a trap of `parent!`. -/
def rowsMatching (test : String → CDDocumentField → Bool) :
    List CDDocumentField → Option (List CDDocumentField)
  | [] => some []
  | row :: rest =>
      match row.parent with
      | none => none
      | some parent =>
          (rowsMatching test rest).map fun more =>
            if test parent row then row :: more else more

theorem findDocumentRow_eq (cdID : String) {cdDocuments : List CDDocumentModel}
    (total : ∀ row ∈ cdDocuments, row.cdId ≠ none) :
    findDocumentRow cdID cdDocuments =
      some (cdDocuments.find? fun row => row.cdId = some cdID) := by
  induction cdDocuments with
  | nil => rfl
  | cons m rest ih =>
      obtain ⟨cdId, known⟩ := Option.ne_none_iff_exists'.mp (total m List.mem_cons_self)
      have tail := ih fun row mem => total row (List.mem_cons_of_mem _ mem)
      by_cases same : cdId = cdID <;> simp [findDocumentRow, known, same, tail]

theorem rowsMatching_eq (test : String → CDDocumentField → Bool)
    {cdFields : List CDDocumentField} (total : ∀ row ∈ cdFields, row.parent ≠ none) :
    rowsMatching test cdFields =
      some (cdFields.filter fun row => test (row.parent.getD "") row) := by
  induction cdFields with
  | nil => rfl
  | cons row rest ih =>
      obtain ⟨parent, known⟩ := Option.ne_none_iff_exists'.mp (total row List.mem_cons_self)
      have tail := ih fun r mem => total r (List.mem_cons_of_mem _ mem)
      by_cases passes : test parent row <;> simp [rowsMatching, known, tail, passes]

/-- The same by a test of the whole row. -/
theorem rowsMatching_eq_filter {test : String → CDDocumentField → Bool}
    {keep : CDDocumentField → Bool} {cdFields : List CDDocumentField}
    (total : ∀ row ∈ cdFields, row.parent ≠ none)
    (agree : ∀ row parent, row.parent = some parent → test parent row = keep row) :
    rowsMatching test cdFields = some (cdFields.filter keep) := by
  rw [rowsMatching_eq test total]
  refine congrArg some (List.filter_congr ?_)
  intro row mem
  obtain ⟨parent, known⟩ := Option.ne_none_iff_exists'.mp (total row mem)
  rw [known]
  exact agree row parent known

/-! ## `onDelete` -/

def deleteRows (rows : List CDDocumentField) : List Action :=
  rows.map fun row => .edit (.deleteField row)

/-- The saves of both `onDelete` closures: the document row first, then all its
field rows together. -/
def deleteActions (delItem : DocumentModel) (cdDocuments : List CDDocumentModel)
    (cdFields : List CDDocumentField) : Option (List Action) := do
  let found ← findDocumentRow delItem.cdID cdDocuments
  let fieldRows ← rowsMatching (fun parent _ => parent = delItem.cdID) cdFields
  return (found.elim [] fun row => [.edit (.deleteDocument row), .save]) ++
    deleteRows fieldRows ++ [.save]

/-- The first loop: the first listed document with the cdID is removed. -/
def removeListed (delItem : DocumentModel) (documents : List DocumentModel) :
    List DocumentModel :=
  documents.eraseP fun document => document.cdID = delItem.cdID

/-- `onDelete` of a loaded document. -/
def onDeleteLoaded (document : DocumentModel) (cdDocuments : List CDDocumentModel)
    (cdFields : List CDDocumentField) (ok : ℕ → Bool) (env : GlobalEnviroment) :
    Option GlobalEnviroment := do
  let env := { env with loadedDocuments := removeListed document env.loadedDocuments }
  let actions ← deleteActions document cdDocuments cdFields
  return env.perform ok actions

/-- `onDelete` of a created document. -/
def onDeleteCreated (document : DocumentModel) (cdDocuments : List CDDocumentModel)
    (cdFields : List CDDocumentField) (ok : ℕ → Bool) (env : GlobalEnviroment) :
    Option GlobalEnviroment := do
  let env := { env with createdDocuments := removeListed document env.createdDocuments }
  let actions ← deleteActions document cdDocuments cdFields
  return env.perform ok actions

/-! ## `removeField` -/

/-- `remove(atOffsets:)`. -/
def removeAtOffsets {α : Type} (offsets : List ℕ) (l : List α) : List α :=
  (l.zipIdx.filter fun p => p.2 ∉ offsets).map Prod.fst

theorem map_fst_filter_zipIdx {α : Type} (l : List α) (start offset : ℕ) :
    ((l.zipIdx start).filter fun p => p.2 ≠ start + offset).map Prod.fst =
      l.eraseIdx offset := by
  induction l generalizing start offset with
  | nil => simp
  | cons a rest ih =>
      cases offset with
      | zero =>
          have later : ∀ p ∈ rest.zipIdx (start + 1), p.2 ≠ start := by
            intro p mem
            have bound := (List.mem_zipIdx mem).1
            omega
          have kept : (rest.zipIdx (start + 1)).filter (fun p => p.2 ≠ start) =
              rest.zipIdx (start + 1) :=
            List.filter_eq_self.mpr fun p mem => by simpa using later p mem
          simp only [List.zipIdx_cons, Nat.add_zero, List.eraseIdx_cons_zero]
          rw [List.filter_cons_of_neg (by simp), kept, List.zipIdx_map_fst]
      | succ offset =>
          have shift : start + (offset + 1) = start + 1 + offset := by omega
          simp only [List.zipIdx_cons, List.eraseIdx_cons_succ]
          rw [List.filter_cons_of_pos (by simp), List.map_cons, shift, ih]

/-- Removing at a single offset. -/
@[simp] theorem removeAtOffsets_singleton {α : Type} (offset : ℕ) (l : List α) :
    removeAtOffsets [offset] l = l.eraseIdx offset := by
  simpa [removeAtOffsets] using map_fst_filter_zipIdx l 0 offset

/-- `row.desc == description`, where a missing attribute equals no string. -/
def CDDocumentField.Describes (description : String) (row : CDDocumentField) : Prop :=
  ∃ desc ∈ row.desc, F.StringEqual desc description

instance (description : String) (row : CDDocumentField) :
    Decidable (row.Describes F description) :=
  inferInstanceAs (Decidable (∃ desc ∈ row.desc, F.StringEqual desc description))

/-- The field rows `removeField` deletes: those of the document with the
description. -/
def removeFieldRows (document : DocumentModel) (delField : DocumentField)
    (cdFields : List CDDocumentField) : Option (List CDDocumentField) :=
  rowsMatching (fun parent row =>
    F.StringEqual parent document.cdID && row.Describes F delField.description) cdFields

/-- `DetailedDocumentView.removeField` on the created document at index `i`.  An
empty or out of range set of offsets traps. -/
def removeField (i : ℕ) (offsets : List ℕ) (cdFields : List CDDocumentField) (ok : ℕ → Bool)
    (env : GlobalEnviroment) : Option GlobalEnviroment := do
  let document ← env.createdDocuments[i]?
  -- Rows go for the first offset only, fields for all of them.
  let first ← offsets.head?
  let delField ← document.fieldsToFill[first]?
  let rows ← removeFieldRows F document delField cdFields
  let env := env.perform ok (deleteRows rows ++ [.save])
  return { env with
    createdDocuments := env.createdDocuments.set i
      { document with fieldsToFill := removeAtOffsets offsets document.fieldsToFill } }

/-! ## `onAppear` -/

/-- The three fetch results `ContentView` holds. -/
structure Fetched where
  cdDocuments : List CDDocumentModel
  cdFields : List CDDocumentField
  cdPerData : List CDPerData

/-- The fetches answer for these rows. -/
structure Fetched.Of (rows : Rows) (fetched : Fetched) : Prop where
  documents : CDDocumentModel.getAllCDDocs rows.documents fetched.cdDocuments
  fields : CDDocumentField.getAllCDFields rows.fields fetched.cdFields
  perData : CDPerData.getAllCDData rows.perData fetched.cdPerData

theorem Fetched.exists_of (rows : Rows) : ∃ fetched : Fetched, fetched.Of rows := by
  obtain ⟨cdDocuments, documents⟩ := Fetch.exists_fetch CDDocumentModel.groupMode rows.documents
  obtain ⟨cdFields, fields⟩ := Fetch.exists_fetch CDDocumentField.parent rows.fields
  obtain ⟨cdPerData, perData⟩ := Fetch.exists_fetch CDPerData.createdAt rows.perData
  exact ⟨⟨cdDocuments, cdFields, cdPerData⟩, documents, fields, perData⟩

/-- The entry `onAppear` builds from a row; `now` stands in for a missing date. -/
def TextPersonalInfo.ofRow (now : Date) (row : CDPerData) : TextPersonalInfo where
  info := row.info
  type := fieldTypeFromString (row.type.getD "")
  createdAt := row.createdAt.getD now

/-- `ContentView.onAppear`. -/
def onAppear (fetched : Fetched) (now : Date) (env : GlobalEnviroment) : GlobalEnviroment :=
  let env := loadDocuments F fetched.cdFields fetched.cdDocuments env
  { env with personalData := fetched.cdPerData.map (TextPersonalInfo.ofRow now) }

/-- The next launch after the process died: memory is gone, the store holds what
was committed, and `onAppear` runs. -/
def relaunch (fetched : Fetched) (now : Date) (env : GlobalEnviroment) : GlobalEnviroment :=
  onAppear F fetched now
    { env with
      loadedDocuments := []
      createdDocuments := []
      personalData := []
      managedObjectContext := env.managedObjectContext.reopen }

/-! ## `arrayStringOf` -/

/-- `arrayStringOf`: the texts a loaded document is opened with, one to a field. -/
def arrayStringOf (size : ℕ) : List String :=
  (List.range size).foldl (fun array _ => array ++ [""]) []

theorem arrayStringOf_eq (size : ℕ) : arrayStringOf size = List.replicate size "" := by
  induction size with
  | zero => rfl
  | succ size ih =>
      rw [arrayStringOf] at ih
      rw [arrayStringOf, List.range_succ, List.foldl_append, ih, List.replicate_succ']
      rfl

/-! ## `handleScan` and `handleTypeIn` -/

/-- What the view keeps while a download is asked for. -/
structure DownloadState where
  typeInIsPresented : Bool
  downloadOptionsIsPresented : Bool
  qrScanIsPresented : Bool
  downloadingDocument : Bool
  documentId : String
  showDownloadOptions : Bool
  deriving DecidableEq, Repr

/-- `handleScan`, with the completion it passes on.  A failed scan asks for
nothing. -/
def handleScan {ε : Type} (result : Except ε String) (server : FNode) (ok : ℕ → Bool)
    (view : DownloadState) (env : GlobalEnviroment) :
    Except NSException (DownloadState × Option Download) :=
  let view := { view with
    qrScanIsPresented := false
    downloadOptionsIsPresented := false
    downloadingDocument := true }
  match result with
  | .ok code => do
      let download ← downloadDocument F code server ok env
      return (if download.comletion then { view with downloadingDocument := false } else view,
        some download)
  | .error _ => return ({ view with downloadingDocument := false }, none)

/-- `handleTypeIn`, with the completion it passes on. -/
def handleTypeIn (server : FNode) (ok : ℕ → Bool) (view : DownloadState)
    (env : GlobalEnviroment) : Except NSException (DownloadState × Option Download) := do
  let view := { view with
    showDownloadOptions := false
    typeInIsPresented := false
    downloadingDocument := true }
  let download ← downloadDocument F view.documentId server ok env
  return (if download.comletion then
      { view with
        downloadingDocument := false
        downloadOptionsIsPresented := false
        documentId := "" }
    else view, some download)

end DocumentRelay
