import DocumentRelay.Identity

/-!
# What a launch shows

The order in which a fetch answers is not fixed, so a store of rows has several
lists of documents it may be shown as: `Shows F rows models`.  Two facts about
it carry the crash results.

* `Shows.of_perm` — a store shows the same whatever order its rows have.
* `Shows.fieldsBut` — field rows whose parent is no document's cdID are
  invisible: a store shows the same with and without them.
-/

namespace DocumentRelay

variable (F : Foundation)

/-- A load of these rows may build these lists. -/
def Shows (rows : Rows) (models : Models) : Prop :=
  ∃ fetched : Fetched, fetched.Of rows ∧
    loadModels F fetched.cdFields fetched.cdDocuments = models

/-- Both lists. -/
def Models.all (models : Models) : List DocumentModel := models.downModels ++ models.creatModels

variable {F}

variable (F) in
/-- Every store shows something. -/
theorem exists_shows (rows : Rows) : ∃ models, Shows F rows models := by
  obtain ⟨fetched, fetch⟩ := Fetched.exists_of rows
  exact ⟨_, fetched, fetch, rfl⟩

/-- The lists after a launch are among those its store shows. -/
theorem shows_relaunch {fetched : Fetched} {env : GlobalEnviroment}
    (fetch : fetched.Of env.committedRows) (now : Date) :
    Shows F env.committedRows ⟨(relaunch F fetched now env).loadedDocuments,
      (relaunch F fetched now env).createdDocuments⟩ :=
  ⟨fetched, fetch, rfl⟩

theorem Shows.of_perm {rows rows' : Rows} {models : Models} (shown : Shows F rows models)
    (documents : rows.documents.Perm rows'.documents) (fields : rows.fields.Perm rows'.fields) :
    Shows F rows' models := by
  obtain ⟨fetched, fetch, eq⟩ := shown
  -- The personal data is fetched too, but a load does not look at it.
  obtain ⟨other, others⟩ := Fetched.exists_of rows'
  exact ⟨⟨fetched.cdDocuments, fetched.cdFields, other.cdPerData⟩,
    ⟨fetch.documents.of_perm documents, fetch.fields.of_perm fields, others.perData⟩, eq⟩

/-- Documents with another cdID do not see the field rows of a parent. -/
theorem fieldsOf_filter_parent {n : ℕ} {cdFields : List CDDocumentField} {parent cdID : String}
    (parents : ∀ row ∈ cdFields, ∃ s, row.parent = some s ∧ Issued F n s)
    (issued : Issued F n cdID) (other : cdID ≠ parent) :
    fieldsOf F (cdFields.filter fun row => row.parent ≠ some parent) cdID =
      fieldsOf F cdFields cdID := by
  rw [fieldsOf, fieldsOf, List.filter_filter]
  congr 1
  refine List.filter_congr ?_
  intro row mem
  obtain ⟨s, known, s_issued⟩ := parents row mem
  have same : F.StringEqual s cdID ↔ s = cdID := s_issued.stringEqual_iff F issued
  by_cases own : s = cdID
  · simp [known, own, other]
  · simp [known, same, own]

/-- **Field rows of no document do not show.** -/
theorem loadModels_filter_parent {n : ℕ} {cdFields : List CDDocumentField}
    {cdDocuments : List CDDocumentModel} {parent : String}
    (parents : ∀ row ∈ cdFields, ∃ s, row.parent = some s ∧ Issued F n s)
    (absent : ∀ row ∈ cdDocuments, ∃ s, row.cdId = some s ∧ Issued F n s ∧ s ≠ parent) :
    loadModels F (cdFields.filter fun row => row.parent ≠ some parent) cdDocuments =
      loadModels F cdFields cdDocuments := by
  have join : ∀ row ∈ cdDocuments,
      joinRow F (cdFields.filter fun row => row.parent ≠ some parent) row =
        joinRow F cdFields row := by
    intro row mem
    obtain ⟨s, known, issued, other⟩ := absent row mem
    rw [joinRow, joinRow, known]
    exact congrArg (fun fields => { DocumentModel.ofRow row with fieldsToFill := fields })
      (fieldsOf_filter_parent parents issued other)
  rw [loadModels_eq, loadModels_eq]
  congr 1 <;>
    exact List.map_congr_left fun row mem => join row (List.mem_filter.mp mem).1

/-- The hypotheses of `loadModels_filter_parent`, for issued rows. -/
theorem loadModels_fieldsBut {n : ℕ} {rows : Rows} (issued : RowsIssued F n rows)
    {parent : String} (absent : ∀ row ∈ rows.documents, row.cdId ≠ some parent)
    {fetched : Fetched} (fetch : fetched.Of rows) :
    loadModels F (fetched.cdFields.filter fun row => row.parent ≠ some parent)
        fetched.cdDocuments =
      loadModels F fetched.cdFields fetched.cdDocuments := by
  refine loadModels_filter_parent
    (fun row mem => issued.fields row (fetch.fields.mem_iff.mp mem)) ?_
  · intro row mem
    have inRows := fetch.documents.mem_iff.mp mem
    obtain ⟨s, known, s_issued⟩ := issued.documents row inRows
    refine ⟨s, known, s_issued, ?_⟩
    rintro rfl
    exact absent row inRows known

/-- **A store shows the same without the field rows of an absent parent.** -/
theorem Shows.fieldsBut {n : ℕ} {rows : Rows} (issued : RowsIssued F n rows) {parent : String}
    (absent : ∀ row ∈ rows.documents, row.cdId ≠ some parent) {models : Models}
    (shown : Shows F rows models) :
    Shows F (rows.withFields (rows.fieldsBut parent)) models := by
  obtain ⟨fetched, fetch, rfl⟩ := shown
  exact ⟨⟨fetched.cdDocuments, fetched.cdFields.filter fun row => row.parent ≠ some parent,
      fetched.cdPerData⟩, ⟨fetch.documents, fetch.fields.filter _, fetch.perData⟩,
    loadModels_fieldsBut issued absent fetch⟩

/-- The cdIDs a store shows are those of its document rows. -/
theorem Shows.cdIDs {rows : Rows} {models : Models} (shown : Shows F rows models) :
    (models.all.map DocumentModel.cdID).Perm
      (rows.documents.map fun row => row.cdId.getD "") := by
  obtain ⟨fetched, fetch, rfl⟩ := shown
  have parts : ((fetched.cdDocuments.filter fun row => row.groupMode = some "0") ++
      fetched.cdDocuments.filter fun row => row.groupMode ≠ some "0").Perm
        fetched.cdDocuments := by
    simpa using List.filter_append_perm (fun row => decide (row.groupMode = some "0"))
      fetched.cdDocuments
  have cdIDs : (fetched.cdDocuments.map fun row => row.cdId.getD "").Perm
      (rows.documents.map fun row => row.cdId.getD "") := fetch.documents.perm.map _
  refine List.Perm.trans ?_ cdIDs
  rw [Models.all, loadModels_eq, ← List.map_append, List.map_map]
  exact parts.map fun row => row.cdId.getD ""

/-- **Every document shown is the join of a row with its field rows.** -/
theorem Shows.fields {rows : Rows} {models : Models} (shown : Shows F rows models)
    {document : DocumentModel} (mem : document ∈ models.all) :
    document.fieldsToFill.Perm (fieldsOf F rows.fields document.cdID) := by
  obtain ⟨fetched, fetch, rfl⟩ := shown
  have selected (cdID : String) :
      (fieldsOf F fetched.cdFields cdID).Perm (fieldsOf F rows.fields cdID) :=
    (fetch.fields.perm.filter _).map _
  rw [Models.all, loadModels_eq] at mem
  rcases List.mem_append.mp mem with down | created
  · obtain ⟨row, -, rfl⟩ := List.mem_map.mp down
    exact selected _
  · obtain ⟨row, -, rfl⟩ := List.mem_map.mp created
    exact selected _

end DocumentRelay
