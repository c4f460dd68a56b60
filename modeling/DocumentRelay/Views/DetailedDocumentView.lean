import DocumentRelay.Identity

/-!
# Removing one field

`removeField` of `Views/DetailedDocumentView.swift` removes a field from memory by
its position, and from the store by the document's cdID and the field's
description.  Nothing keeps descriptions apart, and two fields of one description
have rows that the loop cannot tell apart: it deletes both, memory keeps one, and
the next load shows none.

Descriptions are compared by `==`, so two spellings of one letter count as one
description as well.  `removeField_exact_iff` says when position and description
pick the same field.
-/

namespace DocumentRelay

variable {F : Foundation}

/-! ## The loop over the rows -/

/-- A row without a parent traps the loop. -/
theorem rowsMatching_eq_none {test : String → CDDocumentField → Bool}
    {cdFields : List CDDocumentField} {row : CDDocumentField} (mem : row ∈ cdFields)
    (missing : row.parent = none) : rowsMatching test cdFields = none := by
  induction cdFields with
  | nil => cases mem
  | cons first rest ih =>
      rcases List.mem_cons.mp mem with rfl | later
      · simp [rowsMatching, missing]
      · cases known : first.parent <;> simp [rowsMatching, known, ih later]

theorem removeFieldRows_eq_filter (document : DocumentModel) (delField : DocumentField)
    {cdFields : List CDDocumentField} (total : ∀ row ∈ cdFields, row.parent ≠ none) :
    removeFieldRows F document delField cdFields =
      some (cdFields.filter (lookalike F document.cdID delField.description)) := by
  refine rowsMatching_eq_filter total ?_
  intro row parent known
  simp [lookalike, known]

/-! ## One row, one field -/

variable (F) in
/-- The field rows a load gives to the documents with a cdID. -/
def Rows.fieldsUnder (cdID : String) (rows : Rows) : List CDDocumentField :=
  rows.fields.filter fun row => F.StringEqual (row.parent.getD "") cdID

variable (F) in
/-- **The document's field rows are exactly its fields**, up to order. -/
def HoldsFields (rows : Rows) (document : DocumentModel) : Prop :=
  (rows.fieldsUnder F document.cdID).Perm (fieldRows F document.cdID document.fieldsToFill)

/-- The document without its field at an offset. -/
def DocumentModel.without (document : DocumentModel) (offset : ℕ) : DocumentModel :=
  { document with fieldsToFill := document.fieldsToFill.eraseIdx offset }

variable (F) in
/-- **Exactly the field at the offset is gone**: from the created document at index
`i`, and from the rows, where it had one.  The document's rows are its fields
again, in the store and in every later load, and everything else is as it was. -/
structure RemovedExactly (i offset : ℕ) (document : DocumentModel)
    (before after : GlobalEnviroment) : Prop where
  memory : after.createdDocuments = before.createdDocuments.set i (document.without offset)
  row : ∃ field, document.fieldsToFill[offset]? = some field ∧
    before.rows.fields.Perm (CDDocumentField.ofField F document.cdID field :: after.rows.fields)
  holds : HoldsFields F after.rows (document.without offset)
  nextLoad : ∀ cdFields, CDDocumentField.getAllCDFields after.rows.fields cdFields →
    (fieldsOf F cdFields document.cdID).Perm
      ((fieldRows F document.cdID (document.without offset).fieldsToFill).map
        (DocumentField.ofRow F))
  otherFields : (after.rows.fieldsBut document.cdID).Perm (before.rows.fieldsBut document.cdID)
  otherRows : after.rows.documents = before.rows.documents ∧
    after.rows.perData = before.rows.perData
  otherMemory : after.loadedDocuments = before.loadedDocuments ∧
    after.personalData = before.personalData

section RemoveField

variable {env : GlobalEnviroment} {i offset : ℕ} {document : DocumentModel}
  {cdFields : List CDDocumentField} {field : DocumentField}

/-- **What the removal of one field leaves**, where every row has a parent. -/
theorem removeField_eq (ok : ℕ → Bool) (listed : env.createdDocuments[i]? = some document)
    (at_offset : document.fieldsToFill[offset]? = some field)
    (total : ∀ row ∈ cdFields, row.parent ≠ none) :
    ∃ env', removeField F i [offset] cdFields ok env = some env' ∧
      env'.createdDocuments = env.createdDocuments.set i (document.without offset) ∧
      env'.rows = env.rows.withFields
        ((cdFields.filter (lookalike F document.cdID field.description)).foldl List.erase
          env.rows.fields) ∧
      env'.loadedDocuments = env.loadedDocuments ∧ env'.personalData = env.personalData ∧
      (ok 0 = true → env'.committedRows = env'.rows) := by
  rw [removeField, listed]
  simp only [Option.bind_eq_bind, Option.bind_some, List.head?_cons, at_offset,
    removeFieldRows_eq_filter document field total, removeAtOffsets_singleton]
  refine ⟨_, rfl, rfl, ?_, rfl, rfl, ?_⟩
  · rw [← replay_deleteRows]
    simp [GlobalEnviroment.perform, GlobalEnviroment.rows, WorkingCopy.replay_append]
  · intro saved
    have edits (gone : List CDDocumentField) :
        deleteRows gone = (gone.map RowEdit.deleteField).map .edit := by
      simp [deleteRows]
    simp only [GlobalEnviroment.perform, edits, WorkingCopy.exec_edits_save, saved]
    rfl

/-- A field and the others. -/
theorem perm_without (at_offset : document.fieldsToFill[offset]? = some field) :
    document.fieldsToFill.Perm (field :: (document.without offset).fieldsToFill) := by
  obtain ⟨inside, rfl⟩ := List.getElem?_eq_some_iff.mp at_offset
  exact (List.getElem_cons_eraseIdx_perm inside).symm

/-- The rows the loop cannot tell from the field's are those of the fields with its
description. -/
theorem HoldsFields.filter_lookalike (holds : HoldsFields F env.rows document)
    (description : String) :
    (env.rows.fields.filter (lookalike F document.cdID description)).Perm
      (fieldRows F document.cdID
        (document.fieldsToFill.filter fun other =>
          F.StringEqual other.description description)) := by
  have own := holds.filter fun row => row.Describes F description
  rw [Rows.fieldsUnder, List.filter_filter, fieldRows, List.filter_map] at own
  refine (List.Perm.of_eq (List.filter_congr ?_)).trans (own.trans (List.Perm.of_eq ?_))
  · intro row _
    simp [lookalike, Bool.and_comm]
  · simp [fieldRows, CDDocumentField.ofField, CDDocumentField.Describes, Function.comp_def]

/-- **Where one row went, no other field had the description.** -/
theorem RemovedExactly.unique {env' : GlobalEnviroment} {ok : ℕ → Bool}
    (listed : env.createdDocuments[i]? = some document)
    (at_offset : document.fieldsToFill[offset]? = some field)
    (holds : HoldsFields F env.rows document)
    (fetch : CDDocumentField.getAllCDFields env.rows.fields cdFields)
    (total : ∀ row ∈ env.rows.fields, row.parent ≠ none)
    (ran : removeField F i [offset] cdFields ok env = some env')
    (removed : RemovedExactly F i offset document env env') :
    ∀ other ∈ (document.without offset).fieldsToFill,
      ¬ F.StringEqual other.description field.description := by
  obtain ⟨after, ran', -, rows, -⟩ := removeField_eq ok listed at_offset
    fun row mem => total row (fetch.mem_iff.mp mem)
  obtain rfl := Option.some.inj (ran.symm.trans ran')
  -- Count the rows: one is missing, and those with the description are missing.
  have left :=
    (fetch.foldl_erase_filter (lookalike F document.cdID field.description)).length_eq
  have parts := (List.filter_append_perm (lookalike F document.cdID field.description)
    env.rows.fields).length_eq
  have gone := (holds.filter_lookalike field.description).length_eq
  have described := ((perm_without at_offset).filter
    fun other => F.StringEqual other.description field.description).length_eq
  obtain ⟨field', -, one⟩ := removed.row
  have counted := one.length_eq
  simp only [rows, Rows.withFields, List.length_cons] at counted
  simp only [fieldRows, List.length_map] at gone
  rw [List.filter_cons_of_pos (by simp), List.length_cons] at described
  rw [List.length_append] at parts
  have none_else : ((document.without offset).fieldsToFill.filter
      fun other => F.StringEqual other.description field.description).length = 0 := by
    omega
  intro other mem same
  have kept := List.filter_eq_nil_iff.mp (List.length_eq_zero_iff.mp none_else) other mem
  simp [same] at kept

/-- **Where no other field has the description, exactly the field goes.** -/
theorem removedExactly_of_unique {env' : GlobalEnviroment} {ok : ℕ → Bool}
    (listed : env.createdDocuments[i]? = some document)
    (at_offset : document.fieldsToFill[offset]? = some field)
    (holds : HoldsFields F env.rows document)
    (fetch : CDDocumentField.getAllCDFields env.rows.fields cdFields)
    (total : ∀ row ∈ env.rows.fields, row.parent ≠ none)
    (ran : removeField F i [offset] cdFields ok env = some env')
    (unique : ∀ other ∈ (document.without offset).fieldsToFill,
      ¬ F.StringEqual other.description field.description) :
    RemovedExactly F i offset document env env' := by
  obtain ⟨after, ran', memory, rows, loaded, personal, -⟩ := removeField_eq ok listed at_offset
    fun row mem => total row (fetch.mem_iff.mp mem)
  obtain rfl := Option.some.inj (ran.symm.trans ran')
  have left : env'.rows.fields.Perm
      (env.rows.fields.filter fun row => !lookalike F document.cdID field.description row) := by
    rw [rows]
    exact fetch.foldl_erase_filter _
  have own : (document.fieldsToFill.filter
      fun other => F.StringEqual other.description field.description).Perm [field] := by
    refine ((perm_without at_offset).filter _).trans (List.Perm.of_eq ?_)
    rw [List.filter_cons_of_pos (by simp), List.filter_eq_nil_iff.mpr]
    intro other mem
    simpa using unique other mem
  have gone : (env.rows.fields.filter (lookalike F document.cdID field.description)).Perm
      [CDDocumentField.ofField F document.cdID field] :=
    (holds.filter_lookalike field.description).trans (own.map _)
  have one : env.rows.fields.Perm
      (CDDocumentField.ofField F document.cdID field :: env'.rows.fields) := by
    have parts := List.filter_append_perm (lookalike F document.cdID field.description)
      env.rows.fields
    exact parts.symm.trans (gone.append left.symm)
  have parentOfRow : (CDDocumentField.ofField F document.cdID field).parent =
      some document.cdID := rfl
  -- The row that goes is the first of the document's rows, and none of the others.
  have under : HoldsFields F env'.rows (document.without offset) := by
    have split := one.filter fun row => F.StringEqual (row.parent.getD "") document.cdID
    rw [List.filter_cons_of_pos (by simp [parentOfRow])] at split
    have fields := (perm_without at_offset).map (CDDocumentField.ofField F document.cdID)
    exact (split.symm.trans (holds.trans fields)).cons_inv
  have others :
      (env'.rows.fieldsBut document.cdID).Perm (env.rows.fieldsBut document.cdID) := by
    have split := one.filter fun row => row.parent ≠ some document.cdID
    rw [List.filter_cons_of_neg (by simp [parentOfRow])] at split
    exact split.symm
  have nextLoad : ∀ cdFields, CDDocumentField.getAllCDFields env'.rows.fields cdFields →
      (fieldsOf F cdFields document.cdID).Perm
        ((fieldRows F document.cdID (document.without offset).fieldsToFill).map
          (DocumentField.ofRow F)) := by
    intro cdFields' fetch'
    refine List.Perm.map _ (List.Perm.trans ?_ under)
    exact fetch'.perm.filter _
  exact
    { memory, row := ⟨field, at_offset, one⟩, holds := under, nextLoad, otherFields := others
      otherRows := by simp [rows, Rows.withFields]
      otherMemory := ⟨loaded, personal⟩ }

/-- **A removal takes exactly the field and its row if and only if every field row
has a parent and no other field of the document has an equal description.**  The
state
is any one in which the document's rows are its fields.  The save may go either
way; if it succeeds, what is left is what is committed. -/
theorem removeField_exact_iff (ok : ℕ → Bool)
    (listed : env.createdDocuments[i]? = some document)
    (at_offset : document.fieldsToFill[offset]? = some field)
    (holds : HoldsFields F env.rows document)
    (fetch : CDDocumentField.getAllCDFields env.rows.fields cdFields) :
    (∃ env', removeField F i [offset] cdFields ok env = some env' ∧
        RemovedExactly F i offset document env env' ∧
        (ok 0 = true → env'.committedRows = env'.rows)) ↔
      (∀ row ∈ env.rows.fields, row.parent ≠ none) ∧
        ∀ other ∈ document.fieldsToFill.eraseIdx offset,
          ¬ F.StringEqual other.description field.description := by
  constructor
  · rintro ⟨env', ran, removed, -⟩
    have total : ∀ row ∈ env.rows.fields, row.parent ≠ none := by
      intro row mem missing
      have trap : removeFieldRows F document field cdFields = none :=
        rowsMatching_eq_none (fetch.mem_iff.mpr mem) missing
      simp [removeField, listed, at_offset, trap] at ran
    exact ⟨total, removed.unique listed at_offset holds fetch total ran⟩
  · rintro ⟨total, unique⟩
    obtain ⟨env', ran, -, -, -, -, committed⟩ := removeField_eq ok listed at_offset
      fun row mem => total row (fetch.mem_iff.mp mem)
    exact ⟨env', ran, removedExactly_of_unique listed at_offset holds fetch total ran unique,
      committed⟩

end RemoveField

/-! ## Two fields of one description -/

/-- A field of the description, at a height of its own. -/
def fieldAt (y : ℚ) (description : String) : DocumentField where
  rect := .make 0 y 10 1
  description := description
  type := .custom

/-- A created document with two fields. -/
def twoFieldDocument (first second : String) : DocumentModel where
  id := "d"
  name := "Заявление"
  url := some "a.pdf"
  cdID := "1"
  fieldsToFill := [fieldAt 0 first, fieldAt 5 second]

/-- The app with that document alone, and its rows. -/
def twoFieldEnviroment (first second : String) : GlobalEnviroment :=
  { GlobalEnviroment.initial with
    createdDocuments := [twoFieldDocument first second]
    managedObjectContext := WorkingCopy.clean
      ⟨[createdRow (twoFieldDocument first second)],
        fieldRows Foundation.numbered "1" (twoFieldDocument first second).fieldsToFill, []⟩ }

theorem holdsFields_twoFieldDocument (first second : String) :
    HoldsFields Foundation.numbered (twoFieldEnviroment first second).rows
      (twoFieldDocument first second) := by
  refine List.Perm.of_eq (List.filter_eq_self.mpr ?_)
  intro row mem
  have parent : row.parent = some (twoFieldDocument first second).cdID := mem_fieldRows mem
  simp [parent]

theorem fetch_twoFieldDocument (first second : String) :
    CDDocumentField.getAllCDFields (twoFieldEnviroment first second).rows.fields
      (twoFieldEnviroment first second).rows.fields :=
  ⟨List.Perm.refl _, by
    simp [twoFieldEnviroment, twoFieldDocument, fieldRows, CDDocumentField.ofField, ascending,
      WorkingCopy.clean]⟩

theorem repeated_description_not_exact :
    ¬ ∀ (env : GlobalEnviroment) (i offset : ℕ) (document : DocumentModel)
      (field : DocumentField) (cdFields : List CDDocumentField) (ok : ℕ → Bool),
      env.createdDocuments[i]? = some document → document.fieldsToFill[offset]? = some field →
      HoldsFields Foundation.numbered env.rows document →
      CDDocumentField.getAllCDFields env.rows.fields cdFields →
      ∃ env', removeField Foundation.numbered i [offset] cdFields ok env = some env' ∧
        RemovedExactly Foundation.numbered i offset document env env' := by
  intro all
  obtain ⟨env', ran, removed⟩ := all (twoFieldEnviroment "ФИО" "ФИО") 0 0
    (twoFieldDocument "ФИО" "ФИО") (fieldAt 0 "ФИО") _ (fun _ => true) rfl rfl
    (holdsFields_twoFieldDocument _ _) (fetch_twoFieldDocument _ _)
  have parents : ∀ row ∈ (twoFieldEnviroment "ФИО" "ФИО").rows.fields, row.parent ≠ none := by
    decide +kernel
  have differ : ∀ other ∈ ((twoFieldDocument "ФИО" "ФИО").without 0).fieldsToFill,
      ¬ Foundation.numbered.StringEqual other.description (fieldAt 0 "ФИО").description :=
    removed.unique rfl rfl (holdsFields_twoFieldDocument _ _)
      (fetch_twoFieldDocument _ _) parents
      ran
  exact differ (fieldAt 5 "ФИО") List.mem_cons_self (Foundation.StringEqual.refl "ФИО")

theorem distinct_descriptions_exact :
    ∃ env', removeField Foundation.numbered 0 [0] (twoFieldEnviroment "ФИО" "Адрес").rows.fields
        (fun _ => true) (twoFieldEnviroment "ФИО" "Адрес") = some env' ∧
      RemovedExactly Foundation.numbered 0 0 (twoFieldDocument "ФИО" "Адрес")
        (twoFieldEnviroment "ФИО" "Адрес") env' := by
  have listed : (twoFieldEnviroment "ФИО" "Адрес").createdDocuments[0]? =
      some (twoFieldDocument "ФИО" "Адрес") := rfl
  have at_offset : (twoFieldDocument "ФИО" "Адрес").fieldsToFill[0]? =
      some (fieldAt 0 "ФИО") := rfl
  obtain ⟨env', ran, removed, -⟩ := (removeField_exact_iff (fun _ => true) listed at_offset
    (holdsFields_twoFieldDocument _ _) (fetch_twoFieldDocument _ _)).mpr
      ⟨by decide +kernel, by decide +kernel⟩
  exact ⟨env', ran, removed⟩

end DocumentRelay
