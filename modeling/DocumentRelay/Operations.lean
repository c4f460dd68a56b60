import DocumentRelay.Lib.Run
import DocumentRelay.Views.ContentView

/-!
# The app as one system

The operations that change documents, as labels of one `LabelledSystem`.  A
label carries what the code cannot choose: the user's input, the order a fetch
came back in, the state of the server, and the outcome of every `save()`.

An `Event` is an operation run to its end, or cut off after `k` of its edits and
saves by the death of the process and followed by the next launch.  A download
whose key makes the client raise is such a death too, at `k = 0`.

`Operation.run` calls the functions of the source; `Operation.actions` lists the
edits and saves they make, and `run_eq_after` says what a completed operation
leaves in memory and in the store.  The save points of each operation
(`savePoint_create`, `savePoint_download`, …) are all that is ever committed of it,
and everything about crashes follows from them.
-/

namespace DocumentRelay

/-- The operations on documents. -/
inductive Operation where
  | create (id name url : String) (fields : List DocumentField)
  | appendField (docCDId : String) (selection : PDFSelection) (description : String)
      (type : FieldType)
  | download (key : String) (server : FNode)
  | deleteLoaded (document : DocumentModel) (fetched : Fetched)
  | deleteCreated (document : DocumentModel) (fetched : Fetched)
  | removeField (i : ℕ) (offsets : List ℕ) (fetched : Fetched)
  | reload (fetched : Fetched) (now : Date)

variable (F : Foundation)

namespace Operation

/-- The document a `create` passes to `addCreatedDocument`. -/
def createdDocument (id name url : String) (fields : List DocumentField)
    (env : GlobalEnviroment) : DocumentModel :=
  { env.newDocument F id name url with fieldsToFill := fields }

/-- Run an operation to its end.  `none` is a trap or a raised exception. -/
def run (ok : ℕ → Bool) (env : GlobalEnviroment) : Operation → Option GlobalEnviroment
  | create id name url fields =>
      some (addCreatedDocument F (createdDocument F id name url fields env) ok
        { env with uuidCount := env.uuidCount + 1 })
  | appendField docCDId selection description type =>
      some (DocumentRelay.appendField F docCDId selection description type ok env)
  | download key server => (downloadDocument F key server ok env).toOption.map Download.env
  | deleteLoaded document fetched =>
      onDeleteLoaded document fetched.cdDocuments fetched.cdFields ok env
  | deleteCreated document fetched =>
      onDeleteCreated document fetched.cdDocuments fetched.cdFields ok env
  | removeField i offsets fetched =>
      DocumentRelay.removeField F i offsets fetched.cdFields ok env
  | reload fetched now => some (onAppear F fetched now env)

/-- When an operation may be taken: the view it starts from shows the document,
and the fetches it works on answer for the rows of the context. -/
def Enabled (env : GlobalEnviroment) : Operation → Prop
  | create .. => True
  | appendField docCDId .. => ∃ document ∈ env.createdDocuments, document.cdID = docCDId
  | download key _ => PathChars key
  | deleteLoaded document fetched => document ∈ env.loadedDocuments ∧ fetched.Of env.rows
  | deleteCreated document fetched => document ∈ env.createdDocuments ∧ fetched.Of env.rows
  | removeField i offsets fetched =>
      fetched.Of env.rows ∧ offsets ≠ [] ∧ ∃ document, env.createdDocuments[i]? =
        some document ∧
        ∀ offset ∈ offsets, offset < document.fieldsToFill.length
  | reload fetched _ => fetched.Of env.rows

/-- The node a download of `key` reads. -/
def snapshot (server : FNode) (key : String) : FNode :=
  server.getChild ("shared" :: pathPieces key)

/-- The rows `removeField` deletes, as far as it gets. -/
def removedRows (i : ℕ) (offsets : List ℕ) (fetched : Fetched) (env : GlobalEnviroment) :
    Option (List CDDocumentField) := do
  let document ← env.createdDocuments[i]?
  let first ← offsets.head?
  let delField ← document.fieldsToFill[first]?
  removeFieldRows F document delField fetched.cdFields

/-- The edits and saves of an operation, in order. -/
def actions (env : GlobalEnviroment) : Operation → List Action
  | create id name url fields =>
      addCreatedDocumentActions F (createdDocument F id name url fields env)
  | appendField docCDId selection description type =>
      insertFieldActions F docCDId (DocumentField.ofSelection selection description type)
  | download key server =>
      if stringAttribute (snapshot server key).asDictionary "url" ≠ "" then
        downloadActions F
          (decodeDocument key (snapshot server key) (F.uuidString env.uuidCount))
      else []
  | deleteLoaded document fetched =>
      (deleteActions document fetched.cdDocuments fetched.cdFields).getD []
  | deleteCreated document fetched =>
      (deleteActions document fetched.cdDocuments fetched.cdFields).getD []
  | removeField i offsets fetched =>
      (removedRows F i offsets fetched env).elim [] fun rows => deleteRows rows ++ [.save]
  | reload .. => []

/-- How many UUIDs an operation draws. -/
def uuids : Operation → ℕ
  | create .. => 1
  | download .. => 1
  | reload fetched _ => fetched.cdDocuments.length
  | _ => 0

/-- The loaded documents an operation leaves. -/
def loadedAfter (env : GlobalEnviroment) : Operation → List DocumentModel
  | download key server =>
      if stringAttribute (snapshot server key).asDictionary "url" ≠ "" then
        env.loadedDocuments ++
          [decodeDocument key (snapshot server key) (F.uuidString env.uuidCount)]
      else env.loadedDocuments
  | deleteLoaded document _ => removeListed document env.loadedDocuments
  | reload fetched _ => (loadModels F fetched.cdFields fetched.cdDocuments).downModels
  | _ => env.loadedDocuments

/-- The created documents an operation leaves. -/
def createdAfter (env : GlobalEnviroment) : Operation → List DocumentModel
  | create id name url fields =>
      env.createdDocuments ++ [createdDocument F id name url fields env]
  | appendField docCDId selection description type =>
      env.createdDocuments.map fun document =>
        if document.cdID =
          docCDId then document.addField selection description type else document
  | deleteCreated document _ => removeListed document env.createdDocuments
  | removeField i offsets _ =>
      env.createdDocuments.modify i fun document =>
        { document with fieldsToFill := removeAtOffsets offsets document.fieldsToFill }
  | reload fetched _ => (loadModels F fetched.cdFields fetched.cdDocuments).creatModels
  | _ => env.createdDocuments

/-- The personal data an operation leaves. -/
def personalAfter (env : GlobalEnviroment) : Operation → List TextPersonalInfo
  | reload fetched now => fetched.cdPerData.map (TextPersonalInfo.ofRow now)
  | _ => env.personalData

/-- The environment an operation leaves, part by part. -/
def after (ok : ℕ → Bool) (env : GlobalEnviroment) (op : Operation) : GlobalEnviroment where
  loadedDocuments := op.loadedAfter F env
  createdDocuments := op.createdAfter F env
  personalData := op.personalAfter env
  managedObjectContext :=
    WorkingCopy.exec applyEdit ok (op.actions F env) env.managedObjectContext
  uuidCount := env.uuidCount + op.uuids

end Operation

/-- A download whose key does not raise reads one node and runs its callback. -/
theorem downloadDocument_of_pathChars {key : String} (clean : PathChars key) (server : FNode)
    (ok : ℕ → Bool) (env : GlobalEnviroment) :
    downloadDocument F key server ok env =
      .ok ⟨"shared" :: pathPieces key,
        downloadCallback F key (Operation.snapshot server key) ok env, true⟩ := by
  rw [downloadDocument, child_shared, if_pos clean]
  rfl

/-- **What a completed operation does**, to every part of the environment. -/
theorem run_eq_after {ok : ℕ → Bool} {env env' : GlobalEnviroment} {op : Operation}
    (enabled : op.Enabled env) (ran : op.run F ok env = some env') :
    env' = op.after F ok env := by
  cases op with
  | create id name url fields =>
      obtain rfl := Option.some.inj ran
      rfl
  | appendField docCDId selection description type =>
      obtain rfl := Option.some.inj ran
      rfl
  | download key server =>
      have clean : PathChars key := enabled
      simp only [Operation.run, downloadDocument_of_pathChars F clean, Except.toOption,
        Option.map_some, Option.some.injEq] at ran
      subst ran
      by_cases url : stringAttribute (Operation.snapshot server key).asDictionary "url" = "" <;>
        simp [downloadCallback, Operation.after, Operation.actions, Operation.loadedAfter,
          Operation.createdAfter, Operation.personalAfter, Operation.uuids, url,
          GlobalEnviroment.perform, WorkingCopy.exec]
  | deleteLoaded document fetched =>
      simp only [Operation.run, onDeleteLoaded, Option.bind_eq_bind, Option.bind_eq_some_iff,
        Option.pure_def, Option.some.injEq] at ran
      obtain ⟨actions, acts, rfl⟩ := ran
      simp [Operation.after, Operation.actions, Operation.loadedAfter, Operation.createdAfter,
        Operation.personalAfter, Operation.uuids, acts, GlobalEnviroment.perform]
  | deleteCreated document fetched =>
      simp only [Operation.run, onDeleteCreated, Option.bind_eq_bind, Option.bind_eq_some_iff,
        Option.pure_def, Option.some.injEq] at ran
      obtain ⟨actions, acts, rfl⟩ := ran
      simp [Operation.after, Operation.actions, Operation.loadedAfter, Operation.createdAfter,
        Operation.personalAfter, Operation.uuids, acts, GlobalEnviroment.perform]
  | removeField i offsets fetched =>
      simp only [Operation.run, removeField, Option.bind_eq_bind, Option.bind_eq_some_iff,
        Option.pure_def, Option.some.injEq] at ran
      obtain ⟨document, listed, first, head, delField, field, rows, found, rfl⟩ := ran
      simp [Operation.after, Operation.actions, Operation.loadedAfter, Operation.createdAfter,
        Operation.personalAfter, Operation.uuids, Operation.removedRows, listed, head, field,
        found, GlobalEnviroment.perform, List.modify_eq_set_getElem?]
  | reload fetched now =>
      obtain rfl := Option.some.inj ran
      rfl

/-! ## Save points -/

/-- Rows with more fields. -/
def Rows.withFields (rows : Rows) (fields : List CDDocumentField) : Rows :=
  { rows with fields := fields }

/-- Rows with other documents. -/
def Rows.withDocuments (rows : Rows) (documents : List CDDocumentModel) : Rows :=
  { rows with documents := documents }

/-- The rows of fields under one parent. -/
def fieldRows (parent : String) (fields : List DocumentField) : List CDDocumentField :=
  fields.map (CDDocumentField.ofField F parent)

theorem replay_insertFields (parent : String) (fields : List DocumentField) (rows : Rows) :
    replayRows (fields.flatMap (insertFieldActions F parent)) rows =
      rows.withFields (rows.fields ++ fieldRows F parent fields) := by
  induction fields generalizing rows with
  | nil => simp [fieldRows, Rows.withFields]
  | cons field rest ih =>
      simp only [replayRows] at ih
      simp [insertFieldActions, ih, applyEdit, fieldRows, Rows.withFields]

/-- The save points of a list of field insertions are its non-empty beginnings. -/
theorem savePoint_insertFields (parent : String) (fields : List DocumentField)
    (rows rows' : Rows) :
    WorkingCopy.SavePoint applyEdit (fields.flatMap (insertFieldActions F parent)) rows rows' ↔
      ∃ k, 0 < k ∧ k ≤ fields.length ∧
        rows' = rows.withFields (rows.fields ++ fieldRows F parent (fields.take k)) := by
  -- The first save splits off; the rest starts from the rows with one field more.
  induction fields generalizing rows with
  | nil =>
      simp only [List.flatMap_nil, WorkingCopy.savePoint_nil, List.length_nil, false_iff]
      rintro ⟨k, pos, le, -⟩
      omega
  | cons field rest ih =>
      simp only [List.flatMap_cons, insertFieldActions, List.cons_append, List.nil_append,
        WorkingCopy.savePoint_edit, WorkingCopy.savePoint_save] at ih ⊢
      rw [ih]
      constructor
      · rintro (rfl | ⟨k, pos, le, rfl⟩)
        · exact ⟨1, by simp [applyEdit, fieldRows, Rows.withFields]⟩
        · exact ⟨k + 1, by simp [applyEdit, fieldRows, Rows.withFields]; omega⟩
      · rintro ⟨k, pos, le, rfl⟩
        obtain ⟨k, rfl⟩ : ∃ j, k = j + 1 := ⟨k - 1, by omega⟩
        rcases Nat.eq_zero_or_pos k with rfl | more
        · exact Or.inl (by simp [applyEdit, fieldRows, Rows.withFields])
        · refine Or.inr ⟨k, more, by simpa using le, ?_⟩
          simp [applyEdit, fieldRows, Rows.withFields]

/-- The document row of a created document. -/
abbrev createdRow (document : DocumentModel) : CDDocumentModel :=
  CDDocumentModel.ofDocument "1" document.url document

/-- The document row of a downloaded document. -/
abbrev loadedRow (document : DocumentModel) : CDDocumentModel :=
  CDDocumentModel.ofDocument "0" (some (document.url.getD "")) document

theorem replay_create (document : DocumentModel) (rows : Rows) :
    replayRows (addCreatedDocumentActions F document) rows =
      (rows.withFields
        (rows.fields ++ fieldRows F document.cdID document.fieldsToFill)).withDocuments
          (rows.documents ++ [createdRow document]) := by
  simp only [addCreatedDocumentActions, replayRows, WorkingCopy.replay_append]
  rw [show WorkingCopy.replay applyEdit _ rows = _ from
    replay_insertFields F document.cdID document.fieldsToFill rows]
  rfl

/-- **A create commits only field rows until its last save.** -/
theorem savePoint_create {document : DocumentModel} {rows rows' : Rows}
    (point : WorkingCopy.SavePoint applyEdit
    (addCreatedDocumentActions F document) rows rows') :
    (∃ k, rows' = rows.withFields
        (rows.fields ++ fieldRows F document.cdID (document.fieldsToFill.take k))) ∨
      rows' = replayRows (addCreatedDocumentActions F document) rows := by
  rw [addCreatedDocumentActions, WorkingCopy.savePoint_append, savePoint_insertFields] at point
  rcases point with ⟨k, -, -, eq⟩ | last
  · exact Or.inl ⟨k, eq⟩
  · simp only [WorkingCopy.savePoint_edit, WorkingCopy.savePoint_save,
      WorkingCopy.savePoint_nil,
      or_false] at last
    refine Or.inr ?_
    rw [last, addCreatedDocumentActions, replayRows, WorkingCopy.replay_append]
    rfl

theorem replay_download (document : DocumentModel) (rows : Rows) :
    replayRows (downloadActions F document) rows =
      (rows.withDocuments (rows.documents ++ [loadedRow document])).withFields
        (rows.fields ++ fieldRows F document.cdID document.fieldsToFill) := by
  simp only [downloadActions, List.cons_append, List.nil_append, replayRows,
    WorkingCopy.replay_edit, WorkingCopy.replay_save]
  rw [show WorkingCopy.replay applyEdit _ _ = _ from
    replay_insertFields F document.cdID document.fieldsToFill _]
  rfl

/-- **A download commits the document row first**, then its fields one by one. -/
theorem savePoint_download {document : DocumentModel} {rows rows' : Rows} :
    WorkingCopy.SavePoint applyEdit (downloadActions F document) rows rows' ↔
      ∃ k, k ≤ document.fieldsToFill.length ∧
        rows' = (rows.withDocuments (rows.documents ++ [loadedRow document])).withFields
          (rows.fields ++ fieldRows F document.cdID (document.fieldsToFill.take k)) := by
  simp only [downloadActions, List.cons_append, List.nil_append, WorkingCopy.savePoint_edit,
    WorkingCopy.savePoint_save]
  rw [savePoint_insertFields]
  constructor
  · rintro (rfl | ⟨k, -, le, rfl⟩)
    · exact ⟨0, Nat.zero_le _, by simp [applyEdit, fieldRows, Rows.withFields,
        Rows.withDocuments]⟩
    · exact ⟨k, le, rfl⟩
  · rintro ⟨k, le, rfl⟩
    rcases Nat.eq_zero_or_pos k with rfl | pos
    · exact Or.inl (by simp [applyEdit, fieldRows, Rows.withFields, Rows.withDocuments])
    · exact Or.inr ⟨k, pos, le, rfl⟩

theorem replay_deleteRows (gone : List CDDocumentField) (rows : Rows) :
    replayRows (deleteRows gone) rows =
      rows.withFields (gone.foldl List.erase rows.fields) := by
  induction gone generalizing rows with
  | nil => rfl
  | cons row gone ih =>
      simp only [replayRows, deleteRows] at ih
      simp [deleteRows, ih, applyEdit, Rows.withFields]

theorem not_savePoint_deleteRows (gone : List CDDocumentField) (rows rows' : Rows) :
    ¬ WorkingCopy.SavePoint applyEdit (deleteRows gone) rows rows' := by
  induction gone generalizing rows with
  | nil => simp [deleteRows]
  | cons row gone ih => simpa [deleteRows] using ih (applyEdit (.deleteField row) rows)

/-- The one save point of the deletion of field rows. -/
theorem savePoint_deleteRows {gone : List CDDocumentField} {rows rows' : Rows} :
    WorkingCopy.SavePoint applyEdit (deleteRows gone ++ [.save]) rows rows' ↔
      rows' = rows.withFields (gone.foldl List.erase rows.fields) := by
  rw [WorkingCopy.savePoint_append]
  simp only [not_savePoint_deleteRows, false_or, WorkingCopy.savePoint_save,
    WorkingCopy.savePoint_nil, or_false]
  rw [← replay_deleteRows]

end DocumentRelay
