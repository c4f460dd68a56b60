import DocumentRelay.Display

/-!
# Crashes in the middle of an operation

An operation that saves several times can be cut off between two saves.  What
the next launch shows then depends on the order of the saves.

`addCreatedDocument` writes the field rows first and the document row last, and
both `onDelete` closures delete the document row first, so every intermediate
store has field rows without a document at worst.  These are invisible, and
since no later document takes an old cdID they stay invisible
(`create_delete_crashAtomic`).

`downloadDocument` writes the document row first.  Its intermediate stores hold
the document with part of its fields, and a launch shows it
(`download_crashAtomic_iff`).
-/

namespace DocumentRelay

variable (F : Foundation)

/-- The documents from before an operation.  Where saves failed earlier on, the
store is behind the working copy, and both are from before. -/
def ShowsBefore (env : GlobalEnviroment) (models : Models) : Prop :=
  Shows F env.committedRows models ∨ Shows F env.rows models

/-- The documents from after an operation. -/
def ShowsAfter (env : GlobalEnviroment) (op : Operation) (models : Models) : Prop :=
  Shows F (replayRows (op.actions F env) env.rows) models

/-- **Crash atomicity** of an operation in a state: however its saves turn out
and wherever it is cut off, a launch shows the documents from before or from
after it. -/
def CrashAtomic (env : GlobalEnviroment) (op : Operation) : Prop :=
  ∀ (ok : ℕ → Bool) (k : ℕ) (models : Models),
    Shows F (op.interrupted F ok k env).committedRows models →
      ShowsBefore F env models ∨ ShowsAfter F env op models

variable {F}

/-- It is enough to look at the save points. -/
theorem crashAtomic_of_savePoints {env : GlobalEnviroment} {op : Operation}
    (points : ∀ rows', WorkingCopy.SavePoint applyEdit (op.actions F env) env.rows rows' →
      ∀ models, Shows F rows' models → ShowsBefore F env models ∨ ShowsAfter F env op models) :
    CrashAtomic F env op := by
  intro ok k models shown
  rcases WorkingCopy.exec_committed applyEdit ok ((op.actions F env).take k)
    env.managedObjectContext with same | point
  · have committed : (op.interrupted F ok k env).committedRows = env.committedRows := same
    rw [committed] at shown
    exact Or.inl (Or.inl shown)
  · exact points _ point.of_take models shown

/-! ## Rows of the UUID just drawn -/

/-- No field row selects the next UUID. -/
theorem fieldsOf_next {n : ℕ} {rows : Rows} (issued : RowsIssued F n rows) :
    fieldsOf F rows.fields (F.uuidString n) = [] := by
  have none : rows.fields.filter
      (fun row => F.StringEqual (row.parent.getD "") (F.uuidString n)) = [] := by
    refine List.filter_eq_nil_iff.mpr ?_
    intro row mem
    obtain ⟨s, known, s_issued⟩ := issued.fields row mem
    have apart : ¬ F.StringEqual s (F.uuidString n) := by
      rw [s_issued.stringEqual_iff F (issued_next F n)]
      exact s_issued.ne_next F
    simpa [known] using apart
  rw [fieldsOf, none]
  rfl

/-- The rows written for a document select it. -/
theorem fieldsOf_append_fieldRows (cdFields : List CDDocumentField) (cdID : String)
    (fields : List DocumentField) :
    fieldsOf F (cdFields ++ fieldRows F cdID fields) cdID =
      fieldsOf F cdFields cdID ++
        fields.map fun field => DocumentField.ofRow F
          (CDDocumentField.ofField F cdID field) := by
  have own : (fieldRows F cdID fields).filter
      (fun row => F.StringEqual (row.parent.getD "") cdID) = fieldRows F cdID fields := by
    refine List.filter_eq_self.mpr ?_
    intro row mem
    simp [mem_fieldRows mem]
  rw [fieldsOf, List.filter_append, List.map_append, own, fieldRows, List.map_map]
  rfl

/-! ## Downloads -/

/-- The store after the first save of a download: the document row alone. -/
theorem interrupted_download_two {env : GlobalEnviroment} {key : String} {server : FNode}
    (url : stringAttribute (Operation.snapshot server key).asDictionary "url" ≠ "") :
    ((Operation.download key server).interrupted F (fun _ => true) 2 env).committedRows =
      env.rows.withDocuments (env.rows.documents ++ [loadedRow
        (decodeDocument key (Operation.snapshot server key)
          (F.uuidString env.uuidCount))]) := by
  simp [Operation.interrupted, Operation.actions, url, downloadActions,
    GlobalEnviroment.perform, GlobalEnviroment.committedRows, WorkingCopy.exec,
      WorkingCopy.save,
    applyEdit, Rows.withDocuments]

/-- A download with fields, cut off after its first save, shows the document
without them. -/
theorem not_crashAtomic_download {env : GlobalEnviroment} (inv : IdentityInv F env)
    {key : String} {server : FNode}
    (url : stringAttribute (Operation.snapshot server key).asDictionary "url" ≠ "")
    (some_field : fieldSnapshots (Operation.snapshot server key) ≠ []) :
    ¬ CrashAtomic F env (.download key server) := by
  intro atomic
  obtain ⟨models, shown⟩ := exists_shows F
    ((Operation.download key server).interrupted F (fun _ => true) 2 env).committedRows
  have outcome := atomic _ _ _ shown
  rw [interrupted_download_two url] at shown
  -- The new document is shown, and none of the rows of the fields is there.
  have listed : F.uuidString env.uuidCount ∈ models.all.map DocumentModel.cdID := by
    refine shown.cdIDs.mem_iff.mpr ?_
    simp [Rows.withDocuments, CDDocumentModel.ofDocument, decodeDocument]
  have fresh {rows : Rows} (issued : RowsIssued F env.uuidCount rows) :
      F.uuidString env.uuidCount ∉ rows.documents.map fun row => row.cdId.getD "" := by
    intro old
    obtain ⟨row, mem, same⟩ := List.mem_map.mp old
    obtain ⟨s, known, s_issued⟩ := issued.documents row mem
    rw [known] at same
    exact s_issued.ne_next F same
  rcases outcome with (before | before) | after
  · exact fresh inv.committed (before.cdIDs.mem_iff.mp listed)
  · exact fresh inv.rows (before.cdIDs.mem_iff.mp listed)
  · obtain ⟨document, mem, cdID⟩ := List.mem_map.mp listed
    have cut := shown.fields mem
    have whole := after.fields mem
    rw [cdID] at cut whole
    simp only [Operation.actions, ne_eq, url, not_false_eq_true, if_true] at whole
    rw [replay_download] at whole
    have none : fieldsOf F env.rows.fields (F.uuidString env.uuidCount) = [] :=
      fieldsOf_next inv.rows
    have bare : document.fieldsToFill = [] :=
      List.Perm.eq_nil (cut.trans (List.Perm.of_eq none))
    have selected := fieldsOf_append_fieldRows (F := F) env.rows.fields
      (F.uuidString env.uuidCount)
      ((fieldSnapshots (Operation.snapshot server key)).map decodeField)
    rw [bare] at whole
    have empty := (List.nil_perm.mp whole).symm.trans selected
    exact some_field (by simpa [none] using empty)

/-- **A download is crash atomic exactly when it stores nothing or has no
field**: the document row is committed before the rows of its fields. -/
theorem download_crashAtomic_iff {events : List Event} {env : GlobalEnviroment}
    (run : (app F).Run .initial events env) (key : String) (server : FNode) :
    CrashAtomic F env (.download key server) ↔
      stringAttribute (Operation.snapshot server key).asDictionary "url" = "" ∨
        fieldSnapshots (Operation.snapshot server key) = [] := by
  constructor
  · intro atomic
    by_contra neither
    rw [not_or] at neither
    exact not_crashAtomic_download (identityInv_of_run run) neither.1 neither.2 atomic
  · intro harmless
    refine crashAtomic_of_savePoints fun rows' point models shown => Or.inr ?_
    by_cases url : stringAttribute (Operation.snapshot server key).asDictionary "url" = ""
    · simp [Operation.actions, url] at point
    · have bare := harmless.resolve_left url
      simp only [Operation.actions, ne_eq, url, not_false_eq_true, if_true] at point
      obtain ⟨k, -, rfl⟩ := (savePoint_download F).mp point
      rw [ShowsAfter]
      simp only [Operation.actions, ne_eq, url, not_false_eq_true, if_true]
      rw [replay_download]
      simpa [decodeDocument, bare] using shown

/-- A shared document with one field. -/
def oneFieldServer : FNode :=
  .node [("shared", .node [("doc1", .node [
    ("fields", .node [("field0", .node [("desc", .leaf (.string "Подпись"))])]),
    ("name", .leaf (.string "Заявление")),
    ("url", .leaf (.string "a.pdf"))])])]

/-- A shared document without fields. -/
def bareServer : FNode :=
  .node [("shared", .node [("doc1", .node [
    ("name", .leaf (.string "Заявление")),
    ("url", .leaf (.string "a.pdf"))])])]

theorem not_crashAtomic_oneField :
    ¬ CrashAtomic Foundation.numbered .initial (.download "doc1" oneFieldServer) :=
  not_crashAtomic_download (identityInv_of_run LabelledSystem.Run.nil) (by decide) (by decide)

theorem download_crashAtomic_bare :
    CrashAtomic Foundation.numbered .initial (.download "doc1" bareServer) :=
  (download_crashAtomic_iff LabelledSystem.Run.nil "doc1" bareServer).mpr (Or.inr (by decide))

/-! ## Creates and deletes -/

/-- The operations whose saves come in the safe order. -/
def Operation.CreatesOrDeletes : Operation → Prop
  | .create .. => True
  | .deleteLoaded .. => True
  | .deleteCreated .. => True
  | _ => False

/-- A create that only got to save field rows shows what was there before. -/
theorem showsBefore_of_fieldRows {env : GlobalEnviroment} (inv : IdentityInv F env)
    {fields : List DocumentField} {models : Models}
    (shown : Shows F (env.rows.withFields
      (env.rows.fields ++ fieldRows F (F.uuidString env.uuidCount) fields)) models) :
    Shows F env.rows models := by
  have issued : RowsIssued F (env.uuidCount + 1) (env.rows.withFields
      (env.rows.fields ++ fieldRows F (F.uuidString env.uuidCount) fields)) :=
    inv.rows.of_identityStep (Nat.le_succ _)
      ⟨Or.inl (List.Sublist.refl _), fun _ mem => mem_fields_append_fieldRows mem⟩
  have kept : (env.rows.fields ++ fieldRows F (F.uuidString env.uuidCount) fields).filter
      (fun row => row.parent ≠ some (F.uuidString env.uuidCount)) = env.rows.fields := by
    have old : env.rows.fields.filter
        (fun row => row.parent ≠ some (F.uuidString env.uuidCount)) = env.rows.fields :=
      List.filter_eq_self.mpr fun row mem => by simpa using inv.rows.parent_ne_next mem
    have new : (fieldRows F (F.uuidString env.uuidCount) fields).filter
        (fun row => row.parent ≠ some (F.uuidString env.uuidCount)) = [] :=
      List.filter_eq_nil_iff.mpr fun row mem => by simp [mem_fieldRows mem]
    rw [List.filter_append, old, new, List.append_nil]
  have dropped := shown.fieldsBut issued fun row mem => inv.rows.cdId_ne_next mem
  exact dropped.of_perm (List.Perm.refl _) (List.Perm.of_eq kept)

/-- A delete that only got to save the document row's deletion shows what is there
after it. -/
theorem showsAfter_of_savePoint_delete {env : GlobalEnviroment} (inv : IdentityInv F env)
    {delItem : DocumentModel} {fetched : Fetched} (fetch : fetched.Of env.rows) {rows' : Rows}
    (point : WorkingCopy.SavePoint applyEdit
      ((deleteActions delItem fetched.cdDocuments fetched.cdFields).getD []) env.rows rows')
    {models : Models} (shown : Shows F rows' models) :
    Shows F (replayRows ((deleteActions delItem fetched.cdDocuments fetched.cdFields).getD [])
      env.rows) models := by
  obtain ⟨documents, fields⟩ := savePoint_delete inv.rows fetch point
  obtain ⟨left, leftPerm, replay⟩ := replay_delete inv.rows fetch delItem
  rw [replay]
  rcases fields with kept | gone
  -- Cut off between the saves: the field rows are orphans, and do not show.
  · have sublists := savePoint_delete_sublist point
    have issued : RowsIssued F env.uuidCount rows' := inv.rows.of_identityStep (le_refl _)
      ⟨Or.inl sublists.1, fun row mem => Or.inl (sublists.2.subset mem)⟩
    have absent : ∀ row ∈ rows'.documents, row.cdId ≠ some delItem.cdID := by
      rw [documents]
      intro row mem
      simpa using (List.mem_filter.mp mem).2
    refine (shown.fieldsBut issued absent).of_perm (List.Perm.of_eq documents) ?_
    have same : rows'.fieldsBut delItem.cdID = env.rows.fieldsBut delItem.cdID := by
      rw [Rows.fieldsBut, kept]
      rfl
    exact (List.Perm.of_eq same).trans leftPerm.symm
  · exact shown.of_perm (List.Perm.of_eq documents) (gone.trans leftPerm.symm)

/-- **Creates and deletes are crash atomic.** -/
theorem crashAtomic_of_createsOrDeletes {env : GlobalEnviroment} (inv : IdentityInv F env)
    {op : Operation} (kind : op.CreatesOrDeletes) (enabled : op.Enabled env) :
    CrashAtomic F env op := by
  refine crashAtomic_of_savePoints ?_
  intro rows' point models shown
  cases op with
  | create id name url fields =>
      -- Fields first, so all but the last save leave rows of no document.
      rcases savePoint_create F point with ⟨k, rfl⟩ | rfl
      · exact Or.inl (Or.inr (showsBefore_of_fieldRows inv shown))
      · exact Or.inr shown
  | deleteLoaded document fetched =>
      exact Or.inr (showsAfter_of_savePoint_delete inv enabled.2 point shown)
  | deleteCreated document fetched =>
      exact Or.inr (showsAfter_of_savePoint_delete inv enabled.2 point shown)
  | appendField docCDId selection description type => exact kind.elim
  | download key server => exact kind.elim
  | removeField i offsets fetched => exact kind.elim
  | reload fetched now => exact kind.elim

/-! ## Rows left behind -/

/-- A field row without a document. -/
structure Orphan (rows : Rows) (row : CDDocumentField) : Prop where
  mem : row ∈ rows.fields
  absent : ∀ document ∈ rows.documents, document.cdId ≠ row.parent

variable (F) in
/-- The row is in no document: no listed one has its parent as cdID, and no load
makes a difference between the store with the rows of its parent and without. -/
structure Unseen (row : CDDocumentField) (env : GlobalEnviroment) : Prop where
  listed : ∀ document ∈ env.listed, some document.cdID ≠ row.parent
  load : ∀ fetched : Fetched, fetched.Of env.rows →
    loadModels F (fetched.cdFields.filter fun other => other.parent ≠ row.parent)
      fetched.cdDocuments = loadModels F fetched.cdFields fetched.cdDocuments

/-- The parent of an orphan a launch finds is retired. -/
theorem retired_of_orphan {env : GlobalEnviroment} {fetched : Fetched} {now : Date}
    (fetch : fetched.Of env.committedRows)
    (inv : IdentityInv F (relaunch F fetched now env)) {row : CDDocumentField}
    (orphan : Orphan (relaunch F fetched now env).rows row) :
    ∃ parent, row.parent = some parent ∧ Retired F parent (relaunch F fetched now env) := by
  obtain ⟨parent, known, issued⟩ := inv.rows.fields row orphan.mem
  have absent : ∀ document ∈ env.committedRows.documents, document.cdId ≠ some parent := by
    rw [← known]
    exact orphan.absent
  refine ⟨parent, known, issued, absent, absent, ?_⟩
  intro document mem
  obtain ⟨documentRow, rowMem, same, -⟩ := mem_listed_onAppear mem
  have inRows := fetch.documents.mem_iff.mp rowMem
  obtain ⟨s, cdId, -⟩ := inv.rows.documents documentRow inRows
  rw [← same, DocumentModel.ofRow, cdId]
  rintro rfl
  exact absent documentRow inRows cdId

/-- Rows of a retired parent are unseen. -/
theorem unseen_of_retired {env : GlobalEnviroment} (inv : IdentityInv F env)
    {row : CDDocumentField} {parent : String} (known : row.parent = some parent)
    (retired : Retired F parent env) : Unseen F row env where
  listed document mem := by
    rw [known]
    exact fun same => retired.listed document mem (Option.some.inj same)
  load fetched fetch := by
    rw [known]
    exact loadModels_fieldsBut inv.rows retired.rows fetch

/-- **Crash atomicity of create and delete, with harmless leftovers.**  The next
launch shows the documents from before or from after the operation, and the
field rows without a document it finds are in no document in any later state. -/
theorem create_delete_crashAtomic {events : List Event} {env : GlobalEnviroment}
    (run : (app F).Run .initial events env) {op : Operation} (kind : op.CreatesOrDeletes)
    (enabled : op.Enabled env) (ok : ℕ → Bool) (k : ℕ) {fetched : Fetched}
    (fetch : fetched.Of (op.interrupted F ok k env).committedRows) (now : Date) :
    (ShowsBefore F env ⟨(relaunch F fetched now (op.interrupted F ok k env)).loadedDocuments,
        (relaunch F fetched now (op.interrupted F ok k env)).createdDocuments⟩ ∨
      ShowsAfter F env op ⟨(relaunch F fetched now (op.interrupted F ok k env)).loadedDocuments,
        (relaunch F fetched now (op.interrupted F ok k env)).createdDocuments⟩) ∧
    ∀ row, Orphan (relaunch F fetched now (op.interrupted F ok k env)).rows row →
      ∀ later env',
        (app F).Run (relaunch F fetched now (op.interrupted F ok k env)) later env' →
        Unseen F row env' := by
  have inv := identityInv_of_run run
  have crashed : (app F).Run .initial (events ++ [.crash op ok k fetched now])
      (relaunch F fetched now (op.interrupted F ok k env)) :=
    run.snoc ⟨enabled, fetch⟩
  have inv' := identityInv_of_run crashed
  refine ⟨?_, fun row orphan later env' more => ?_⟩
  · exact crashAtomic_of_createsOrDeletes inv kind enabled ok k _ (shows_relaunch fetch now)
  · obtain ⟨parent, known, retired⟩ := retired_of_orphan fetch inv' orphan
    exact unseen_of_retired (identityInv_of_run (crashed.append more)) known
      (retired.of_run inv' more)

/-- The create of a document with one field, on the first launch. -/
def createOne : Operation :=
  .create "doc1" "Заявление" "a.pdf"
    [{ rect := CGRect.make 10 20 100 15, description := "Подпись", type := .name }]

/-- The row of its field. -/
def leftBehindRow : CDDocumentField where
  parent := some "00000000-0000-4000-8000-000000000000"
  desc := some "Подпись"
  type := some "Имя"
  height := some "15.0"
  width := some "100.0"
  x := some "10.0"
  y := some "20.0"

/-- What is fetched after it died between its two saves: the field row alone. -/
def leftBehind : Fetched where
  cdDocuments := []
  cdFields := [leftBehindRow]
  cdPerData := []

theorem create_crashAtomic_leftBehind :
    Unseen Foundation.numbered leftBehindRow (relaunch Foundation.numbered leftBehind 0
      (createOne.interrupted Foundation.numbered (fun _ => true) 2 .initial)) := by
  have fetch : leftBehind.Of
      (createOne.interrupted Foundation.numbered (fun _ => true) 2 .initial).committedRows :=
    ⟨⟨by decide +kernel, by decide +kernel⟩, ⟨by decide +kernel, by decide +kernel⟩,
      ⟨by decide +kernel, by decide +kernel⟩⟩
  have create : createOne.CreatesOrDeletes := trivial
  have unseen := (create_delete_crashAtomic LabelledSystem.Run.nil create trivial
    (fun _ => true) 2 fetch 0).2
  have orphan : Orphan (relaunch Foundation.numbered leftBehind 0
      (createOne.interrupted Foundation.numbered (fun _ => true) 2 .initial)).rows
        leftBehindRow :=
    ⟨fetch.fields.mem_iff.mp List.mem_cons_self, fun document present =>
      absurd (fetch.documents.mem_iff.mpr present) List.not_mem_nil⟩
  exact unseen leftBehindRow orphan [] _ LabelledSystem.Run.nil

end DocumentRelay
