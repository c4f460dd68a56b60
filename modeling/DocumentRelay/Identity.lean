import DocumentRelay.Operations

/-!
# Every cdID is issued once

Documents and field rows are joined by nothing but a string, so everything about
the store rests on who carries which cdID.  The facts here hold in every state
the app can reach, crashes and failed saves included:

* every cdID and every parent is a UUID drawn before (`RowsIssued.documents`,
  `RowsIssued.fields`), and no two document rows share one (`RowsIssued.nodup`);
* none of the force unwraps of the loops over rows traps (`deleteActions_eq`);
* a cdID that no document has any more is never taken again (`Retired`).

All of them come from one description of what a save point of an operation can
hold (`IdentityStep`): some of the document rows, or all of them and one more
with the UUID just drawn; and field rows that were there, or whose parent is an
issued UUID.
-/

namespace DocumentRelay

variable (F : Foundation)

/-! ## Events -/

/-- An operation run to its end, or cut off after `k` of its edits and saves and
followed by the next launch. -/
inductive Event where
  | complete (op : Operation) (ok : ℕ → Bool)
  | crash (op : Operation) (ok : ℕ → Bool) (k : ℕ) (fetched : Fetched) (now : Date)

/-- The state in which the process dies: `k` actions of the operation are done. -/
def Operation.interrupted (ok : ℕ → Bool) (k : ℕ) (op : Operation) (env : GlobalEnviroment) :
    GlobalEnviroment :=
  { env.perform ok ((op.actions F env).take k) with uuidCount := env.uuidCount + op.uuids }

/-- **The app.** -/
def app : LabelledSystem GlobalEnviroment Event where
  enabled env
    | .complete op _ => op.Enabled env
    | .crash op ok k fetched _ =>
        op.Enabled env ∧ fetched.Of (op.interrupted F ok k env).committedRows
  step env
    -- No operation traps in a reachable state (`run_eq_some`).
    | .complete op ok => (op.run F ok env).getD env
    | .crash op ok k fetched now => relaunch F fetched now (op.interrupted F ok k env)

/-! ## Issued identifiers -/

/-- A value some `UUID()` call before the `n`-th returned. -/
def Issued (n : ℕ) (s : String) : Prop := ∃ m, m < n ∧ F.uuidString m = s

theorem Issued.mono {n n' : ℕ} {s : String} (issued : Issued F n s) (le : n ≤ n') :
    Issued F n' s := by
  obtain ⟨m, lt, eq⟩ := issued
  exact ⟨m, by omega, eq⟩

/-- The next UUID is not one of those returned before. -/
theorem Issued.ne_next {n : ℕ} {s : String} (issued : Issued F n s) : s ≠ F.uuidString n := by
  obtain ⟨m, lt, rfl⟩ := issued
  intro same
  have := F.uuidString_injective same
  omega

/-- On issued identifiers, `==` is equality. -/
theorem Issued.stringEqual_iff {n m : ℕ} {s t : String} (issued : Issued F n s)
    (issued' : Issued F m t) : F.StringEqual s t ↔ s = t := by
  obtain ⟨k, -, rfl⟩ := issued
  obtain ⟨l, -, rfl⟩ := issued'
  exact Foundation.stringEqual_uuidString_iff

theorem issued_next (n : ℕ) : Issued F (n + 1) (F.uuidString n) := ⟨n, by omega, rfl⟩

/-- The rows carry issued identifiers, and no two documents the same one. -/
structure RowsIssued (n : ℕ) (rows : Rows) : Prop where
  documents : ∀ row ∈ rows.documents, ∃ s, row.cdId = some s ∧ Issued F n s
  nodup : (rows.documents.map CDDocumentModel.cdId).Nodup
  fields : ∀ row ∈ rows.fields, ∃ s, row.parent = some s ∧ Issued F n s

/-- All documents of the two lists. -/
def GlobalEnviroment.listed (env : GlobalEnviroment) : List DocumentModel :=
  env.loadedDocuments ++ env.createdDocuments

/-- **The identity invariant** of the app. -/
structure IdentityInv (env : GlobalEnviroment) : Prop where
  rows : RowsIssued F env.uuidCount env.rows
  committed : RowsIssued F env.uuidCount env.committedRows
  listed : ∀ document ∈ env.listed, Issued F env.uuidCount document.cdID

variable {F}

theorem RowsIssued.mono {n n' : ℕ} {rows : Rows} (issued : RowsIssued F n rows) (le : n ≤ n') :
    RowsIssued F n' rows where
  documents row mem := by
    obtain ⟨s, known, s_issued⟩ := issued.documents row mem
    exact ⟨s, known, s_issued.mono F le⟩
  nodup := issued.nodup
  fields row mem := by
    obtain ⟨s, known, s_issued⟩ := issued.fields row mem
    exact ⟨s, known, s_issued.mono F le⟩

/-- No row carries the next UUID. -/
theorem RowsIssued.cdId_ne_next {n : ℕ} {rows : Rows} (issued : RowsIssued F n rows)
    {row : CDDocumentModel} (mem : row ∈ rows.documents) :
    row.cdId ≠ some (F.uuidString n) := by
  obtain ⟨s, known, s_issued⟩ := issued.documents row mem
  rw [known]
  exact fun same => s_issued.ne_next F (Option.some.inj same)

theorem RowsIssued.parent_ne_next {n : ℕ} {rows : Rows} (issued : RowsIssued F n rows)
    {row : CDDocumentField} (mem : row ∈ rows.fields) :
    row.parent ≠ some (F.uuidString n) := by
  obtain ⟨s, known, s_issued⟩ := issued.fields row mem
  rw [known]
  exact fun same => s_issued.ne_next F (Option.some.inj same)

/-! ## What a save point can hold -/

variable (F) in
/-- What an operation that brings the count of UUIDs to `n` can do to the
identifiers in the rows. -/
structure IdentityStep (env : GlobalEnviroment) (n : ℕ) (rows' : Rows) : Prop where
  documents : rows'.documents.Sublist env.rows.documents ∨
    env.uuidCount < n ∧ ∃ row : CDDocumentModel, row.cdId = some (F.uuidString env.uuidCount) ∧
      rows'.documents = env.rows.documents ++ [row]
  fields : ∀ row ∈ rows'.fields, row ∈ env.rows.fields ∨
    ∃ s, row.parent = some s ∧ Issued F n s

theorem mem_fieldRows {parent : String} {fields : List DocumentField} {row : CDDocumentField}
    (mem : row ∈ fieldRows F parent fields) : row.parent = some parent := by
  obtain ⟨field, -, rfl⟩ := List.mem_map.mp mem
  rfl

/-- Field rows of a document with the UUID just drawn are issued. -/
theorem mem_fields_append_fieldRows {env : GlobalEnviroment} {fields : List DocumentField}
    {row : CDDocumentField}
    (mem : row ∈ env.rows.fields ++ fieldRows F (F.uuidString env.uuidCount) fields) :
    row ∈ env.rows.fields ∨ ∃ s, row.parent = some s ∧ Issued F (env.uuidCount + 1) s := by
  rcases List.mem_append.mp mem with old | new
  · exact Or.inl old
  · exact Or.inr ⟨_, mem_fieldRows new, issued_next F _⟩

/-- What both `onDelete` closures leave at a save point. -/
theorem savePoint_delete_sublist {delItem : DocumentModel} {fetched : Fetched}
    {rows rows' : Rows}
    (point : WorkingCopy.SavePoint applyEdit
      ((deleteActions delItem fetched.cdDocuments fetched.cdFields).getD []) rows rows') :
    rows'.documents.Sublist rows.documents ∧ rows'.fields.Sublist rows.fields := by
  cases acts : deleteActions delItem fetched.cdDocuments fetched.cdFields with
  | none => simp [acts] at point
  | some actions =>
      rw [acts, Option.getD_some] at point
      simp only [deleteActions, Option.bind_eq_bind, Option.bind_eq_some_iff, Option.pure_def,
        Option.some.injEq] at acts
      obtain ⟨found, -, gone, -, rfl⟩ := acts
      cases found with
      | none =>
          have last : rows' = rows.withFields (gone.foldl List.erase rows.fields) := by
            simpa [savePoint_deleteRows] using point
          rw [last]
          exact ⟨List.Sublist.refl _, Fetch.foldl_erase_sublist _ _⟩
      | some row =>
          have split : rows' = applyEdit (.deleteDocument row) rows ∨
              rows' = (applyEdit (.deleteDocument row) rows).withFields
                (gone.foldl List.erase rows.fields) := by
            simpa [savePoint_deleteRows, applyEdit] using point
          rcases split with rfl | rfl
          · exact ⟨List.erase_sublist, List.Sublist.refl _⟩
          · exact ⟨List.erase_sublist, Fetch.foldl_erase_sublist _ _⟩

variable (F) in
/-- The document row an operation inserts. -/
def Operation.inserted (env : GlobalEnviroment) : Operation → Option CDDocumentModel
  | .create id name url fields => some (createdRow (createdDocument F id name url fields env))
  | .download key server =>
      if stringAttribute (snapshot server key).asDictionary "url" ≠ "" then
        some (loadedRow (decodeDocument key (snapshot server key) (F.uuidString env.uuidCount)))
      else none
  | _ => none

/-- An inserted row has the UUID just drawn. -/
theorem cdId_of_inserted {env : GlobalEnviroment} {op : Operation} {row : CDDocumentModel}
    (new : op.inserted F env = some row) :
    env.uuidCount < env.uuidCount + op.uuids ∧
      row.cdId = some (F.uuidString env.uuidCount) := by
  cases op with
  | create id name url fields =>
      obtain rfl := Option.some.inj new
      exact ⟨Nat.lt_succ_self _, rfl⟩
  | download key server =>
      rw [Operation.inserted] at new
      split at new
      · obtain rfl := Option.some.inj new
        exact ⟨Nat.lt_succ_self _, rfl⟩
      · cases new
  | appendField docCDId selection description type => cases new
  | deleteLoaded document fetched => cases new
  | deleteCreated document fetched => cases new
  | removeField i offsets fetched => cases new
  | reload fetched now => cases new

/-- **The document rows at a save point**: some of those before, or all of them
and the inserted one. -/
theorem documents_of_savePoint {env : GlobalEnviroment} {op : Operation} {rows' : Rows}
    (point : WorkingCopy.SavePoint applyEdit (op.actions F env) env.rows rows') :
    rows'.documents.Sublist env.rows.documents ∨
      ∃ row, op.inserted F env = some row ∧
        rows'.documents = env.rows.documents ++ [row] := by
  cases op with
  | create id name url fields =>
      rcases savePoint_create F point with ⟨k, rfl⟩ | rfl
      · exact Or.inl (List.Sublist.refl _)
      · rw [replay_create]
        exact Or.inr ⟨_, rfl, rfl⟩
  | appendField docCDId selection description type =>
      have last : rows' = applyEdit (.insertField (CDDocumentField.ofField F docCDId
          (DocumentField.ofSelection selection description type))) env.rows := by
        simpa [Operation.actions, insertFieldActions] using point
      exact Or.inl (last ▸ List.Sublist.refl _)
  | download key server =>
      by_cases url : stringAttribute (Operation.snapshot server key).asDictionary "url" = ""
      · simp [Operation.actions, url] at point
      · simp only [Operation.actions, ne_eq, url, not_false_eq_true, if_true] at point
        obtain ⟨k, -, rfl⟩ := (savePoint_download F).mp point
        exact Or.inr ⟨_, by simp [Operation.inserted, url], rfl⟩
  | deleteLoaded document fetched => exact Or.inl (savePoint_delete_sublist point).1
  | deleteCreated document fetched => exact Or.inl (savePoint_delete_sublist point).1
  | removeField i offsets fetched =>
      cases removed : Operation.removedRows F i offsets fetched env with
      | none => simp [Operation.actions, removed] at point
      | some gone =>
          have last : rows' = env.rows.withFields (gone.foldl List.erase env.rows.fields) := by
            simpa [Operation.actions, removed, savePoint_deleteRows] using point
          exact Or.inl (last ▸ List.Sublist.refl _)
  | reload fetched now => simp [Operation.actions] at point

/-- **The field rows at a save point** were there before, or have an issued
parent. -/
theorem fields_of_savePoint {env : GlobalEnviroment} {op : Operation} {rows' : Rows}
    (listed : ∀ document ∈ env.listed, Issued F env.uuidCount document.cdID)
    (enabled : op.Enabled env)
    (point : WorkingCopy.SavePoint applyEdit (op.actions F env) env.rows rows')
    {row : CDDocumentField} (mem : row ∈ rows'.fields) :
    row ∈ env.rows.fields ∨
      ∃ s, row.parent = some s ∧ Issued F (env.uuidCount + op.uuids) s := by
  cases op with
  | create id name url fields =>
      rcases savePoint_create F point with ⟨k, rfl⟩ | rfl
      · exact mem_fields_append_fieldRows mem
      · rw [replay_create] at mem
        exact mem_fields_append_fieldRows mem
  | appendField docCDId selection description type =>
      obtain ⟨document, known, rfl⟩ := enabled
      have last : rows' = applyEdit (.insertField (CDDocumentField.ofField F document.cdID
          (DocumentField.ofSelection selection description type))) env.rows := by
        simpa [Operation.actions, insertFieldActions] using point
      subst last
      rcases List.mem_append.mp mem with old | new
      · exact Or.inl old
      · obtain rfl := List.mem_singleton.mp new
        exact Or.inr ⟨document.cdID, rfl, listed document (List.mem_append_right _ known)⟩
  | download key server =>
      by_cases url : stringAttribute (Operation.snapshot server key).asDictionary "url" = ""
      · simp [Operation.actions, url] at point
      · simp only [Operation.actions, ne_eq, url, not_false_eq_true, if_true] at point
        obtain ⟨k, -, rfl⟩ := (savePoint_download F).mp point
        exact mem_fields_append_fieldRows mem
  | deleteLoaded document fetched =>
      exact Or.inl ((savePoint_delete_sublist point).2.subset mem)
  | deleteCreated document fetched =>
      exact Or.inl ((savePoint_delete_sublist point).2.subset mem)
  | removeField i offsets fetched =>
      cases removed : Operation.removedRows F i offsets fetched env with
      | none => simp [Operation.actions, removed] at point
      | some gone =>
          have last : rows' = env.rows.withFields (gone.foldl List.erase env.rows.fields) := by
            simpa [Operation.actions, removed, savePoint_deleteRows] using point
          subst last
          exact Or.inl ((Fetch.foldl_erase_sublist _ _).subset mem)
  | reload fetched now => simp [Operation.actions] at point

/-- **What a save point of an operation can do to identifiers.** -/
theorem identityStep_of_savePoint {env : GlobalEnviroment} {op : Operation} {rows' : Rows}
    (listed : ∀ document ∈ env.listed, Issued F env.uuidCount document.cdID)
    (enabled : op.Enabled env)
    (point : WorkingCopy.SavePoint applyEdit (op.actions F env) env.rows rows') :
    IdentityStep F env (env.uuidCount + op.uuids) rows' where
  documents := by
    rcases documents_of_savePoint point with old | ⟨row, new, eq⟩
    · exact Or.inl old
    · obtain ⟨drawn, cdId⟩ := cdId_of_inserted new
      exact Or.inr ⟨drawn, row, cdId, eq⟩
  fields _ mem := fields_of_savePoint listed enabled point mem

/-! ## What an event can do -/

variable (F) in
/-- The actions of every operation end in a save. -/
theorem endsSaved_actions (env : GlobalEnviroment) (op : Operation) :
    WorkingCopy.EndsSaved (op.actions F env) := by
  have inserts (parent : String) (fields : List DocumentField) :
      WorkingCopy.EndsSaved (fields.flatMap (insertFieldActions F parent)) := by
    induction fields with
    | nil => exact Or.inl rfl
    | cons field rest ih =>
        exact WorkingCopy.EndsSaved.append (Or.inr ⟨[_], rfl⟩) ih
  have deletes (delItem : DocumentModel) (fetched : Fetched) : WorkingCopy.EndsSaved
      ((deleteActions delItem fetched.cdDocuments fetched.cdFields).getD []) := by
    cases acts : deleteActions delItem fetched.cdDocuments fetched.cdFields with
    | none => exact Or.inl rfl
    | some actions =>
        simp only [deleteActions, Option.bind_eq_bind, Option.bind_eq_some_iff, Option.pure_def,
          Option.some.injEq] at acts
        obtain ⟨found, -, gone, -, rfl⟩ := acts
        exact Or.inr ⟨_, rfl⟩
  cases op with
  | create id name url fields => exact (inserts _ _).append (Or.inr ⟨[_], rfl⟩)
  | appendField docCDId selection description type => exact Or.inr ⟨[_], rfl⟩
  | download key server =>
      rw [Operation.actions]
      split
      · exact WorkingCopy.EndsSaved.append (Or.inr ⟨[_], rfl⟩) (inserts _ _)
      · exact Or.inl rfl
  | deleteLoaded document fetched => exact deletes document fetched
  | deleteCreated document fetched => exact deletes document fetched
  | removeField i offsets fetched =>
      rw [Operation.actions]
      cases Operation.removedRows F i offsets fetched env with
      | none => exact Or.inl rfl
      | some gone => exact Or.inr ⟨_, rfl⟩
  | reload fetched now => exact Or.inl rfl

/-- A document as a load builds it from a row, its fields aside. -/
def CDDocumentModel.Heads (row : CDDocumentModel) (document : DocumentModel) : Prop :=
  (DocumentModel.ofRow row).cdID = document.cdID ∧ (DocumentModel.ofRow row).url = document.url

/-- The documents a load lists are those of the rows. -/
theorem mem_listed_onAppear {fetched : Fetched} {now : Date} {env : GlobalEnviroment}
    {document : DocumentModel} (mem : document ∈ (onAppear F fetched now env).listed) :
    ∃ row ∈ fetched.cdDocuments, row.Heads document := by
  simp only [GlobalEnviroment.listed, onAppear, loadDocuments, loadModels_eq, List.mem_append,
    List.mem_map, List.mem_filter] at mem
  rcases mem with ⟨row, ⟨mem, -⟩, rfl⟩ | ⟨row, ⟨mem, -⟩, rfl⟩ <;> exact ⟨row, mem, rfl, rfl⟩

/-- The documents listed after an operation: those listed before, the one of the
inserted row, or those of the rows. -/
theorem mem_listed_after {ok : ℕ → Bool} {env : GlobalEnviroment} {op : Operation}
    (enabled : op.Enabled env) {document : DocumentModel}
    (mem : document ∈ (op.after F ok env).listed) :
    (∃ old ∈ env.listed, old.cdID = document.cdID ∧ old.url = document.url) ∨
      ∃ row, (op.inserted F env = some row ∨ row ∈ env.rows.documents) ∧
        row.Heads document := by
  have keepLoaded (old : document ∈ env.loadedDocuments) :
      ∃ old ∈ env.listed, old.cdID = document.cdID ∧ old.url = document.url :=
    ⟨_, List.mem_append_left _ old, rfl, rfl⟩
  have keepCreated (old : document ∈ env.createdDocuments) :
      ∃ old ∈ env.listed, old.cdID = document.cdID ∧ old.url = document.url :=
    ⟨_, List.mem_append_right _ old, rfl, rfl⟩
  cases op with
  | create id name url fields =>
      rcases List.mem_append.mp mem with loaded | created
      · exact Or.inl (keepLoaded loaded)
      · rcases List.mem_append.mp created with old | new
        · exact Or.inl (keepCreated old)
        · obtain rfl := List.mem_singleton.mp new
          exact Or.inr ⟨_, Or.inl rfl, rfl, rfl⟩
  | appendField docCDId selection description type =>
      rcases List.mem_append.mp mem with loaded | created
      · exact Or.inl (keepLoaded loaded)
      · obtain ⟨old, oldMem, rfl⟩ := List.mem_map.mp created
        refine Or.inl ⟨old, List.mem_append_right _ oldMem, ?_⟩
        split <;> exact ⟨rfl, rfl⟩
  | download key server =>
      rcases List.mem_append.mp mem with loaded | created
      · simp only [Operation.after, Operation.loadedAfter] at loaded
        split at loaded
        · rename_i url
          rcases List.mem_append.mp loaded with old | new
          · exact Or.inl (keepLoaded old)
          · obtain rfl := List.mem_singleton.mp new
            exact Or.inr ⟨_, Or.inl (if_pos url), rfl, rfl⟩
        · exact Or.inl (keepLoaded loaded)
      · exact Or.inl (keepCreated created)
  | deleteLoaded gone fetched =>
      rcases List.mem_append.mp mem with loaded | created
      · exact Or.inl (keepLoaded (List.mem_of_mem_eraseP loaded))
      · exact Or.inl (keepCreated created)
  | deleteCreated gone fetched =>
      rcases List.mem_append.mp mem with loaded | created
      · exact Or.inl (keepLoaded loaded)
      · exact Or.inl (keepCreated (List.mem_of_mem_eraseP created))
  | removeField i offsets fetched =>
      rcases List.mem_append.mp mem with loaded | created
      · exact Or.inl (keepLoaded loaded)
      · simp only [Operation.after, Operation.createdAfter] at created
        obtain ⟨n, known⟩ := List.mem_iff_getElem?.mp created
        rw [List.getElem?_modify, Option.map_eq_map, Option.map_eq_some_iff] at known
        obtain ⟨old, oldMem, rfl⟩ := known
        refine Or.inl ⟨old, List.mem_append_right _ (List.mem_of_getElem? oldMem), ?_⟩
        split <;> exact ⟨rfl, rfl⟩
  | reload fetched now =>
      have fetch : fetched.Of env.rows := enabled
      have shown : document ∈ (onAppear F fetched now env).listed := mem
      obtain ⟨row, rowMem, head⟩ := mem_listed_onAppear shown
      exact Or.inr ⟨row, Or.inr (fetch.documents.mem_iff.mp rowMem), head⟩

variable (F) in
/-- **What an event can do to identifiers.** -/
structure EventStep (env env' : GlobalEnviroment) : Prop where
  count : env.uuidCount ≤ env'.uuidCount
  rows : env'.rows = env.committedRows ∨ IdentityStep F env env'.uuidCount env'.rows
  committed : env'.committedRows = env.committedRows ∨
    IdentityStep F env env'.uuidCount env'.committedRows
  listed : ∀ document ∈ env'.listed, (∃ old ∈ env.listed, old.cdID = document.cdID) ∨
    (env.uuidCount < env'.uuidCount ∧ document.cdID = F.uuidString env.uuidCount) ∨
    (∃ row ∈ env.rows.documents, row.cdId.getD "" = document.cdID) ∨
    ∃ row ∈ env'.rows.documents, row.cdId.getD "" = document.cdID

theorem IdentityStep.refl (env : GlobalEnviroment) :
    IdentityStep F env env.uuidCount env.rows :=
  ⟨Or.inl (List.Sublist.refl _), fun _ mem => Or.inl mem⟩

theorem IdentityStep.mono {env : GlobalEnviroment} {n n' : ℕ} {rows' : Rows}
    (step : IdentityStep F env n rows') (le : n ≤ n') : IdentityStep F env n' rows' where
  documents := by
    rcases step.documents with old | ⟨drawn, new⟩
    · exact Or.inl old
    · exact Or.inr ⟨drawn.trans_le le, new⟩
  fields row mem := by
    rcases step.fields row mem with old | ⟨s, known, issued⟩
    · exact Or.inl old
    · exact Or.inr ⟨s, known, issued.mono F le⟩

/-- What some actions of an operation can leave committed. -/
theorem identityStep_committed {env : GlobalEnviroment} {op : Operation}
    (listed : ∀ document ∈ env.listed, Issued F env.uuidCount document.cdID)
    (enabled : op.Enabled env) (ok : ℕ → Bool) (k : ℕ) :
    (op.interrupted F ok k env).committedRows = env.committedRows ∨
      IdentityStep F env (env.uuidCount + op.uuids)
        (op.interrupted F ok k env).committedRows := by
  rcases WorkingCopy.exec_committed applyEdit ok ((op.actions F env).take k)
    env.managedObjectContext with same | point
  · exact Or.inl same
  · exact Or.inr (identityStep_of_savePoint listed enabled point.of_take)

/-- An operation run to its end leaves the store as one cut off after all of its
actions. -/
theorem after_eq_interrupted (env : GlobalEnviroment) (op : Operation) (ok : ℕ → Bool) :
    (op.after F ok env).managedObjectContext =
      (op.interrupted F ok (op.actions F env).length env).managedObjectContext := by
  simp [Operation.after, Operation.interrupted, GlobalEnviroment.perform]

theorem eventStep_after {env : GlobalEnviroment} {op : Operation} (inv : IdentityInv F env)
    (enabled : op.Enabled env) (ok : ℕ → Bool) : EventStep F env (op.after F ok env) where
  count := Nat.le_add_right _ _
  rows := by
    refine Or.inr ?_
    rw [GlobalEnviroment.rows, Operation.after, WorkingCopy.exec_working]
    rcases (endsSaved_actions F env op).replay applyEdit env.rows with same | point
    · rw [same]
      exact (IdentityStep.refl env).mono (Nat.le_add_right _ _)
    · exact identityStep_of_savePoint inv.listed enabled point
  committed := by
    rw [GlobalEnviroment.committedRows, after_eq_interrupted]
    exact identityStep_committed inv.listed enabled ok _
  listed document mem := by
    rcases mem_listed_after enabled mem with ⟨old, known, same, -⟩ | ⟨row, new | old, same, -⟩
    · exact Or.inl ⟨old, known, same⟩
    · obtain ⟨drawn, cdId⟩ := cdId_of_inserted new
      exact Or.inr (Or.inl ⟨drawn, by rw [← same, DocumentModel.ofRow, cdId]; rfl⟩)
    · exact Or.inr (Or.inr (Or.inl ⟨row, old, same⟩))

theorem eventStep_relaunch {env : GlobalEnviroment} {op : Operation} (inv : IdentityInv F env)
    (enabled : op.Enabled env) (ok : ℕ → Bool) (k : ℕ) {fetched : Fetched}
    (fetch : fetched.Of (op.interrupted F ok k env).committedRows) (now : Date) :
    EventStep F env (relaunch F fetched now (op.interrupted F ok k env)) := by
  have kept : (op.interrupted F ok k env).committedRows = env.committedRows ∨
      IdentityStep F env (relaunch F fetched now (op.interrupted F ok k env)).uuidCount
        (op.interrupted F ok k env).committedRows := by
    rcases identityStep_committed inv.listed enabled ok k with same | step
    · exact Or.inl same
    · exact Or.inr (step.mono (Nat.le_add_right _ _))
  refine ⟨?_, kept, kept, ?_⟩
  · exact (Nat.le_add_right _ _).trans (Nat.le_add_right _ _)
  · intro document mem
    obtain ⟨row, rowMem, same, -⟩ := mem_listed_onAppear mem
    exact Or.inr (Or.inr (Or.inr ⟨row, fetch.documents.mem_iff.mp rowMem, same⟩))

/-- **Every event of the app is such a step.** -/
theorem eventStep {env : GlobalEnviroment} {event : Event} (inv : IdentityInv F env)
    (enabled : (app F).enabled env event) : EventStep F env ((app F).step env event) := by
  cases event with
  | complete op ok =>
      have permitted : op.Enabled env := enabled
      show EventStep F env ((op.run F ok env).getD env)
      cases ran : op.run F ok env with
      | none =>
          exact ⟨le_refl _, Or.inr (IdentityStep.refl env), Or.inl rfl,
            fun document mem => Or.inl ⟨document, mem, rfl⟩⟩
      | some env' =>
          obtain rfl := run_eq_after F permitted ran
          exact eventStep_after inv permitted ok
  | crash op ok k fetched now => exact eventStep_relaunch inv enabled.1 ok k enabled.2 now

/-! ## The identity invariant -/

/-- A save point of issued rows is issued rows. -/
theorem RowsIssued.of_identityStep {env : GlobalEnviroment} {n : ℕ} {rows' : Rows}
    (issued : RowsIssued F env.uuidCount env.rows) (le : env.uuidCount ≤ n)
    (step : IdentityStep F env n rows') : RowsIssued F n rows' where
  documents row mem := by
    rcases step.documents with old | ⟨drawn, new, known, eq⟩
    · exact (issued.mono le).documents row (old.subset mem)
    · rw [eq] at mem
      rcases List.mem_append.mp mem with old | last
      · exact (issued.mono le).documents row old
      · obtain rfl := List.mem_singleton.mp last
        exact ⟨_, known, (issued_next F _).mono F drawn⟩
  nodup := by
    rcases step.documents with old | ⟨drawn, new, known, eq⟩
    · exact issued.nodup.sublist (old.map _)
    · rw [eq, List.map_append, List.nodup_append]
      refine ⟨issued.nodup, by simp, ?_⟩
      intro a old b last
      obtain ⟨row, mem, rfl⟩ := List.mem_map.mp old
      obtain rfl := List.mem_singleton.mp last
      rw [known]
      exact issued.cdId_ne_next mem
  fields row mem := by
    rcases step.fields row mem with old | new
    · exact (issued.mono le).fields row old
    · exact new

/-- **One event keeps the identity invariant.** -/
theorem IdentityInv.step {env : GlobalEnviroment} {event : Event} (inv : IdentityInv F env)
    (enabled : (app F).enabled env event) : IdentityInv F ((app F).step env event) := by
  have step := eventStep inv enabled
  have rows : RowsIssued F ((app F).step env event).uuidCount
      ((app F).step env event).rows := by
    rcases step.rows with same | step'
    · rw [same]
      exact inv.committed.mono step.count
    · exact inv.rows.of_identityStep step.count step'
  refine ⟨rows, ?_, ?_⟩
  · rcases step.committed with same | step'
    · rw [same]
      exact inv.committed.mono step.count
    · exact inv.rows.of_identityStep step.count step'
  · intro document mem
    -- Listed before, made with the UUID just drawn, or loaded from the rows before
    -- or after a crash.
    rcases step.listed document mem with
      ⟨old, oldMem, same⟩ | ⟨drawn, known⟩ | ⟨row, rowMem, same⟩ | ⟨row, rowMem, same⟩
    · rw [← same]
      exact (inv.listed old oldMem).mono F step.count
    · rw [known]
      exact (issued_next F _).mono F drawn
    · obtain ⟨s, known, issued⟩ := inv.rows.documents row rowMem
      rw [← same, known]
      exact issued.mono F step.count
    · obtain ⟨s, known, issued⟩ := rows.documents row rowMem
      rw [← same, known]
      exact issued

/-- **Every reachable state has the identity invariant.** -/
theorem identityInv_of_run {events : List Event} {env : GlobalEnviroment}
    (run : (app F).Run .initial events env) : IdentityInv F env :=
  run.invariant
    ⟨⟨by simp [GlobalEnviroment.initial, WorkingCopy.clean], by
        simp [GlobalEnviroment.initial, WorkingCopy.clean], by
        simp [GlobalEnviroment.initial, WorkingCopy.clean]⟩,
      ⟨by simp [GlobalEnviroment.initial, WorkingCopy.clean], by
        simp [GlobalEnviroment.initial, WorkingCopy.clean], by
        simp [GlobalEnviroment.initial, WorkingCopy.clean]⟩,
      by simp [GlobalEnviroment.initial, GlobalEnviroment.listed]⟩
    fun _ _ enabled inv => inv.step enabled

/-! ## Deleting by cdID -/

/-- The document rows with another cdID. -/
def Rows.documentsBut (cdID : String) (rows : Rows) : List CDDocumentModel :=
  rows.documents.filter fun row => row.cdId ≠ some cdID

/-- The field rows with another parent. -/
def Rows.fieldsBut (cdID : String) (rows : Rows) : List CDDocumentField :=
  rows.fields.filter fun row => row.parent ≠ some cdID

/-- No `parent!` traps over issued rows, so a loop over them is a filter. -/
theorem RowsIssued.rowsMatching_eq {n : ℕ} {rows : Rows} (issued : RowsIssued F n rows)
    {fetched : Fetched} (fetch : fetched.Of rows) {test : String → CDDocumentField → Bool}
    {keep : CDDocumentField → Bool}
    (agree : ∀ row parent, row.parent = some parent → test parent row = keep row) :
    rowsMatching test fetched.cdFields = some (fetched.cdFields.filter keep) := by
  refine rowsMatching_eq_filter ?_ agree
  intro row mem
  obtain ⟨parent, known, -⟩ := issued.fields row (fetch.fields.mem_iff.mp mem)
  simp [known]

/-- **No force unwrap of `onDelete` traps**, and its loops select by cdID. -/
theorem deleteActions_eq {n : ℕ} {rows : Rows} (issued : RowsIssued F n rows)
    {fetched : Fetched}
    (fetch : fetched.Of rows) (delItem : DocumentModel) :
    deleteActions delItem fetched.cdDocuments fetched.cdFields =
      some (((fetched.cdDocuments.find? fun row => row.cdId = some delItem.cdID).elim []
          fun row => [.edit (.deleteDocument row), .save]) ++
        deleteRows (fetched.cdFields.filter fun row => row.parent = some delItem.cdID) ++
          [.save]) := by
  have cdIds : ∀ row ∈ fetched.cdDocuments, row.cdId ≠ none := by
    intro row mem
    obtain ⟨s, known, -⟩ := issued.documents row (fetch.documents.mem_iff.mp mem)
    simp [known]
  have fieldRows : rowsMatching (fun parent _ => parent = delItem.cdID) fetched.cdFields =
      some (fetched.cdFields.filter fun row => row.parent = some delItem.cdID) := by
    refine issued.rowsMatching_eq fetch ?_
    intro row parent known
    simp [known]
  rw [deleteActions, findDocumentRow_eq _ cdIds, fieldRows]
  rfl

/-- The document row an `onDelete` finds, deleted: no row with the cdID is left. -/
theorem replay_deleteFound {n : ℕ} {rows : Rows} (issued : RowsIssued F n rows)
    {fetched : Fetched} (fetch : fetched.Of rows) (cdID : String) :
    replayRows ((fetched.cdDocuments.find? fun row => row.cdId = some cdID).elim []
        fun row => [.edit (.deleteDocument row), .save]) rows =
      rows.withDocuments (rows.documentsBut cdID) := by
  cases found : fetched.cdDocuments.find? fun row => row.cdId = some cdID with
  | none =>
      have kept : rows.documentsBut cdID = rows.documents := by
        refine List.filter_eq_self.mpr ?_
        intro row mem
        have absent := List.find?_eq_none.mp found row (fetch.documents.mem_iff.mpr mem)
        simpa using absent
      rw [kept]
      rfl
  | some row =>
      have mem : row ∈ rows.documents :=
        fetch.documents.mem_iff.mp (List.mem_of_find?_eq_some found)
      have known : row.cdId = some cdID := by simpa using List.find?_some found
      have erased : rows.documents.erase row = rows.documentsBut cdID := by
        rw [Fetch.erase_eq_filter_of_nodup issued.nodup mem, known]
        rfl
      simp [applyEdit, erased, Rows.withDocuments]

/-- **What a save point of `onDelete` holds**: the document row is gone, and its
field rows are all there or all gone. -/
theorem savePoint_delete {n : ℕ} {rows rows' : Rows} (issued : RowsIssued F n rows)
    {fetched : Fetched} (fetch : fetched.Of rows) {delItem : DocumentModel}
    (point : WorkingCopy.SavePoint applyEdit
      ((deleteActions delItem fetched.cdDocuments fetched.cdFields).getD []) rows rows') :
    rows'.documents = rows.documentsBut delItem.cdID ∧
      (rows'.fields = rows.fields ∨ rows'.fields.Perm (rows.fieldsBut delItem.cdID)) := by
  have fields : ((fetched.cdFields.filter fun row => row.parent = some delItem.cdID).foldl
      List.erase rows.fields).Perm (rows.fieldsBut delItem.cdID) := by
    simpa [Rows.fieldsBut] using
      fetch.fields.foldl_erase_filter fun row => row.parent = some delItem.cdID
  have document := replay_deleteFound issued fetch delItem.cdID
  rw [deleteActions_eq issued fetch, Option.getD_some, List.append_assoc,
    WorkingCopy.savePoint_append, savePoint_deleteRows] at point
  rw [replayRows] at document
  rw [document] at point
  rcases point with first | rfl
  · cases found : fetched.cdDocuments.find? fun row => row.cdId = some delItem.cdID with
    | none => simp [found] at first
    | some row =>
        simp only [found, Option.elim_some, WorkingCopy.savePoint_edit,
          WorkingCopy.savePoint_save,
          WorkingCopy.savePoint_nil, or_false] at first
        simp only [found, Option.elim_some, WorkingCopy.replay_edit, WorkingCopy.replay_save,
          WorkingCopy.replay_nil] at document
        rw [first, document]
        exact ⟨rfl, Or.inl rfl⟩
  · exact ⟨rfl, Or.inr fields⟩

/-- What a whole `onDelete` leaves in the working copy. -/
theorem replay_delete {n : ℕ} {rows : Rows} (issued : RowsIssued F n rows)
    {fetched : Fetched} (fetch : fetched.Of rows) (delItem : DocumentModel) :
    ∃ fields, fields.Perm (rows.fieldsBut delItem.cdID) ∧
      replayRows ((deleteActions delItem fetched.cdDocuments fetched.cdFields).getD []) rows =
        (rows.withDocuments (rows.documentsBut delItem.cdID)).withFields fields := by
  refine ⟨(fetched.cdFields.filter fun row => row.parent = some delItem.cdID).foldl List.erase
    rows.fields, ?_, ?_⟩
  · simpa [Rows.fieldsBut] using
      fetch.fields.foldl_erase_filter fun row => row.parent = some delItem.cdID
  · have document := replay_deleteFound issued fetch delItem.cdID
    rw [replayRows] at document
    rw [deleteActions_eq issued fetch, Option.getD_some, replayRows, List.append_assoc,
      WorkingCopy.replay_append, WorkingCopy.replay_append, document]
    exact replay_deleteRows _ _

variable (F) in
/-- The row is one of the field that goes, as far as the loop of `removeField` can
tell. -/
def lookalike (cdID description : String) (row : CDDocumentField) : Bool :=
  F.StringEqual (row.parent.getD "") cdID && row.Describes F description

/-- The rows `removeField` deletes, by what its loop selects. -/
theorem removeFieldRows_eq {n : ℕ} {rows : Rows} (issued : RowsIssued F n rows)
    {fetched : Fetched} (fetch : fetched.Of rows) (document : DocumentModel)
    (delField : DocumentField) :
    removeFieldRows F document delField fetched.cdFields =
      some (fetched.cdFields.filter (lookalike F document.cdID delField.description)) := by
  refine issued.rowsMatching_eq fetch ?_
  intro row parent known
  simp [lookalike, known]

/-- **No operation traps** in a state with the identity invariant. -/
theorem run_eq_some {env : GlobalEnviroment} (inv : IdentityInv F env) {op : Operation}
    (enabled : op.Enabled env) (ok : ℕ → Bool) :
    op.run F ok env = some (op.after F ok env) := by
  suffices ran : ∃ env', op.run F ok env = some env' by
    obtain ⟨env', ran⟩ := ran
    rw [ran, run_eq_after F enabled ran]
  cases op with
  | create id name url fields => exact ⟨_, rfl⟩
  | appendField docCDId selection description type => exact ⟨_, rfl⟩
  | download key server =>
      rw [Operation.run, downloadDocument_of_pathChars F enabled]
      exact ⟨_, rfl⟩
  | deleteLoaded document fetched =>
      rw [Operation.run, onDeleteLoaded, deleteActions_eq inv.rows enabled.2]
      exact ⟨_, rfl⟩
  | deleteCreated document fetched =>
      rw [Operation.run, onDeleteCreated, deleteActions_eq inv.rows enabled.2]
      exact ⟨_, rfl⟩
  | removeField i offsets fetched =>
      obtain ⟨fetch, some_offset, document, listed, bounds⟩ := enabled
      obtain ⟨first, rest, rfl⟩ := List.exists_cons_of_ne_nil some_offset
      have inside := bounds first List.mem_cons_self
      rw [Operation.run, removeField, listed]
      simp only [Option.bind_eq_bind, Option.bind_some, List.head?_cons,
        List.getElem?_eq_getElem inside, removeFieldRows_eq inv.rows fetch]
      exact ⟨_, rfl⟩
  | reload fetched now => exact ⟨_, rfl⟩

/-! ## Retired identifiers -/

variable (F) in
/-- A cdID that was issued and that no document row and no listed document has. -/
structure Retired (cdID : String) (env : GlobalEnviroment) : Prop where
  issued : Issued F env.uuidCount cdID
  rows : ∀ row ∈ env.rows.documents, row.cdId ≠ some cdID
  committed : ∀ row ∈ env.committedRows.documents, row.cdId ≠ some cdID
  listed : ∀ document ∈ env.listed, document.cdID ≠ cdID

/-- A save point brings no retired cdID back. -/
theorem Retired.of_identityStep {cdID : String} {env : GlobalEnviroment} {n : ℕ} {rows' : Rows}
    (retired : Retired F cdID env) (step : IdentityStep F env n rows') :
    ∀ row ∈ rows'.documents, row.cdId ≠ some cdID := by
  intro row mem
  rcases step.documents with old | ⟨-, new, known, eq⟩
  · exact retired.rows row (old.subset mem)
  · rw [eq] at mem
    rcases List.mem_append.mp mem with old | last
    · exact retired.rows row old
    · obtain rfl := List.mem_singleton.mp last
      rw [known]
      exact fun same => retired.issued.ne_next F (Option.some.inj same).symm

/-- **No event takes a retired cdID again.** -/
theorem Retired.step {cdID : String} {env : GlobalEnviroment} {event : Event}
    (retired : Retired F cdID env) (inv : IdentityInv F env)
    (enabled : (app F).enabled env event) : Retired F cdID ((app F).step env event) := by
  have step := eventStep inv enabled
  have inv' := inv.step enabled
  have rows : ∀ row ∈ ((app F).step env event).rows.documents, row.cdId ≠ some cdID := by
    rcases step.rows with same | step'
    · rw [same]
      exact retired.committed
    · exact retired.of_identityStep step'
  refine ⟨retired.issued.mono F step.count, rows, ?_, ?_⟩
  · rcases step.committed with same | step'
    · rw [same]
      exact retired.committed
    · exact retired.of_identityStep step'
  · intro document mem
    rcases step.listed document mem with
      ⟨old, oldMem, same⟩ | ⟨-, known⟩ | ⟨row, rowMem, same⟩ | ⟨row, rowMem, same⟩
    · rw [← same]
      exact retired.listed old oldMem
    · rw [known]
      exact fun taken => retired.issued.ne_next F taken.symm
    · obtain ⟨s, known, -⟩ := inv.rows.documents row rowMem
      rw [← same, known]
      rintro rfl
      exact retired.rows row rowMem known
    · obtain ⟨s, known, -⟩ := inv'.rows.documents row rowMem
      rw [← same, known]
      rintro rfl
      exact rows row rowMem known

/-- A retired cdID stays retired over every run. -/
theorem Retired.of_run {cdID : String} {events : List Event} {env env' : GlobalEnviroment}
    (retired : Retired F cdID env) (inv : IdentityInv F env)
    (run : (app F).Run env events env') : Retired F cdID env' :=
  (run.invariant (I := fun env => IdentityInv F env ∧ Retired F cdID env) ⟨inv, retired⟩
    fun _ _ enabled both => ⟨both.1.step enabled, both.2.step both.1 enabled⟩).2

end DocumentRelay
