import DocumentRelay.Persistence
import DocumentRelay.Sharing

/-!
# One document map, twice

Memory and Core Data each hold all documents, and every operation updates both by
hand.  `MapInv` says what keeps them two views of one map: the document rows are
the rows of the listed documents, the field rows are the rows of their fields,
and cdIDs are pairwise distinct.  Every operation of the app keeps it, however
its saves turn out (`MapInv.after`), so in every state of every run a load of
the rows gives back the lists in memory (`memory_and_rows_agree`).
-/

namespace DocumentRelay

variable (F : Foundation)

/-! ## The rows of a list of documents -/

/-- The field rows of all documents of a list. -/
def rowsOf (documents : List DocumentModel) : List CDDocumentField :=
  documents.flatMap fun document => fieldRows F document.cdID document.fieldsToFill

variable {F}

@[simp] theorem rowsOf_cons (document : DocumentModel) (rest : List DocumentModel) :
    rowsOf F (document :: rest) =
      fieldRows F document.cdID document.fieldsToFill ++ rowsOf F rest := rfl

@[simp] theorem rowsOf_append (first second : List DocumentModel) :
    rowsOf F (first ++ second) = rowsOf F first ++ rowsOf F second :=
  List.flatMap_append

theorem mem_rowsOf {documents : List DocumentModel} {row : CDDocumentField}
    (mem : row ∈ rowsOf F documents) :
    ∃ document ∈ documents, row.parent = some document.cdID := by
  obtain ⟨document, known, inRows⟩ := List.mem_flatMap.mp mem
  exact ⟨document, known, mem_fieldRows inRows⟩

/-- Dropping the field rows of a cdID drops its document. -/
theorem filter_rowsOf (cdID : String) (documents : List DocumentModel) :
    (rowsOf F documents).filter (fun row => row.parent ≠ some cdID) =
      rowsOf F (documents.filter fun document => document.cdID ≠ cdID) := by
  induction documents with
  | nil => rfl
  | cons document rest ih =>
      rw [rowsOf_cons, List.filter_append, ih]
      by_cases same : document.cdID = cdID
      · have gone : (fieldRows F document.cdID document.fieldsToFill).filter
            (fun row => row.parent ≠ some cdID) = [] :=
          List.filter_eq_nil_iff.mpr fun row mem => by simp [mem_fieldRows mem, same]
        rw [gone, List.filter_cons_of_neg (by simp [same])]
        rfl
      · have kept : (fieldRows F document.cdID document.fieldsToFill).filter
            (fun row => row.parent ≠ some cdID) =
              fieldRows F document.cdID document.fieldsToFill :=
          List.filter_eq_self.mpr fun row mem => by simp [mem_fieldRows mem, same]
        rw [kept, List.filter_cons_of_pos (by simp [same])]
        rfl

/-- Where no document has an equal cdID, no field row selects it. -/
theorem fieldsOf_rowsOf_absent {cdID : String} {documents : List DocumentModel}
    (absent : ∀ document ∈ documents, ¬ F.StringEqual document.cdID cdID) :
    fieldsOf F (rowsOf F documents) cdID = [] := by
  have none : (rowsOf F documents).filter
      (fun row => F.StringEqual (row.parent.getD "") cdID) = [] := by
    refine List.filter_eq_nil_iff.mpr ?_
    intro row mem
    obtain ⟨document, known, parent⟩ := mem_rowsOf mem
    simpa [parent] using absent document known
  rw [fieldsOf, none]
  rfl

/-- **Distinct cdIDs keep the fields apart**: a document's cdID selects the rows
of its own fields. -/
theorem fieldsOf_rowsOf {documents : List DocumentModel}
    (apart : documents.Pairwise fun document other => ¬ F.StringEqual document.cdID other.cdID)
    {document : DocumentModel} (mem : document ∈ documents) :
    fieldsOf F (rowsOf F documents) document.cdID = document.fieldsToFill.map fun field =>
      DocumentField.ofRow F (CDDocumentField.ofField F document.cdID field) := by
  obtain ⟨front, back, rfl⟩ := List.append_of_mem mem
  rw [List.pairwise_append, List.pairwise_cons] at apart
  obtain ⟨-, ⟨own, -⟩, across⟩ := apart
  have front_ne : ∀ other ∈ front, ¬ F.StringEqual other.cdID document.cdID :=
    fun other known => across other known document List.mem_cons_self
  have back_ne : ∀ other ∈ back, ¬ F.StringEqual other.cdID document.cdID :=
    fun other known same => own other known same.symm
  have split : fieldsOf F (rowsOf F (front ++ document :: back)) document.cdID =
      fieldsOf F (rowsOf F front ++ fieldRows F document.cdID document.fieldsToFill)
          document.cdID ++ fieldsOf F (rowsOf F back) document.cdID := by
    simp [fieldsOf, rowsOf_append]
  rw [split, fieldsOf_append_fieldRows, fieldsOf_rowsOf_absent front_ne,
    fieldsOf_rowsOf_absent back_ne, List.nil_append, List.append_nil]

/-! ## The same documents in two lists -/

/-- **Two lists of the same documents**, up to order. -/
def SameDocuments (documents rebuilt : List DocumentModel) : Prop :=
  ∃ arranged, arranged.Perm documents ∧ List.Forall₂ SameDocument arranged rebuilt

theorem SameDocuments.refl (documents : List DocumentModel) :
    SameDocuments documents documents :=
  ⟨documents, List.Perm.refl _, List.forall₂_same.mpr fun _ _ =>
    ⟨rfl, rfl, rfl, rfl, List.Perm.refl _⟩⟩

/-- The rows of fields depend on their contents alone. -/
theorem fieldRows_perm_of_contents {fields fields' : List DocumentField} (parent : String)
    (same : (fields.map DocumentField.content).Perm (fields'.map DocumentField.content)) :
    (fieldRows F parent fields).Perm (fieldRows F parent fields') := by
  have factor (l : List DocumentField) : fieldRows F parent l =
      (l.map DocumentField.content).map fun content =>
        CDDocumentField.ofField F parent
          { rect := content.2.2, description := content.1, type := content.2.1 } := by
    rw [List.map_map]
    rfl
  rw [factor, factor]
  exact same.map _

theorem rowsOf_perm_of_forall₂ {documents rebuilt : List DocumentModel}
    (same : List.Forall₂ SameDocument documents rebuilt) :
    (rowsOf F documents).Perm (rowsOf F rebuilt) := by
  induction same with
  | nil => exact List.Perm.refl _
  | cons head _ ih =>
      rw [rowsOf_cons, rowsOf_cons, ← head.cdID]
      exact (fieldRows_perm_of_contents _ head.fields).append ih

/-- What is the same of both documents of every pair is the same list. -/
theorem map_eq_of_forall₂ {α : Type} {f : DocumentModel → α}
    (respects : ∀ d d', SameDocument d d' → f d = f d') {documents rebuilt : List DocumentModel}
    (same : List.Forall₂ SameDocument documents rebuilt) : documents.map f = rebuilt.map f := by
  induction same with
  | nil => rfl
  | cons head _ ih => rw [List.map_cons, List.map_cons, respects _ _ head, ih]

theorem SameDocuments.map_perm {α : Type} {f : DocumentModel → α}
    (respects : ∀ d d', SameDocument d d' → f d = f d') {documents rebuilt : List DocumentModel}
    (same : SameDocuments documents rebuilt) : (documents.map f).Perm (rebuilt.map f) := by
  obtain ⟨arranged, perm, pairs⟩ := same
  exact (perm.symm.map f).trans (List.Perm.of_eq (map_eq_of_forall₂ respects pairs))

theorem SameDocuments.rowsOf_perm {documents rebuilt : List DocumentModel}
    (same : SameDocuments documents rebuilt) :
    (rowsOf F documents).Perm (rowsOf F rebuilt) := by
  obtain ⟨arranged, perm, pairs⟩ := same
  exact (perm.symm.flatMap_right _).trans (rowsOf_perm_of_forall₂ pairs)

/-- Every rebuilt document is one of the documents. -/
theorem SameDocuments.exists_of_mem {documents rebuilt : List DocumentModel}
    (same : SameDocuments documents rebuilt) {document : DocumentModel}
    (mem : document ∈ rebuilt) :
    ∃ original ∈ documents, SameDocument original document := by
  obtain ⟨arranged, perm, pairs⟩ := same
  obtain ⟨original, known, pair⟩ : ∃ original ∈ arranged, SameDocument original document := by
    clear perm
    induction pairs with
    | nil => simp at mem
    | cons head _ ih =>
        rcases List.mem_cons.mp mem with rfl | tail
        · exact ⟨_, List.mem_cons_self, head⟩
        · obtain ⟨original, known, pair⟩ := ih tail
          exact ⟨original, List.mem_cons_of_mem _ known, pair⟩
  exact ⟨original, perm.mem_iff.mp known, pair⟩

/-! ## The invariant -/

variable (F) in
/-- **Memory and rows are two views of one document map.** -/
structure MapInv (env : GlobalEnviroment) : Prop where
  documents : env.rows.documents.Perm
    (env.loadedDocuments.map loadedRow ++ env.createdDocuments.map createdRow)
  fields : env.rows.fields.Perm (rowsOf F env.listed)
  nodup : (env.listed.map DocumentModel.cdID).Nodup
  urls : ∀ document ∈ env.listed, ∃ url, document.url = some url
  sizes : ∀ document ∈ env.listed, ∀ field ∈ document.fieldsToFill, field.rect.Standardized

theorem MapInv.initial : MapInv F .initial where
  documents := List.Perm.refl _
  fields := List.Perm.refl _
  nodup := List.nodup_nil
  urls := by simp [GlobalEnviroment.listed, GlobalEnviroment.initial]
  sizes := by simp [GlobalEnviroment.listed, GlobalEnviroment.initial]

/-- The lists in memory may be exchanged for lists of the same documents. -/
theorem MapInv.of_sameDocuments {env env' : GlobalEnviroment} (inv : MapInv F env)
    (rows : env'.rows = env.rows)
    (loaded : SameDocuments env.loadedDocuments env'.loadedDocuments)
    (created : SameDocuments env.createdDocuments env'.createdDocuments) : MapInv F env' := by
  have original {document : DocumentModel} (mem : document ∈ env'.listed) :
      ∃ old ∈ env.listed, SameDocument old document := by
    rcases List.mem_append.mp mem with down | made
    · obtain ⟨old, known, same⟩ := loaded.exists_of_mem down
      exact ⟨old, List.mem_append_left _ known, same⟩
    · obtain ⟨old, known, same⟩ := created.exists_of_mem made
      exact ⟨old, List.mem_append_right _ known, same⟩
  have loadedRow_eq : ∀ d d', SameDocument d d' → loadedRow d = loadedRow d' := by
    intro d d' same
    simp [CDDocumentModel.ofDocument, same.id, same.name, same.url, same.cdID]
  have createdRow_eq : ∀ d d', SameDocument d d' → createdRow d = createdRow d' := by
    intro d d' same
    simp [CDDocumentModel.ofDocument, same.id, same.name, same.url, same.cdID]
  refine ⟨?_, ?_, ?_, ?_, ?_⟩
  · rw [rows]
    exact inv.documents.trans
      ((loaded.map_perm loadedRow_eq).append (created.map_perm createdRow_eq))
  · rw [rows]
    refine inv.fields.trans ?_
    simp only [GlobalEnviroment.listed, rowsOf_append]
    exact loaded.rowsOf_perm.append created.rowsOf_perm
  · have cdIDs : (env.listed.map DocumentModel.cdID).Perm
        (env'.listed.map DocumentModel.cdID) := by
      simp only [GlobalEnviroment.listed, List.map_append]
      exact (loaded.map_perm fun _ _ same => same.cdID).append
        (created.map_perm fun _ _ same => same.cdID)
    exact cdIDs.nodup_iff.mp inv.nodup
  · intro document mem
    obtain ⟨old, known, same⟩ := original mem
    rw [← same.url]
    exact inv.urls old known
  · intro document mem field inFields
    obtain ⟨old, known, same⟩ := original mem
    have content := same.fields.mem_iff.mpr (List.mem_map_of_mem inFields)
    -- A field is known by its content only; the rectangle is part of it.
    obtain ⟨oldField, oldMem, eq⟩ := List.mem_map.mp content
    have rect : oldField.rect = field.rect := congrArg (fun c => c.2.2) eq
    rw [← rect]
    exact inv.sizes old known oldField oldMem

/-- No two listed documents have equal cdIDs. -/
theorem MapInv.apart {env : GlobalEnviroment} (inv : MapInv F env)
    (identity : IdentityInv F env) :
    env.listed.Pairwise fun document other => ¬ F.StringEqual document.cdID other.cdID := by
  refine (List.pairwise_map.mp inv.nodup).imp_of_mem ?_
  intro document other mem otherMem differ same
  exact differ (((identity.listed document mem).stringEqual_iff F
    (identity.listed other otherMem)).mp same)

/-- A listed document is the same as the join of its row. -/
theorem MapInv.sameDocument_joinRow {env : GlobalEnviroment} (inv : MapInv F env)
    (identity : IdentityInv F env) {fetched : Fetched} (fetch : fetched.Of env.rows)
    {document : DocumentModel}
    (mem : document ∈ env.listed) {mode : String} {url : Option String}
    (same : some (url.getD "") = document.url) :
    SameDocument document
      (joinRow F fetched.cdFields (CDDocumentModel.ofDocument mode url document)) := by
  refine (sameDocument_joinRow_iff rfl rfl same rfl ?_).mpr (inv.sizes document mem)
  have perm : (fieldsOf F fetched.cdFields document.cdID).Perm
      (fieldsOf F (rowsOf F env.listed) document.cdID) :=
    ((fetch.fields.perm.trans inv.fields).filter _).map _
  rw [fieldsOf_rowsOf (inv.apart identity) mem] at perm
  exact perm

/-- **A load of the rows gives back the lists in memory.** -/
theorem MapInv.load {env : GlobalEnviroment} (inv : MapInv F env)
    (identity : IdentityInv F env) {fetched : Fetched}
    (fetch : fetched.Of env.rows) :
    SameDocuments env.loadedDocuments
        (loadModels F fetched.cdFields fetched.cdDocuments).downModels ∧
      SameDocuments env.createdDocuments
        (loadModels F fetched.cdFields fetched.cdDocuments).creatModels := by
  have all := fetch.documents.perm.trans inv.documents
  have down : (fetched.cdDocuments.filter fun row => row.groupMode = some "0").Perm
      (env.loadedDocuments.map loadedRow) := by
    refine (all.filter _).trans (List.Perm.of_eq ?_)
    simp [List.filter_append, List.filter_map, Function.comp_def, CDDocumentModel.ofDocument]
  have made : (fetched.cdDocuments.filter fun row => row.groupMode ≠ some "0").Perm
      (env.createdDocuments.map createdRow) := by
    refine (all.filter _).trans (List.Perm.of_eq ?_)
    simp [List.filter_append, List.filter_map, Function.comp_def, CDDocumentModel.ofDocument]
  have known {document : DocumentModel} (mem : document ∈ env.listed) :
      some (document.url.getD "") = document.url := by
    obtain ⟨url, eq⟩ := inv.urls document mem
    rw [eq]
    rfl
  obtain ⟨loaded, loadedPerm, loadedEq⟩ := Fetch.exists_arrangement down
  obtain ⟨created, createdPerm, createdEq⟩ := Fetch.exists_arrangement made
  rw [loadModels_eq, loadedEq, createdEq, List.map_map, List.map_map]
  refine ⟨⟨loaded, loadedPerm, ?_⟩, ⟨created, createdPerm, ?_⟩⟩
  · rw [List.forall₂_map_right_iff, List.forall₂_same]
    intro document mem
    have listed := List.mem_append_left env.createdDocuments (loadedPerm.mem_iff.mp mem)
    exact inv.sameDocument_joinRow identity fetch listed (known listed)
  · rw [List.forall₂_map_right_iff, List.forall₂_same]
    intro document mem
    have listed := List.mem_append_right env.loadedDocuments (createdPerm.mem_iff.mp mem)
    exact inv.sameDocument_joinRow identity fetch listed (known listed)

/-! ## Adding, removing and changing a document -/

/-- A document with a fresh cdID is added, with its row and the rows of its
fields. -/
theorem MapInv.add {env env' : GlobalEnviroment} (inv : MapInv F env)
    (document : DocumentModel) {row : CDDocumentModel}
    (documents : env'.rows.documents = env.rows.documents ++ [row])
    (fields : env'.rows.fields =
      env.rows.fields ++ fieldRows F document.cdID document.fieldsToFill)
    (lists : (env'.loadedDocuments.map loadedRow ++ env'.createdDocuments.map createdRow).Perm
      (env.loadedDocuments.map loadedRow ++ env.createdDocuments.map createdRow ++ [row]))
    (listed : env'.listed.Perm (env.listed ++ [document]))
    (fresh : ∀ other ∈ env.listed, other.cdID ≠ document.cdID)
    (url : ∃ url, document.url = some url)
    (sizes : ∀ field ∈ document.fieldsToFill, field.rect.Standardized) : MapInv F env' := by
  have member {other : DocumentModel} (mem : other ∈ env'.listed) :
      other ∈ env.listed ∨ other = document := by
    simpa using listed.mem_iff.mp mem
  refine ⟨?_, ?_, ?_, ?_, ?_⟩
  · rw [documents]
    exact (inv.documents.append_right _).trans lists.symm
  · rw [fields]
    refine ((inv.fields.append_right _).trans (List.Perm.of_eq ?_)).trans
      (listed.flatMap_right _).symm
    simp [rowsOf]
  · have nodup : ((env.listed ++ [document]).map DocumentModel.cdID).Nodup := by
      rw [List.map_append, List.nodup_append]
      refine ⟨inv.nodup, List.nodup_singleton _, ?_⟩
      intro a old b last
      obtain ⟨other, known, rfl⟩ := List.mem_map.mp old
      obtain rfl := List.mem_singleton.mp last
      exact fresh other known
    exact (listed.map _).nodup_iff.mpr nodup
  · intro other mem
    rcases member mem with old | rfl
    · exact inv.urls other old
    · exact url
  · intro other mem
    rcases member mem with old | rfl
    · exact inv.sizes other old
    · exact sizes

/-- Where cdIDs are distinct, removing the first document with a cdID removes all
of them. -/
theorem removeListed_eq_filter {delItem : DocumentModel} {documents : List DocumentModel}
    (nodup : (documents.map DocumentModel.cdID).Nodup) :
    removeListed delItem documents =
      documents.filter fun document => document.cdID ≠ delItem.cdID := by
  induction documents with
  | nil => rfl
  | cons document rest ih =>
      rw [List.map_cons, List.nodup_cons] at nodup
      by_cases same : document.cdID = delItem.cdID
      · have others : rest.filter (fun other => other.cdID ≠ delItem.cdID) = rest := by
          refine List.filter_eq_self.mpr ?_
          intro other mem
          have differ : other.cdID ≠ delItem.cdID := fun eq =>
            nodup.1 (same.trans eq.symm ▸ List.mem_map_of_mem mem)
          simpa using differ
        rw [removeListed, List.eraseP_cons_of_pos (by simpa using same),
          List.filter_cons_of_neg (by simpa using same), others]
      · rw [removeListed, List.eraseP_cons_of_neg (by simpa using same),
          List.filter_cons_of_pos (by simpa using same)]
        exact congrArg _ (ih nodup.2)

/-- The documents with a cdID are removed, with their rows. -/
theorem MapInv.remove {env env' : GlobalEnviroment} (inv : MapInv F env) (cdID : String)
    (documents : env'.rows.documents = env.rows.documentsBut cdID)
    (fields : env'.rows.fields.Perm (env.rows.fieldsBut cdID))
    (loaded : env'.loadedDocuments =
      env.loadedDocuments.filter fun document => document.cdID ≠ cdID)
    (created : env'.createdDocuments =
      env.createdDocuments.filter fun document => document.cdID ≠ cdID) : MapInv F env' := by
  have listed : env'.listed = env.listed.filter fun document => document.cdID ≠ cdID := by
    rw [GlobalEnviroment.listed, loaded, created, ← List.filter_append]
    rfl
  refine ⟨?_, ?_, ?_, ?_, ?_⟩
  · rw [documents, loaded, created]
    refine (inv.documents.filter _).trans (List.Perm.of_eq ?_)
    rw [List.filter_append, List.filter_map, List.filter_map]
    simp [Function.comp_def, CDDocumentModel.ofDocument]
  · rw [listed, ← filter_rowsOf]
    exact fields.trans (inv.fields.filter _)
  · rw [listed]
    exact inv.nodup.sublist (List.filter_sublist.map _)
  · intro document mem
    rw [listed] at mem
    exact inv.urls document (List.mem_filter.mp mem).1
  · intro document mem
    rw [listed] at mem
    exact inv.sizes document (List.mem_filter.mp mem).1

/-- The fields of one created document change, and their rows with them. -/
theorem MapInv.replace {env env' : GlobalEnviroment} (inv : MapInv F env)
    {front back : List DocumentModel} {document : DocumentModel} (fields : List DocumentField)
    (before : env.createdDocuments = front ++ document :: back)
    (after : env'.createdDocuments = front ++ { document with fieldsToFill := fields } :: back)
    (loaded : env'.loadedDocuments = env.loadedDocuments)
    (documents : env'.rows.documents = env.rows.documents)
    (rows : env'.rows.fields.Perm (rowsOf F (env.loadedDocuments ++ front) ++
      (fieldRows F document.cdID fields ++ rowsOf F back)))
    (sizes : ∀ field ∈ fields, field.rect.Standardized) : MapInv F env' := by
  have listed : env.listed = env.loadedDocuments ++ front ++ document :: back := by
    rw [GlobalEnviroment.listed, before, List.append_assoc]
  have listed' : env'.listed = env.loadedDocuments ++ front ++
      { document with fieldsToFill := fields } :: back := by
    rw [GlobalEnviroment.listed, after, loaded, List.append_assoc]
  have member {other : DocumentModel} (mem : other ∈ env'.listed) :
      other ∈ env.listed ∨ other = { document with fieldsToFill := fields } := by
    rw [listed', List.mem_append, List.mem_cons] at mem
    rw [listed, List.mem_append, List.mem_cons]
    tauto
  have own : document ∈ env.listed := by
    rw [listed]
    exact List.mem_append_right _ List.mem_cons_self
  refine ⟨?_, ?_, ?_, ?_, ?_⟩
  · rw [documents, loaded, after]
    refine inv.documents.trans (List.Perm.of_eq ?_)
    rw [before]
    simp [CDDocumentModel.ofDocument]
  · rw [listed', rowsOf_append, rowsOf_cons]
    exact rows
  · have nodup := inv.nodup
    rw [listed] at nodup
    rw [listed']
    simpa using nodup
  · intro other mem
    rcases member mem with old | rfl
    · exact inv.urls other old
    · exact inv.urls document own
  · intro other mem
    rcases member mem with old | rfl
    · exact inv.sizes other old
    · exact sizes

/-! ## The operations -/

variable (F) in
/-- The field at `offset` is there, and no other has an equal description. -/
def UniqueDescription (fields : List DocumentField) (offset : ℕ) : Prop :=
  ∃ front field back, fields = front ++ field :: back ∧ front.length = offset ∧
    ∀ other ∈ front ++ back, ¬ F.StringEqual other.description field.description

variable (F) in
/-- What the operations are given: created documents without negative sizes,
remote data written by shares, and the removal of one field with a description of
its own. -/
def Operation.Regular (env : GlobalEnviroment) : Operation → Prop
  | .create _ _ _ fields => ∀ field ∈ fields, field.rect.Standardized
  | .download _ server => SharedData server
  | .removeField i offsets _ => ∃ offset document, offsets = [offset] ∧
      env.createdDocuments[i]? = some document ∧
        UniqueDescription F document.fieldsToFill offset
  | _ => True

/-- The working copy after an operation does not depend on its saves. -/
theorem after_rows (ok : ℕ → Bool) (env : GlobalEnviroment) (op : Operation) :
    (op.after F ok env).rows = replayRows (op.actions F env) env.rows :=
  WorkingCopy.exec_working applyEdit ok _ _

variable {env : GlobalEnviroment} {ok : ℕ → Bool}

/-- No listed document has the next UUID. -/
theorem IdentityInv.listed_ne_next (identity : IdentityInv F env) {other : DocumentModel}
    (mem : other ∈ env.listed) : other.cdID ≠ F.uuidString env.uuidCount :=
  (identity.listed other mem).ne_next F

theorem MapInv.after_create (inv : MapInv F env) (identity : IdentityInv F env)
    {id name url : String} {fields : List DocumentField}
    (standard : ∀ field ∈ fields, field.rect.Standardized) :
    MapInv F ((Operation.create id name url fields).after F ok env) := by
  have rows := after_rows (F := F) ok env (.create id name url fields)
  rw [Operation.actions, replay_create] at rows
  refine inv.add (Operation.createdDocument F id name url fields env)
    (by rw [rows]; rfl) (by rw [rows]; rfl) (List.Perm.of_eq ?_) (List.Perm.of_eq ?_)
    (fun other mem => identity.listed_ne_next mem) ⟨url, rfl⟩ standard
  · simp [Operation.after, Operation.loadedAfter, Operation.createdAfter]
  · simp [GlobalEnviroment.listed, Operation.after, Operation.loadedAfter,
      Operation.createdAfter]

/-- Snapshots below shared data have no negative size. -/
theorem nonnegativeSizes_of_below {name : String} {node : FNode}
    (below : NonnegativeBelow name node) : NonnegativeSizes node := by
  intro fieldSnap mem
  obtain ⟨e, inEntries, rfl⟩ := List.mem_map.mp mem
  obtain ⟨_, fieldsBelow⟩ := below.getChild (pathPieces "fields")
  have snap := fieldsBelow.entry inEntries
  cases found : subscriptValue e.2.asDictionary "rect" with
  | none =>
      rw [rectDictionary, found]
      exact ⟨le_refl 0, le_refl 0⟩
  | some rect =>
      have inside := snap.subscript found
      rw [rectDictionary, found, Option.bind_some]
      exact ⟨inside.doubleAttribute (Or.inl rfl), inside.doubleAttribute (Or.inr rfl)⟩

theorem MapInv.after_download (inv : MapInv F env) (identity : IdentityInv F env)
    {key : String} {server : FNode} (shared : SharedData server) :
    MapInv F ((Operation.download key server).after F ok env) := by
  have rows := after_rows (F := F) ok env (.download key server)
  by_cases url : stringAttribute (Operation.snapshot server key).asDictionary "url" = ""
  · simp only [Operation.actions, ne_eq, url, not_true_eq_false, if_false,
      WorkingCopy.replay_nil] at rows
    have loaded : ((Operation.download key server).after F ok env).loadedDocuments =
        env.loadedDocuments := by
      simp [Operation.after, Operation.loadedAfter, url]
    exact inv.of_sameDocuments rows (loaded ▸ SameDocuments.refl _) (SameDocuments.refl _)
  · simp only [Operation.actions, ne_eq, url, not_false_eq_true, if_true] at rows
    rw [replay_download] at rows
    have loaded : ((Operation.download key server).after F ok env).loadedDocuments =
        env.loadedDocuments ++ [decodeDocument key (Operation.snapshot server key)
          (F.uuidString env.uuidCount)] := by
      simp [Operation.after, Operation.loadedAfter, url]
    have created : ((Operation.download key server).after F ok env).createdDocuments =
        env.createdDocuments := rfl
    have sizes : NonnegativeSizes (Operation.snapshot server key) := by
      obtain ⟨name, below⟩ := shared.nonnegativeBelow.getChild ("shared" :: pathPieces key)
      exact nonnegativeSizes_of_below below
    refine inv.add (decodeDocument key (Operation.snapshot server key)
        (F.uuidString env.uuidCount))
      (by rw [rows]; rfl) (by rw [rows]; rfl) ?_ ?_
      (fun other mem => identity.listed_ne_next mem) ⟨_, rfl⟩
      ((nonnegativeSizes_iff _ _ _).mp sizes)
    · rw [loaded, created, List.map_append, List.append_assoc, List.append_assoc]
      exact List.perm_append_comm.append_left _
    · rw [GlobalEnviroment.listed, loaded, created, GlobalEnviroment.listed, List.append_assoc,
        List.append_assoc]
      exact List.perm_append_comm.append_left _

/-- The created documents around one of them have other cdIDs. -/
theorem MapInv.cdID_ne (inv : MapInv F env) {front back : List DocumentModel}
    {document : DocumentModel} (split : env.createdDocuments = front ++ document :: back) :
    (∀ other ∈ env.loadedDocuments ++ front, other.cdID ≠ document.cdID) ∧
      ∀ other ∈ back, other.cdID ≠ document.cdID := by
  have nodup := inv.nodup
  rw [GlobalEnviroment.listed, split, ← List.append_assoc, List.map_append, List.map_cons,
    List.nodup_append, List.nodup_cons] at nodup
  constructor
  · intro other mem
    exact nodup.2.2 _ (List.mem_map_of_mem mem) _ List.mem_cons_self
  · intro other mem same
    exact nodup.2.1.1 (same ▸ List.mem_map_of_mem mem)

theorem MapInv.after_appendField (inv : MapInv F env) {docCDId : String}
    {selection : PDFSelection} {description : String} {type : FieldType}
    (enabled : (Operation.appendField docCDId selection description type).Enabled env) :
    MapInv F ((Operation.appendField docCDId selection description type).after F ok env) := by
  obtain ⟨document, mem, rfl⟩ := enabled
  obtain ⟨front, back, before⟩ := List.append_of_mem mem
  obtain ⟨others, othersBack⟩ := inv.cdID_ne before
  have keep {l : List DocumentModel} (away : ∀ other ∈ l, other.cdID ≠ document.cdID) :
      (l.map fun other => if other.cdID = document.cdID then
        other.addField selection description type else other) = l :=
    (List.map_congr_left fun other known => if_neg (away other known)).trans (List.map_id l)
  have rows : ((Operation.appendField document.cdID selection description type).after F ok
      env).rows = env.rows.withFields
        (env.rows.fields ++ [CDDocumentField.ofField F document.cdID
        (DocumentField.ofSelection selection description type)]) := after_rows _ _ _
  refine inv.replace
    (document.fieldsToFill ++ [DocumentField.ofSelection selection description type]) before
    ?_ rfl (by rw [rows]; rfl) ?_ ?_
  · simp only [Operation.after, Operation.createdAfter, before, List.map_append, List.map_cons,
      if_true]
    rw [keep fun other known => others other (List.mem_append_right _ known), keep othersBack]
    rfl
  · rw [rows]
    have old := inv.fields
    rw [GlobalEnviroment.listed, before, ← List.append_assoc, rowsOf_append, rowsOf_cons] at old
    refine (old.append_right _).trans ?_
    simp only [fieldRows, List.map_append, List.append_assoc, List.map_cons, List.map_nil]
    exact (List.perm_append_comm.append_left _).append_left _
  · intro field known
    rcases List.mem_append.mp known with old | new
    · exact inv.sizes document (List.mem_append_right _ mem) field old
    · obtain rfl := List.mem_singleton.mp new
      exact selection.bounds_standardized _

/-- The rows of a document go, and with them the documents with its cdID. -/
theorem MapInv.delete {env' : GlobalEnviroment} (inv : MapInv F env)
    (identity : IdentityInv F env)
    {document : DocumentModel} {fetched : Fetched} (fetch : fetched.Of env.rows)
    (rows : env'.rows = replayRows
      ((deleteActions document fetched.cdDocuments fetched.cdFields).getD []) env.rows)
    (loaded : env'.loadedDocuments =
      env.loadedDocuments.filter fun other => other.cdID ≠ document.cdID)
    (created : env'.createdDocuments =
      env.createdDocuments.filter fun other => other.cdID ≠ document.cdID) : MapInv F env' := by
  obtain ⟨left, perm, replay⟩ := replay_delete identity.rows fetch document
  rw [replay] at rows
  exact inv.remove document.cdID (by rw [rows]; rfl) (by rw [rows]; exact perm) loaded created

theorem MapInv.after_deleteLoaded (inv : MapInv F env) (identity : IdentityInv F env)
    {document : DocumentModel} {fetched : Fetched}
    (enabled : (Operation.deleteLoaded document fetched).Enabled env) :
    MapInv F ((Operation.deleteLoaded document fetched).after F ok env) := by
  obtain ⟨mem, fetch⟩ := enabled
  have nodup := inv.nodup
  rw [GlobalEnviroment.listed, List.map_append, List.nodup_append] at nodup
  have others : env.createdDocuments.filter (fun other => other.cdID ≠ document.cdID) =
      env.createdDocuments := by
    refine List.filter_eq_self.mpr ?_
    intro other known
    have apart := nodup.2.2 _ (List.mem_map_of_mem mem) _ (List.mem_map_of_mem known)
    simpa using Ne.symm apart
  exact inv.delete identity fetch (after_rows _ _ _)
    (removeListed_eq_filter nodup.1) others.symm

theorem MapInv.after_deleteCreated (inv : MapInv F env) (identity : IdentityInv F env)
    {document : DocumentModel} {fetched : Fetched}
    (enabled : (Operation.deleteCreated document fetched).Enabled env) :
    MapInv F ((Operation.deleteCreated document fetched).after F ok env) := by
  obtain ⟨mem, fetch⟩ := enabled
  have nodup := inv.nodup
  rw [GlobalEnviroment.listed, List.map_append, List.nodup_append] at nodup
  have others : env.loadedDocuments.filter (fun other => other.cdID ≠ document.cdID) =
      env.loadedDocuments := by
    refine List.filter_eq_self.mpr ?_
    intro other known
    have apart := nodup.2.2 _ (List.mem_map_of_mem known) _ (List.mem_map_of_mem mem)
    simpa using apart
  exact inv.delete identity fetch (after_rows _ _ _) others.symm
    (removeListed_eq_filter nodup.2.1)

/-- The field rows that are left when the rows of one document with one
description go. -/
theorem filter_rowsOf_description {front back : List DocumentModel} {document : DocumentModel}
    (others : ∀ other ∈ front, ¬ F.StringEqual other.cdID document.cdID)
    (othersBack : ∀ other ∈ back, ¬ F.StringEqual other.cdID document.cdID)
    {before after : List DocumentField} {field : DocumentField}
    (fields : document.fieldsToFill = before ++ field :: after)
    (unique : ∀ other ∈ before ++ after,
      ¬ F.StringEqual other.description field.description) :
    (rowsOf F (front ++ document :: back)).filter
        (fun row => !lookalike F document.cdID field.description row) =
      rowsOf F front ++ (fieldRows F document.cdID (before ++ after) ++ rowsOf F back) := by
  have elsewhere {l : List DocumentModel}
      (away : ∀ other ∈ l, ¬ F.StringEqual other.cdID document.cdID) :
      (rowsOf F l).filter (fun row => !lookalike F document.cdID field.description row) =
        rowsOf F l := by
    refine List.filter_eq_self.mpr ?_
    intro row mem
    obtain ⟨other, known, parent⟩ := mem_rowsOf mem
    simp [lookalike, parent, away other known]
  have kept {l : List DocumentField}
      (differ : ∀ other ∈ l, ¬ F.StringEqual other.description field.description) :
      (fieldRows F document.cdID l).filter
        (fun row => !lookalike F document.cdID field.description row) =
          fieldRows F document.cdID l := by
    refine List.filter_eq_self.mpr ?_
    intro row mem
    obtain ⟨other, known, rfl⟩ := List.mem_map.mp mem
    simp [lookalike, CDDocumentField.Describes, CDDocumentField.ofField, differ other known]
  have gone : (fieldRows F document.cdID [field]).filter
      (fun row => !lookalike F document.cdID field.description row) = [] := by
    simp [fieldRows, lookalike, CDDocumentField.Describes, CDDocumentField.ofField]
  have split : fieldRows F document.cdID document.fieldsToFill =
      fieldRows F document.cdID before ++ (fieldRows F document.cdID [field] ++
        fieldRows F document.cdID after) := by
    simp [fieldRows, fields]
  rw [rowsOf_append, rowsOf_cons, split, List.filter_append, List.filter_append,
    List.filter_append, List.filter_append, elsewhere others, elsewhere othersBack, gone,
    kept fun other known => unique other (List.mem_append_left _ known),
    kept fun other known => unique other (List.mem_append_right _ known)]
  simp [fieldRows]

theorem MapInv.after_removeField (inv : MapInv F env) (identity : IdentityInv F env)
    {i : ℕ} {offsets : List ℕ} {fetched : Fetched}
    (enabled : (Operation.removeField i offsets fetched).Enabled env)
    (regular : (Operation.removeField i offsets fetched).Regular F env) :
    MapInv F ((Operation.removeField i offsets fetched).after F ok env) := by
  obtain ⟨fetch, -⟩ := enabled
  obtain ⟨offset, document, rfl, listed, before, field, after, fields, length,
    unique⟩ := regular
  obtain ⟨inside, here⟩ := List.getElem?_eq_some_iff.mp listed
  obtain ⟨front, document', back, split, frontLength, modified⟩ := List.exists_of_modify
    (fun document : DocumentModel =>
      { document with fieldsToFill := removeAtOffsets [offset] document.fieldsToFill }) inside
  -- `modify` splits the list at the index the view passed in.
  obtain rfl : document' = document := by
    rw [split, ← frontLength, List.getElem?_append_right (le_refl _)] at listed
    simpa using listed
  have apart := inv.apart identity
  rw [GlobalEnviroment.listed, split, ← List.append_assoc, List.pairwise_append,
    List.pairwise_cons] at apart
  obtain ⟨-, ⟨own, -⟩, across⟩ := apart
  have first : document'.fieldsToFill[offset]? = some field := by
    rw [fields, ← length, List.getElem?_append_right (le_refl _)]
    simp
  have removed : removeAtOffsets [offset] document'.fieldsToFill = before ++ after := by
    rw [removeAtOffsets_singleton, fields, ← length,
      List.eraseIdx_append_of_length_le (le_refl _)]
    simp
  have rows := after_rows (F := F) ok env (.removeField i [offset] fetched)
  have gone : Operation.removedRows F i [offset] fetched env =
      some (fetched.cdFields.filter (lookalike F document'.cdID field.description)) := by
    simp only [Operation.removedRows, listed, Option.bind_eq_bind, Option.bind_some,
      List.head?_cons, first]
    exact removeFieldRows_eq identity.rows fetch document' field
  rw [Operation.actions, gone, Option.elim_some, replayRows, WorkingCopy.replay_append] at rows
  rw [show WorkingCopy.replay applyEdit _ _ = _ from replay_deleteRows _ _] at rows
  refine inv.replace (before ++ after) split ?_ rfl (by rw [rows]; rfl) ?_ ?_
  · rw [← removed]
    exact modified
  · rw [rows]
    have left := fetch.fields.foldl_erase_filter (lookalike F document'.cdID field.description)
    refine (left.trans (inv.fields.filter _)).trans (List.Perm.of_eq ?_)
    rw [GlobalEnviroment.listed, split, ← List.append_assoc]
    exact filter_rowsOf_description
      (fun other known => across other known document' List.mem_cons_self)
      (fun other known same => own other known same.symm) fields unique
  · intro other known
    refine inv.sizes document' (List.mem_append_right _ (split ▸ List.mem_append_right _
      List.mem_cons_self)) other ?_
    rw [fields]
    rcases List.mem_append.mp known with front | back
    · exact List.mem_append_left _ front
    · exact List.mem_append_right _ (List.mem_cons_of_mem _ back)

/-- **Every operation keeps memory and rows together**, however its saves turn
out. -/
theorem MapInv.after (inv : MapInv F env) (identity : IdentityInv F env) {op : Operation}
    (enabled : op.Enabled env) (regular : op.Regular F env) : MapInv F (op.after F ok env) := by
  cases op with
  | create id name url fields => exact inv.after_create identity regular
  | appendField docCDId selection description type => exact inv.after_appendField enabled
  | download key server => exact inv.after_download identity regular
  | deleteLoaded document fetched => exact inv.after_deleteLoaded identity enabled
  | deleteCreated document fetched => exact inv.after_deleteCreated identity enabled
  | removeField i offsets fetched => exact inv.after_removeField identity enabled regular
  | reload fetched now =>
      have fetch : fetched.Of env.rows := enabled
      obtain ⟨loaded, created⟩ := inv.load identity fetch
      exact inv.of_sameDocuments rfl loaded created

/-! ## Whole runs -/

variable (F) in
/-- Operations run to their end. -/
def regularEvents (env : GlobalEnviroment) : Event → Prop
  | .complete op _ => op.Regular F env
  | .crash .. => False

/-- **One event keeps memory and rows together.** -/
theorem MapInv.step {event : Event} (inv : MapInv F env) (identity : IdentityInv F env)
    (enabled : (app F).enabled env event) (regular : regularEvents F env event) :
    MapInv F ((app F).step env event) := by
  cases event with
  | complete op ok =>
      have permitted : op.Enabled env := enabled
      have step : (app F).step env (.complete op ok) = op.after F ok env := by
        simp [app, run_eq_some identity permitted]
      rw [step]
      exact inv.after identity permitted regular
  | crash op ok k fetched now => exact regular.elim

theorem mapInv_of_run {events : List Event}
    (run : ((app F).restrict (regularEvents F)).Run .initial events env) :
    IdentityInv F env ∧ MapInv F env :=
  run.invariant_restrict (I := fun env => IdentityInv F env ∧ MapInv F env)
    ⟨identityInv_of_run .nil, MapInv.initial⟩
    fun _ _ enabled regular both =>
      ⟨both.1.step enabled, both.2.step both.1 enabled regular⟩

variable (F) in
/-- Memory and store agree: cdIDs are distinct, no field row is without its
document, a load of the rows gives back the lists, and an operation whose saves
succeed leaves nothing pending. -/
structure Agree (env : GlobalEnviroment) : Prop where
  distinct : env.listed.Pairwise fun document other =>
    ¬ F.StringEqual document.cdID other.cdID
  parents : ∀ row ∈ env.rows.fields, ∃ document ∈ env.rows.documents,
    document.cdId = row.parent ∧ row.parent ≠ none
  load : ∀ fetched : Fetched, fetched.Of env.rows →
    SameDocuments env.loadedDocuments
        (loadModels F fetched.cdFields fetched.cdDocuments).downModels ∧
      SameDocuments env.createdDocuments
        (loadModels F fetched.cdFields fetched.cdDocuments).creatModels
  saves : ∀ op : Operation, op.Enabled env → op.actions F env ≠ [] →
    ∃ env', op.run F (fun _ => true) env = some env' ∧ env'.committedRows = env'.rows

theorem MapInv.parents (inv : MapInv F env) {row : CDDocumentField}
    (mem : row ∈ env.rows.fields) :
    ∃ document ∈ env.rows.documents, document.cdId = row.parent ∧ row.parent ≠ none := by
  obtain ⟨document, listed, parent⟩ := mem_rowsOf (inv.fields.mem_iff.mp mem)
  rw [parent]
  rcases List.mem_append.mp listed with loaded | created
  · exact ⟨loadedRow document, inv.documents.mem_iff.mpr
      (List.mem_append_left _ (List.mem_map_of_mem loaded)), rfl, by simp⟩
  · exact ⟨createdRow document, inv.documents.mem_iff.mpr
      (List.mem_append_right _ (List.mem_map_of_mem created)), rfl, by simp⟩

/-- With all saves succeeding, an operation that saves leaves nothing pending. -/
theorem after_committed (op : Operation) (some_save : op.actions F env ≠ []) :
    (op.after F (fun _ => true) env).committedRows =
      (op.after F (fun _ => true) env).rows := by
  rcases endsSaved_actions F env op with none | ⟨front, eq⟩
  · exact absurd none some_save
  · have allOk : ∀ n, (fun _ : ℕ => true) n = true := fun _ => rfl
    have clean := WorkingCopy.exec_clean applyEdit allOk front env.managedObjectContext
    simp only [GlobalEnviroment.committedRows, GlobalEnviroment.rows,
      Operation.after, eq, clean]
    rfl

/-- **Memory and Core Data stay two views of one document map**, in every state of
every run. -/
theorem memory_and_rows_agree {events : List Event}
    (run : ((app F).restrict (regularEvents F)).Run .initial events env) : Agree F env := by
  obtain ⟨identity, inv⟩ := mapInv_of_run run
  refine ⟨inv.apart identity, fun row mem => inv.parents mem,
    fun fetched fetch => inv.load identity fetch,
    fun op enabled some_save => ?_⟩
  exact ⟨_, run_eq_some identity enabled _, after_committed op some_save⟩

/-! ## A run with every operation -/

/-- A completed operation continues a run. -/
theorem run_snoc_after {events : List Event}
    (run : ((app F).restrict (regularEvents F)).Run .initial events env) {op : Operation}
    (ok : ℕ → Bool) (enabled : op.Enabled env) (regular : op.Regular F env) :
    ((app F).restrict (regularEvents F)).Run .initial (events ++ [.complete op ok])
      (op.after F ok env) := by
  have step : ((app F).restrict (regularEvents F)).step env (.complete op ok) =
      op.after F ok env := by
    simp [LabelledSystem.restrict, app, run_eq_some (mapInv_of_run run).1 enabled]
  rw [← step]
  exact run.snoc ⟨enabled, regular⟩

/-- The rows as they stand, as the answer of a fetch. -/
def asStored (env : GlobalEnviroment) : Fetched :=
  ⟨env.rows.documents, env.rows.fields, env.rows.perData⟩

/-- Text selected on the first page. -/
def firstPageSelection : PDFSelection where
  pages := [0]
  bounds _ := .make 10 20 100 15
  pages_ne_nil := List.cons_ne_nil _ _
  bounds_standardized _ := by decide +kernel

/-- The operations of a day: a shared document is downloaded, another one is created
and gets two fields, the first of which is removed again, the downloaded one is
deleted, and the app is left and opened. -/
def dayOperation (env : GlobalEnviroment) : ℕ → Operation
  | 0 => .download "doc1" (applyWrites KeyTree.empty (shareWrites oneField))
  | 1 => .create "doc2" "Заявление" "a.pdf" []
  | 2 => .appendField (Foundation.numberedUuid 1) firstPageSelection "Адрес" .address
  | 3 => .appendField (Foundation.numberedUuid 1) firstPageSelection "Адрес дачи" .address
  | 4 => .removeField 0 [0] (asStored env)
  | 5 => .deleteLoaded (decodeDocument "doc1" (Operation.snapshot
      (applyWrites KeyTree.empty (shareWrites oneField)) "doc1") (Foundation.numberedUuid 0))
        (asStored env)
  | _ => .reload (asStored env) 0

/-- The app after the first operations of the day; every other save fails. -/
def dayState : ℕ → GlobalEnviroment
  | 0 => .initial
  | n + 1 => (dayOperation (dayState n) n).after Foundation.numbered (fun k => k % 2 = 0)
      (dayState n)

theorem sharedData_oneField :
    SharedData (applyWrites KeyTree.empty (shareWrites oneField)) :=
  ⟨shareWrites oneField, rfl, fun _ mem =>
    ⟨oneField, _, shareDoucment_eq (by decide), mem⟩⟩

/-- The rows of every state of the day are sorted as they stand. -/
theorem fetched_dayState {n : ℕ} (day : n ≤ 7) :
    (asStored (dayState n)).Of (dayState n).rows := by
  have sorted : ∀ n ≤ 7,
      (dayState n).rows.documents.Pairwise (ascending CDDocumentModel.groupMode) ∧
      (dayState n).rows.fields.Pairwise (ascending CDDocumentField.parent) ∧
      (dayState n).rows.perData.Pairwise (ascending CDPerData.createdAt) := by
    decide +kernel
  obtain ⟨documents, fields, perData⟩ := sorted n day
  exact ⟨⟨List.Perm.refl _, documents⟩, ⟨List.Perm.refl _, fields⟩, ⟨List.Perm.refl _, perData⟩⟩

/-- Every operation of the day may be taken where it is, and is regular there. -/
theorem run_dayState {n : ℕ} (day : n ≤ 7) :
    ∃ events, ((app Foundation.numbered).restrict (regularEvents Foundation.numbered)).Run
      .initial events (dayState n) := by
  induction n with
  | zero => exact ⟨[], .nil⟩
  | succ n ih =>
      obtain ⟨events, run⟩ := ih (by omega)
      have fetch := fetched_dayState (n := n) (by omega)
      suffices permitted : (dayOperation (dayState n) n).Enabled (dayState n) ∧
          (dayOperation (dayState n) n).Regular Foundation.numbered (dayState n) from
        ⟨_, run_snoc_after run _ permitted.1 permitted.2⟩
      match n, fetch with
      | 0, _ =>
          have clean : PathChars "doc1" := by decide
          exact ⟨clean, sharedData_oneField⟩
      | 1, _ => exact ⟨trivial, by simp [dayOperation, Operation.Regular]⟩
      | 2, _ | 3, _ =>
          have created : ((dayState 2).createdDocuments.map DocumentModel.cdID,
              (dayState 3).createdDocuments.map DocumentModel.cdID) =
                ([Foundation.numberedUuid 1], [Foundation.numberedUuid 1]) := by
            decide +kernel
          simp only [Prod.mk.injEq] at created
          refine ⟨List.mem_map.mp ?_, trivial⟩
          simp [created]
      | 4, fetch =>
          obtain ⟨document, listed, first, second, fields, apart⟩ :
              ∃ document, (dayState 4).createdDocuments = [document] ∧
                ∃ first second, document.fieldsToFill = [first, second] ∧
                  ¬ Foundation.numbered.StringEqual second.description first.description :=
            ⟨_, rfl, _, _, rfl, by decide +kernel⟩
          refine ⟨⟨fetch, by simp, document, by simp [listed], by simp [fields]⟩, 0,
            document, rfl,
            by simp [listed], [], first, [second], fields, rfl, ?_⟩
          simpa using apart
      | 5, fetch => exact ⟨⟨by decide +kernel, fetch⟩, trivial⟩
      | 6, fetch => exact ⟨fetch, trivial⟩

/-- The document that is left has the field that was not removed. -/
theorem agree_after_day :
    ((dayState 7).loadedDocuments, (dayState 7).createdDocuments) =
        ([], [⟨"doc2", "Заявление", some "a.pdf", Foundation.numberedUuid 1,
          [DocumentField.ofSelection firstPageSelection "Адрес дачи" .address]⟩]) ∧
      Agree Foundation.numbered (dayState 7) := by
  obtain ⟨events, run⟩ := run_dayState (le_refl 7)
  exact ⟨by decide +kernel, memory_and_rows_agree run⟩

end DocumentRelay
