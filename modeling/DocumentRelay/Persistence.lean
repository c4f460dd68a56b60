import DocumentRelay.Crash

/-!
# From memory to rows and back

A document that is stored and loaded again goes through the rectangle accessors
on the way out and through `CGRect(x:y:width:height:)` on the way in.  It comes
back the same exactly when none of its rectangles has a negative size
(`sameDocument_joinRow_iff`).

Selections have no negative sizes, but downloaded documents take any four
numbers the database holds.  `download_survives_iff` says which snapshots survive
being stored: the decoder of snapshots and the decoder of rows agree on every
malformed one, and part ways on negative sizes only.
-/

namespace DocumentRelay

variable {F : Foundation}

/-! ## One document -/

/-- **Fields come back from their rows exactly when no size is negative.** -/
theorem contents_perm_iff (cdID : String) (fields : List DocumentField) :
    (fields.map DocumentField.content).Perm
        ((fields.map fun field =>
          DocumentField.ofRow F (CDDocumentField.ofField F cdID field)).map
            DocumentField.content) ↔
      ∀ field ∈ fields, field.rect.Standardized := by
  constructor
  · intro same field mem
    have stored := same.mem_iff.mp (List.mem_map_of_mem mem)
    simp only [List.map_map, List.mem_map, Function.comp_apply] at stored
    -- Whichever row gave the field back, its rectangle came from accessors.
    obtain ⟨other, -, eq⟩ := stored
    have rects := congrArg (fun content => content.2.2) eq
    simp only [DocumentField.content] at rects
    rw [← rects]
    exact DocumentField.standardized_ofRow_ofField F cdID other
  · intro standard
    refine List.Perm.of_eq ?_
    rw [List.map_map]
    exact List.map_congr_left fun field mem =>
      ((DocumentField.content_ofRow_ofField_eq_iff F cdID field).mpr (standard field mem)).symm

/-- The document a load makes of a row, by what its field rows select. -/
theorem sameDocument_joinRow_iff {document : DocumentModel} {row : CDDocumentModel}
    (id : row.id = some document.id) (name : row.name = some document.name)
    (url : some (row.url.getD "") = document.url) (cdId : row.cdId = some document.cdID)
    {cdFields : List CDDocumentField}
    (fields : (fieldsOf F cdFields document.cdID).Perm (document.fieldsToFill.map fun field =>
      DocumentField.ofRow F (CDDocumentField.ofField F document.cdID field))) :
    SameDocument document (joinRow F cdFields row) ↔
      ∀ field ∈ document.fieldsToFill, field.rect.Standardized := by
  have selected : (joinRow F cdFields row).fieldsToFill =
      fieldsOf F cdFields document.cdID := by
    rw [joinRow, cdId]
    rfl
  rw [← contents_perm_iff (F := F) document.cdID]
  constructor
  · intro same
    have contents := same.fields
    rw [selected] at contents
    exact contents.trans (fields.map _)
  · intro contents
    refine ⟨?_, ?_, ?_, ?_, ?_⟩
    · simp [joinRow, DocumentModel.ofRow, id]
    · simp [joinRow, DocumentModel.ofRow, name]
    · exact url.symm
    · simp [joinRow, DocumentModel.ofRow, cdId]
    · rw [selected]
      exact contents.trans (fields.map _).symm

/-- **A load makes one document of each row.** -/
theorem loadModels_filter_cdID {n : ℕ} {rows : Rows} (issued : RowsIssued F n rows)
    {fetched : Fetched} (fetch : fetched.Of rows) {row : CDDocumentModel}
    (mem : row ∈ rows.documents) {cdID : String} (cdId : row.cdId = some cdID) :
    (loadModels F fetched.cdFields fetched.cdDocuments).all.filter
        (fun document => document.cdID = cdID) = [joinRow F fetched.cdFields row] := by
  have own : ∀ other ∈ rows.documents, other.cdId.getD "" = cdID → other = row := by
    intro other otherMem same
    obtain ⟨s, known, -⟩ := issued.documents other otherMem
    rw [known, Option.getD_some] at same
    exact List.inj_on_of_nodup_map issued.nodup otherMem mem (by rw [known, cdId, same])
  have rowsNodup : fetched.cdDocuments.Nodup :=
    fetch.documents.perm.nodup_iff.mpr (List.Nodup.of_map _ issued.nodup)
  have selected :
      fetched.cdDocuments.filter (fun other => other.cdId.getD "" = cdID) = [row] := by
    refine List.perm_singleton.mp ?_
    refine (List.perm_ext_iff_of_nodup (rowsNodup.filter _) (List.nodup_singleton row)).mpr ?_
    intro other
    simp only [List.mem_filter, decide_eq_true_eq, List.mem_singleton]
    constructor
    · rintro ⟨otherMem, same⟩
      exact own other (fetch.documents.mem_iff.mp otherMem) same
    · rintro rfl
      exact ⟨fetch.documents.mem_iff.mpr mem, by simp [cdId]⟩
  have commute (mode : CDDocumentModel → Bool) :
      ((fetched.cdDocuments.filter mode).map (joinRow F fetched.cdFields)).filter
          (fun document => document.cdID = cdID) =
        ((fetched.cdDocuments.filter fun other => other.cdId.getD "" = cdID).filter mode).map
          (joinRow F fetched.cdFields) := by
    rw [List.filter_map, List.filter_filter, List.filter_filter]
    congr 1
    exact List.filter_congr fun other _ => Bool.and_comm _ _
  rw [Models.all, loadModels_eq, List.filter_append, commute, commute, selected]
  by_cases down : row.groupMode = some "0" <;> simp [down]

/-! ## Downloaded documents -/

variable (F) in
/-- What a download appends survives being stored: with all saves succeeding,
every load of the committed rows builds one document with its cdID, and it is the
same document. -/
def Survives (env : GlobalEnviroment) (key : String) (server : FNode) : Prop :=
  ∀ (download : Download) (document : DocumentModel),
    downloadDocument F key server (fun _ => true) env = .ok download →
    download.env.loadedDocuments = env.loadedDocuments ++ [document] →
    ∀ fetched : Fetched, fetched.Of download.env.committedRows →
      ∃ rebuilt, (loadModels F fetched.cdFields fetched.cdDocuments).all.filter
          (fun other => other.cdID = document.cdID) = [rebuilt] ∧
        SameDocument document rebuilt

/-- The environment and the store after a download that persists. -/
theorem download_persisted (env : GlobalEnviroment) (server : FNode) {key : String}
    (clean : PathChars key)
    (url : stringAttribute (Operation.snapshot server key).asDictionary "url" ≠ "") :
    ∃ download, downloadDocument F key server (fun _ => true) env = .ok download ∧
      download.env.loadedDocuments = env.loadedDocuments ++
        [decodeDocument key (Operation.snapshot server key) (F.uuidString env.uuidCount)] ∧
      download.env.committedRows = replayRows (downloadActions F
        (decodeDocument key (Operation.snapshot server key) (F.uuidString env.uuidCount)))
          env.rows := by
  refine ⟨_, downloadDocument_of_pathChars F clean server _ env, ?_, ?_⟩
  · simp [downloadCallback, url, GlobalEnviroment.perform]
  · have ends := endsSaved_actions F env (.download key server)
    simp only [Operation.actions, ne_eq, url, not_false_eq_true, if_true] at ends
    rcases ends with none | ⟨front, eq⟩
    · simp [downloadActions] at none
    · simp only [downloadCallback, url, ne_eq, not_false_eq_true, if_true,
        GlobalEnviroment.perform, GlobalEnviroment.committedRows]
      rw [eq, WorkingCopy.exec_clean applyEdit (fun _ => rfl), replayRows,
        WorkingCopy.replay_append]
      rfl

/-- The one document of a load with the cdID of a fresh download. -/
theorem load_after_download {env : GlobalEnviroment} (inv : IdentityInv F env)
    {document : DocumentModel} (fresh : document.cdID = F.uuidString env.uuidCount)
    {fetched : Fetched}
    (fetch : fetched.Of (replayRows (downloadActions F document) env.rows)) :
    (loadModels F fetched.cdFields fetched.cdDocuments).all.filter
        (fun other => other.cdID = document.cdID) =
      [joinRow F fetched.cdFields (loadedRow document)] ∧
    (fieldsOf F fetched.cdFields document.cdID).Perm (document.fieldsToFill.map fun field =>
      DocumentField.ofRow F (CDDocumentField.ofField F document.cdID field)) := by
  rw [replay_download] at fetch
  have issued : RowsIssued F (env.uuidCount + 1)
      ((env.rows.withDocuments (env.rows.documents ++ [loadedRow document])).withFields
        (env.rows.fields ++ fieldRows F document.cdID document.fieldsToFill)) := by
    refine inv.rows.of_identityStep (Nat.le_succ _)
      ⟨Or.inr ⟨Nat.lt_succ_self _,
        loadedRow document, by simp [CDDocumentModel.ofDocument, fresh],
        rfl⟩, fun row mem => ?_⟩
    rw [fresh] at mem
    exact mem_fields_append_fieldRows mem
  refine ⟨loadModels_filter_cdID issued fetch
    (List.mem_append_right _ List.mem_cons_self) rfl, ?_⟩
  refine ((fetch.fields.perm.filter _).map _).trans (List.Perm.of_eq ?_)
  have none : fieldsOf F env.rows.fields document.cdID = [] := by
    rw [fresh]
    exact fieldsOf_next inv.rows
  have selected := fieldsOf_append_fieldRows (F := F) env.rows.fields document.cdID
    document.fieldsToFill
  rw [none, List.nil_append] at selected
  exact selected

/-- No rectangle under a document snapshot has a negative size. -/
def NonnegativeSizes (snapshot : FNode) : Prop :=
  ∀ fieldSnap ∈ fieldSnapshots snapshot,
    0 ≤ doubleAttribute (rectDictionary fieldSnap) "width" ∧
      0 ≤ doubleAttribute (rectDictionary fieldSnap) "height"

instance (snapshot : FNode) : Decidable (NonnegativeSizes snapshot) :=
  inferInstanceAs (Decidable (∀ fieldSnap ∈ fieldSnapshots snapshot, _))

theorem nonnegativeSizes_iff (key : String) (snapshot : FNode) (cdID : String) :
    NonnegativeSizes snapshot ↔
      ∀ field ∈ (decodeDocument key snapshot cdID).fieldsToFill, field.rect.Standardized := by
  simp [NonnegativeSizes, decodeDocument, decodeField, CGRect.make, CGRect.Standardized]

theorem nonnegativeSizes_of_survives {env : GlobalEnviroment} (inv : IdentityInv F env)
    {key : String} {server : FNode} (survives : Survives F env key server)
    (clean : PathChars key)
    (url : stringAttribute (Operation.snapshot server key).asDictionary "url" ≠ "") :
    NonnegativeSizes (Operation.snapshot server key) := by
  obtain ⟨download, ran, appended, committed⟩ :=
    download_persisted (F := F) env server clean url
  obtain ⟨fetched, fetch⟩ := Fetched.exists_of download.env.committedRows
  obtain ⟨rebuilt, found, same⟩ := survives download _ ran appended fetched fetch
  rw [committed] at fetch
  obtain ⟨one, fields⟩ := load_after_download inv rfl fetch
  rw [one] at found
  obtain rfl := List.singleton_inj.mp found
  rw [nonnegativeSizes_iff]
  exact (sameDocument_joinRow_iff rfl rfl rfl rfl fields).mp same

/-- A download that appends was not refused and found a url. -/
theorem stored_of_appended {env : GlobalEnviroment} {key : String} {server : FNode}
    {download : Download} {document : DocumentModel}
    (ran : downloadDocument F key server (fun _ => true) env = .ok download)
    (appended : download.env.loadedDocuments = env.loadedDocuments ++ [document]) :
    PathChars key ∧
      stringAttribute (Operation.snapshot server key).asDictionary "url" ≠ "" := by
  by_cases clean : PathChars key
  · refine ⟨clean, ?_⟩
    intro url
    rw [downloadDocument_of_pathChars F clean] at ran
    obtain rfl := Except.ok.inj ran
    simp [downloadCallback, url] at appended
  · rw [downloadDocument, child_shared, if_neg clean] at ran
    exact absurd ran (by simp [bind, Except.bind])

theorem survives_of_nonnegativeSizes {env : GlobalEnviroment} (inv : IdentityInv F env)
    {key : String} {server : FNode}
    (standard : PathChars key →
      stringAttribute (Operation.snapshot server key).asDictionary "url" ≠ "" →
      NonnegativeSizes (Operation.snapshot server key)) :
    Survives F env key server := by
  intro download document ran appended fetched fetch
  obtain ⟨clean, url⟩ := stored_of_appended ran appended
  obtain ⟨persisted, ran', appended', committed⟩ :=
    download_persisted (F := F) env server clean url
  obtain rfl := Except.ok.inj (ran.symm.trans ran')
  obtain rfl := List.singleton_inj.mp (List.append_cancel_left (appended.symm.trans appended'))
  rw [committed] at fetch
  obtain ⟨one, fields⟩ := load_after_download inv rfl fetch
  exact ⟨_, one, (sameDocument_joinRow_iff rfl rfl rfl rfl fields).mpr
    ((nonnegativeSizes_iff _ _ _).mp (standard clean url))⟩

/-- **A snapshot survives being stored exactly when no rectangle of it has a
negative size**, or nothing is stored at all. -/
theorem download_survives_iff {events : List Event} {env : GlobalEnviroment}
    (run : (app F).Run .initial events env) (key : String) (server : FNode) :
    Survives F env key server ↔
      (PathChars key →
        stringAttribute (Operation.snapshot server key).asDictionary "url" ≠ "" →
        NonnegativeSizes (Operation.snapshot server key)) := by
  have inv := identityInv_of_run run
  exact ⟨fun survives clean url => nonnegativeSizes_of_survives inv survives clean url,
    fun standard => survives_of_nonnegativeSizes inv standard⟩

/-- A shared document whose one field has this width. -/
def widthServer (width : ℚ) : FNode :=
  .node [("shared", .node [("doc1", .node [
    ("fields", .node [("field0", .node [("rect", .node [("width", .leaf (.number width))])])]),
    ("url", .leaf (.string "a.pdf"))])])]

theorem not_survives_negative_width :
    ¬ Survives Foundation.numbered .initial "doc1" (widthServer (-5)) := by
  intro survives
  have sizes :=
    nonnegativeSizes_of_survives (identityInv_of_run LabelledSystem.Run.nil) survives
    (by decide) (by decide)
  exact absurd sizes (by decide +kernel)

theorem download_survives_positive_width :
    Survives Foundation.numbered .initial "doc1" (widthServer 5) :=
  (download_survives_iff LabelledSystem.Run.nil "doc1" (widthServer 5)).mpr
    fun _ _ => by decide +kernel

end DocumentRelay
