import DocumentRelay.Operations

/-!
# Keys from a keyboard or a camera

What the user types or scans is spliced into a path and given to the database
client as it is.  The client raises on five characters, splits the rest at every
slash, and drops empty pieces, so a string can crash the app, reach below a
document, or read all of `/shared`.

`safeRequest_iff` says which strings are safe: exactly those the client itself
accepts as a key, by the rule `isValidKey` that the app never asks for.
-/

namespace DocumentRelay

variable (F : Foundation)

/-- Memory and store are the same. -/
structure SameContents (env env' : GlobalEnviroment) : Prop where
  loaded : env'.loadedDocuments = env.loadedDocuments
  created : env'.createdDocuments = env.createdDocuments
  personal : env'.personalData = env.personalData
  context : env'.managedObjectContext = env.managedObjectContext

/-- A download did what was asked for: it read a direct child of `/shared`, its
completion was called, and the child is the one named by the whole string unless
nothing changed. -/
structure Answers (key : String) (env : GlobalEnviroment) (download : Download) : Prop where
  depth : ∃ name, download.path = ["shared", name]
  comletion : download.comletion = true
  child : download.path = ["shared", key] ∨ SameContents env download.env

/-- A request did not raise, and its download did what was asked for. -/
def Answered (key : String) (env : GlobalEnviroment)
    (outcome : Except NSException (DownloadState × Option Download)) : Prop :=
  ∃ view download, outcome = .ok (view, some download) ∧ Answers key env download

/-- **A string that is safe to type and to scan**, whatever the database and the
app hold. -/
def SafeRequest (key : String) : Prop :=
  ∀ (server : FNode) (ok : ℕ → Bool) (view : DownloadState) (env : GlobalEnviroment),
    Answered key env (handleTypeIn F server ok { view with documentId := key } env) ∧
      Answered key env (handleScan F (ε := Unit) (.ok key) server ok view env)

variable {F}

/-- `handleTypeIn` passes the string on unchanged. -/
theorem answered_handleTypeIn_iff {key : String} {server : FNode} {ok : ℕ → Bool}
    {env : GlobalEnviroment} {download : Download}
    (ran : downloadDocument F key server ok env = .ok download) (view : DownloadState) :
    Answered key env (handleTypeIn F server ok { view with documentId := key } env) ↔
      Answers key env download := by
  obtain ⟨view', handled⟩ : ∃ view',
      handleTypeIn F server ok { view with documentId := key } env =
        .ok (view', some download) :=
    ⟨_, by rw [handleTypeIn, ran]; rfl⟩
  simp [Answered, handled]

/-- `handleScan` passes the string on unchanged. -/
theorem answered_handleScan_iff {key : String} {server : FNode} {ok : ℕ → Bool}
    {env : GlobalEnviroment} {download : Download}
    (ran : downloadDocument F key server ok env = .ok download) (view : DownloadState) :
    Answered key env (handleScan F (ε := Unit) (.ok key) server ok view env) ↔
      Answers key env download := by
  obtain ⟨view', handled⟩ : ∃ view',
      handleScan F (ε := Unit) (.ok key) server ok view env = .ok (view', some download) :=
    ⟨_, by rw [handleScan, ran]; rfl⟩
  simp [Answered, handled]

/-- A typed string with a forbidden character raises. -/
theorem not_answered_of_raises {key : String} (raises : ¬ PathChars key) (server : FNode)
    (ok : ℕ → Bool) (view : DownloadState) (env : GlobalEnviroment) :
    ¬ Answered key env (handleTypeIn F server ok { view with documentId := key } env) := by
  rintro ⟨view', download, ran, -⟩
  rw [handleTypeIn, downloadDocument, child_shared, if_neg raises] at ran
  exact absurd ran (by simp [bind, Except.bind])

/-- A database with one document, under one name. -/
def singleServer (name : String) : FNode :=
  .node [("shared", .node [(name, .node [("url", .leaf (.string "a.pdf"))])])]

/-- A download that finds the document appends it. -/
theorem loadedDocuments_download_single {key name : String} (pieces : pathPieces key = [name])
    (ok : ℕ → Bool) (env : GlobalEnviroment) :
    (downloadCallback F key
      (Operation.snapshot (singleServer name) key) ok env).loadedDocuments ≠
      env.loadedDocuments := by
  have found : Operation.snapshot (singleServer name) key =
      .node [("url", .leaf (.string "a.pdf"))] := by
    simp [Operation.snapshot, pieces, singleServer, FNode.getChild, KeyTree.child]
  have url : stringAttribute (Operation.snapshot (singleServer name) key).asDictionary "url" ≠
      "" := by
    rw [found]
    decide
  simp [downloadCallback, url, GlobalEnviroment.perform]

/-- A view before the first request. -/
def DownloadState.initial : DownloadState := ⟨false, false, false, false, "", false⟩

/-- A safe string without forbidden characters is its own single piece. -/
theorem pathPieces_of_safeRequest {key : String} (safe : SafeRequest F key)
    (clean : PathChars key) : pathPieces key = [key] := by
  have answers (server : FNode) : Answers key .initial
      ⟨"shared" :: pathPieces key, downloadCallback F key (Operation.snapshot server key)
        (fun _ => true) .initial, true⟩ :=
    (answered_handleTypeIn_iff (downloadDocument_of_pathChars F clean server _ _) .initial).mp
      (safe server (fun _ => true) .initial .initial).1
  -- The one piece is the key itself, or a database that has it answers wrongly.
  obtain ⟨name, path⟩ := (answers KeyTree.empty).depth
  have pieces : pathPieces key = [name] := by simpa using path
  rcases (answers (singleServer name)).child with whole | unchanged
  · simpa using whole
  · exact absurd unchanged.loaded (loadedDocuments_download_single pieces _ _)

/-- **A string is safe to ask for exactly when it is a valid key.** -/
theorem safeRequest_iff (key : String) :
    SafeRequest F key ↔ FValidation.isValidKey key = true := by
  rw [isValidKey_iff, ← pathPieces_eq_self_iff]
  constructor
  · intro safe
    by_cases clean : PathChars key
    · exact ⟨clean, pathPieces_of_safeRequest safe clean⟩
    · exact absurd (safe KeyTree.empty (fun _ => true) .initial .initial).1
        (not_answered_of_raises clean _ _ _ _)
  · rintro ⟨clean, single⟩ server ok view env
    have ran := downloadDocument_of_pathChars F clean server ok env
    rw [answered_handleTypeIn_iff ran, answered_handleScan_iff ran, single]
    exact ⟨⟨⟨key, rfl⟩, rfl, Or.inl rfl⟩, ⟨⟨key, rfl⟩, rfl, Or.inl rfl⟩⟩

theorem not_safeRequest_dot : ¬ SafeRequest Foundation.numbered "a.b" := by
  intro safe
  exact not_answered_of_raises (by decide) KeyTree.empty (fun _ => true) .initial .initial
    (safe KeyTree.empty (fun _ => true) .initial .initial).1

end DocumentRelay
