import Mathlib.Data.List.Basic
import DocumentRelay.Lib.Run
import DocumentRelay.Env.GlobalEnviroment

/-!
# The create session

`Views/CreateDocumentView.swift` and `Views/DocumentPicker.swift`: the user types
a url or picks files, each pick is uploaded and its download URL arrives later,
and Create passes whatever the url field holds at that moment.

Three parts write the one `url`: the text field, the completion of an upload, and
the cancellation of the picker, which writes the empty string.  None of them asks
what the user chose last, and Create does not look at `uplodingDocument`.

All picks of a session are uploaded under one path, named after the document, and
each upload that the storage takes replaces the object of the one before.  So a
download URL stands for the picked file only as long as the object under the path is
that file, and the storage takes uploads in an order of its own.

A file that cannot be read and a download URL that fails trap
(`loadFileFromLocalPath(_:)!`, `url!`): the app is gone, and the session with it.

The session uses the last source as far as its steps are harmless: `Careful` says
which steps are, and `careful_session_faithful` that it is enough.
-/

namespace DocumentRelay

variable (F : Foundation)

/-! ## The view -/

structure CreateDocumentView where
  documentId : String
  documentName : String
  url : String
  uplodingDocument : Bool
  documentPickerMode : ℤ
  pickerIsPresented : Bool
  isDocPicked : Bool
  presentSelf : Bool
  deriving DecidableEq, Repr

namespace CreateDocumentView

/-- The view when it is opened. -/
def opened (documentId : String) : CreateDocumentView where
  documentId := documentId
  documentName := ""
  url := ""
  uplodingDocument := false
  documentPickerMode := 1
  pickerIsPresented := false
  isDocPicked := false
  presentSelf := true

/-- The setter of the binding the picker writes through. -/
def setUrl (newValue : String) (view : CreateDocumentView) : CreateDocumentView :=
  { view with
    documentPickerMode := if newValue ≠ "" then 1 else view.documentPickerMode
    url := newValue
    uplodingDocument := false }

def pickDocument (view : CreateDocumentView) : CreateDocumentView :=
  { view with pickerIsPresented := true, uplodingDocument := true }

/-- `documentPickerWasCancelled`; the sheet closes. -/
def documentPickerWasCancelled (view : CreateDocumentView) : CreateDocumentView :=
  { view.setUrl "" with pickerIsPresented := false }

/-- `documentPicker(_:didPickDocumentsAt:)` up to `putData`; the sheet closes. -/
def documentPicker (view : CreateDocumentView) : CreateDocumentView :=
  { view with isDocPicked := true, pickerIsPresented := false }

/-- The path every upload of the session goes to. -/
def pathName (view : CreateDocumentView) : String := view.documentId ++ ".pdf"

end CreateDocumentView

/-! ## Sources -/

/-- The bytes of a file. -/
abbrev Data := List UInt8

/-- A file the user picked, by number of the pick. -/
structure PickedFile where
  number : ℕ
  data : Data
  deriving DecidableEq, Repr

/-- How far the upload of a picked file got: `putData` is called, the storage has
taken the data, the completion has asked for the download URL, the URL is there. -/
inductive Upload where
  | putData
  | stored
  | downloadURL
  | done (url : String)
  deriving DecidableEq, Repr

/-- A source the user provided: a typed text or a picked file. -/
inductive Source where
  | typed (text : String)
  | picked (file : PickedFile) (upload : Upload)
  deriving DecidableEq, Repr

/-- The url a source stands for, once there is one. -/
def Source.text? : Source → Option String
  | .typed text => some text
  | .picked _ (.done url) => some url
  | .picked _ _ => none

/-- The data of a source the storage has taken. -/
def Source.object? : Source → Option Data
  | .typed _ => none
  | .picked _ .putData => none
  | .picked file _ => some file.data

/-- The url of the last source, `none` while its upload is pending; the field
starts empty. -/
def lastSource (sources : List Source) : Option String :=
  match sources.getLast? with
  | none => some ""
  | some source => source.text?

/-- The file, where the last source is a picked one. -/
def lastFile (sources : List Source) : Option PickedFile :=
  match sources.getLast? with
  | some (.picked file _) => some file
  | _ => none

/-- The sources when an upload gets from one stage to the next. -/
def advance (file : PickedFile) (before after : Upload) (sources : List Source) : List Source :=
  sources.map fun source => if source = .picked file before then .picked file after else source

/-! ## The session -/

/-- What Create passed on: the document, the sources provided until then, and the
object under the path at that moment. -/
structure Creation where
  document : DocumentModel
  sources : List Source
  object : Option Data

structure Session where
  view : CreateDocumentView
  env : GlobalEnviroment
  /-- The objects of the storage, by path. -/
  storage : String → Option Data
  /-- What the user provided, in order, less the uploads that failed. -/
  sources : List Source
  picks : ℕ
  created : Option Creation
  trapped : Bool

def Session.start (documentId : String) (env : GlobalEnviroment)
    (storage : String → Option Data) : Session where
  view := .opened documentId
  env := env
  storage := storage
  sources := []
  picks := 0
  created := none
  trapped := false

inductive SessionEvent where
  | typeName (text : String)
  | typeUrl (text : String)
  | pickDocument
  | cancel
  /-- A file is picked; `data` is what `loadFileFromLocalPath` reads. -/
  | pick (accessible : Bool) (data : Option Data)
  /-- The storage takes the data. -/
  | store (file : PickedFile)
  | putDataFailed (file : PickedFile)
  | putDataDone (file : PickedFile)
  /-- The completion of `downloadURL`. -/
  | urlArrived (file : PickedFile) (url : Option String)
  | close
  | create (ok : ℕ → Bool)

/-- **The create session.**  The text fields and buttons are covered while the
picker is up; the storage and the completions of uploads move at any time, and an
upload may be reported as failed after the storage took it.  Nothing happens after
a trap. -/
def session : LabelledSystem Session SessionEvent where
  enabled state event := state.trapped = false ∧
    match event with
    | .typeName _ | .typeUrl _ | .pickDocument | .close | .create _ =>
        state.view.presentSelf = true ∧ state.view.pickerIsPresented = false
    | .cancel | .pick _ _ => state.view.pickerIsPresented = true
    | .store file => Source.picked file .putData ∈ state.sources
    | .putDataFailed file => Source.picked file .putData ∈ state.sources ∨
        Source.picked file .stored ∈ state.sources
    | .putDataDone file => Source.picked file .stored ∈ state.sources
    | .urlArrived file _ => Source.picked file .downloadURL ∈ state.sources
  step state
    | .typeName text => { state with view := { state.view with documentName := text } }
    | .typeUrl text =>
        { state with
          view := { state.view with url := text }
          sources := state.sources ++ [.typed text] }
    | .pickDocument => { state with view := state.view.pickDocument }
    | .cancel => { state with view := state.view.documentPickerWasCancelled }
    -- A file the app may not access is dropped without an upload.
    | .pick false _ => { state with view := state.view.documentPicker }
    | .pick true none => { state with view := state.view.documentPicker, trapped := true }
    | .pick true (some data) =>
        { state with
          view := state.view.documentPicker
          sources := state.sources ++ [.picked ⟨state.picks, data⟩ .putData]
          picks := state.picks + 1 }
    | .store file =>
        { state with
          storage := Function.update state.storage state.view.pathName (some file.data)
          sources := advance file .putData .stored state.sources }
    | .putDataFailed file =>
        { state with
          sources := state.sources.filter fun source =>
            source ≠ .picked file .putData ∧ source ≠ .picked file .stored }
    | .putDataDone file =>
        { state with sources := advance file .stored .downloadURL state.sources }
    | .urlArrived _ none => { state with trapped := true }
    | .urlArrived file (some url) =>
        { state with
          view := state.view.setUrl url
          sources := advance file .downloadURL (.done url) state.sources }
    | .close => { state with view := { state.view with presentSelf := false } }
    | .create ok =>
        let document :=
          state.env.newDocument F state.view.documentId state.view.documentName state.view.url
        { state with
          view := { state.view with presentSelf := false }
          env := addCreatedDocument F document ok
            { state.env with uuidCount := state.env.uuidCount + 1 }
          created := some ⟨document, state.sources, state.storage state.view.pathName⟩ }

/-- **What Create passes on is the last source**, with no upload pending; where the
last source is a picked file, the object under the path is that file.  And no step
traps. -/
structure Session.Faithful (state : Session) : Prop where
  trapped : state.trapped = false
  settled : ∀ creation, state.created = some creation →
    ∀ source ∈ creation.sources, source.text? ≠ none
  url : ∀ creation, state.created = some creation →
    creation.document.url = lastSource creation.sources
  object : ∀ creation, state.created = some creation →
    ∀ file, lastFile creation.sources = some file → creation.object = some file.data

/-- No source behind this one has a value of `f`. -/
def NoLater {α : Type} (f : Source → Option α) (source : Source)
    (sources : List Source) : Prop :=
  ∀ later ∈ (sources.dropWhile fun other => other ≠ source).tail, f later = none

instance {α : Type} [DecidableEq α] (f : Source → Option α) (source : Source)
    (sources : List Source) : Decidable (NoLater f source sources) :=
  inferInstanceAs (Decidable
    (∀ later ∈ (sources.dropWhile fun other => other ≠ source).tail, f later = none))

/-- The harmless steps.  Picked files can be read and downloads have a URL; the
storage takes no upload after that of a later pick, and none that is then reported as
failed; the picker is only cancelled while the field is empty, a download URL only
arrives where no later source has one, and Create is only pressed with no upload
pending. -/
def Careful (state : Session) : SessionEvent → Prop
  | .pick accessible data => accessible = true → data ≠ none
  | .cancel => state.view.url = ""
  | .store file => NoLater Source.object? (.picked file .putData) state.sources
  | .putDataFailed file => Source.picked file .stored ∉ state.sources
  | .urlArrived file url =>
      url ≠ none ∧ NoLater Source.text? (.picked file .downloadURL) state.sources
  | .create _ => ∀ source ∈ state.sources, source.text? ≠ none
  | _ => True

instance (state : Session) : ∀ event, Decidable (Careful state event)
  | .pick accessible data => inferInstanceAs (Decidable (accessible = true → data ≠ none))
  | .cancel => inferInstanceAs (Decidable (state.view.url = ""))
  | .store file =>
      inferInstanceAs (Decidable (NoLater Source.object? (.picked file .putData) state.sources))
  | .putDataFailed file =>
      inferInstanceAs (Decidable (Source.picked file .stored ∉ state.sources))
  | .urlArrived file url =>
      inferInstanceAs (Decidable
        (url ≠ none ∧ NoLater Source.text? (.picked file .downloadURL) state.sources))
  | .create _ => inferInstanceAs (Decidable (∀ source ∈ state.sources, source.text? ≠ none))
  | .typeName _ | .typeUrl _ | .pickDocument | .putDataDone _ | .close => .isTrue trivial

/-! ## The last value among the sources -/

section Latest

variable {α : Type} {f : Source → Option α}

/-- The value of the last source that has one. -/
def latest (f : Source → Option α) (sources : List Source) : Option α :=
  (sources.filterMap f).getLast?

theorem latest_append_some {source : Source} {value : α} (known : f source = some value)
    (sources : List Source) : latest f (sources ++ [source]) = some value := by
  simp [latest, known]

theorem latest_append_none {source : Source} (pending : f source = none)
    (sources : List Source) : latest f (sources ++ [source]) = latest f sources := by
  simp [latest, pending]

/-- Dropping sources without a value changes nothing. -/
theorem latest_filter {keep : Source → Bool} {sources : List Source}
    (dropped : ∀ source ∈ sources, keep source = false → f source = none) :
    latest f (sources.filter keep) = latest f sources := by
  have values : (sources.filter keep).filterMap f = sources.filterMap f := by
    rw [List.filterMap_filter]
    refine List.filterMap_congr ?_
    intro source mem
    cases kept : keep source with
    | true => simp
    | false => simp [dropped source mem kept]
  rw [latest, values]
  rfl

/-- A stage at which the value stays the same changes nothing. -/
theorem latest_advance_same {file : PickedFile} {before after : Upload}
    (same : f (.picked file after) = f (.picked file before)) (sources : List Source) :
    latest f (advance file before after sources) = latest f sources := by
  have values : (advance file before after sources).filterMap f = sources.filterMap f := by
    rw [advance, List.filterMap_map]
    refine List.filterMap_congr ?_
    intro source _
    by_cases here : source = .picked file before <;> simp [here, same]
  rw [latest, values]
  rfl

/-- A listed source splits the list where it first stands. -/
theorem exists_dropWhile_of_mem {source : Source} {sources : List Source}
    (mem : source ∈ sources) :
    ∃ front, sources =
      front ++ source :: (sources.dropWhile fun other => other ≠ source).tail := by
  induction sources with
  | nil => cases mem
  | cons first rest ih =>
      by_cases here : first = source
      · exact ⟨[], by simp [here]⟩
      · obtain ⟨front, split⟩ := ih ((List.mem_cons.mp mem).resolve_left (Ne.symm here))
        refine ⟨first :: front, ?_⟩
        rw [List.dropWhile_cons_of_pos (by simpa using here), List.cons_append, ← split]

/-- A value that no later source outdates becomes the last one. -/
theorem latest_advance {file : PickedFile} {before after : Upload} {value : α}
    {sources : List Source} (known : f (.picked file after) = some value)
    (mem : Source.picked file before ∈ sources)
    (noLater : NoLater f (.picked file before) sources) :
    latest f (advance file before after sources) = some value := by
  obtain ⟨front, whole⟩ := exists_dropWhile_of_mem mem
  have later : ∀ source ∈ (sources.dropWhile fun other => other ≠ .picked file before).tail,
      f source = none := noLater
  generalize (sources.dropWhile fun other => other ≠ .picked file before).tail = back
    at whole later
  have split : (advance file before after sources).filterMap f =
      (advance file before after front).filterMap f ++
        value :: (advance file before after back).filterMap f := by
    simp [whole, advance, known]
  have same : ∀ other ∈ value :: (advance file before after back).filterMap f,
      other = value := by
    intro other inside
    rcases List.mem_cons.mp inside with rfl | tail
    · rfl
    · obtain ⟨source, moved, has⟩ := List.mem_filterMap.mp tail
      obtain ⟨old, oldMem, rfl⟩ := List.mem_map.mp moved
      by_cases here : old = .picked file before
      · rw [if_pos here, known] at has
        exact (Option.some.inj has).symm
      · rw [if_neg here, later old oldMem] at has
        cases has
  rw [latest, split, List.getLast?_append_cons,
    List.getLast?_eq_some_getLast (List.cons_ne_nil _ _)]
  exact congrArg some (same _ (List.getLast_mem _))

end Latest

/-- The url of the last source that has one. -/
def currentUrl (sources : List Source) : String := (latest Source.text? sources).getD ""

/-- With no upload pending, the current url is that of the last source. -/
theorem lastSource_eq_currentUrl {sources : List Source}
    (settled : ∀ source ∈ sources, source.text? ≠ none) :
    lastSource sources = some (currentUrl sources) := by
  rcases List.eq_nil_or_concat sources with rfl | ⟨front, last, rfl⟩
  · rfl
  · obtain ⟨url, known⟩ := Option.ne_none_iff_exists'.mp (settled last (by simp))
    rw [List.concat_eq_append, currentUrl, latest_append_some known]
    simp [lastSource, known]

/-- With no upload pending, the last picked file is the last one the storage took. -/
theorem latest_object_of_lastFile {sources : List Source} {file : PickedFile}
    (settled : ∀ source ∈ sources, source.text? ≠ none) (last : lastFile sources = some file) :
    latest Source.object? sources = some file.data := by
  rcases List.eq_nil_or_concat sources with rfl | ⟨front, source, rfl⟩
  · cases last
  · rw [List.concat_eq_append] at settled last ⊢
    cases source with
    | typed text => simp [lastFile] at last
    | picked other upload =>
        obtain rfl : other = file := by simpa [lastFile] using last
        have uploaded := settled (.picked other upload) (by simp)
        cases upload with
        | done url =>
            have taken : (Source.picked other (.done url)).object? = some other.data := rfl
            exact latest_append_some taken front
        | putData => exact absurd rfl uploaded
        | stored => exact absurd rfl uploaded
        | downloadURL => exact absurd rfl uploaded

/-! ## Runs -/

/-- The field shows the current url, the object under the path is the last one the
storage took, and what was created is the last source. -/
structure SessionInv (state : Session) : Prop where
  url : state.view.url = currentUrl state.sources
  object : ∀ data, latest Source.object? state.sources = some data →
    state.storage state.view.pathName = some data
  faithful : state.Faithful

variable {F}

/-- A step that is no Create keeps what was created. -/
theorem Session.Faithful.of_created {state state' : Session} (faithful : state.Faithful)
    (created : state'.created = state.created) (trapped : state'.trapped = false) :
    state'.Faithful where
  trapped := trapped
  settled creation passed := faithful.settled creation (created ▸ passed)
  url creation passed := faithful.url creation (created ▸ passed)
  object creation passed := faithful.object creation (created ▸ passed)

/-- A step that moves neither the field nor the storage, and no last value, keeps
the invariant. -/
theorem SessionInv.of_latest {state : Session} (inv : SessionInv state)
    (view : CreateDocumentView)
    {sources : List Source} {picks : ℕ} (url : view.url = state.view.url)
    (documentId : view.documentId = state.view.documentId)
    (texts : latest Source.text? sources = latest Source.text? state.sources)
    (objects : latest Source.object? sources = latest Source.object? state.sources) :
    SessionInv { state with view := view, sources := sources, picks := picks } where
  url := by
    rw [currentUrl, texts, url]
    exact inv.url
  object data last := by
    rw [objects] at last
    rw [CreateDocumentView.pathName, documentId]
    exact inv.object data last
  faithful := inv.faithful.of_created rfl inv.faithful.trapped

/-- **Create passes on the last source** where the invariant holds and no upload is
pending. -/
theorem SessionInv.create {state : Session} (inv : SessionInv state) (ok : ℕ → Bool)
    (settled : ∀ source ∈ state.sources, source.text? ≠ none) :
    SessionInv ((session F).step state (.create ok)) := by
  refine ⟨inv.url, inv.object, inv.faithful.trapped, ?_, ?_, ?_⟩
  · intro creation passed
    obtain rfl := Option.some.inj passed
    exact settled
  · intro creation passed
    obtain rfl := Option.some.inj passed
    rw [lastSource_eq_currentUrl settled, ← inv.url]
    rfl
  · intro creation passed file last
    obtain rfl := Option.some.inj passed
    exact inv.object file.data (latest_object_of_lastFile settled last)

/-- **One careful step keeps the invariant.** -/
theorem SessionInv.step {state : Session} {event : SessionEvent} (inv : SessionInv state)
    (enabled : (session F).enabled state event) (careful : Careful state event) :
    SessionInv ((session F).step state event) := by
  cases event with
  | typeName text =>
      exact inv.of_latest { state.view with documentName := text } rfl rfl rfl rfl
  | typeUrl text =>
      have texts : latest Source.text? (state.sources ++ [.typed text]) = some text :=
        latest_append_some (by rfl) _
      have objects : latest Source.object? (state.sources ++ [.typed text]) =
          latest Source.object? state.sources := latest_append_none rfl _
      refine ⟨(congrArg (Option.getD · "") texts).symm, ?_,
        inv.faithful.of_created rfl inv.faithful.trapped⟩
      intro data last
      exact inv.object data (objects.symm.trans last)
  | pickDocument => exact inv.of_latest state.view.pickDocument rfl rfl rfl rfl
  | close => exact inv.of_latest { state.view with presentSelf := false } rfl rfl rfl rfl
  | cancel =>
      have empty : state.view.url = "" := careful
      exact inv.of_latest state.view.documentPickerWasCancelled empty.symm rfl rfl rfl
  | pick accessible data =>
      cases accessible with
      | false => exact inv.of_latest state.view.documentPicker rfl rfl rfl rfl
      | true =>
          obtain ⟨data, rfl⟩ := Option.ne_none_iff_exists'.mp (careful rfl)
          exact inv.of_latest state.view.documentPicker rfl rfl (latest_append_none rfl _)
            (latest_append_none rfl _)
  | store file =>
      have texts : latest Source.text? (advance file .putData .stored state.sources) =
          latest Source.text? state.sources := latest_advance_same (by rfl) _
      have objects : latest Source.object? (advance file .putData .stored state.sources) =
          some file.data := latest_advance rfl enabled.2 careful
      refine ⟨inv.url.trans (congrArg (Option.getD · "") texts).symm, ?_,
        inv.faithful.of_created rfl inv.faithful.trapped⟩
      intro data last
      obtain rfl : file.data = data := Option.some.inj (objects.symm.trans last)
      exact Function.update_self ..
  | putDataFailed file =>
      have gone : ∀ source ∈ state.sources, decide (source ≠ .picked file .putData ∧
          source ≠ .picked file .stored) = false → source = .picked file .putData := by
        intro source mem dropped
        rw [decide_eq_false_iff_not] at dropped
        by_contra other
        refine dropped ⟨other, ?_⟩
        rintro rfl
        exact careful mem
      refine inv.of_latest state.view rfl rfl (latest_filter ?_) (latest_filter ?_) <;>
      · intro source mem dropped
        rw [gone source mem dropped]
        rfl
  | putDataDone file =>
      have texts : latest Source.text? (advance file .stored .downloadURL state.sources) =
          latest Source.text? state.sources := latest_advance_same (by rfl) _
      have objects : latest Source.object? (advance file .stored .downloadURL state.sources) =
          latest Source.object? state.sources := latest_advance_same (by rfl) _
      exact inv.of_latest state.view rfl rfl texts objects
  | urlArrived file url =>
      obtain ⟨known, noLater⟩ := careful
      obtain ⟨url, rfl⟩ := Option.ne_none_iff_exists'.mp known
      have texts : latest Source.text? (advance file .downloadURL (.done url) state.sources) =
          some url := latest_advance rfl enabled.2 noLater
      have objects :
          latest Source.object? (advance file .downloadURL (.done url) state.sources) =
          latest Source.object? state.sources := latest_advance_same (by rfl) _
      refine ⟨(congrArg (Option.getD · "") texts).symm, ?_,
        inv.faithful.of_created rfl inv.faithful.trapped⟩
      intro data last
      exact inv.object data (objects.symm.trans last)
  | create ok => exact inv.create ok careful

/-- **The session uses the last source, in every run of careful steps.** -/
theorem careful_session_faithful {documentId : String} {env : GlobalEnviroment}
    {storage : String → Option Data} {events : List SessionEvent} {state : Session}
    (run : ((session F).restrict Careful).Run (.start documentId env storage) events state) :
    state.Faithful := by
  have opened : (Session.start documentId env storage).Faithful := by
    refine ⟨rfl, ?_, ?_, ?_⟩ <;>
    · intro creation passed
      cases passed
  have first : SessionInv (Session.start documentId env storage) := by
    refine ⟨rfl, ?_, opened⟩
    intro data last
    cases last
  have inv : SessionInv state :=
    run.invariant_restrict first fun _ _ enabled careful inv => inv.step enabled careful
  exact inv.faithful

/-- A url is typed, the picker is opened and cancelled. -/
def cancelledEvents : List SessionEvent :=
  [.typeUrl "a.pdf", .pickDocument, .cancel, .create fun _ => true]

def cancelledState : Session :=
  cancelledEvents.foldl (session Foundation.numbered).step
    (.start "doc1" .initial fun _ => none)

theorem cancelled_session_not_faithful :
    ¬ ∀ events state, (session Foundation.numbered).Run
      (.start "doc1" .initial fun _ => none) events state → state.Faithful := by
  intro all
  have run : (session Foundation.numbered).Run (.start "doc1" .initial fun _ => none)
      cancelledEvents cancelledState :=
    .cons ⟨rfl, rfl, rfl⟩
      (.cons ⟨rfl, rfl, rfl⟩ (.cons ⟨rfl, rfl⟩ (.cons ⟨rfl, rfl, rfl⟩ .nil)))
  have passed := (all cancelledEvents cancelledState run).url _ rfl
  exact absurd passed (by decide)

/-- A url is typed, two files are picked, and their uploads are waited for; the URL
of the first arrives when the storage has taken both. -/
def waitedEvents : List SessionEvent :=
  [.typeUrl "a.pdf", .pickDocument, .pick true (some [1]), .pickDocument, .pick true (some [2]),
    .store ⟨0, [1]⟩, .store ⟨1, [2]⟩, .putDataDone ⟨1, [2]⟩, .putDataDone ⟨0, [1]⟩,
    .urlArrived ⟨0, [1]⟩ (some "b.pdf"), .urlArrived ⟨1, [2]⟩ (some "b.pdf"),
    .create fun _ => true]

def waitedState : Session :=
  waitedEvents.foldl (session Foundation.numbered).step (.start "doc1" .initial fun _ => none)

theorem waited_session_faithful :
    waitedState.created.map Creation.object = some (some [2]) ∧ waitedState.Faithful := by
  have run : ((session Foundation.numbered).restrict Careful).Run
      (.start "doc1" .initial fun _ => none) waitedEvents waitedState :=
    .cons ⟨⟨rfl, rfl, rfl⟩, trivial⟩ (.cons ⟨⟨rfl, rfl, rfl⟩, trivial⟩
      (.cons ⟨⟨rfl, rfl⟩, by decide⟩ (.cons ⟨⟨rfl, rfl, rfl⟩, trivial⟩
        (.cons ⟨⟨rfl, rfl⟩, by decide⟩ (.cons ⟨⟨rfl, by decide⟩, by decide⟩
          (.cons ⟨⟨rfl, by decide⟩, by decide⟩ (.cons ⟨⟨rfl, by decide⟩, trivial⟩
            (.cons ⟨⟨rfl, by decide⟩, trivial⟩ (.cons ⟨⟨rfl, by decide⟩, by decide⟩
              (.cons ⟨⟨rfl, by decide⟩, by decide⟩
                (.cons ⟨⟨rfl, rfl, rfl⟩, by decide⟩ .nil)))))))))))
  exact ⟨by decide +kernel, careful_session_faithful run⟩

end DocumentRelay
