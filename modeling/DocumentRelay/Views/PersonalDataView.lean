import DocumentRelay.Lib.Run
import DocumentRelay.Views.ContentView

/-!
# Personal data

`Views/PersonalDataView.swift`: the form that adds an entry, the swipe that
deletes one, and the list both work on, which `ContentView.onAppear` rebuilds from
the rows.

An entry and its row are tied by `createdAt` alone: the deletion removes every row
with the date of the swiped entry.  As long as `Date()` never returns a value
twice, memory and rows hold the same entries in every run, with any outcomes of
the saves (`PersonalInv.of_run`).  In which order they hold them is another matter:
memory appends, the fetch sorts by date.
-/

namespace DocumentRelay

/-! ## The view -/

/-- The labels of the type picker. -/
def stringTypes : List String :=
  ["Имя", "Фамилия", "ФИО", "Адрес", "Серия", "Номер", "Другое"]

structure PersonalDataView where
  selectedFieldType : ℕ
  newText : String
  extendView : Bool
  deriving DecidableEq, Repr

/-- The view when it is opened. -/
def PersonalDataView.opened : PersonalDataView where
  selectedFieldType := 0
  newText := ""
  extendView := false

/-- Pressing the button adds an entry, rather than opening or closing the form. -/
def PersonalDataView.adds (view : PersonalDataView) : Bool :=
  view.extendView && view.newText ≠ ""

/-- The row `createNew` writes for an entry. -/
def CDPerData.ofInfo (model : TextPersonalInfo) : CDPerData where
  info := model.info
  type := some (stringFromFieldType model.type)
  createdAt := some model.createdAt

/-- `createNew`; `now` is the value of its `Date()`.  `none` is a trap of
`stringTypes[selectedFieldType]`. -/
def createNew (now : Date) (ok : ℕ → Bool) (view : PersonalDataView) (env : GlobalEnviroment) :
    Option (PersonalDataView × GlobalEnviroment) :=
  -- One button: it opens the form, closes it while empty, and adds otherwise.
  if view.extendView = false then some ({ view with extendView := true }, env)
  else if view.newText = "" then some ({ view with extendView := false }, env)
  else do
    let stringType ← stringTypes[view.selectedFieldType]?
    let model : TextPersonalInfo :=
      { info := some view.newText, type := fieldTypeFromString stringType, createdAt := now }
    let env := { env with personalData := env.personalData ++ [model] }
    let env := env.perform ok [.edit (.insertPerData (.ofInfo model)), .save]
    return ({ selectedFieldType := 0, newText := "", extendView := false }, env)

/-- The rows the deletion of an entry removes: those with its date. -/
def rowsCreatedAt (createdAt : Date) (cdPerData : List CDPerData) : List CDPerData :=
  cdPerData.filter fun row => row.createdAt = some createdAt

/-- The edits and the save of the deletion of an entry. -/
def deletePerDataActions (model : TextPersonalInfo)
    (cdPerData : List CDPerData) : List Action :=
  (rowsCreatedAt model.createdAt cdPerData).map
    (fun row => .edit (.deletePerData row)) ++ [.save]

/-- `onDelete` of the list of entries.  `none` is a trap of `personalData[s]`. -/
def onDeletePerData (offsets : List ℕ) (cdPerData : List CDPerData) (ok : ℕ → Bool)
    (env : GlobalEnviroment) : Option GlobalEnviroment := do
  let s := offsets.getLastD 0
  let model ← env.personalData[s]?
  let env := { env with personalData := removeAtOffsets offsets env.personalData }
  return env.perform ok (deletePerDataActions model cdPerData)

/-! ## Runs -/

structure PersonalState where
  view : PersonalDataView
  env : GlobalEnviroment
  /-- The values `Date()` has returned so far. -/
  dates : List Date

def PersonalState.start : PersonalState where
  view := .opened
  env := .initial
  dates := []

inductive PersonalEvent where
  | typeText (text : String)
  | select (i : ℕ)
  | createNew (now : Date) (ok : ℕ → Bool)
  | delete (i : ℕ) (cdPerData : List CDPerData) (ok : ℕ → Bool)
  | onAppear (fetched : Fetched) (now : Date)
  | relaunch (fetched : Fetched) (now : Date)

/-- Every save of the event succeeds. -/
def PersonalEvent.Saved : PersonalEvent → Prop
  | .createNew _ ok | .delete _ _ ok => ∀ n, ok n = true
  | _ => True

variable (F : Foundation)

/-- **The life of the personal data.**  The text field and the picker are there
while the form is open; a swipe deletes one row; `Date()` never returns a value
twice, and may go back. -/
def personalDataApp : LabelledSystem PersonalState PersonalEvent where
  enabled state
    | .typeText _ => state.view.extendView = true
    | .select i => state.view.extendView = true ∧ i < stringTypes.length
    | .createNew now _ => state.view.adds = true → now ∉ state.dates
    | .delete i cdPerData _ =>
        i < state.env.personalData.length ∧
          CDPerData.getAllCDData state.env.rows.perData cdPerData
    | .onAppear fetched _ => fetched.Of state.env.rows
    | .relaunch fetched _ => fetched.Of state.env.committedRows
  step state
    | .typeText text => { state with view := { state.view with newText := text } }
    | .select i => { state with view := { state.view with selectedFieldType := i } }
    | .createNew now ok =>
        match createNew now ok state.view state.env with
        | some (view, env) =>
            ⟨view, env, if state.view.adds then now :: state.dates else state.dates⟩
        | none => state
    | .delete i cdPerData ok =>
        match onDeletePerData [i] cdPerData ok state.env with
        | some env => { state with env := env }
        | none => state
    | .onAppear fetched now => { state with env := onAppear F fetched now state.env }
    | .relaunch fetched now =>
        { state with view := .opened, env := relaunch F fetched now state.env }

/-! ## Entries and their rows -/

@[simp] theorem TextPersonalInfo.ofRow_ofInfo (now : Date) (model : TextPersonalInfo) :
    TextPersonalInfo.ofRow now (CDPerData.ofInfo model) = model := by
  simp [TextPersonalInfo.ofRow, CDPerData.ofInfo]

/-- **The rows are those of the entries**, whose dates are distinct and among the
values `Date()` has returned. -/
structure Stores (dates : List Date) (rows : List CDPerData) (entries : List TextPersonalInfo) :
    Prop where
  rows : rows.Perm (entries.map CDPerData.ofInfo)
  nodup : (entries.map TextPersonalInfo.createdAt).Nodup
  used : ∀ entry ∈ entries, entry.createdAt ∈ dates

namespace Stores

variable {dates : List Date} {rows : List CDPerData} {entries : List TextPersonalInfo}

theorem cons_date (stores : Stores dates rows entries) (now : Date) :
    Stores (now :: dates) rows entries :=
  ⟨stores.rows, stores.nodup, fun entry mem => List.mem_cons_of_mem _ (stores.used entry mem)⟩

/-- A fetch of the rows rebuilds the entries, in some order. -/
theorem rebuilt_perm (stores : Stores dates rows entries) {cdPerData : List CDPerData}
    (fetch : CDPerData.getAllCDData rows cdPerData) (now : Date) :
    (cdPerData.map (TextPersonalInfo.ofRow now)).Perm entries := by
  have arranged := (fetch.perm.trans stores.rows).map (TextPersonalInfo.ofRow now)
  simpa [Function.comp_def] using arranged

/-- The rebuilt entries are sorted by date. -/
theorem rebuilt_sorted (stores : Stores dates rows entries) {cdPerData : List CDPerData}
    (fetch : CDPerData.getAllCDData rows cdPerData) (now : Date) :
    (cdPerData.map (TextPersonalInfo.ofRow now)).Pairwise fun a b =>
      a.createdAt ≤ b.createdAt := by
  have dated : ∀ row ∈ cdPerData, ∃ entry, row = CDPerData.ofInfo entry := by
    intro row mem
    obtain ⟨entry, -, same⟩ := List.mem_map.mp (stores.rows.mem_iff.mp (fetch.mem_iff.mp mem))
    exact ⟨entry, same.symm⟩
  refine List.pairwise_map.mpr (fetch.sorted.imp_of_mem fun {row row'} mem mem' before => ?_)
  obtain ⟨entry, rfl⟩ := dated row mem
  obtain ⟨entry', rfl⟩ := dated row' mem'
  rw [TextPersonalInfo.ofRow_ofInfo, TextPersonalInfo.ofRow_ofInfo]
  exact before

theorem of_perm (stores : Stores dates rows entries) {entries' : List TextPersonalInfo}
    (same : entries'.Perm entries) : Stores dates rows entries' where
  rows := stores.rows.trans (same.symm.map _)
  nodup := (same.map _).nodup_iff.mpr stores.nodup
  used entry mem := stores.used entry (same.mem_iff.mp mem)

/-- Adding an entry at a new date. -/
theorem add (stores : Stores dates rows entries) {model : TextPersonalInfo}
    (new : model.createdAt ∉ dates) :
    Stores (model.createdAt :: dates) (rows ++ [CDPerData.ofInfo model])
      (entries ++ [model]) where
  rows := by
    rw [List.map_append]
    exact stores.rows.append_right _
  nodup := by
    rw [List.map_append, List.nodup_append]
    refine ⟨stores.nodup, by simp, ?_⟩
    intro date old date' last same
    obtain ⟨entry, mem, rfl⟩ := List.mem_map.mp old
    rw [List.map_singleton, List.mem_singleton] at last
    exact new (last ▸ same ▸ stores.used entry mem)
  used entry mem := by
    rcases List.mem_append.mp mem with old | last
    · exact List.mem_cons_of_mem _ (stores.used entry old)
    · rw [List.mem_singleton.mp last]
      exact List.mem_cons_self

/-- Deleting the rows with the date of an entry deletes that entry. -/
theorem delete (stores : Stores dates rows entries) {cdPerData : List CDPerData}
    (fetch : CDPerData.getAllCDData rows cdPerData) {i : ℕ} (inside : i < entries.length) :
    Stores dates
      ((rowsCreatedAt entries[i].createdAt cdPerData).foldl List.erase rows)
      (entries.eraseIdx i) where
  rows := by
    have left := Fetch.foldl_erase_filter fetch fun row => row.createdAt =
        some entries[i].createdAt
    refine left.trans ((stores.rows.filter _).trans (List.Perm.of_eq ?_))
    have entriesNodup : entries.Nodup := List.Nodup.of_map _ stores.nodup
    -- Dates are distinct, so the rows with the date are the row of the entry.
    rw [← entriesNodup.erase_getElem i inside,
      Fetch.erase_eq_filter_of_nodup stores.nodup (List.getElem_mem inside), List.filter_map]
    refine congrArg _ (List.filter_congr fun entry _ => ?_)
    simp [CDPerData.ofInfo]
  nodup := stores.nodup.sublist ((List.eraseIdx_sublist entries i).map _)
  used entry mem := stores.used entry (List.mem_of_mem_eraseIdx mem)

end Stores

/-! ## What the two operations do -/

/-- Other entries, other rows, and a save of them that may fail. -/
def GlobalEnviroment.withEntries (env : GlobalEnviroment) (entries : List TextPersonalInfo)
    (perData : List CDPerData) (saved : Bool) : GlobalEnviroment :=
  { env with
    personalData := entries
    managedObjectContext := WorkingCopy.save saved
      { env.managedObjectContext with working := { env.rows with perData := perData } } }

/-- The entry the form stands for. -/
def PersonalDataView.model (view : PersonalDataView) (now : Date) : TextPersonalInfo where
  info := some view.newText
  type := fieldTypeFromString (stringTypes[view.selectedFieldType]?.getD "")
  createdAt := now

/-- **A press that adds** puts one entry at the end of the list, and one row. -/
theorem createNew_adds {view : PersonalDataView} (adds : view.adds = true)
    (selected : view.selectedFieldType < stringTypes.length) (now : Date) (ok : ℕ → Bool)
    (env : GlobalEnviroment) :
    createNew now ok view env = some (.opened,
      env.withEntries (env.personalData ++ [view.model now])
        (env.rows.perData ++ [.ofInfo (view.model now)]) (ok 0)) := by
  obtain ⟨extended, typed⟩ : view.extendView = true ∧ view.newText ≠ "" := by
    simpa [PersonalDataView.adds] using adds
  have label :
      stringTypes[view.selectedFieldType]? = some stringTypes[view.selectedFieldType] :=
    List.getElem?_eq_getElem selected
  rw [createNew, if_neg (by simp [extended]), if_neg typed, PersonalDataView.model, label]
  rfl

/-- A press that adds nothing opens or closes the form. -/
theorem createNew_toggles {view : PersonalDataView} (adds : view.adds = false) (now : Date)
    (ok : ℕ → Bool) (env : GlobalEnviroment) :
    createNew now ok view env = some ({ view with extendView := !view.extendView }, env) := by
  cases extended : view.extendView with
  | false => simp [createNew, extended]
  | true =>
      have empty : view.newText = "" := by simpa [PersonalDataView.adds, extended] using adds
      simp [createNew, extended, empty]

theorem foldl_deletePerData (gone : List CDPerData) (rows : Rows) :
    (gone.map RowEdit.deletePerData).foldl (fun rows edit => applyEdit edit rows) rows =
      { rows with perData := gone.foldl List.erase rows.perData } := by
  induction gone generalizing rows with
  | nil => rfl
  | cons row gone ih => exact ih (applyEdit (.deletePerData row) rows)

/-- **A swipe** drops the entry, and the rows with its date. -/
theorem onDeletePerData_singleton {env : GlobalEnviroment} {i : ℕ}
    (inside : i < env.personalData.length) (cdPerData : List CDPerData) (ok : ℕ → Bool) :
    onDeletePerData [i] cdPerData ok env = some
      (env.withEntries (env.personalData.eraseIdx i)
        ((rowsCreatedAt env.personalData[i].createdAt cdPerData).foldl List.erase
          env.rows.perData) (ok 0)) := by
  have actions : deletePerDataActions env.personalData[i] cdPerData =
      ((rowsCreatedAt env.personalData[i].createdAt cdPerData).map RowEdit.deletePerData).map
        .edit ++ [.save] := by
    simp [deletePerDataActions]
  have found : env.personalData[[i].getLastD 0]? = some env.personalData[i] :=
    List.getElem?_eq_getElem inside
  rw [onDeletePerData, found]
  simp only [Option.bind_eq_bind, Option.bind_some, removeAtOffsets_singleton,
    GlobalEnviroment.perform, actions, WorkingCopy.exec_edits_save, foldl_deletePerData]
  rfl

/-! ## One step, every run -/

/-- The picker stands on a label, memory and rows hold the same entries, and what
is committed are rows of entries too. -/
structure PersonalInv (state : PersonalState) : Prop where
  selected : state.view.selectedFieldType < stringTypes.length
  memory : Stores state.dates state.env.rows.perData state.env.personalData
  committed : ∃ entries, Stores state.dates state.env.committedRows.perData entries

theorem Stores.withEntries {dates : List Date} {env : GlobalEnviroment}
    {entries : List TextPersonalInfo} {perData : List CDPerData}
    (stores : Stores dates perData entries) (saved : Bool) :
    Stores dates (env.withEntries entries perData saved).rows.perData
      (env.withEntries entries perData saved).personalData := by
  cases saved <;> exact stores

theorem Stores.committed_withEntries {dates : List Date} {env : GlobalEnviroment}
    {entries : List TextPersonalInfo} {perData : List CDPerData}
    (stores : Stores dates perData entries)
    (old : ∃ entries, Stores dates env.committedRows.perData entries) (saved : Bool) :
    ∃ entries', Stores dates (env.withEntries entries perData saved).committedRows.perData
      entries' := by
  cases saved with
  | false => exact old
  | true => exact ⟨entries, stores⟩

variable {F}

/-! The three steps that are not plain assignments, one equation each. -/

theorem step_createNew_toggles {state : PersonalState} (adds : state.view.adds = false)
    (now : Date) (ok : ℕ → Bool) :
    (personalDataApp F).step state (.createNew now ok) =
      { state with view := { state.view with extendView := !state.view.extendView } } := by
  simp [personalDataApp, createNew_toggles adds, adds]

theorem step_createNew_adds {state : PersonalState} (adds : state.view.adds = true)
    (selected : state.view.selectedFieldType < stringTypes.length) (now : Date)
    (ok : ℕ → Bool) :
    (personalDataApp F).step state (.createNew now ok) =
      ⟨.opened, state.env.withEntries (state.env.personalData ++ [state.view.model now])
        (state.env.rows.perData ++ [.ofInfo (state.view.model now)]) (ok 0),
        now :: state.dates⟩ := by
  simp [personalDataApp, createNew_adds adds selected, adds]

theorem step_delete {state : PersonalState} {i : ℕ} (inside : i < state.env.personalData.length)
    (cdPerData : List CDPerData) (ok : ℕ → Bool) :
    (personalDataApp F).step state (.delete i cdPerData ok) =
      { state with
        env := state.env.withEntries (state.env.personalData.eraseIdx i)
          ((rowsCreatedAt state.env.personalData[i].createdAt cdPerData).foldl List.erase
            state.env.rows.perData) (ok 0) } := by
  simp [personalDataApp, onDeletePerData_singleton inside]

/-- **One step keeps memory and rows together.** -/
theorem PersonalInv.step {state : PersonalState} {event : PersonalEvent}
    (inv : PersonalInv state)
    (enabled : (personalDataApp F).enabled state event) :
    PersonalInv ((personalDataApp F).step state event) := by
  cases event with
  | typeText text => exact ⟨inv.selected, inv.memory, inv.committed⟩
  | select i => exact ⟨enabled.2, inv.memory, inv.committed⟩
  | createNew now ok =>
      cases adds : state.view.adds with
      | false =>
          rw [step_createNew_toggles adds]
          exact ⟨inv.selected, inv.memory, inv.committed⟩
      | true =>
          rw [step_createNew_adds adds inv.selected]
          have new : (state.view.model now).createdAt ∉ state.dates := enabled adds
          have stores := inv.memory.add new
          obtain ⟨entries, old⟩ := inv.committed
          exact ⟨Nat.succ_pos _, stores.withEntries (ok 0),
            stores.committed_withEntries ⟨entries, old.cons_date now⟩ (ok 0)⟩
  | delete i cdPerData ok =>
      rw [step_delete enabled.1]
      have stores := inv.memory.delete enabled.2 enabled.1
      exact ⟨inv.selected, stores.withEntries (ok 0),
        stores.committed_withEntries inv.committed (ok 0)⟩
  | onAppear fetched now =>
      have rebuilt := inv.memory.rebuilt_perm enabled.perData now
      exact ⟨inv.selected, inv.memory.of_perm rebuilt, inv.committed⟩
  | relaunch fetched now =>
      obtain ⟨entries, old⟩ := inv.committed
      have rebuilt := old.rebuilt_perm enabled.perData now
      exact ⟨Nat.succ_pos _, old.of_perm rebuilt, ⟨entries, old⟩⟩

theorem PersonalInv.start : PersonalInv .start := by
  have empty : Stores [] [] [] := ⟨List.Perm.nil, List.nodup_nil, by simp⟩
  exact ⟨Nat.succ_pos _, empty, [], empty⟩

theorem PersonalInv.of_run {events : List PersonalEvent} {state : PersonalState}
    (run : (personalDataApp F).Run .start events state) : PersonalInv state :=
  run.invariant PersonalInv.start fun _ _ enabled inv => inv.step enabled

theorem committed_withEntries_true (env : GlobalEnviroment) (entries : List TextPersonalInfo)
    (perData : List CDPerData) :
    (env.withEntries entries perData true).committedRows =
      (env.withEntries entries perData true).rows := rfl

/-- A step whose saves succeed leaves nothing pending. -/
theorem PersonalInv.step_committed {state : PersonalState} {event : PersonalEvent}
    (inv : PersonalInv state) (enabled : (personalDataApp F).enabled state event)
    (saved : event.Saved) (clean : state.env.committedRows = state.env.rows) :
    ((personalDataApp F).step state event).env.committedRows =
      ((personalDataApp F).step state event).env.rows := by
  cases event with
  | typeText text => exact clean
  | select i => exact clean
  | createNew now ok =>
      cases adds : state.view.adds with
      | false =>
          rw [step_createNew_toggles adds]
          exact clean
      | true =>
          rw [step_createNew_adds adds inv.selected, saved 0]
          exact committed_withEntries_true ..
  | delete i cdPerData ok =>
      rw [step_delete enabled.1, saved 0]
      exact committed_withEntries_true ..
  | onAppear fetched now => exact clean
  | relaunch fetched now => rfl

/-- **Where every save succeeds, nothing is ever pending.** -/
theorem committed_eq_rows {events : List PersonalEvent} {state : PersonalState}
    (run : (personalDataApp F).Run .start events state)
    (saved : ∀ event ∈ events, event.Saved) :
    state.env.committedRows = state.env.rows := by
  induction run with
  | nil => rfl
  | snoc before enabled ih =>
      have clean := ih fun event mem => saved event (List.mem_append_left _ mem)
      exact (PersonalInv.of_run before).step_committed enabled (saved _ (by simp)) clean

/-! ## Neither lost nor resurrected -/

namespace PersonalEvent

/-- What an event does to the form. -/
def viewAfter (view : PersonalDataView) : PersonalEvent → PersonalDataView
  | .typeText text => { view with newText := text }
  | .select i => { view with selectedFieldType := i }
  | .createNew _ _ =>
      if view.adds then .opened else { view with extendView := !view.extendView }
  | .delete _ _ _ | .onAppear _ _ => view
  | .relaunch _ _ => .opened

/-- **What an event does to the entries and to their rows.**  A press with a text
typed in adds one entry, of the type whose label the picker stands on; a swipe
removes the entry that was swiped; no other event adds or removes any. -/
def Effect (before after : PersonalState) : PersonalEvent → Prop
  | .createNew now _ =>
      if before.view.adds then
        ∃ entry : TextPersonalInfo, entry.info = some before.view.newText ∧
          stringTypes[before.view.selectedFieldType]? = some (stringFromFieldType entry.type) ∧
          entry.createdAt = now ∧
          after.env.personalData = before.env.personalData ++ [entry] ∧
          after.env.rows.perData = before.env.rows.perData ++ [.ofInfo entry]
      else after.env = before.env
  | .delete i _ _ =>
      ∃ entry, before.env.personalData[i]? = some entry ∧
        after.env.personalData = before.env.personalData.eraseIdx i ∧
        before.env.rows.perData.Perm (.ofInfo entry :: after.env.rows.perData)
  | .onAppear _ _ | .relaunch _ _ =>
      after.env.personalData.Perm before.env.personalData ∧
        after.env.rows.perData = before.env.rows.perData
  | .typeText _ | .select _ => after.env = before.env

end PersonalEvent

/-- The type of the entry the form stands for has the label the picker stands on. -/
theorem PersonalDataView.label_model {view : PersonalDataView}
    (selected : view.selectedFieldType < stringTypes.length) (now : Date) :
    stringTypes[view.selectedFieldType]? =
      some (stringFromFieldType (view.model now).type) := by
  have labels : ∀ i < stringTypes.length, stringTypes[i]? =
      some (stringFromFieldType (fieldTypeFromString (stringTypes[i]?.getD ""))) := by
    decide
  exact labels _ selected

/-- The row of a swiped entry is the one row that goes. -/
theorem Stores.perm_delete {dates : List Date} {rows : List CDPerData}
    {entries : List TextPersonalInfo} (stores : Stores dates rows entries)
    {cdPerData : List CDPerData} (fetch : CDPerData.getAllCDData rows cdPerData) {i : ℕ}
    (inside : i < entries.length) :
    rows.Perm (.ofInfo entries[i] ::
      (rowsCreatedAt entries[i].createdAt cdPerData).foldl List.erase rows) := by
  have left := (stores.delete fetch inside).rows
  have split : (entries[i] :: entries.eraseIdx i).Perm entries :=
    List.getElem_cons_eraseIdx_perm inside
  exact (stores.rows.trans (split.symm.map CDPerData.ofInfo)).trans (left.symm.cons _)

@[simp] theorem withEntries_perData (env : GlobalEnviroment) (entries : List TextPersonalInfo)
    (perData : List CDPerData) (saved : Bool) :
    (env.withEntries entries perData saved).rows.perData = perData := by
  cases saved <;> rfl

/-- **One step does to entries and rows what its event is for.** -/
theorem PersonalInv.effect {state : PersonalState} {event : PersonalEvent}
    (inv : PersonalInv state) (clean : state.env.committedRows = state.env.rows)
    (enabled : (personalDataApp F).enabled state event) :
    event.Effect state ((personalDataApp F).step state event) := by
  cases event with
  | typeText text => rfl
  | select i => rfl
  | createNew now ok =>
      rw [PersonalEvent.Effect]
      cases adds : state.view.adds with
      | false =>
          rw [step_createNew_toggles adds, if_neg (by simp)]
      | true =>
          rw [step_createNew_adds adds inv.selected, if_pos rfl]
          exact ⟨state.view.model now, rfl, PersonalDataView.label_model inv.selected now, rfl,
            rfl, withEntries_perData ..⟩
  | delete i cdPerData ok =>
      obtain ⟨inside, fetch⟩ := enabled
      rw [step_delete inside]
      refine ⟨state.env.personalData[i], List.getElem?_eq_getElem inside, rfl, ?_⟩
      rw [withEntries_perData]
      exact inv.memory.perm_delete fetch inside
  | onAppear fetched now => exact ⟨inv.memory.rebuilt_perm enabled.perData now, rfl⟩
  | relaunch fetched now =>
      -- The rows the next process finds are the rows there were.
      have fetch : CDPerData.getAllCDData state.env.rows.perData fetched.cdPerData :=
        clean ▸ enabled.perData
      exact ⟨inv.memory.rebuilt_perm fetch now, congrArg Rows.perData clean⟩

/-- One step does to the form what its event is for. -/
theorem PersonalInv.step_view {state : PersonalState} {event : PersonalEvent}
    (inv : PersonalInv state) (enabled : (personalDataApp F).enabled state event) :
    ((personalDataApp F).step state event).view = event.viewAfter state.view := by
  cases event with
  | createNew now ok =>
      rw [PersonalEvent.viewAfter]
      cases adds : state.view.adds with
      | false =>
          rw [step_createNew_toggles adds]
          rfl
      | true =>
          rw [step_createNew_adds adds inv.selected]
          rfl
  | delete i cdPerData ok =>
      rw [step_delete enabled.1]
      rfl
  | _ => rfl

/-- A step touches no rows but those of the personal data. -/
theorem PersonalInv.step_rows {state : PersonalState} {event : PersonalEvent}
    (inv : PersonalInv state) (clean : state.env.committedRows = state.env.rows)
    (enabled : (personalDataApp F).enabled state event) :
    ((personalDataApp F).step state event).env.rows.documents = state.env.rows.documents ∧
      ((personalDataApp F).step state event).env.rows.fields = state.env.rows.fields := by
  have kept (entries : List TextPersonalInfo) (perData : List CDPerData) (saved : Bool) :
      (state.env.withEntries entries perData saved).rows.documents = state.env.rows.documents ∧
        (state.env.withEntries entries perData saved).rows.fields = state.env.rows.fields := by
    cases saved <;> exact ⟨rfl, rfl⟩
  cases event with
  | createNew now ok =>
      cases adds : state.view.adds with
      | false =>
          rw [step_createNew_toggles adds]
          exact ⟨rfl, rfl⟩
      | true =>
          rw [step_createNew_adds adds inv.selected]
          exact kept ..
  | delete i cdPerData ok =>
      rw [step_delete enabled.1]
      exact kept ..
  | relaunch fetched now => exact ⟨congrArg Rows.documents clean, congrArg Rows.fields clean⟩
  | _ => exact ⟨rfl, rfl⟩

/-- **Personal data is neither lost nor resurrected.**  In every state of every run
whose saves succeed, the rows are those of the entries in memory, nothing is
pending, and whatever happens next adds what was submitted, removes what was
swiped, and leaves everything else as it is. -/
theorem personalData_kept {events : List PersonalEvent} {state : PersonalState}
    (run : (personalDataApp F).Run .start events state)
    (saved : ∀ event ∈ events, event.Saved) :
    state.env.rows.perData.Perm (state.env.personalData.map CDPerData.ofInfo) ∧
      state.env.committedRows = state.env.rows ∧
      ∀ event, (personalDataApp F).enabled state event →
        event.Effect state ((personalDataApp F).step state event) ∧
        ((personalDataApp F).step state event).view = event.viewAfter state.view ∧
        ((personalDataApp F).step state event).env.rows.documents = state.env.rows.documents ∧
        ((personalDataApp F).step state event).env.rows.fields = state.env.rows.fields := by
  have inv := PersonalInv.of_run run
  have clean := committed_eq_rows run saved
  refine ⟨inv.memory.rows, clean, ?_⟩
  intro event enabled
  exact ⟨inv.effect clean enabled, inv.step_view enabled, inv.step_rows clean enabled⟩

/-- Two entries are added and the first one is swiped away. -/
def swipedEvents : List PersonalEvent :=
  [.createNew 0 fun _ => true, .typeText "Анна", .createNew 1 fun _ => true,
    .createNew 0 fun _ => true, .typeText "Москва", .select 3, .createNew 2 fun _ => true,
    .delete 0 [⟨some "Анна", some "Имя", some 1⟩, ⟨some "Москва", some "Адрес", some 2⟩]
      fun _ => true]

def swipedState : PersonalState :=
  swipedEvents.foldl (personalDataApp Foundation.numbered).step .start

theorem personalData_kept_swiped :
    swipedState.env.rows.perData.Perm (swipedState.env.personalData.map CDPerData.ofInfo) ∧
      swipedState.env.personalData = [⟨some "Москва", .address, 2⟩] := by
  have run : (personalDataApp Foundation.numbered).Run .start swipedEvents swipedState :=
    .cons nofun (.cons rfl (.cons (fun _ => by decide) (.cons nofun (.cons rfl
      (.cons ⟨rfl, by decide⟩ (.cons (fun _ => by decide +kernel)
        (.cons ⟨by decide +kernel, List.Perm.refl _, by decide +kernel⟩ .nil)))))))
  have saved : ∀ event ∈ swipedEvents, event.Saved := by
    simp [swipedEvents, PersonalEvent.Saved]
  exact ⟨(personalData_kept run saved).1, by decide +kernel⟩

end DocumentRelay
