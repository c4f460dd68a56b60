import Mathlib.Data.List.OfFn
import Mathlib.Data.List.Pairwise
import DocumentRelay.Lib.Loop
import DocumentRelay.Overlay
import DocumentRelay.Views.PersonalDataView

/-!
# Filling a document

`Views/DetailedLoadedDocumentModel.swift`: the texts of the fields, the Autocomplete
button, and Share, which copies the texts into the fields and exports the document.
Whatever the user does in between, each field ends up with the text of the last step
that concerned it (`fillSession_lastWriter`), and that is the text an export draws
(`share_labelDraws`).

Autocomplete writes into the text of each field the personal data of the field's
type, one entry after the other, so the last entry of a type wins
(`completeField_eq`).

Last in which order?  While the app runs the list is in the order of addition;
after a relaunch it is in the order of the dates.  The two agree as long as the
clock goes forward (`sameAnswers_of_forward_clock`).  In general the button gives
the same answers exactly if, for each type, the entry added last and the entry
with the latest date say the same (`sameAnswers_iff_lastIsNewest`).
-/

namespace DocumentRelay

variable {F : Foundation}

/-! ## Autocomplete -/

/-- The assignment `completeArray[i] = text`; `none` is the trap of an index out of
range. -/
def assign (i : ℕ) (text : String) (completeArray : List String) : Option (List String) :=
  if i < completeArray.length then some (completeArray.set i text) else none

/-- The inner loop of Autocomplete, for the field of type `type` at index `i`. -/
def completeField (type : FieldType) (i : ℕ) :
    List TextPersonalInfo → List String → Option (List String)
  | [], completeArray => some completeArray
  | model :: rest, completeArray =>
      if type = model.type then do
        let completeArray ← assign i (model.info.getD "") completeArray
        completeField type i rest completeArray
      else completeField type i rest completeArray

/-- The Autocomplete button. -/
def autocomplete (document : DocumentModel) (personalData : List TextPersonalInfo)
    (completeArray : List String) : Option (List String) :=
  document.fieldsToFill.zipIdx.foldlM
    (fun completeArray f => completeField f.1.type f.2 personalData completeArray) completeArray

/-! ## The last entry of a type wins -/

def ofType (type : FieldType) (personalData : List TextPersonalInfo) : List TextPersonalInfo :=
  personalData.filter fun model => type = model.type

/-- The text of the last entry of a type. -/
def lastText (type : FieldType) (personalData : List TextPersonalInfo) : Option String :=
  (ofType type personalData).getLast?.map fun model => model.info.getD ""

theorem ofType_cons (type : FieldType) (model : TextPersonalInfo)
    (rest : List TextPersonalInfo) :
    ofType type (model :: rest) =
      if type = model.type then model :: ofType type rest else ofType type rest := by
  by_cases same : type = model.type <;> simp [ofType, same]

theorem lastText_cons_of_eq {type : FieldType} {model : TextPersonalInfo}
    (same : type = model.type) (rest : List TextPersonalInfo) :
    lastText type (model :: rest) = some ((lastText type rest).getD (model.info.getD "")) := by
  rw [lastText, ofType_cons, if_pos same, List.getLast?_cons, lastText]
  cases (ofType type rest).getLast? <;> rfl

theorem lastText_cons_of_ne {type : FieldType} {model : TextPersonalInfo}
    (differ : type ≠ model.type) (rest : List TextPersonalInfo) :
    lastText type (model :: rest) = lastText type rest := by
  rw [lastText, ofType_cons, if_neg differ, lastText]

/-- Of two assignments to one place, the second stays. -/
theorem assign_assign (i : ℕ) (first second : String) (completeArray : List String) :
    (assign i first completeArray).bind (assign i second) = assign i second completeArray := by
  by_cases inside : i < completeArray.length <;> simp [assign, inside]

/-- **The inner loop assigns the text of the last entry of the type**, if there is
one. -/
theorem completeField_eq (type : FieldType) (i : ℕ) (personalData : List TextPersonalInfo)
    (completeArray : List String) :
    completeField type i personalData completeArray =
      (lastText type personalData).elim (some completeArray)
        fun text => assign i text completeArray := by
  induction personalData generalizing completeArray with
  | nil => rfl
  | cons model rest ih =>
      by_cases same : type = model.type
      · rw [completeField, if_pos same, lastText_cons_of_eq same, Option.elim_some]
        simp only [Option.bind_eq_bind, ih]
        cases lastText type rest with
        | none => simp
        | some text => exact assign_assign i _ text completeArray
      · rw [completeField, if_neg same, lastText_cons_of_ne same, ih]

/-- A document with one field, of the type. -/
def oneFieldDocument (type : FieldType) : DocumentModel where
  id := "doc1"
  name := "Заявление"
  url := some "a.pdf"
  cdID := "1"
  fieldsToFill := [{ rect := .make 0 0 1 1, description := "поле", type := type }]

theorem autocomplete_oneFieldDocument (type : FieldType) (personalData : List TextPersonalInfo)
    (text : String) :
    autocomplete (oneFieldDocument type) personalData [text] =
      some [(lastText type personalData).getD text] := by
  have one : autocomplete (oneFieldDocument type) personalData [text] =
      completeField type 0 personalData [text] := by
    simp [autocomplete, oneFieldDocument]
  rw [one, completeField_eq]
  cases lastText type personalData <;> simp [assign]

/-- **Two lists give the same answers exactly if they have the same last texts.** -/
theorem autocomplete_eq_iff {personalData personalData' : List TextPersonalInfo} :
    (∀ document completeArray, autocomplete document personalData completeArray =
      autocomplete document personalData' completeArray) ↔
      ∀ type, lastText type personalData = lastText type personalData' := by
  constructor
  · intro same type
    have answer (text : String) : (lastText type personalData).getD text =
        (lastText type personalData').getD text := by
      have pressed := same (oneFieldDocument type) [text]
      rw [autocomplete_oneFieldDocument, autocomplete_oneFieldDocument] at pressed
      simpa using pressed
    -- A text no entry has tells a field that was filled from one that was not.
    have longer (text : String) : text ++ "." ≠ text := by
      intro equal
      simpa using congrArg String.length equal
    cases known : lastText type personalData with
    | none =>
        cases known' : lastText type personalData' with
        | none => rfl
        | some text =>
            have different := answer (text ++ ".")
            rw [known, known'] at different
            exact absurd different (longer text)
    | some text =>
        cases known' : lastText type personalData' with
        | none =>
            have different := answer (text ++ ".")
            rw [known, known'] at different
            exact absurd different.symm (longer text)
        | some text' =>
            have equal := answer ""
            rw [known, known'] at equal
            exact congrArg some equal
  · intro same document completeArray
    have loops : (fun (completeArray : List String) (f : DocumentField × ℕ) =>
        completeField f.1.type f.2 personalData completeArray) =
          fun completeArray f => completeField f.1.type f.2 personalData' completeArray := by
      funext completeArray f
      rw [completeField_eq, completeField_eq, same]
    rw [autocomplete, autocomplete, loops]

/-! ## Order of addition, order of dates -/

/-- **For each type, the entry added last and the entry with the latest date have
the same text.** -/
def LastIsNewest (personalData : List TextPersonalInfo) : Prop :=
  ∀ type last newest, (ofType type personalData).getLast? = some last →
    newest ∈ ofType type personalData →
    (∀ entry ∈ ofType type personalData, entry.createdAt ≤ newest.createdAt) →
    last.info.getD "" = newest.info.getD ""

/-- The last entry of a list sorted by date has the latest date. -/
theorem le_last_of_sorted {entries : List TextPersonalInfo} {last : TextPersonalInfo}
    (sorted : entries.Pairwise fun a b => a.createdAt ≤ b.createdAt)
    (isLast : entries.getLast? = some last) :
    ∀ entry ∈ entries, entry.createdAt ≤ last.createdAt := by
  intro entry mem
  rw [List.getLast?_eq_some_getLast (List.ne_nil_of_mem mem)] at isLast
  obtain rfl := Option.some.inj isLast
  exact sorted.rel_getLast_of_rel_getLast_getLast mem le_rfl

/-- **The same entries sorted by date have the same last texts exactly if the last
is the newest.** -/
theorem lastText_eq_iff_lastIsNewest {entries sortedEntries : List TextPersonalInfo}
    (nodup : (entries.map TextPersonalInfo.createdAt).Nodup)
    (same : sortedEntries.Perm entries)
    (sorted : sortedEntries.Pairwise fun a b => a.createdAt ≤ b.createdAt) :
    (∀ type, lastText type entries = lastText type sortedEntries) ↔ LastIsNewest entries := by
  have samePart (type : FieldType) : (ofType type sortedEntries).Perm (ofType type entries) :=
    same.filter _
  have sortedPart (type : FieldType) :
      (ofType type sortedEntries).Pairwise fun a b => a.createdAt ≤ b.createdAt :=
    sorted.sublist List.filter_sublist
  constructor
  · intro texts type last newest isLast newestMem latest
    have nonempty : ofType type sortedEntries ≠ [] := by
      intro empty
      rw [(samePart type).mem_iff.symm, empty] at newestMem
      cases newestMem
    have isLast' := List.getLast?_eq_some_getLast nonempty
    have lastMem := (samePart type).mem_iff.mp (List.getLast_mem nonempty)
    have dates : ((ofType type sortedEntries).getLast nonempty).createdAt = newest.createdAt :=
      le_antisymm (latest _ lastMem)
        (le_last_of_sorted (sortedPart type) isLast' newest
          ((samePart type).mem_iff.mpr newestMem))
    -- Two entries with the latest date are one, since dates are distinct.
    have identical : (ofType type sortedEntries).getLast nonempty = newest :=
      List.inj_on_of_nodup_map nodup (List.mem_of_mem_filter lastMem)
        (List.mem_of_mem_filter newestMem) dates
    have text := texts type
    rw [lastText, lastText, isLast, isLast', identical] at text
    exact Option.some.inj text
  · intro newestLast type
    rw [lastText, lastText]
    cases isLast' : (ofType type sortedEntries).getLast? with
    | none =>
        have empty : ofType type sortedEntries = [] := List.getLast?_eq_none_iff.mp isLast'
        have empty' : ofType type entries = [] := by simpa [empty] using (samePart type).symm
        rw [empty']
        rfl
    | some newest =>
        have newestMem := (samePart type).mem_iff.mp (List.mem_of_getLast? isLast')
        cases isLast : (ofType type entries).getLast? with
        | none =>
            rw [List.getLast?_eq_none_iff.mp isLast] at newestMem
            cases newestMem
        | some last =>
            have latest : ∀ entry ∈ ofType type entries, entry.createdAt ≤ newest.createdAt :=
              fun entry mem => le_last_of_sorted (sortedPart type) isLast' entry
                ((samePart type).mem_iff.mpr mem)
            exact congrArg some (newestLast type last newest isLast newestMem latest)

/-! ## Relaunching -/

variable (F) in
/-- **Pressing Autocomplete gives the same, for every document and every content
of its fields,** with the list in memory and with the list that is rebuilt from
`rows`. -/
def SameAnswers (rows : Rows) (env : GlobalEnviroment) : Prop :=
  ∀ fetched now, fetched.Of rows → ∀ document completeArray,
    autocomplete document env.personalData completeArray =
      autocomplete document (relaunch F fetched now env).personalData completeArray

theorem Stores.sameAnswers_iff {dates : List Date} {rows : Rows} {env : GlobalEnviroment}
    (stores : Stores dates rows.perData env.personalData) :
    SameAnswers F rows env ↔ LastIsNewest env.personalData := by
  have rebuilt (fetched : Fetched) (now : Date) (fetch : fetched.Of rows) :
      (∀ document completeArray, autocomplete document env.personalData completeArray =
        autocomplete document (relaunch F fetched now env).personalData completeArray) ↔
          LastIsNewest env.personalData :=
    autocomplete_eq_iff.trans (lastText_eq_iff_lastIsNewest stores.nodup
      (stores.rebuilt_perm fetch.perData now) (stores.rebuilt_sorted fetch.perData now))
  constructor
  · intro same
    obtain ⟨fetched, fetch⟩ := Fetched.exists_of rows
    exact (rebuilt fetched 0 fetch).mp (same fetched 0 fetch)
  · intro newestLast fetched now fetch
    exact (rebuilt fetched now fetch).mpr newestLast

/-- **In every state of every run, a relaunch keeps the answers exactly if the last
entry of each type is the newest.**  The rows are those the context holds, and,
where every save of the run succeeded, also those the next process finds. -/
theorem sameAnswers_iff_lastIsNewest {events : List PersonalEvent} {state : PersonalState}
    (run : (personalDataApp F).Run .start events state) :
    (SameAnswers F state.env.rows state.env ↔ LastIsNewest state.env.personalData) ∧
      ((∀ event ∈ events, event.Saved) →
        (SameAnswers F state.env.committedRows state.env ↔
          LastIsNewest state.env.personalData)) := by
  have iff := (PersonalInv.of_run run).memory.sameAnswers_iff (F := F)
  refine ⟨iff, ?_⟩
  intro saved
  rw [committed_eq_rows run saved]
  exact iff

/-- An entry is added, the clock is set back, another entry of the type is added. -/
def setBackEvents : List PersonalEvent :=
  [.createNew 0 fun _ => true, .typeText "Анна", .createNew 2 fun _ => true,
    .createNew 0 fun _ => true, .typeText "Мария", .createNew 1 fun _ => true]

def setBackState : PersonalState :=
  setBackEvents.foldl (personalDataApp Foundation.numbered).step .start

/-- The relaunch finds the entries in the order of their dates. -/
def setBackFetched : Fetched where
  cdDocuments := []
  cdFields := []
  cdPerData := [⟨some "Мария", some "Имя", some 1⟩, ⟨some "Анна", some "Имя", some 2⟩]

theorem set_back_clock_changes_answers :
    ¬ ∀ events state, (personalDataApp Foundation.numbered).Run .start events state →
      (∀ event ∈ events, event.Saved) →
        SameAnswers Foundation.numbered state.env.committedRows state.env := by
  intro all
  have run : (personalDataApp Foundation.numbered).Run .start setBackEvents setBackState :=
    .cons nofun (.cons rfl (.cons (fun _ => by decide) (.cons nofun (.cons rfl
      (.cons (fun _ => by decide +kernel) .nil)))))
  have saved : ∀ event ∈ setBackEvents, event.Saved := by
    simp [setBackEvents, PersonalEvent.Saved]
  have rows : setBackState.env.committedRows =
      ⟨[], [], [⟨some "Анна", some "Имя", some 2⟩, ⟨some "Мария", some "Имя", some 1⟩]⟩ := by
    decide +kernel
  have fetch : setBackFetched.Of setBackState.env.committedRows := by
    rw [rows]
    exact ⟨⟨List.Perm.nil, List.Pairwise.nil⟩, ⟨List.Perm.nil, List.Pairwise.nil⟩,
      ⟨List.Perm.swap _ _ _, by decide +kernel⟩⟩
  have answer := all _ _ run saved setBackFetched 0 fetch (oneFieldDocument .name) [""]
  exact absurd answer (by decide +kernel)

/-- The clock is set back between two entries of different types. -/
def otherTypeEvents : List PersonalEvent :=
  [.createNew 0 fun _ => true, .typeText "Анна", .createNew 2 fun _ => true,
    .createNew 0 fun _ => true, .typeText "Иванова", .select 1, .createNew 1 fun _ => true]

def otherTypeState : PersonalState :=
  otherTypeEvents.foldl (personalDataApp Foundation.numbered).step .start

theorem other_type_keeps_answers :
    SameAnswers Foundation.numbered otherTypeState.env.committedRows otherTypeState.env := by
  have run : (personalDataApp Foundation.numbered).Run .start otherTypeEvents otherTypeState :=
    .cons nofun (.cons rfl (.cons (fun _ => by decide) (.cons nofun (.cons rfl
      (.cons ⟨rfl, by decide⟩ (.cons (fun _ => by decide +kernel) .nil))))))
  have saved : ∀ event ∈ otherTypeEvents, event.Saved := by
    simp [otherTypeEvents, PersonalEvent.Saved]
  have entries : otherTypeState.env.personalData =
      [⟨some "Анна", .name, 2⟩, ⟨some "Иванова", .surname, 1⟩] := by
    decide +kernel
  refine ((sameAnswers_iff_lastIsNewest run).2 saved).mpr ?_
  rw [entries]
  intro type last newest isLast newestMem _
  have lastMem := List.mem_of_getLast? isLast
  simp only [ofType, List.mem_filter, List.mem_cons, List.not_mem_nil, or_false,
    decide_eq_true_eq] at lastMem newestMem
  obtain ⟨rfl | rfl, kind⟩ := lastMem <;> obtain ⟨rfl | rfl, kind'⟩ := newestMem
  · rfl
  · cases kind.symm.trans kind'
  · cases kind.symm.trans kind'
  · rfl

/-! ## A clock that goes forward -/

/-- `Date()` returns a later value than ever before. -/
def Forward (state : PersonalState) : PersonalEvent → Prop
  | .createNew now _ => ∀ date ∈ state.dates, date < now
  | _ => True

theorem lastIsNewest_of_sorted {entries : List TextPersonalInfo}
    (nodup : (entries.map TextPersonalInfo.createdAt).Nodup)
    (sorted : entries.Pairwise fun a b => a.createdAt ≤ b.createdAt) : LastIsNewest entries :=
  (lastText_eq_iff_lastIsNewest nodup (List.Perm.refl _) sorted).mp fun _ => rfl

/-- One step under a clock that goes forward keeps the list sorted by date. -/
theorem PersonalInv.step_sorted {state : PersonalState} {event : PersonalEvent}
    (inv : PersonalInv state) (enabled : (personalDataApp F).enabled state event)
    (forward : Forward state event)
    (sorted : state.env.personalData.Pairwise fun a b => a.createdAt ≤ b.createdAt) :
    ((personalDataApp F).step state event).env.personalData.Pairwise
      fun a b => a.createdAt ≤ b.createdAt := by
  cases event with
  | typeText text => exact sorted
  | select i => exact sorted
  | createNew now ok =>
      cases adds : state.view.adds with
      | false =>
          rw [step_createNew_toggles adds]
          exact sorted
      | true =>
          rw [step_createNew_adds adds inv.selected]
          refine List.pairwise_append.mpr ⟨sorted, List.pairwise_singleton _ _, ?_⟩
          intro entry mem last isLast
          rw [List.mem_singleton.mp isLast]
          exact (forward _ (inv.memory.used entry mem)).le
  | delete i cdPerData ok =>
      rw [step_delete enabled.1]
      exact sorted.sublist (List.eraseIdx_sublist _ _)
  | onAppear fetched now => exact inv.memory.rebuilt_sorted enabled.perData now
  | relaunch fetched now =>
      obtain ⟨entries, old⟩ := inv.committed
      exact old.rebuilt_sorted enabled.perData now

/-- **While the clock goes forward, the answers survive.** -/
theorem sameAnswers_of_forward_clock {events : List PersonalEvent} {state : PersonalState}
    (run : ((personalDataApp F).restrict Forward).Run .start events state) :
    SameAnswers F state.env.rows state.env := by
  have inv := PersonalInv.of_run run.of_restrict
  have sorted : PersonalInv state ∧
      state.env.personalData.Pairwise fun a b => a.createdAt ≤ b.createdAt := by
    refine run.invariant_restrict (I := fun state => PersonalInv state ∧
      state.env.personalData.Pairwise fun a b => a.createdAt ≤ b.createdAt)
      ⟨PersonalInv.start, List.Pairwise.nil⟩ ?_
    intro before event enabled forward both
    exact ⟨both.1.step enabled, both.1.step_sorted enabled forward both.2⟩
  exact inv.memory.sameAnswers_iff.mpr (lastIsNewest_of_sorted inv.memory.nodup sorted.2)

/-! ## A filling session

The texts live in an array of their own, which is as long as the list of fields
only because the view was opened with such an array.  `fillSession` is a sitting
with the view: before each step, and after the last, the form of every field reads
its text. -/

/-- One step of a session over `count` fields. -/
inductive FillStep (count : ℕ) where
  | edit (i : Fin count) (newVal : String)
  | autocomplete (personalData : List TextPersonalInfo)

namespace FillStep

def run (document : DocumentModel) (completeArray : List String) :
    FillStep document.fieldsToFill.length → Option (List String)
  | edit i newVal => assign i newVal completeArray
  | .autocomplete personalData => DocumentRelay.autocomplete document personalData completeArray

/-- **The text a step has for a field**, if it concerns the field at all. -/
def value (document : DocumentModel) (i : Fin document.fieldsToFill.length) :
    FillStep document.fieldsToFill.length → Option String
  | edit j newVal => if j = i then some newVal else none
  | .autocomplete personalData => lastText document.fieldsToFill[i].type personalData

end FillStep

/-- The texts the input forms show; `none` is a trap of `completeArray[i]`. -/
def inputForms (document : DocumentModel) (completeArray : List String) :
    Option (List String) :=
  (List.range document.fieldsToFill.length).mapM fun i => completeArray[i]?

/-- A session, from the texts it finds. -/
def fillSession (document : DocumentModel) :
    List (FillStep document.fieldsToFill.length) → List String → Option (List String)
  | [], completeArray => do
      let _ ← inputForms document completeArray
      return completeArray
  | step :: rest, completeArray => do
      let _ ← inputForms document completeArray
      let completeArray ← step.run document completeArray
      fillSession document rest completeArray

/-- The assignment `document.fieldsToFill[i].fillWith = completeArray[i]`. -/
def fillField (completeArray : List String) (document : DocumentModel) (i : ℕ) :
    Option DocumentModel := do
  let text ← completeArray[i]?
  return { document with
    fieldsToFill :=
      document.fieldsToFill.modify i fun field => { field with fillWith := some text } }

/-- The loop both Share buttons start with. -/
def fillFields (document : DocumentModel) (completeArray : List String) :
    Option DocumentModel :=
  (List.range document.fieldsToFill.length).foldlM (fillField completeArray) document

/-- **The last writer of a field**: the text of the latest step that concerns it. -/
def lastWrite (document : DocumentModel) (steps : List (FillStep document.fieldsToFill.length))
    (i : Fin document.fieldsToFill.length) : Option String :=
  (steps.filterMap (FillStep.value document i)).getLast?

theorem lastWrite_cons (document : DocumentModel)
    (step : FillStep document.fieldsToFill.length)
    (rest : List (FillStep document.fieldsToFill.length))
    (i : Fin document.fieldsToFill.length) (text : String) :
    (lastWrite document (step :: rest) i).getD text =
      (lastWrite document rest i).getD ((step.value document i).getD text) := by
  rw [lastWrite, lastWrite, List.filterMap_cons]
  cases step.value document i with
  | none => rfl
  | some written => simp [List.getLast?_cons]

theorem arrayStringOf_eq_ofFn (count : ℕ) :
    arrayStringOf count = List.ofFn fun _ : Fin count => "" := by
  rw [arrayStringOf_eq, List.ofFn_const]

/-! ### Each access is in range -/

theorem assign_ofFn {count : ℕ} (texts : Fin count → String) (i : Fin count) (text : String) :
    assign i text (List.ofFn texts) = some (List.ofFn (Function.update texts i text)) := by
  rw [assign, if_pos (by simp), IndexLoop.set_ofFn]

/-- The inner loop at an index of a field. -/
theorem completeField_ofFn {count : ℕ} (type : FieldType) (personalData : List TextPersonalInfo)
    (texts : Fin count → String) (i : Fin count) :
    completeField type i personalData (List.ofFn texts) = some (List.ofFn
      (Function.update texts i ((lastText type personalData).getD (texts i)))) := by
  rw [completeField_eq]
  cases lastText type personalData with
  | none => simp
  | some last => exact assign_ofFn texts i last

/-- **Autocomplete** gives each field the last text of its type, or leaves it its
own. -/
theorem autocomplete_eq (document : DocumentModel) (personalData : List TextPersonalInfo)
    (texts : Fin document.fieldsToFill.length → String) :
    autocomplete document personalData (List.ofFn texts) =
      some (List.ofFn fun i =>
        (lastText document.fieldsToFill[i].type personalData).getD (texts i)) := by
  let filled (i : Fin document.fieldsToFill.length) : String :=
    (lastText document.fieldsToFill[i].type personalData).getD (texts i)
  -- Before pass `k` the fields below `k` have their texts.
  have loop : autocomplete document personalData (List.ofFn (IndexLoop.upTo filled texts 0)) =
      some (List.ofFn (IndexLoop.upTo filled texts document.fieldsToFill.length)) := by
    refine IndexLoop.foldlM_zipIdx (fun k => List.ofFn (IndexLoop.upTo filled texts k)) ?_
    intro k inside
    have pass := completeField_ofFn document.fieldsToFill[k].type personalData
      (IndexLoop.upTo filled texts k) ⟨k, inside⟩
    rw [IndexLoop.upTo_self filled texts ⟨k, inside⟩] at pass
    rw [← IndexLoop.update_upTo filled texts ⟨k, inside⟩]
    exact pass
  rw [IndexLoop.upTo_zero, IndexLoop.upTo_length] at loop
  exact loop

theorem inputForms_eq (document : DocumentModel)
    (texts : Fin document.fieldsToFill.length → String) :
    inputForms document (List.ofFn texts) = some (List.ofFn texts) := by
  have forms := IndexLoop.mapM_range_getElem? (List.ofFn texts)
  rwa [List.length_ofFn] at forms

/-- **One step** gives every field it concerns the text it has for it. -/
theorem FillStep.run_eq (document : DocumentModel)
    (texts : Fin document.fieldsToFill.length → String)
    (step : FillStep document.fieldsToFill.length) :
    step.run document (List.ofFn texts) =
      some (List.ofFn fun i => (step.value document i).getD (texts i)) := by
  cases step with
  | edit j newVal =>
      rw [run, assign_ofFn]
      refine congrArg (fun texts => some (List.ofFn texts)) ?_
      funext i
      by_cases same : j = i
      · simp [value, same]
      · simp [value, same, Ne.symm same]
  | autocomplete personalData => exact autocomplete_eq document personalData texts

/-- **A whole session** never leaves the array, and leaves in it the text of the
last writer of each field. -/
theorem fillSession_eq (document : DocumentModel)
    (steps : List (FillStep document.fieldsToFill.length))
    (texts : Fin document.fieldsToFill.length → String) :
    fillSession document steps (List.ofFn texts) =
      some (List.ofFn fun i => (lastWrite document steps i).getD (texts i)) := by
  induction steps generalizing texts with
  | nil =>
      rw [fillSession, inputForms_eq]
      rfl
  | cons step rest ih =>
      rw [fillSession, inputForms_eq]
      simp only [Option.bind_eq_bind, Option.bind_some, FillStep.run_eq, ih, lastWrite_cons]

/-- The document with these texts to print. -/
def DocumentModel.filledWith (document : DocumentModel)
    (texts : Fin document.fieldsToFill.length → String) : DocumentModel :=
  { document with
    fieldsToFill := List.ofFn fun i =>
      { document.fieldsToFill[i] with fillWith := some (texts i) } }

theorem fillFields_eq (document : DocumentModel)
    (texts : Fin document.fieldsToFill.length → String) :
    fillFields document (List.ofFn texts) = some (document.filledWith texts) := by
  let field (i : Fin document.fieldsToFill.length) : DocumentField := document.fieldsToFill[i]
  let filled (i : Fin document.fieldsToFill.length) : DocumentField :=
    { document.fieldsToFill[i] with fillWith := some (texts i) }
  -- Before pass `k` the fields below `k` are filled.
  let state (k : ℕ) : DocumentModel :=
    { document with fieldsToFill := List.ofFn (IndexLoop.upTo filled field k) }
  have opened : state 0 = document := by simp [state, field]
  have closed : state document.fieldsToFill.length = document.filledWith texts := by
    simp [state, filled, DocumentModel.filledWith]
  have loop : (List.range document.fieldsToFill.length).foldlM (fillField (List.ofFn texts))
      (state 0) = some (state document.fieldsToFill.length) := by
    refine IndexLoop.foldlM_range state ?_
    intro k inside
    have next := IndexLoop.update_upTo filled field ⟨k, inside⟩
    simp only [state, ← next, ← IndexLoop.set_ofFn]
    simp [fillField, inside, List.modify_eq_set_getElem?, IndexLoop.upTo, field, filled]
  rw [opened, closed] at loop
  exact loop

theorem lastText_eq_none {type : FieldType} {personalData : List TextPersonalInfo}
    (without : ∀ model ∈ personalData, model.type ≠ type) :
    lastText type personalData = none := by
  have empty : ofType type personalData = [] :=
    List.filter_eq_nil_iff.mpr fun model mem => by simpa using (without model mem).symm
  rw [lastText, empty]
  rfl

/-- **The last writer wins.**  A session over the fields of a document, and the loop
of Share after it, never trap.  Each field is left to be filled with the text of the
latest step that concerned it, or with no text; nothing else of the document
changes.  Wherever the session stands, Autocomplete leaves alone the fields of types
without personal data, and a second press changes nothing. -/
theorem fillSession_lastWriter (document : DocumentModel)
    (steps : List (FillStep document.fieldsToFill.length)) :
    ∃ completeArray filled,
      fillSession document steps (arrayStringOf document.fieldsToFill.length) =
          some completeArray ∧
        fillFields document completeArray = some filled ∧
        (∀ i : Fin document.fieldsToFill.length, filled.fieldsToFill[i]? =
          some { document.fieldsToFill[i] with
            fillWith := some ((lastWrite document steps i).getD "") }) ∧
        filled = { document with fieldsToFill := filled.fieldsToFill } ∧
        filled.fieldsToFill.length = document.fieldsToFill.length ∧
        ∀ personalData, ∃ completed,
          autocomplete document personalData completeArray = some completed ∧
            (∀ i : Fin document.fieldsToFill.length,
              (∀ model ∈ personalData, model.type ≠ document.fieldsToFill[i].type) →
                completed[i]? = completeArray[i]?) ∧
            autocomplete document personalData completed = some completed := by
  refine ⟨_, document.filledWith fun i => (lastWrite document steps i).getD "", ?_,
    fillFields_eq document _, ?_, rfl, ?_, ?_⟩
  · rw [arrayStringOf_eq_ofFn, fillSession_eq]
  · intro i
    simp [DocumentModel.filledWith]
  · simp [DocumentModel.filledWith]
  · intro personalData
    refine ⟨_, autocomplete_eq document personalData _, ?_, ?_⟩
    · intro i without
      have kept := lastText_eq_none without
      rw [Fin.getElem_fin] at kept
      simp [kept]
    · rw [autocomplete_eq]
      congr 2
      funext i
      cases lastText document.fieldsToFill[i].type personalData <;> rfl

/-! ### Share -/

/-- The action of both Share buttons, up to the file that is then looked for: the
document with its texts, the path, and the graphics.  `none` is a trap. -/
def share {U : Type} (P : Platform U) (document : DocumentModel) (completeArray : List String)
    (graphics : Graphics) : Option (DocumentModel × String × Graphics) := do
  let document ← fillFields document completeArray
  let (path, graphics) ← addOverlay P document graphics
  return (document, path, graphics)

/-- **Share draws the texts of the last writers**, on every page, where all pages
load and there is a context to draw in. -/
theorem share_labelDraws {U : Type} {P : Platform U} {document : DocumentModel}
    {originalDocument : CGPDFDocument} {firstPage : CGPDFPage}
    (opens : Opens P document originalDocument)
    (load : ∀ i < originalDocument.numberOfPages, originalDocument.page (i + 1) ≠ none)
    (first : originalDocument.page 1 = some firstPage) {graphics : Graphics}
    (has : HasContext P document graphics)
    (steps : List (FillStep document.fieldsToFill.length)) {completeArray : List String}
    (session : fillSession document steps (arrayStringOf document.fieldsToFill.length) =
      some completeArray) :
    ∃ filled path graphics' new,
      share P document completeArray graphics = some (filled, path, graphics') ∧
        graphics'.marks = graphics.marks ++ new ∧
        labelDraws 0 new = (List.range originalDocument.numberOfPages).flatMap fun k =>
          List.ofFn fun i => (k + 1, (lastWrite document steps i).getD "",
            fieldPos firstPage.mediaBox.height document.fieldsToFill[i]) := by
  rw [arrayStringOf_eq_ofFn, fillSession_eq] at session
  obtain rfl := Option.some.inj session
  -- The texts change neither the url nor the name.
  have filledOpens : Opens P (document.filledWith fun i => (lastWrite document steps i).getD "")
      originalDocument := opens
  obtain ⟨path, graphics', new, passes, call, marks, draws, withContext, -⟩ :=
    addOverlay_labelDraws filledOpens load first graphics
  obtain rfl := withContext has
  refine ⟨document.filledWith fun i => (lastWrite document steps i).getD "", path,
    graphics', new,
    ?_, marks, ?_⟩
  · rw [share, fillFields_eq]
    simp [call]
  · rw [draws]
    simp only [DocumentModel.filledWith, List.map_ofFn, Function.comp_def, Option.getD_some]
    rfl

end DocumentRelay
