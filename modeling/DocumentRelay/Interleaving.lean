import Mathlib.Logic.Function.Basic
import DocumentRelay.Lib.Run
import DocumentRelay.Sharing

/-!
# Readers between the writes of a share

A share of `n` fields is `1 + 3 n` separate writes, and a download is one read.
The system here has one sharer, any number of downloaders, and the server between
them: it applies the pending writes one at a time in the order they were issued,
and a read may fall between any two of them.

A read after the first write of a version finds the url, so it stores the
document, and it stores it without the fields still to come
(`torn_download`).  What keeps a run free of this is that no read falls
inside a share: `downloads_complete_versions`.
-/

namespace DocumentRelay

variable (F : Foundation)

/-- The server, the writes on their way to it, the versions passed to
`shareDoucment` so far, and the downloaders. -/
structure Relay where
  server : FNode
  pending : List Write
  versions : List DocumentModel
  clients : ℕ → GlobalEnviroment

/-- Nothing shared yet. -/
def Relay.start (server : FNode) : Relay where
  server := server
  pending := []
  versions := []
  clients := fun _ => .initial

inductive RelayEvent where
  | share (document : DocumentModel)
  | apply
  | download (client : ℕ) (ok : ℕ → Bool)

/-- **Sharing and downloading under one id.**  The documents a sharer edits have
no negative sizes, since they come from selections and rows. -/
def relay (key : String) : LabelledSystem Relay RelayEvent where
  enabled state
    | .share document =>
        document.id = key ∧ ∀ field ∈ document.fieldsToFill, field.rect.Standardized
    | .apply => state.pending ≠ []
    | .download .. => True
  step state
    | .share document =>
        match shareDoucment document with
        | .ok writes =>
            { state with
              pending := state.pending ++ writes
              versions := state.versions ++ [document] }
        | .error _ => state
    | .apply =>
        match state.pending with
        | [] => state
        | write :: rest =>
            { state with server := applyWrite state.server write, pending := rest }
    | .download client ok =>
        match downloadDocument F key state.server ok (state.clients client) with
        | .ok download =>
            { state with clients := Function.update state.clients client download.env }
        | .error _ => state

/-- What every downloader stored is a complete version. -/
def Relay.Complete (state : Relay) : Prop :=
  ∀ client, ∀ document ∈ (state.clients client).loadedDocuments,
    ∃ version ∈ state.versions, SameVersion version document

/-- No share is half applied: what is pending is the writes of whole versions. -/
def Relay.Settled (state : Relay) : Prop :=
  ∃ done rest, state.versions = done ++ rest ∧ state.pending = rest.flatMap shareWrites

/-- A read does not fall inside a share, unless it finds no url. -/
def outsideShares (key : String) (state : Relay) : RelayEvent → Prop
  | .download .. => state.Settled ∨
      stringAttribute (Operation.snapshot state.server key).asDictionary "url" = ""
  | _ => True

/-- What is applied and what is pending are the writes of the versions so far. -/
structure RelayInv (key : String) (server : FNode) (state : Relay) : Prop where
  applied : ∃ applied, state.versions.flatMap shareWrites = applied ++ state.pending ∧
    state.server = applyWrites server applied
  ids : ∀ version ∈ state.versions, version.id = key
  sizes : ∀ version ∈ state.versions, ∀ field ∈ version.fieldsToFill, field.rect.Standardized
  complete : state.Complete

variable {F} {key : String} {server : FNode} {state : Relay}

theorem RelayInv.start (key : String) (server : FNode) :
    RelayInv key server (.start server) where
  applied := ⟨[], rfl, rfl⟩
  ids := by simp [Relay.start]
  sizes := by simp [Relay.start]
  complete := by simp [Relay.Complete, Relay.start, GlobalEnviroment.initial]

/-- A share of an id that does not raise puts its writes behind those pending. -/
theorem relay_step_share {document : DocumentModel} (clean : PathChars document.id)
    (state : Relay) :
    (relay F key).step state (.share document) =
      { state with
        pending := state.pending ++ shareWrites document
        versions := state.versions ++ [document] } := by
  simp [relay, shareDoucment_eq clean]

/-- A share keeps the invariant. -/
theorem RelayInv.share {document : DocumentModel} (inv : RelayInv key server state)
    (enabled : (relay F key).enabled state (.share document)) :
    RelayInv key server ((relay F key).step state (.share document)) := by
  obtain ⟨own, standard⟩ := enabled
  by_cases clean : PathChars document.id
  · rw [relay_step_share clean]
    obtain ⟨applied, issued, current⟩ := inv.applied
    refine ⟨⟨applied, ?_, current⟩, ?_, ?_, ?_⟩
    · rw [List.flatMap_append, issued, List.flatMap_singleton, List.append_assoc]
    · intro version mem
      rcases List.mem_append.mp mem with old | new
      · exact inv.ids version old
      · exact List.mem_singleton.mp new ▸ own
    · intro version mem
      rcases List.mem_append.mp mem with old | new
      · exact inv.sizes version old
      · exact List.mem_singleton.mp new ▸ standard
    · intro client stored mem
      obtain ⟨version, old, same⟩ := inv.complete client stored mem
      exact ⟨version, List.mem_append_left _ old, same⟩
  · have step : (relay F key).step state (.share document) = state := by
      simp [relay, shareDoucment, child_shared, clean, bind, Except.bind]
    rw [step]
    exact inv

/-- A write applied moves from pending to applied. -/
theorem RelayInv.apply (inv : RelayInv key server state) :
    RelayInv key server ((relay F key).step state .apply) := by
  cases pending : state.pending with
  | nil =>
      have step : (relay F key).step state .apply = state := by simp [relay, pending]
      rw [step]
      exact inv
  | cons write rest =>
      have step : (relay F key).step state .apply =
          { state with server := applyWrite state.server write, pending := rest } := by
        simp [relay, pending]
      rw [step]
      obtain ⟨applied, issued, current⟩ := inv.applied
      refine ⟨⟨applied ++ [write], ?_, ?_⟩, inv.ids, inv.sizes, inv.complete⟩
      · rw [issued, pending, List.append_assoc]
        rfl
      · rw [applyWrites_append, ← current]
        rfl

/-- **Between shares, the node under the key is that of the last version
applied.** -/
theorem RelayInv.snapshot_of_settled (inv : RelayInv key server state)
    (fresh : server.getChild (sharedPath key) = KeyTree.empty) (settled : state.Settled) :
    Operation.snapshot state.server key = KeyTree.empty ∨
      ∃ version ∈ state.versions, Operation.snapshot state.server key = shareNode version := by
  obtain ⟨applied, issued, current⟩ := inv.applied
  obtain ⟨done, rest, versions, pending⟩ := settled
  -- Whole shares are pending, so whole shares are applied.
  have prefixed : applied = done.flatMap shareWrites := by
    rw [versions, pending, List.flatMap_append] at issued
    exact (List.append_cancel_right issued).symm
  have own : ∀ version ∈ done, version.id = key := fun version mem =>
    inv.ids version (versions ▸ List.mem_append_left _ mem)
  have node : Operation.snapshot state.server key =
      (lastVersion key done).elim (server.getChild (sharedPath key)) shareNode := by
    rw [current, prefixed]
    exact getChild_applyWrites_history
      (fun version mem ne => absurd (own version mem) ne) server
  cases last : lastVersion key done with
  | none =>
      rw [last] at node
      exact Or.inl (node.trans fresh)
  | some version =>
      rw [last] at node
      have mem : version ∈ done := (List.mem_filter.mp (List.mem_of_getLast? last)).1
      exact Or.inr ⟨version, versions ▸ List.mem_append_left _ mem, node⟩

/-- What a download adds, by the node it reads. -/
theorem mem_loadedDocuments_downloadCallback {snapshot : FNode} {ok : ℕ → Bool}
    {env : GlobalEnviroment} {document : DocumentModel}
    (mem : document ∈ (downloadCallback F key snapshot ok env).loadedDocuments) :
    document ∈ env.loadedDocuments ∨
      stringAttribute snapshot.asDictionary "url" ≠ "" ∧
        document = decodeDocument key snapshot (F.uuidString env.uuidCount) := by
  by_cases url : stringAttribute snapshot.asDictionary "url" = ""
  · exact Or.inl (by simpa [downloadCallback, url] using mem)
  · have split : document ∈ env.loadedDocuments ∨
        document = decodeDocument key snapshot (F.uuidString env.uuidCount) := by
      simpa [downloadCallback, url, GlobalEnviroment.perform] using mem
    exact split.imp_right fun eq => ⟨url, eq⟩

/-- A read outside the shares stores complete versions only. -/
theorem RelayInv.download {client : ℕ} {ok : ℕ → Bool} (inv : RelayInv key server state)
    (fresh : server.getChild (sharedPath key) = KeyTree.empty)
    (outside : outsideShares key state (.download client ok)) :
    RelayInv key server ((relay F key).step state (.download client ok)) := by
  by_cases clean : PathChars key
  · have step : (relay F key).step state (.download client ok) =
        { state with
          clients := Function.update state.clients client
            (downloadCallback F key (Operation.snapshot state.server key) ok
              (state.clients client)) } := by
      simp [relay, downloadDocument_of_pathChars F clean]
    rw [step]
    refine ⟨inv.applied, inv.ids, inv.sizes, ?_⟩
    intro other document mem
    by_cases same : other = client
    · subst same
      simp only [Function.update_self] at mem
      rcases mem_loadedDocuments_downloadCallback mem with old | ⟨url, rfl⟩
      · exact inv.complete other document old
      · have settled := outside.resolve_right url
        rcases inv.snapshot_of_settled fresh settled with empty | ⟨version, known, node⟩
        · rw [empty] at url
          exact absurd (by decide) url
        · rw [node] at url ⊢
          rw [(attributes_shareNode version).2] at url
          cases address : version.url with
          | none => simp [address] at url
          | some text =>
              exact ⟨version, known, sameVersion_decode address (inv.sizes version known) _ _⟩
    · simp only [Function.update_of_ne same] at mem
      exact inv.complete other document mem
  · have step : (relay F key).step state (.download client ok) = state := by
      simp [relay, downloadDocument, child_shared, clean, bind, Except.bind]
    rw [step]
    exact inv

/-- **One step keeps the invariant**, if a read does not fall inside a share. -/
theorem RelayInv.step {label : RelayEvent} (inv : RelayInv key server state)
    (fresh : server.getChild (sharedPath key) = KeyTree.empty)
    (enabled : (relay F key).enabled state label) (outside : outsideShares key state label) :
    RelayInv key server ((relay F key).step state label) := by
  cases label with
  | share document => exact inv.share enabled
  | apply => exact inv.apply
  | download client ok => exact inv.download fresh outside

/-- **Downloads store complete versions only, in every run whose reads fall
outside the shares.** -/
theorem downloads_complete_versions {labels : List RelayEvent}
    (fresh : server.getChild (sharedPath key) = KeyTree.empty)
    (run : ((relay F key).restrict (outsideShares key)).Run (.start server) labels state) :
    state.Complete := by
  have inv : RelayInv key server state :=
    run.invariant_restrict (RelayInv.start key server) fun _ _ enabled outside inv =>
      inv.step fresh enabled outside
  exact inv.complete

/-- The two fields are shared, and read after the first of their writes. -/
def tornLabels : List RelayEvent := [.share twoFields, .apply, .download 0 fun _ => true]

def tornState : Relay :=
  tornLabels.foldl (relay Foundation.numbered "doc1").step (.start KeyTree.empty)

theorem tornState_eq : tornState =
    [RelayEvent.apply, .download 0 fun _ => true].foldl (relay Foundation.numbered "doc1").step
      { Relay.start KeyTree.empty with
        pending := shareWrites twoFields
        versions := [twoFields] } := by
  have clean : PathChars twoFields.id := by decide
  rw [tornState, tornLabels, List.foldl_cons, relay_step_share clean]
  rfl

theorem torn_download :
    ¬ ∀ labels state,
      (relay Foundation.numbered "doc1").Run (.start KeyTree.empty) labels state →
      state.Complete := by
  intro all
  have clean : PathChars twoFields.id := by decide
  have run : (relay Foundation.numbered "doc1").Run (.start KeyTree.empty) tornLabels
      tornState := by
    refine .cons ⟨rfl, shareable_twoFields.sizes⟩ ?_
    rw [tornState_eq, relay_step_share clean]
    exact .cons (List.cons_ne_nil _ _) (.cons trivial .nil)
  have versions : tornState.versions = [twoFields] := by
    rw [tornState_eq]
    rfl
  have stored : (tornState.clients 0).loadedDocuments =
      [{ twoFields with fieldsToFill := [] }] := by
    rw [tornState_eq]
    decide +kernel
  obtain ⟨version, known, same⟩ := all tornLabels tornState run 0
    { twoFields with fieldsToFill := [] } (by simp [stored])
  rw [versions, List.mem_singleton] at known
  subst known
  exact absurd same.fields.length_eq (by decide)

/-- The same share, read when all its writes are applied. -/
def settledLabels : List RelayEvent :=
  [.share oneField, .apply, .apply, .apply, .apply, .download 0 fun _ => true]

def settledState : Relay :=
  settledLabels.foldl (relay Foundation.numbered "doc1").step (.start KeyTree.empty)

theorem settledState_eq : settledState =
    [RelayEvent.apply, .apply, .apply, .apply, .download 0 fun _ => true].foldl
      (relay Foundation.numbered "doc1").step
      { Relay.start KeyTree.empty with
        pending := shareWrites oneField
        versions := [oneField] } := by
  have clean : PathChars oneField.id := by decide
  rw [settledState, settledLabels, List.foldl_cons, relay_step_share clean]
  rfl

theorem settled_download : settledState.versions = [oneField] ∧ settledState.Complete := by
  have clean : PathChars oneField.id := by decide
  have run : ((relay Foundation.numbered "doc1").restrict (outsideShares "doc1")).Run
      (.start KeyTree.empty) settledLabels settledState := by
    refine .cons ⟨⟨rfl, shareable_oneField.sizes⟩, trivial⟩ ?_
    rw [settledState_eq, LabelledSystem.restrict, relay_step_share clean]
    exact .cons ⟨List.cons_ne_nil _ _, trivial⟩ (.cons ⟨List.cons_ne_nil _ _, trivial⟩
      (.cons ⟨List.cons_ne_nil _ _, trivial⟩ (.cons ⟨List.cons_ne_nil _ _, trivial⟩
        (.cons ⟨trivial, Or.inl ⟨[oneField], [], rfl, rfl⟩⟩ .nil))))
  have versions : settledState.versions = [oneField] := by
    rw [settledState_eq]
    rfl
  exact ⟨versions, downloads_complete_versions rfl run⟩

end DocumentRelay
