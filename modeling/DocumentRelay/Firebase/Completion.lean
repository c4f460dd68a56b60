import DocumentRelay.Firebase.ConnectionSafety

/-!
# Completion blocks

Every write is given a completion block, and is at any time in one of three places: still
outstanding, answered with its block held back until the listens are answered, or
completed.  The `ledger` of a connection is these three, and the number the next write
gets.

Whatever happens to the connection, transactions that are cancelled and writes that are
purged included, no block is called twice and none is forgotten (`accounted_of_run`).
-/

namespace DocumentRelay

namespace FPersistentConnection

/-- Where the writes are. -/
structure Ledger where
  completed : List (ℕ × String)
  held : List (ℕ × String)
  outstanding : List ℕ
  next : ℕ

/-- All writes there were. -/
def Ledger.all (ledger : Ledger) : List ℕ :=
  ledger.completed.map Prod.fst ++ ledger.held.map Prod.fst ++ ledger.outstanding

variable (client : FPersistentConnection)

/-- The ledger of a connection. -/
def ledger : Ledger :=
  ⟨client.completed, client.putsToAck, client.outstandingPuts.map Prod.fst, client.putCounter⟩

/-! ## Steps that leave the writes where they are -/

@[simp] theorem ledger_check (condition : Bool) (message : String) :
    (client.check condition message).ledger = client.ledger := by
  unfold check
  split <;> rfl

theorem check_listens (condition : Bool) (message : String) :
    (client.check condition message).listens = client.listens := by
  unfold check
  split <;> rfl

theorem ledger_sendRequest (request : Request) :
    (sendRequest request client).ledger = client.ledger := by
  unfold sendRequest
  split
  · rfl
  · split
    · rfl
    · exact ledger_check _ _ _

@[simp] theorem ledger_sendAction (action : RequestAction) (onMessage : Option Callback) :
    (sendAction action onMessage client).ledger = client.ledger := by
  have sent := ledger_sendRequest { client with requestNumber := client.requestNumber + 1 }
    ⟨client.requestNumber, action⟩
  cases onMessage with
  | none => exact sent
  | some callback => exact sent

@[simp] theorem ledger_sendListen (listenSpec : FOutstandingQuery) :
    (sendListen listenSpec client).ledger = client.ledger :=
  ledger_sendAction client _ _

/-- Sending a write, or sending it again, leaves it outstanding. -/
@[simp] theorem ledger_sendPut (index : ℕ) : (sendPut index client).ledger = client.ledger := by
  have marked : (client.markSent index).ledger = client.ledger := by
    simp only [ledger, markSent, List.map_map]
    congr 1
    refine List.map_congr_left ?_
    intro e _
    simp only [Function.comp_apply]
    split <;> rfl
  unfold sendPut
  simp only
  split
  · simp
  · rw [ledger_sendAction]
    unfold check
    split
    · exact marked
    · exact marked

theorem ledger_sendAuth (restore : Bool) :
    (sendAuth restore client).ledger = client.ledger := by
  unfold sendAuth
  simp only
  split
  · simp
  · simp

/-- A new socket repeats requests, and moves no write. -/
theorem ledger_restoreState : client.restoreState.ledger = client.ledger := by
  unfold restoreState
  simp only
  have listened := List.foldlRecOn
    (motive := fun client' : FPersistentConnection => client'.ledger = client.ledger)
    client.listens (fun client listenSpec => sendListen listenSpec client)
    (ledger_check client (client.connectionState = .connected)
      "Should be connected if we're restoring state")
    (fun client' same listenSpec _ => (ledger_sendListen client' listenSpec).trans same)
  rw [check_listens]
  refine List.foldlRecOn
    (motive := fun client' : FPersistentConnection => client'.ledger = client.ledger)
      _ _ listened ?_
  intro client' same key _
  split
  · exact (ledger_sendPut client' key).trans same
  · exact same

theorem ledger_tryScheduleReconnect : client.tryScheduleReconnect.ledger = client.ledger := by
  unfold tryScheduleReconnect
  split
  · exact ledger_check client _ _
  · rfl

theorem ledger_resumeForReason (reason : String) :
    (resumeForReason reason client).ledger = client.ledger := by
  unfold resumeForReason
  simp only
  split
  · exact ledger_tryScheduleReconnect _
  · rfl

theorem ledger_reachable : client.reachable.ledger = client.ledger := by
  unfold reachable
  split
  · exact ledger_tryScheduleReconnect client
  · rfl

/-- Whatever becomes of a token, the writes wait. -/
theorem ledger_onToken (attempt : ℕ) (result : Option (Option String)) :
    (onToken attempt result client).ledger = client.ledger := by
  unfold onToken
  simp only
  split
  · cases result with
    | none => exact ledger_tryScheduleReconnect _
    | some token =>
        simp only
        split
        · exact ledger_check { client with fetching := client.fetching.erase attempt } _ _
        · exact ledger_check { client with fetching := client.fetching.erase attempt } _ _
  · rfl

theorem ledger_onReady : client.onReady.ledger = client.ledger := by
  unfold onReady restoreAuth
  simp only
  split
  · exact (ledger_restoreState _).trans (ledger_check { client with
      realtime := client.realtime.map fun conn => { conn with ready := true } } _ _)
  · exact (ledger_sendAuth _ _).trans (ledger_check { client with
      realtime := client.realtime.map fun conn => { conn with ready := true } } _ _)

theorem ledger_listen (query : FPath) : (listen query client).ledger = client.ledger := by
  unfold listen
  simp only
  generalize same : client.check _ _ = client'
  have kept : client'.ledger = client.ledger := by
    rw [← same]
    exact ledger_check client _ _
  split
  · exact (ledger_sendListen _ _).trans kept
  · exact kept

theorem ledger_unlisten (query : FPath) : (unlisten query client).ledger = client.ledger := by
  unfold unlisten
  simp only
  split
  · exact ledger_sendAction (client.removeListen query).2 _ _
  · rfl

theorem ledger_refreshAuthToken (token : Option String) :
    (refreshAuthToken token client).ledger = client.ledger := by
  unfold refreshAuthToken
  simp only
  split
  · cases token with
    | some credential =>
        exact ledger_sendAuth { client with authToken := some credential } false
    | none => exact ledger_sendAction { client with authToken := none } _ _
  · rfl

/-! ## Steps that move a write -/

/-- Writes are moved from place to place, and new ones are outstanding. -/
structure Ledger.Moves (ledger ledger' : Ledger) : Prop where
  next : ledger.next ≤ ledger'.next
  all : ledger'.all.Perm (ledger.all ++ List.range' ledger.next (ledger'.next - ledger.next))

namespace Ledger.Moves

variable {ledger ledger' : Ledger}

/-- Writes that change places only. -/
theorem of_perm (same : ledger'.next = ledger.next) (perm : ledger'.all.Perm ledger.all) :
    ledger.Moves ledger' := by
  refine ⟨same.ge, ?_⟩
  rw [same, Nat.sub_self, List.range'_zero, List.append_nil]
  exact perm

theorem of_eq (same : ledger' = ledger) : ledger.Moves ledger' := by
  rw [same]
  exact .of_perm rfl (.refl _)

/-- Moves one after the other. -/
theorem trans {ledger'' : Ledger} (first : ledger.Moves ledger')
    (second : ledger'.Moves ledger'') :
    ledger.Moves ledger'' := by
  refine ⟨first.next.trans second.next, ?_⟩
  have joined : List.range' ledger.next (ledger'.next - ledger.next) ++
      List.range' ledger'.next (ledger''.next - ledger'.next) =
        List.range' ledger.next (ledger''.next - ledger.next) := by
    have start : ledger'.next = ledger.next + (ledger'.next - ledger.next) := by
      have := first.next
      omega
    have total : ledger''.next - ledger.next =
        (ledger'.next - ledger.next) + (ledger''.next - ledger'.next) := by
      have := first.next
      have := second.next
      omega
    rw [total, ← List.range'_append_1, ← start]
  refine second.all.trans ?_
  rw [← joined, ← List.append_assoc]
  exact first.all.append_right _

/-- One more write. -/
theorem add (ledger : Ledger) :
    ledger.Moves { ledger with
      outstanding := ledger.outstanding ++ [ledger.next]
      next := ledger.next + 1 } := by
  refine ⟨Nat.le_succ _, ?_⟩
  simp [Ledger.all]

/-- Outstanding writes are completed, in any order. -/
theorem complete {gone : List (ℕ × String)} {rest : List ℕ}
    (split : ledger.outstanding.Perm (gone.map Prod.fst ++ rest)) :
    ledger.Moves
      { ledger with completed := ledger.completed ++ gone, outstanding := rest } := by
  refine .of_perm rfl ?_
  simp only [Ledger.all, List.map_append, List.append_assoc]
  refine List.Perm.append_left _ ?_
  exact (List.perm_append_comm_assoc _ _ _).trans (split.symm.append_left _)

/-- An outstanding write is answered, and its block is held back. -/
theorem hold {index : ℕ} {status : String} {rest : List ℕ}
    (split : ledger.outstanding.Perm (index :: rest)) :
    ledger.Moves
      { ledger with held := ledger.held ++ [(index, status)], outstanding := rest } := by
  refine .of_perm rfl ?_
  simp only [Ledger.all, List.map_append, List.append_assoc]
  exact (split.symm.append_left _).append_left _

/-- The blocks that were held back are called. -/
theorem flush (ledger : Ledger) :
    ledger.Moves { ledger with completed := ledger.completed ++ ledger.held, held := [] } := by
  refine .of_perm rfl ?_
  simp [Ledger.all]

end Ledger.Moves

/-- A new write is outstanding, whether it can be sent or not. -/
theorem ledger_putInternal (action : RequestAction) :
    (putInternal action client).ledger =
      { client.ledger with
        outstanding := client.ledger.outstanding ++ [client.ledger.next]
        next := client.ledger.next + 1 } := by
  have added : (client.addPut action).ledger =
      { client.ledger with
        outstanding := client.ledger.outstanding ++ [client.ledger.next]
        next := client.ledger.next + 1 } := by
    simp [ledger, addPut]
  unfold putInternal
  split
  · exact (ledger_sendPut _ _).trans added
  · exact added

/-- Purging calls the blocks that were held back, and then those of all outstanding writes,
oldest first. -/
theorem moves_purgeOutstandingWrites :
    client.ledger.Moves client.purgeOutstandingWrites.ledger := by
  have flushed := Ledger.Moves.flush client.ledger
  refine flushed.trans (.complete ?_)
  have named : (Prod.fst ∘ fun key : ℕ => (key, kFErrorWriteCanceled)) = id := rfl
  rw [List.map_map, named, List.map_id]
  show client.ledger.outstanding.Perm (client.ledger.outstanding.mergeSort _ ++ [])
  rw [List.append_nil]
  exact (List.mergeSort_perm _ _).symm

/-- What a lost socket takes away: transactions that were sent. -/
theorem moves_dropRealtime : client.ledger.Moves client.dropRealtime.ledger := by
  refine .complete ?_
  rw [List.map_map]
  show (client.outstandingPuts.map Prod.fst).Perm _
  exact ((List.filter_append_perm _ client.outstandingPuts).map Prod.fst).symm.trans
    (by rw [List.map_append]; exact .refl _)

theorem moves_onDisconnect : client.ledger.Moves client.onDisconnect.ledger := by
  unfold onDisconnect
  split
  · rw [ledger_tryScheduleReconnect]
    exact moves_dropRealtime client
  · exact moves_dropRealtime client

theorem moves_closeRealtime : client.ledger.Moves client.closeRealtime.ledger := by
  unfold closeRealtime
  split
  · exact .of_eq rfl
  · exact moves_onDisconnect client

theorem moves_interruptForReason (reason : String) :
    client.ledger.Moves (interruptForReason reason client).ledger := by
  cases socket : client.realtime with
  | some conn =>
      rw [interruptForReason_of_socket socket]
      exact moves_onDisconnect { client with
        interruptReasons := client.interruptReasons.insert reason }
  | none =>
      rw [interruptForReason_of_none socket]
      exact .of_eq rfl

theorem ledger_onPutAnswered {index : ℕ} {put : FOutstandingPut} (status : String)
    (present : client.outstandingPuts.lookup index = some put) :
    (onPutAnswered index status client).ledger =
      if client.unackedListensCount = 0 then
        { client.ledger with
          completed := client.ledger.completed ++ [(index, status)]
          outstanding := client.ledger.outstanding.filter fun i => i ≠ index }
      else
        { client.ledger with
          held := client.ledger.held ++ [(index, status)]
          outstanding := client.ledger.outstanding.filter fun i => i ≠ index } := by
  have kept : (client.outstandingPuts.filter fun e => e.1 ≠ index).map Prod.fst =
      client.ledger.outstanding.filter fun i => i ≠ index := by
    rw [ledger, List.filter_map]
    rfl
  unfold onPutAnswered
  simp only [present]
  split
  · rw [← kept]
    rfl
  · rw [← kept]
    rfl

/-- An answered write is completed, or held back while listens are unanswered.  An answer to a
write that is no longer outstanding, a cancelled transaction say, is ignored. -/
theorem moves_onPutAnswered (distinct : client.ledger.outstanding.Nodup) (index : ℕ)
    (status : String) : client.ledger.Moves (onPutAnswered index status client).ledger := by
  cases present : client.outstandingPuts.lookup index with
  | none =>
      refine .of_eq ?_
      rw [onPutAnswered, present]
  | some put =>
      have mem : index ∈ client.ledger.outstanding := by
        obtain ⟨before, after, eq, -⟩ := List.lookup_eq_some_iff.mp present
        simp [ledger, eq]
      have split : client.ledger.outstanding.Perm
          (index :: client.ledger.outstanding.filter fun i => i ≠ index) := by
        have erased := List.perm_cons_erase mem
        rw [distinct.erase_eq_filter] at erased
        have same : (client.ledger.outstanding.filter fun i => i != index) =
            client.ledger.outstanding.filter fun i => i ≠ index :=
          List.filter_congr fun i _ => by simp [bne, beq_eq_decide]
        rwa [same] at erased
      rw [ledger_onPutAnswered client status present]
      split
      · exact .complete split
      · exact .hold split

/-- The answer to the last listen lets the blocks go that were held back. -/
theorem moves_onListenAnswered (listenSpec : FOutstandingQuery) (status : String) :
    client.ledger.Moves (onListenAnswered listenSpec status client).ledger := by
  unfold onListenAnswered
  simp only
  generalize (if client.unackedListensCount = 0 then 2 ^ 64 - 1 else _) = count
  split
  · exact .flush client.ledger
  · exact .of_eq rfl

theorem moves_onAuthAnswered (restore : Bool) (status : String) :
    client.ledger.Moves (onAuthAnswered restore status client).ledger := by
  unfold onAuthAnswered
  simp only
  split
  · split
    · exact .of_eq (ledger_restoreState { client with connectionState := .connected })
    · exact .of_eq rfl
  · exact moves_closeRealtime { client with connectionState := .connected, authToken := none }

/-- An answer moves at most the write it is for. -/
theorem moves_onDataMessage (distinct : client.ledger.outstanding.Nodup) (rn : ℕ)
    (status : String) : client.ledger.Moves (onDataMessage rn status client).ledger := by
  unfold onDataMessage
  split
  · exact .of_eq rfl
  case h_2 callback _ =>
    cases callback with
    | put index =>
        exact moves_onPutAnswered { client with
          requestCBHash := client.requestCBHash.filter fun e => e.1 ≠ rn } distinct index status
    | listen listenSpec =>
        exact moves_onListenAnswered { client with
          requestCBHash := client.requestCBHash.filter fun e => e.1 ≠ rn } listenSpec status
    | auth restore =>
        exact moves_onAuthAnswered { client with
          requestCBHash := client.requestCBHash.filter fun e => e.1 ≠ rn } restore status

/-- **Every event moves writes, and loses none.** -/
theorem moves_handle (distinct : client.ledger.outstanding.Nodup) (event : Event) :
    client.ledger.Moves (client.handle event).ledger := by
  have added : ∀ action, client.ledger.Moves (putInternal action client).ledger := by
    intro action
    rw [ledger_putInternal]
    exact .add client.ledger
  cases event with
  | putData data path hash => exact added _
  | mergeData data path => exact added _
  | listen query => exact .of_eq (ledger_listen client query)
  | unlisten query => exact .of_eq (ledger_unlisten client query)
  | refreshAuthToken token => exact .of_eq (ledger_refreshAuthToken client token)
  | purgeOutstandingWrites => exact moves_purgeOutstandingWrites client
  | interruptForReason reason => exact moves_interruptForReason client reason
  | resumeForReason reason => exact .of_eq (ledger_resumeForReason client reason)
  | reachable => exact .of_eq (ledger_reachable client)
  | retry => exact .of_eq (ledger_check { client with scheduledRetry := false } _ _)
  | onToken attempt result => exact .of_eq (ledger_onToken client attempt result)
  | onReady => exact .of_eq (ledger_onReady client)
  | onDisconnect => exact moves_onDisconnect client
  | onKill => exact (moves_interruptForReason client _).trans (moves_closeRealtime _)
  | onAuthRevoked => exact moves_closeRealtime { client with authToken := none }
  | onListenRevoked path => exact .of_eq rfl
  | onDataMessage rn status => exact moves_onDataMessage client distinct rn status

/-! ## Whole runs -/

variable {client}

/-- New writes have new numbers, so no number is given twice. -/
theorem Ledger.Moves.nodup {ledger : Ledger} (moves : init.ledger.Moves ledger) :
    ledger.all.Nodup :=
  moves.all.nodup_iff.mpr (List.nodup_range' 1)

/-- Whole runs move writes, and lose none. -/
theorem moves_of_run {events : List Event} (run : system.Run init events client) :
    init.ledger.Moves client.ledger := by
  refine run.invariant (I := fun client => init.ledger.Moves client.ledger) (.of_eq rfl) ?_
  intro client event _ moves
  have distinct : client.ledger.outstanding.Nodup := (List.nodup_append.mp moves.nodup).2.1
  exact moves.trans (moves_handle client distinct event)

end FPersistentConnection

end DocumentRelay
