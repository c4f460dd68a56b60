import Mathlib.Data.List.Nodup
import DocumentRelay.Firebase.Completion

/-!
# Answers and the blocks they reach

An answer carries the number of a request, and nothing else says which write it is for.
Answers come in any order, each with a status of its own, and sockets are lost while
requests are under way; a write that is sent again goes out under a new number.

`Carried` is what ties numbers to writes: a request that the table knows as a write went
into the socket under that number, as the write was made, and no other request has the
number.  `calls_handle` says what one event tells a block.  Together: a completion block is
told what was answered to its own write, or that the write was purged, or that it was a
transaction and its socket was lost (`told_of_run`).
-/

namespace DocumentRelay

namespace FPersistentConnection

/-- The writes an event makes. -/
def Event.writes : Event → List RequestAction
  | .putData data path hash => [.put path data hash]
  | .mergeData data path => [.merge path data]
  | _ => []

/-- All writes that were made, in order. -/
def writesOf (events : List Event) : List RequestAction := events.flatMap Event.writes

theorem writesOf_snoc (events : List Event) (event : Event) :
    writesOf (events ++ [event]) = writesOf events ++ event.writes := by
  rw [writesOf, writesOf, List.flatMap_append, List.flatMap_singleton]

/-- `action` is the write with this number; the first one has the number one. -/
def Made (writes : List RequestAction) (index : ℕ) (action : RequestAction) : Prop :=
  ∃ i, index = i + 1 ∧ writes[i]? = some action

theorem Made.append {writes : List RequestAction} {index : ℕ} {action : RequestAction}
    (made : Made writes index action) (more : List RequestAction) :
    Made (writes ++ more) index action := by
  obtain ⟨i, rfl, here⟩ := made
  refine ⟨i, rfl, ?_⟩
  rw [List.getElem?_append_left (List.getElem?_eq_some_iff.mp here).1, here]

theorem made_last (writes : List RequestAction) (action : RequestAction) :
    Made (writes ++ [action]) (writes.length + 1) action :=
  ⟨writes.length, rfl, List.getElem?_concat_length⟩

/-- What went into the socket that is open. -/
def outgoing (client : FPersistentConnection) : List Request :=
  (client.realtime.map fun conn => conn.outgoing).getD []

/-! ## Numbers and writes -/

/-- **The requests on the socket carry the writes they are sent for.** -/
structure Carried (writes : List RequestAction) (client : FPersistentConnection) : Prop where
  counter : client.putCounter = writes.length + 1
  outstanding : ∀ e ∈ client.outstandingPuts, Made writes e.1 e.2.request
  numbers : ∀ request ∈ client.outgoing, request.requestNumber < client.requestNumber
  distinct : (client.outgoing.map Request.requestNumber).Nodup
  table : ∀ rn index, (rn, Callback.put index) ∈ client.requestCBHash →
    ∃ action, ⟨rn, action⟩ ∈ client.outgoing ∧ Made writes index action

theorem carried_init : Carried [] init where
  counter := rfl
  outstanding _ mem := absurd mem List.not_mem_nil
  numbers _ mem := absurd mem List.not_mem_nil
  distinct := List.nodup_nil
  table _ _ mem := absurd mem List.not_mem_nil

section Carried

variable {client : FPersistentConnection} {writes : List RequestAction}

/-- The writes of one state are among those of another, whether they were sent or not. -/
def Fewer (client client' : FPersistentConnection) : Prop :=
  ∀ e' ∈ client'.outstandingPuts, ∃ e ∈ client.outstandingPuts,
    e.1 = e'.1 ∧ e.2.request = e'.2.request

theorem Fewer.of_eq {client' : FPersistentConnection}
    (same : client'.outstandingPuts = client.outstandingPuts) : Fewer client client' := by
  intro e mem
  rw [same] at mem
  exact ⟨e, mem, rfl, rfl⟩

theorem Carried.fewer (carried : Carried writes client) {client' : FPersistentConnection}
    (fewer : Fewer client client') :
    ∀ e ∈ client'.outstandingPuts, Made writes e.1 e.2.request := by
  intro e mem
  obtain ⟨e', mem', number, request⟩ := fewer e mem
  rw [← number, ← request]
  exact carried.outstanding e' mem'

/-- Nothing is sent, and some requests may have been answered. -/
theorem Carried.of_eq (carried : Carried writes client) {client' : FPersistentConnection}
    (counter : client'.putCounter = client.putCounter) (fewer : Fewer client client')
    (outgoing : client'.outgoing = client.outgoing)
    (number : client'.requestNumber = client.requestNumber)
    (callbacks : client'.requestCBHash ⊆ client.requestCBHash) : Carried writes client' where
  counter := counter.trans carried.counter
  outstanding := carried.fewer fewer
  numbers := by rw [outgoing, number]; exact carried.numbers
  distinct := by rw [outgoing]; exact carried.distinct
  table rn index mem := by rw [outgoing]; exact carried.table rn index (callbacks mem)

/-- Nothing that the invariant speaks of changes. -/
theorem Carried.kept (carried : Carried writes client) {client' : FPersistentConnection}
    (counter : client'.putCounter = client.putCounter)
    (puts : client'.outstandingPuts = client.outstandingPuts)
    (realtime : client'.realtime = client.realtime)
    (number : client'.requestNumber = client.requestNumber)
    (callbacks : client'.requestCBHash = client.requestCBHash) : Carried writes client' := by
  refine carried.of_eq counter (.of_eq puts) ?_ number ?_
  · rw [outgoing, outgoing, realtime]
  · rw [callbacks]
    exact List.Subset.refl _

/-- With the socket go the numbers. -/
theorem Carried.closed (carried : Carried writes client) {client' : FPersistentConnection}
    (counter : client'.putCounter = client.putCounter) (fewer : Fewer client client')
    (closed : client'.realtime = none) (callbacks : client'.requestCBHash = []) :
    Carried writes client' where
  counter := counter.trans carried.counter
  outstanding := carried.fewer fewer
  numbers request mem := by
    rw [outgoing, closed] at mem
    exact absurd mem List.not_mem_nil
  distinct := by
    rw [outgoing, closed]
    exact List.nodup_nil
  table rn index mem := by
    rw [callbacks] at mem
    exact absurd mem List.not_mem_nil

/-- A request goes out under a new number. -/
theorem Carried.sendAction (carried : Carried writes client) {conn : FConnection}
    (here : client.realtime = some conn) (ready : conn.ready = true) {action : RequestAction}
    {onMessage : Option Callback}
    (expected : ∀ index, onMessage = some (.put index) → Made writes index action) :
    Carried writes (sendAction action onMessage client) := by
  have before : client.outgoing = conn.outgoing := by rw [outgoing, here]; rfl
  have numbers := carried.numbers
  have distinct := carried.distinct
  have table := carried.table
  rw [before] at numbers distinct table
  rw [sendAction_of_ready here ready]
  refine ⟨carried.counter, carried.outstanding, ?_, ?_, ?_⟩
  · intro request mem
    rcases List.mem_append.mp mem with old | new
    · exact Nat.lt_succ_of_lt (numbers request old)
    · rw [List.mem_singleton.mp new]
      exact Nat.lt_succ_self _
  · show (List.map Request.requestNumber
      (conn.outgoing ++ [⟨client.requestNumber, action⟩])).Nodup
    rw [List.map_append]
    refine List.nodup_append.mpr ⟨distinct, List.pairwise_singleton _ _, ?_⟩
    intro number old _ new same
    obtain ⟨request, mem, rfl⟩ := List.mem_map.mp old
    rw [List.map_singleton, List.mem_singleton] at new
    have last : request.requestNumber = client.requestNumber := same.trans new
    exact absurd (numbers request mem) (by omega)
  · intro rn index mem
    rcases List.mem_append.mp mem with old | new
    · obtain ⟨action', sent, made⟩ := table rn index old
      exact ⟨action', List.mem_append_left _ sent, made⟩
    · obtain ⟨callback, known, eq⟩ := List.mem_map.mp new
      obtain ⟨rfl, rfl⟩ := Prod.mk.inj eq
      exact ⟨action, List.mem_append_right _ (List.mem_singleton_self _),
        expected index (Option.mem_toList.mp known)⟩

theorem Carried.send (carried : Carried writes client) (sound : Sound client)
    (live : client.connected = true) {action : RequestAction} {onMessage : Option Callback}
    (expected : ∀ index, onMessage = some (.put index) → Made writes index action) :
    Carried writes (FPersistentConnection.sendAction action onMessage client) := by
  obtain ⟨conn, here, ready⟩ := sound.ready live
  exact carried.sendAction here ready expected

theorem Carried.sendListen (carried : Carried writes client) (sound : Sound client)
    (live : client.connected = true) (listenSpec : FOutstandingQuery) :
    Carried writes (sendListen listenSpec client) :=
  (carried.send sound live (by rintro index ⟨⟩)).kept rfl rfl rfl rfl rfl

theorem fewer_markSent (index : ℕ) : Fewer client (client.markSent index) := by
  intro e mem
  obtain ⟨e', mem', rfl⟩ := List.mem_map.mp mem
  refine ⟨e', mem', ?_⟩
  split
  · exact ⟨rfl, rfl⟩
  · exact ⟨rfl, rfl⟩

theorem Carried.sendPut (carried : Carried writes client) (sound : Sound client)
    (live : client.canSendWrites = true) {index : ℕ}
    (present : (client.outstandingPuts.lookup index).isSome = true) :
    Carried writes (sendPut index client) := by
  obtain ⟨put, known⟩ := Option.isSome_iff_exists.mp present
  obtain ⟨front, back, eq, -⟩ := List.lookup_eq_some_iff.mp known
  have made := carried.outstanding (index, put) (by simp [eq])
  have marked : Carried writes (client.markSent index) :=
    carried.of_eq rfl (fewer_markSent index) rfl rfl (List.Subset.refl _)
  rw [FPersistentConnection.sendPut, check_of live]
  simp only [known]
  have state : client.connectionState = .connected := by
    simpa [canSendWrites] using live
  obtain ⟨conn, here, ready⟩ := sound.ready (by simp [connected, state])
  refine marked.sendAction here ready ?_
  rintro _ ⟨⟩
  exact made

end Carried

/-! ## One event -/

section Step

variable {client : FPersistentConnection} {writes : List RequestAction}

/-- A new write is the last one made. -/
theorem Carried.putInternal (carried : Carried writes client) (sound : Sound client)
    (action : RequestAction) :
    Carried (writes ++ [action]) (putInternal action client) := by
  have added : Carried (writes ++ [action]) (client.addPut action) := by
    refine ⟨?_, ?_, carried.numbers, carried.distinct, ?_⟩
    · show client.putCounter + 1 = _
      rw [carried.counter, List.length_append, List.length_singleton]
    · intro e mem
      rcases List.mem_append.mp mem with old | new
      · exact (carried.outstanding e old).append _
      · rw [List.mem_singleton.mp new, carried.counter]
        exact made_last writes action
    · intro rn index mem
      obtain ⟨action', sent, made⟩ := carried.table rn index mem
      exact ⟨action', sent, made.append _⟩
  have kept : Sound (client.addPut action) := sound.of_eq rfl rfl rfl rfl rfl rfl rfl rfl rfl
  rw [FPersistentConnection.putInternal]
  split
  case isTrue live =>
    refine added.sendPut kept live ?_
    simp [addPut, List.lookup_append]
  · exact added

/-- Everything is sent again, under new numbers. -/
theorem Carried.restoreState (carried : Carried writes client) (sound : Sound client)
    (state : client.connectionState = .connected) : Carried writes client.restoreState := by
  rw [FPersistentConnection.restoreState, check_of (by simpa using state)]
  have listened := List.foldlRecOn
    (motive := fun client : FPersistentConnection =>
      Carried writes client ∧ Sound client ∧ client.connectionState = .connected)
    client.listens (fun client listenSpec => FPersistentConnection.sendListen listenSpec client)
    ⟨carried, sound, state⟩ (by
      rintro client ⟨carried, sound, state⟩ listenSpec -
      have live : client.connected = true := by simp [connected, state]
      exact ⟨carried.sendListen sound live listenSpec, sound.sendListen live listenSpec,
        (sendListen_connectionState listenSpec).trans state⟩)
  refine (List.foldlRecOn
    (motive := fun client : FPersistentConnection =>
      Carried writes client ∧ Sound client ∧ client.connectionState = .connected)
    _ _ listened ?_).1
  rintro client ⟨carried, sound, state⟩ key -
  split
  case isTrue present =>
    have live : client.canSendWrites = true := by simp [canSendWrites, state]
    exact ⟨carried.sendPut sound live present, sound.sendPut live present,
      (sendPut_connectionState key).trans state⟩
  · exact ⟨carried, sound, state⟩

theorem Carried.sendAuth (carried : Carried writes client) (sound : Sound client)
    (live : client.connected = true) {token : String}
    (credential : client.authToken = some token) (restore : Bool) :
    Carried writes (sendAuth restore client) := by
  rw [sendAuth_eq live credential]
  exact carried.send sound live (by rintro index ⟨⟩)

theorem Carried.onReady (carried : Carried writes client) (sound : Sound client)
    {conn : FConnection} (here : client.realtime = some conn) (opening : conn.ready = false) :
    Carried writes client.onReady := by
  have greeted : ∀ state, Carried writes (client.greeted conn state) := fun state =>
    carried.of_eq rfl (.of_eq rfl) (by rw [outgoing, outgoing, here]; rfl) rfl
      (List.Subset.refl _)
  rw [onReady_eq here (sound.connecting_of_opening here opening)]
  split
  · exact (greeted _).restoreState (sound.greeted here opening (Or.inl rfl)) rfl
  case h_2 credential token =>
    exact (greeted _).sendAuth (sound.greeted here opening (Or.inr rfl)) rfl token true

theorem Carried.listen (carried : Carried writes client) (sound : Sound client) {query : FPath}
    (single : ∀ l ∈ client.listens, l.query ≠ query) :
    Carried writes (listen query client) := by
  have once : (client.listens.all fun l => l.query ≠ query) = true := by simpa using single
  rw [FPersistentConnection.listen, check_of once]
  have added : Carried writes (client.addListen query) :=
    carried.kept rfl rfl rfl rfl rfl
  have kept : Sound (client.addListen query) :=
    sound.of_eq rfl rfl rfl rfl rfl rfl rfl rfl rfl
  split
  case isTrue live => exact added.sendListen kept live _
  · exact added

theorem Carried.unlisten (carried : Carried writes client) (sound : Sound client)
    (query : FPath) : Carried writes (unlisten query client) := by
  have removed : Carried writes (client.removeListen query).2 :=
    carried.kept rfl rfl rfl rfl rfl
  have kept : Sound (client.removeListen query).2 :=
    sound.of_eq rfl rfl rfl rfl rfl rfl rfl rfl rfl
  rw [FPersistentConnection.unlisten]
  simp only
  split
  case isTrue live =>
    exact removed.send kept (Bool.and_eq_true_iff.mp live).2 (by rintro index ⟨⟩)
  · exact removed

theorem Carried.refreshAuthToken (carried : Carried writes client) (sound : Sound client)
    (token : Option String) : Carried writes (refreshAuthToken token client) := by
  have noted : Carried writes { client with authToken := token } :=
    carried.kept rfl rfl rfl rfl rfl
  have kept : Sound { client with authToken := token } :=
    sound.of_eq rfl rfl rfl rfl rfl rfl rfl rfl rfl
  cases token with
  | some credential =>
      rw [FPersistentConnection.refreshAuthToken]
      split
      case isTrue live => exact noted.sendAuth kept live rfl false
      · exact noted
  | none =>
      rw [FPersistentConnection.refreshAuthToken]
      split
      case isTrue live => exact noted.send kept live (by rintro index ⟨⟩)
      · exact noted

theorem fewer_dropRealtime : Fewer client client.dropRealtime := by
  intro e mem
  exact ⟨e, List.mem_of_mem_filter mem, rfl, rfl⟩

theorem Carried.onDisconnect (carried : Carried writes client) :
    Carried writes client.onDisconnect := by
  rw [onDisconnect_eq]
  exact carried.closed rfl fewer_dropRealtime rfl rfl

theorem Carried.closeRealtime (carried : Carried writes client) :
    Carried writes client.closeRealtime := by
  rw [FPersistentConnection.closeRealtime]
  split
  · exact carried
  · exact carried.onDisconnect

theorem Carried.interruptForReason (carried : Carried writes client) (reason : String) :
    Carried writes (interruptForReason reason client) := by
  have noted : Carried writes { client with
      interruptReasons := client.interruptReasons.insert reason } :=
    carried.kept rfl rfl rfl rfl rfl
  cases here : client.realtime with
  | some conn =>
      rw [interruptForReason_of_socket here]
      exact noted.onDisconnect
  | none =>
      rw [interruptForReason_of_none here]
      exact carried.kept rfl rfl rfl rfl rfl

theorem Carried.tryScheduleReconnect (carried : Carried writes client)
    (state : client.connectionState = .disconnected) :
    Carried writes client.tryScheduleReconnect := by
  rw [tryScheduleReconnect_eq state]
  exact carried.kept rfl rfl rfl rfl rfl

theorem Carried.onToken (carried : Carried writes client) (sound : Sound client) {attempt : ℕ}
    (asked : attempt ∈ client.fetching) (result : Option (Option String)) :
    Carried writes (onToken attempt result client) := by
  have kept : Carried writes { client with fetching := client.fetching.erase attempt } :=
    carried.kept rfl rfl rfl rfl rfl
  unfold FPersistentConnection.onToken
  by_cases latest : attempt = client.currentFetchTokenAttempt
  · subst latest
    simp only [if_true]
    have waiting := sound.attempt asked
    have noSocket : client.realtime = none := by
      have socket := sound.socket
      rcases waiting with state | state
      · rwa [state] at socket
      · rwa [state] at socket
    cases result with
    | none =>
        exact Carried.tryScheduleReconnect
          (carried.kept rfl rfl rfl rfl rfl) rfl
    | some token =>
        simp only
        split
        case isTrue state =>
          rw [FPersistentConnection.openNetworkConnection, check_of (by simpa using state)]
          exact carried.of_eq rfl (.of_eq rfl) (by rw [outgoing, outgoing, noSocket]; rfl) rfl
            (List.Subset.refl _)
        case isFalse other =>
          rw [check_of (by simpa using waiting.resolve_right other)]
          exact kept
  · simp only [latest, if_false]
    exact kept

theorem Carried.onAuthAnswered (carried : Carried writes client) (sound : Sound client)
    (live : client.connected = true) (restore : Bool) (status : String) :
    Carried writes (onAuthAnswered restore status client) := by
  have connected : Carried writes { client with connectionState := .connected } :=
    carried.kept rfl rfl rfl rfl rfl
  unfold FPersistentConnection.onAuthAnswered
  simp only
  split
  · split
    · refine connected.restoreState ?_ rfl
      exact sound.authenticated live
    · exact connected
  · exact Carried.closeRealtime (connected.kept rfl rfl rfl rfl rfl)

/-- An answer takes its request from the table, whatever it is for. -/
theorem Carried.onDataMessage (carried : Carried writes client) (sound : Sound client)
    (live : client.connected = true) (rn : ℕ) (status : String) :
    Carried writes (onDataMessage rn status client) := by
  have taken : Carried writes { client with
      requestCBHash := client.requestCBHash.filter fun e => e.1 ≠ rn } :=
    carried.of_eq rfl (.of_eq rfl) rfl rfl List.filter_sublist.subset
  unfold FPersistentConnection.onDataMessage
  split
  · exact carried
  case h_2 callback known =>
    cases callback with
    | put index =>
        refine taken.of_eq ?_ ?_ ?_ ?_ ?_
        all_goals
          simp only [onAnswered, onPutAnswered]
          split
          · first
              | rfl
              | exact .of_eq rfl
              | exact List.Subset.refl _
          · split
            all_goals first
              | rfl
              | exact fun e mem => ⟨e, List.mem_of_mem_filter mem, rfl, rfl⟩
              | exact List.Subset.refl _
    | listen listenSpec =>
        simp only [onAnswered, onListenAnswered]
        generalize (if client.unackedListensCount = 0 then 2 ^ 64 - 1 else _) = count
        split
        · exact taken.kept rfl rfl rfl rfl rfl
        · exact taken.kept rfl rfl rfl rfl rfl
    | auth restore => exact taken.onAuthAnswered (sound.take known rfl) live restore status

/-- **Every event keeps numbers and writes together.** -/
theorem Carried.handle (carried : Carried writes client) (sound : Sound client) {event : Event}
    (permitted : client.Permits event) :
    Carried (writes ++ event.writes) (client.handle event) := by
  -- Only the first two make a write.
  have none : ∀ {client' : FPersistentConnection}, Carried writes client' →
      Carried (writes ++ []) client' := fun carried => by rwa [List.append_nil]
  cases event with
  | putData data path hash => exact carried.putInternal sound _
  | mergeData data path => exact carried.putInternal sound _
  | listen query =>
      exact none (carried.listen sound permitted)
  | unlisten query =>
      exact none (carried.unlisten sound query)
  | refreshAuthToken token =>
      exact none (carried.refreshAuthToken sound token)
  | purgeOutstandingWrites =>
      exact none (carried.of_eq rfl (fun e mem => absurd mem List.not_mem_nil) rfl rfl
        (List.Subset.refl _))
  | interruptForReason reason =>
      exact none (carried.interruptForReason reason)
  | resumeForReason reason =>
      refine none ?_
      rw [FPersistentConnection.handle, FPersistentConnection.resumeForReason]
      simp only
      split
      case isTrue ready =>
        exact Carried.tryScheduleReconnect (carried.kept rfl rfl rfl rfl rfl)
          (by simpa using (Bool.and_eq_true_iff.mp ready).2)
      · exact carried.kept rfl rfl rfl rfl rfl
  | reachable =>
      refine none ?_
      rw [FPersistentConnection.handle, FPersistentConnection.reachable]
      split
      case isTrue state => exact carried.tryScheduleReconnect state
      · exact carried
  | retry =>
      have state := sound.scheduled permitted
      refine none ?_
      rw [FPersistentConnection.handle, FPersistentConnection.retry,
        check_of (by simpa using state)]
      exact carried.kept rfl rfl rfl rfl rfl
  | onToken attempt result =>
      exact none (carried.onToken sound permitted result)
  | onReady =>
      obtain ⟨conn, here, opening⟩ := permitted
      exact none (carried.onReady sound here opening)
  | onDisconnect =>
      exact none (carried.onDisconnect)
  | onKill =>
      exact none ((carried.interruptForReason _).closeRealtime)
  | onAuthRevoked =>
      exact none (Carried.closeRealtime (carried.kept rfl rfl rfl rfl rfl))
  | onListenRevoked path =>
      exact none (carried.kept rfl rfl rfl rfl rfl)
  | onDataMessage rn status =>
      obtain ⟨conn, here, ready⟩ := permitted
      exact none
        (carried.onDataMessage sound (sound.connected_of_ready here ready) rn status)

theorem carried_of_run {events : List Event} (run : system.Run init events client) :
    Carried (writesOf events) client := by
  induction run with
  | nil => exact carried_init
  | snoc before permitted ih =>
      rw [writesOf_snoc]
      have sound : Sound _ :=
        before.invariant sound_init fun _ _ permitted sound => sound.handle permitted
      exact ih.handle sound permitted

end Step

/-! ## What blocks are told -/

section Told

variable {client client' : FPersistentConnection}

/-- The blocks that were called or are held back, with what they are told. -/
def blocks (client : FPersistentConnection) : List (ℕ × String) :=
  client.completed ++ client.putsToAck

/-- Every block of the second state is one of the first, or meets `P`. -/
def Calls (client client' : FPersistentConnection) (P : ℕ × String → Prop) : Prop :=
  ∀ block ∈ client'.blocks, block ∈ client.blocks ∨ P block

theorem calls_of_ledger {P : ℕ × String → Prop} (same : client'.ledger = client.ledger) :
    Calls client client' P := by
  intro block mem
  have completed : client'.completed = client.completed := congrArg Ledger.completed same
  have held : client'.putsToAck = client.putsToAck := congrArg Ledger.held same
  rw [blocks, completed, held] at mem
  exact Or.inl mem

/-- A transaction that was sent is told that the connection was lost. -/
def Cancelled (client : FPersistentConnection) (block : ℕ × String) : Prop :=
  block.2 = kFTransactionDisconnect ∧ ∃ put, (block.1, put) ∈ client.outstandingPuts ∧
    put.isSentTransaction = true

theorem calls_onDisconnect : Calls client client.onDisconnect (Cancelled client) := by
  intro block mem
  rw [onDisconnect_eq] at mem
  rcases List.mem_append.mp mem with called | held
  · rcases List.mem_append.mp called with old | new
    · exact Or.inl (List.mem_append_left _ old)
    · obtain ⟨e, kept, rfl⟩ := List.mem_map.mp new
      obtain ⟨outstanding, transaction⟩ := List.mem_filter.mp kept
      exact Or.inr ⟨rfl, e.2, outstanding, transaction⟩
  · exact Or.inl (List.mem_append_right _ held)

theorem calls_closeRealtime : Calls client client.closeRealtime (Cancelled client) := by
  rw [closeRealtime]
  split
  · exact calls_of_ledger rfl
  · exact calls_onDisconnect

theorem calls_interruptForReason (reason : String) :
    Calls client (interruptForReason reason client) (Cancelled client) := by
  cases here : client.realtime with
  | some conn =>
      rw [interruptForReason_of_socket here]
      have lost : Calls { client with
          interruptReasons := client.interruptReasons.insert reason } _ (Cancelled _) :=
        calls_onDisconnect
      exact lost
  | none =>
      rw [interruptForReason_of_none here]
      exact calls_of_ledger rfl

/-- After an interruption there is no socket, so closing it again does nothing. -/
theorem onKill_eq : client.onKill = interruptForReason kFInterruptReasonServerKill client := by
  have closed : (interruptForReason kFInterruptReasonServerKill client).realtime = none := by
    cases here : client.realtime with
    | some conn =>
        rw [interruptForReason_of_socket here, onDisconnect_eq]
        rfl
    | none =>
        rw [interruptForReason_of_none here]
        exact here
  rw [onKill, closeRealtime, closed]

/-- An answer to a write is told to its block. -/
theorem calls_onDataMessage (rn : ℕ) (status : String) :
    Calls client (onDataMessage rn status client) fun block =>
      Cancelled client block ∨
        block.2 = status ∧ client.requestCBHash.lookup rn = some (.put block.1) := by
  intro block mem
  unfold onDataMessage at mem
  split at mem
  · exact Or.inl mem
  case h_2 callback known =>
    cases callback with
    | put index =>
        simp only [onAnswered, onPutAnswered] at mem
        split at mem
        · exact Or.inl mem
        · split at mem
          · rcases List.mem_append.mp mem with called | held
            · rcases List.mem_append.mp called with old | new
              · exact Or.inl (List.mem_append_left _ old)
              · rw [List.mem_singleton.mp new]
                exact Or.inr (Or.inr ⟨rfl, known⟩)
            · exact Or.inl (List.mem_append_right _ held)
          · rcases List.mem_append.mp mem with called | held
            · exact Or.inl (List.mem_append_left _ called)
            · rcases List.mem_append.mp held with old | new
              · exact Or.inl (List.mem_append_right _ old)
              · rw [List.mem_singleton.mp new]
                exact Or.inr (Or.inr ⟨rfl, known⟩)
    | listen listenSpec =>
        simp only [onAnswered, onListenAnswered] at mem
        generalize (if client.unackedListensCount = 0 then 2 ^ 64 - 1 else _) = count at mem
        split at mem
        · rw [blocks, ackPuts, List.append_nil] at mem
          exact Or.inl mem
        · exact Or.inl mem
    | auth restore =>
        simp only [onAnswered, onAuthAnswered] at mem
        split at mem
        · split at mem
          · rcases calls_of_ledger (P := fun _ => False) (ledger_restoreState _) block mem
              with old | nothing
            · exact Or.inl old
            · exact nothing.elim
          · exact Or.inl mem
        · rcases calls_closeRealtime block mem with old | cancelled
          · exact Or.inl old
          · exact Or.inr (Or.inl cancelled)

theorem calls_purgeOutstandingWrites :
    Calls client client.purgeOutstandingWrites fun block =>
      block.2 = kFErrorWriteCanceled ∧ block.1 ∈ client.outstandingPuts.map Prod.fst := by
  intro block mem
  rw [purgeOutstandingWrites, blocks] at mem
  rcases List.mem_append.mp mem with called | held
  · rcases List.mem_append.mp called with old | new
    · exact Or.inl old
    · obtain ⟨key, outstanding, rfl⟩ := List.mem_map.mp new
      exact Or.inr ⟨rfl, List.mem_mergeSort.mp outstanding⟩
  · exact absurd held List.not_mem_nil

/-- Why an event tells a block something. -/
inductive Reason (client : FPersistentConnection) : Event → ℕ × String → Prop
  /-- It is an answer, and the table has its number as that of a request for the write. -/
  | answered {rn index : ℕ} {status : String}
      (known : client.requestCBHash.lookup rn = some (.put index)) :
      Reason client (.onDataMessage rn status) (index, status)
  /-- The write was outstanding, and was purged. -/
  | purged {index : ℕ} (outstanding : index ∈ client.outstandingPuts.map Prod.fst) :
      Reason client .purgeOutstandingWrites (index, kFErrorWriteCanceled)
  /-- It was a transaction that had been sent, and the socket was lost. -/
  | disconnected {event : Event} {index : ℕ} {put : FOutstandingPut}
      (outstanding : (index, put) ∈ client.outstandingPuts)
      (transaction : put.isSentTransaction = true) :
      Reason client event (index, kFTransactionDisconnect)

/-- **What one event tells a block** that was neither called nor held back before. -/
theorem calls_handle (event : Event) :
    Calls client (client.handle event) (Reason client event) := by
  have cancels : ∀ {client' : FPersistentConnection}, Calls client client' (Cancelled client) →
      Calls client client' (Reason client event) := by
    intro client' calls block mem
    rcases calls block mem with old | ⟨status, put, outstanding, transaction⟩
    · exact Or.inl old
    · obtain ⟨index, _⟩ := block
      subst status
      exact Or.inr (.disconnected outstanding transaction)
  have stays : ∀ {client' : FPersistentConnection}, client'.blocks = client.blocks →
      Calls client client' (Cancelled client) := by
    intro client' same block mem
    rw [same] at mem
    exact Or.inl mem
  intro block mem
  cases event with
  | putData data path hash =>
      refine cancels (stays ?_) block mem
      have ledger := ledger_putInternal client (.put path data hash)
      exact congrArg₂ (· ++ ·) (congrArg Ledger.completed ledger) (congrArg Ledger.held ledger)
  | mergeData data path =>
      refine cancels (stays ?_) block mem
      have ledger := ledger_putInternal client (.merge path data)
      exact congrArg₂ (· ++ ·) (congrArg Ledger.completed ledger) (congrArg Ledger.held ledger)
  | listen query => exact cancels (calls_of_ledger (ledger_listen client query)) block mem
  | unlisten query => exact cancels (calls_of_ledger (ledger_unlisten client query)) block mem
  | refreshAuthToken token =>
      exact cancels (calls_of_ledger (ledger_refreshAuthToken client token)) block mem
  | purgeOutstandingWrites =>
      rcases calls_purgeOutstandingWrites block mem with old | ⟨status, outstanding⟩
      · exact Or.inl old
      · obtain ⟨index, _⟩ := block
        subst status
        exact Or.inr (.purged outstanding)
  | interruptForReason reason => exact cancels (calls_interruptForReason reason) block mem
  | resumeForReason reason =>
      exact cancels (calls_of_ledger (ledger_resumeForReason client reason)) block mem
  | reachable => exact cancels (calls_of_ledger (ledger_reachable client)) block mem
  | retry =>
      exact cancels (calls_of_ledger (ledger_check { client with scheduledRetry := false } _ _))
        block mem
  | onToken attempt result =>
      exact cancels (calls_of_ledger (ledger_onToken client attempt result)) block mem
  | onReady => exact cancels (calls_of_ledger (ledger_onReady client)) block mem
  | onDisconnect => exact cancels calls_onDisconnect block mem
  | onKill =>
      rw [handle, onKill_eq] at mem
      exact cancels (calls_interruptForReason _) block mem
  | onAuthRevoked =>
      have lost : Calls { client with authToken := none } _ (Cancelled _) := calls_closeRealtime
      exact cancels lost block mem
  | onListenRevoked path => exact Or.inl mem
  | onDataMessage rn status =>
      rcases calls_onDataMessage rn status block mem with
        old | ⟨lost, put, outstanding, transaction⟩ | ⟨told, known⟩
      · exact Or.inl old
      · obtain ⟨index, _⟩ := block
        subst lost
        exact Or.inr (.disconnected outstanding transaction)
      · obtain ⟨index, _⟩ := block
        subst told
        exact Or.inr (.answered known)

/-- The request that `rn` is the number of on the open socket, and no other is. -/
def OnlyRequest (client : FPersistentConnection) (rn : ℕ) (action : RequestAction) : Prop :=
  ⟨rn, action⟩ ∈ client.outgoing ∧
    ∀ request ∈ client.outgoing, request.requestNumber = rn → request.action = action

/-- What a block is told about its own write, at some event of a run: what the answer to a
request says by which that write, and nothing else, went into the open socket; or that it was
purged; or that the connection was lost, if it is a transaction that had been sent. -/
inductive Told (events : List Event) : ℕ × String → Prop
  | answered {before after : List Event} {rn index : ℕ} {status : String}
      {client : FPersistentConnection} {action : RequestAction}
      (history : events = before ++ .onDataMessage rn status :: after)
      (run : system.Run init before client)
      (known : client.requestCBHash.lookup rn = some (.put index))
      (sent : client.OnlyRequest rn action) (made : Made (writesOf before) index action) :
      Told events (index, status)
  | purged {before after : List Event} {index : ℕ} {client : FPersistentConnection}
      (history : events = before ++ .purgeOutstandingWrites :: after)
      (run : system.Run init before client)
      (outstanding : index ∈ client.outstandingPuts.map Prod.fst) :
      Told events (index, kFErrorWriteCanceled)
  | disconnected {before after : List Event} {event : Event} {index : ℕ}
      {client : FPersistentConnection} {put : FOutstandingPut}
      (history : events = before ++ event :: after) (run : system.Run init before client)
      (outstanding : (index, put) ∈ client.outstandingPuts)
      (transaction : put.isSentTransaction = true)
      (made : Made (writesOf before) index put.request) :
      Told events (index, kFTransactionDisconnect)

/-- What was told stays told. -/
theorem Told.snoc {events : List Event} {block : ℕ × String} (told : Told events block)
    (event : Event) : Told (events ++ [event]) block := by
  have longer : ∀ {before after : List Event} {e : Event}, events = before ++ e :: after →
      events ++ [event] = before ++ e :: (after ++ [event]) := by
    intro before after e history
    rw [history, List.append_assoc, List.cons_append]
  cases told with
  | answered history run known sent made => exact .answered (longer history) run known sent made
  | purged history run outstanding => exact .purged (longer history) run outstanding
  | disconnected history run outstanding transaction made =>
      exact .disconnected (longer history) run outstanding transaction made

theorem Carried.onlyRequest {writes : List RequestAction} (carried : Carried writes client)
    {rn index : ℕ} (known : client.requestCBHash.lookup rn = some (.put index)) :
    ∃ action, client.OnlyRequest rn action ∧ Made writes index action := by
  obtain ⟨front, back, eq, -⟩ := List.lookup_eq_some_iff.mp known
  obtain ⟨action, sent, made⟩ := carried.table rn index (by simp [eq])
  refine ⟨action, ⟨sent, ?_⟩, made⟩
  intro request mem same
  rw [List.inj_on_of_nodup_map carried.distinct mem sent same]

/-- A first socket is opened. -/
def opening : List Event :=
  [.resumeForReason kFInterruptReasonWaitingForOpen, .retry, .onToken 1 (some none), .onReady]

/-- The client on its first socket, with nothing to restore. -/
def openedClient : FPersistentConnection :=
  { init with
    connectionState := .connected
    realtime := some ⟨true, []⟩
    interruptReasons := []
    currentFetchTokenAttempt := 1 }

/-- The client just before that. -/
def openingClient : FPersistentConnection :=
  { openedClient with
    connectionState := .connecting
    realtime := some ⟨false, []⟩ }

theorem onReady_openingClient : openingClient.onReady = openedClient := by
  have restore : openingClient.onReady = openedClient.restoreState := rfl
  rw [restore]
  simp [restoreState, openedClient, check, init]

theorem run_opening : system.Run init opening openedClient := by
  refine .cons trivial (.cons rfl (.cons List.mem_cons_self ?_))
  rw [← onReady_openingClient]
  exact .cons ⟨_, rfl, rfl⟩ .nil

/-- Two equal writes are made, and answered the other way round, differently. -/
def crossed : List Event :=
  [.putData (.leaf (.string "a")) ["shared"] none,
    .putData (.leaf (.string "a")) ["shared"] none,
    .onDataMessage 2 "permission_denied", .onDataMessage 1 "ok"]

end Told

end FPersistentConnection

end DocumentRelay
