import DocumentRelay.Firebase.PersistentConnection
import DocumentRelay.Lib.Run

/-!
# The connection under any order of events

Timers, tokens, sockets, the server and the app act on an `FPersistentConnection` in any
order, and none of them waits for another: a token may arrive after the attempt it was
fetched for was interrupted, a socket may be lost in the middle of authentication.

`Sound` is what always holds.  There is a socket exactly from `connecting` on, and it is
ready from `authenticating` on; a retry is only scheduled while disconnected; the count
of unanswered listens is the number of listens in `requestCBHash`.  So no assertion of
the source fails, nothing is sent into a socket that is not connected, and the count
never wraps (`Sound.raised`, over whole runs `sound_of_run`).
-/

namespace DocumentRelay

namespace FPersistentConnection

/-- What may happen to the connection. -/
inductive Event where
  | putData (data : FNode) (path : FPath) (hash : Option String)
  | mergeData (data : List (FPath × FNode)) (path : FPath)
  | listen (query : FPath)
  | unlisten (query : FPath)
  | refreshAuthToken (token : Option String)
  | purgeOutstandingWrites
  | interruptForReason (reason : String)
  | resumeForReason (reason : String)
  | reachable
  | retry
  | onToken (attempt : ℕ) (result : Option (Option String))
  | onReady
  | onDisconnect
  | onKill
  | onAuthRevoked
  | onListenRevoked (path : FPath)
  | onDataMessage (rn : ℕ) (status : String)

/-- The events a state permits: a query is listened to once at a time, a timer rings if it
was set, a token arrives once if it was asked for, and what comes from a socket needs
one. -/
def Permits (connection : FPersistentConnection) : Event → Prop
  | .listen query => ∀ l ∈ connection.listens, l.query ≠ query
  | .retry => connection.scheduledRetry = true
  | .onToken attempt _ => attempt ∈ connection.fetching
  | .onReady => ∃ conn, connection.realtime = some conn ∧ conn.ready = false
  | .onDisconnect | .onKill => connection.realtime ≠ none
  | .onAuthRevoked | .onListenRevoked _ | .onDataMessage _ _ =>
      ∃ conn, connection.realtime = some conn ∧ conn.ready = true
  | _ => True

/-- What an event does. -/
def handle (connection : FPersistentConnection) : Event → FPersistentConnection
  | .putData data path hash => connection.putData data path hash
  | .mergeData data path => connection.mergeData data path
  | .listen query => connection.listen query
  | .unlisten query => connection.unlisten query
  | .refreshAuthToken token => connection.refreshAuthToken token
  | .purgeOutstandingWrites => connection.purgeOutstandingWrites
  | .interruptForReason reason => connection.interruptForReason reason
  | .resumeForReason reason => connection.resumeForReason reason
  | .reachable => connection.reachable
  | .retry => connection.retry
  | .onToken attempt result => connection.onToken attempt result
  | .onReady => connection.onReady
  | .onDisconnect => connection.onDisconnect
  | .onKill => connection.onKill
  | .onAuthRevoked => connection.onAuthRevoked
  | .onListenRevoked path => connection.onListenRevoked path
  | .onDataMessage rn status => connection.onDataMessage rn status

/-- The connection and all that acts on it. -/
def system : LabelledSystem FPersistentConnection Event where
  enabled := Permits
  step := handle

/-! ## The invariant -/

/-- The socket a state has. -/
def Socket : ConnectionState → Option FConnection → Prop
  | .disconnected, realtime | .gettingToken, realtime => realtime = none
  | .connecting, realtime => ∃ conn, realtime = some conn ∧ conn.ready = false
  | .authenticating, realtime | .connected, realtime =>
      ∃ conn, realtime = some conn ∧ conn.ready = true

/-- **What always holds of a connection.** -/
structure Sound (connection : FPersistentConnection) : Prop where
  raised : connection.raised = none
  socket : Socket connection.connectionState connection.realtime
  scheduled : connection.scheduledRetry = true → connection.connectionState = .disconnected
  attempt : connection.currentFetchTokenAttempt ∈ connection.fetching →
    connection.connectionState = .disconnected ∨ connection.connectionState = .gettingToken
  attempts : ∀ a ∈ connection.fetching, a ≤ connection.currentFetchTokenAttempt
  fetchedOnce : connection.fetching.Nodup
  unacked : connection.unackedListensCount =
    (connection.requestCBHash.filter fun e => e.2.isListen).length
  numbered : ∀ e ∈ connection.requestCBHash, e.1 < connection.requestNumber
  distinct : (connection.requestCBHash.map Prod.fst).Nodup

/-- A new connection is sound: it is disconnected, and nothing was asked for. -/
theorem sound_init : Sound init where
  raised := rfl
  socket := rfl
  scheduled := fun h => absurd h (by simp [init])
  attempt := fun mem => absurd mem List.not_mem_nil
  attempts := fun _ mem => absurd mem List.not_mem_nil
  fetchedOnce := List.nodup_nil
  unacked := rfl
  numbered := fun _ mem => absurd mem List.not_mem_nil
  distinct := List.nodup_nil

/-! ## Sending -/

variable {connection : FPersistentConnection}

@[simp] theorem check_true (message : String) :
    connection.check true message = connection := rfl

/-- An assertion whose condition holds does nothing. -/
theorem check_of {condition : Bool} (holds : condition = true) (message : String) :
    connection.check condition message = connection := by
  rw [holds, check_true]

/-- Requests are sent while authenticating and while connected; there is a ready socket
then. -/
theorem Sound.ready (sound : Sound connection) (live : connection.connected = true) :
    ∃ conn, connection.realtime = some conn ∧ conn.ready = true := by
  have socket := sound.socket
  rw [connected, Bool.or_eq_true, decide_eq_true_eq, decide_eq_true_eq] at live
  rcases live with state | state
  · rwa [state] at socket
  · rwa [state] at socket

/-- A socket that is not ready yet is one that is being opened. -/
theorem Sound.connecting_of_opening (sound : Sound connection) {conn : FConnection}
    (here : connection.realtime = some conn) (opening : conn.ready = false) :
    connection.connectionState = .connecting := by
  have socket := sound.socket
  rw [here] at socket
  cases state : connection.connectionState with
  | connecting => rfl
  | disconnected | gettingToken =>
      rw [state] at socket
      cases socket
  | authenticating | connected =>
      rw [state] at socket
      obtain ⟨_, same, ready⟩ := socket
      rw [← Option.some.inj same, opening] at ready
      cases ready

theorem Sound.connected_of_ready (sound : Sound connection) {conn : FConnection}
    (here : connection.realtime = some conn) (ready : conn.ready = true) :
    connection.connected = true := by
  have socket := sound.socket
  rw [here] at socket
  cases state : connection.connectionState with
  | authenticating | connected => simp [connected, state]
  | disconnected | gettingToken =>
      rw [state] at socket
      cases socket
  | connecting =>
      rw [state] at socket
      obtain ⟨_, same, opening⟩ := socket
      rw [← Option.some.inj same, ready] at opening
      cases opening

/-- What sending does on a socket that is ready. -/
theorem sendAction_of_ready {conn : FConnection} (here : connection.realtime = some conn)
    (ready : conn.ready = true) (action : RequestAction) (onMessage : Option Callback) :
    sendAction action onMessage connection =
      { connection with
        requestNumber := connection.requestNumber + 1
        realtime := some { conn with
          outgoing := conn.outgoing ++ [⟨connection.requestNumber, action⟩] }
        requestCBHash := connection.requestCBHash ++
          onMessage.toList.map fun callback => (connection.requestNumber, callback) } := by
  cases onMessage <;> simp [sendAction, sendRequest, here, ready]

/-- Sending, with the count of unanswered listens kept up. -/
theorem Sound.transmit (sound : Sound connection) (live : connection.connected = true)
    {conn : FConnection} (ready : conn.ready = true) (request : Request)
    (onMessage : Option Callback) {count : ℕ}
    (counted : count = connection.unackedListensCount +
      (onMessage.toList.filter fun callback => callback.isListen).length) :
    Sound { connection with
      requestNumber := connection.requestNumber + 1
      realtime := some { conn with outgoing := conn.outgoing ++ [request] }
      requestCBHash := connection.requestCBHash ++
        onMessage.toList.map fun callback => (connection.requestNumber, callback)
      unackedListensCount := count } := by
  refine ⟨sound.raised, ?_, sound.scheduled, sound.attempt, sound.attempts, sound.fetchedOnce,
    ?_, ?_, ?_⟩
  · rw [connected, Bool.or_eq_true, decide_eq_true_eq, decide_eq_true_eq] at live
    rcases live with state | state
    · simp only [state]
      exact ⟨_, rfl, ready⟩
    · simp only [state]
      exact ⟨_, rfl, ready⟩
  · rw [counted, sound.unacked]
    cases onMessage with
    | none => simp
    | some callback => cases isListen : callback.isListen <;> simp [isListen]
  · intro e mem
    rcases List.mem_append.mp mem with old | new
    · exact Nat.lt_succ_of_lt (sound.numbered e old)
    · obtain ⟨callback, -, rfl⟩ := List.mem_map.mp new
      exact Nat.lt_succ_self _
  · cases onMessage with
    | none => simpa using sound.distinct
    | some callback =>
        simp only [Option.toList_some, List.map_cons, List.map_nil, List.map_append]
        refine List.nodup_append.mpr ⟨sound.distinct, List.pairwise_singleton _ _, ?_⟩
        intro key old _ new same
        obtain ⟨e, mem, rfl⟩ := List.mem_map.mp old
        obtain rfl := List.mem_singleton.mp new
        exact absurd (sound.numbered e mem) (by omega)

/-- Sending a request that is no listen.  The count of listens stays. -/
theorem Sound.send (sound : Sound connection) (live : connection.connected = true)
    (action : RequestAction) {onMessage : Option Callback}
    (other : ∀ callback ∈ onMessage, callback.isListen = false) :
    Sound (sendAction action onMessage connection) := by
  obtain ⟨conn, here, ready⟩ := sound.ready live
  rw [sendAction_of_ready here ready]
  refine sound.transmit live ready _ onMessage ?_
  cases onMessage with
  | none => rfl
  | some callback => simp [other callback rfl]

/-- Sending a listen.  There is one more to be answered. -/
theorem Sound.sendListen (sound : Sound connection) (live : connection.connected = true)
    (listenSpec : FOutstandingQuery) : Sound (sendListen listenSpec connection) := by
  obtain ⟨conn, here, ready⟩ := sound.ready live
  rw [FPersistentConnection.sendListen, sendAction_of_ready here ready]
  exact sound.transmit live ready _ (some (.listen listenSpec)) rfl

/-- Fields that the invariant does not speak of may change. -/
theorem Sound.of_eq (sound : Sound connection) {connection' : FPersistentConnection}
    (raised : connection'.raised = connection.raised)
    (state : connection'.connectionState = connection.connectionState)
    (realtime : connection'.realtime = connection.realtime)
    (scheduled : connection'.scheduledRetry = connection.scheduledRetry)
    (attempt : connection'.currentFetchTokenAttempt = connection.currentFetchTokenAttempt)
    (fetching : connection'.fetching = connection.fetching)
    (unacked : connection'.unackedListensCount = connection.unackedListensCount)
    (number : connection'.requestNumber = connection.requestNumber)
    (callbacks : connection'.requestCBHash = connection.requestCBHash) : Sound connection' where
  raised := raised.trans sound.raised
  socket := by rw [state, realtime]; exact sound.socket
  scheduled := by rw [state, scheduled]; exact sound.scheduled
  attempt := by rw [attempt, fetching, state]; exact sound.attempt
  attempts := by rw [attempt, fetching]; exact sound.attempts
  fetchedOnce := by rw [fetching]; exact sound.fetchedOnce
  unacked := by rw [unacked, callbacks]; exact sound.unacked
  numbered := by rw [number, callbacks]; exact sound.numbered
  distinct := by rw [callbacks]; exact sound.distinct

/-- `sendPut:` is called with the index of an outstanding write, so neither of its assertions
fails. -/
theorem Sound.sendPut (sound : Sound connection) (live : connection.canSendWrites = true)
    {index : ℕ} (present : (connection.outstandingPuts.lookup index).isSome = true) :
    Sound (sendPut index connection) := by
  obtain ⟨put, here⟩ := Option.isSome_iff_exists.mp present
  rw [FPersistentConnection.sendPut, check_of live]
  simp only [here]
  have kept : Sound (connection.markSent index) :=
    sound.of_eq rfl rfl rfl rfl rfl rfl rfl rfl rfl
  refine kept.send ?_ put.request ?_
  · rw [canSendWrites, decide_eq_true_eq] at live
    simp [connected, markSent, live]
  · rintro callback ⟨⟩
    rfl

/-! ## The requests of the repo -/

/-- A new write is outstanding at once, and sent if writes can be sent. -/
theorem Sound.putInternal (sound : Sound connection) (request : RequestAction) :
    Sound (putInternal request connection) := by
  have added : Sound (connection.addPut request) :=
    sound.of_eq rfl rfl rfl rfl rfl rfl rfl rfl rfl
  rw [FPersistentConnection.putInternal]
  split
  case isTrue live =>
    refine added.sendPut live ?_
    simp [addPut, List.lookup_append]
  · exact added

/-- `listen:` asserts that the query is not listened to yet, which its caller promises. -/
theorem Sound.listen (sound : Sound connection) {query : FPath}
    (single : ∀ l ∈ connection.listens, l.query ≠ query) : Sound (listen query connection) := by
  have once : (connection.listens.all fun l => l.query ≠ query) = true := by simpa using single
  rw [FPersistentConnection.listen, check_of once]
  have added : Sound (connection.addListen query) :=
    sound.of_eq rfl rfl rfl rfl rfl rfl rfl rfl rfl
  split
  case isTrue live => exact added.sendListen live _
  · exact added

theorem Sound.unlisten (sound : Sound connection) (query : FPath) :
    Sound (unlisten query connection) := by
  have removed : Sound (connection.removeListen query).2 :=
    sound.of_eq rfl rfl rfl rfl rfl rfl rfl rfl rfl
  rw [FPersistentConnection.unlisten]
  simp only
  split
  case isTrue live => exact removed.send (Bool.and_eq_true_iff.mp live).2 _ (by simp)
  · exact removed

theorem sendAuth_eq (live : connection.connected = true) {token : String}
    (credential : connection.authToken = some token) (restore : Bool) :
    sendAuth restore connection =
      sendAction (.auth token) (some (.auth restore)) connection := by
  rw [FPersistentConnection.sendAuth, check_of live, credential]

theorem Sound.sendAuth (sound : Sound connection) (live : connection.connected = true)
    {token : String} (credential : connection.authToken = some token) (restore : Bool) :
    Sound (sendAuth restore connection) := by
  rw [sendAuth_eq live credential]
  exact sound.send live _ (by rintro callback ⟨⟩; rfl)

/-- A new token is sent over a live connection; no token takes the old one back. -/
theorem Sound.refreshAuthToken (sound : Sound connection) (token : Option String) :
    Sound (refreshAuthToken token connection) := by
  have kept : Sound { connection with authToken := token } :=
    sound.of_eq rfl rfl rfl rfl rfl rfl rfl rfl rfl
  cases token with
  | some credential =>
      rw [FPersistentConnection.refreshAuthToken]
      split
      case isTrue live => exact kept.sendAuth live rfl false
      · exact kept
  | none =>
      rw [FPersistentConnection.refreshAuthToken]
      split
      case isTrue live => exact kept.send live _ (by simp)
      · exact kept

/-! ## Opening a socket -/

theorem Sound.tryScheduleReconnect (sound : Sound connection)
    (state : connection.connectionState = .disconnected) :
    Sound connection.tryScheduleReconnect := by
  rw [FPersistentConnection.tryScheduleReconnect]
  split
  · rw [check_of (by simpa using state)]
    exact { sound with scheduled := fun _ => state }
  · exact sound

/-- The timer was set while disconnected, and whatever leaves that state takes it back. -/
theorem Sound.retry (sound : Sound connection) (set : connection.scheduledRetry = true) :
    Sound connection.retry := by
  have state := sound.scheduled set
  have socket := sound.socket
  rw [state] at socket
  rw [FPersistentConnection.retry, check_of (by simpa using state)]
  exact { sound with
    socket := socket
    scheduled := fun h => absurd h Bool.false_ne_true
    attempt := fun _ => Or.inr rfl
    attempts := by
      intro a mem
      rcases List.mem_append.mp mem with old | new
      · exact Nat.le_succ_of_le (sound.attempts a old)
      · exact (List.mem_singleton.mp new).le
    fetchedOnce := by
      refine List.nodup_append.mpr ⟨sound.fetchedOnce, List.pairwise_singleton _ _, ?_⟩
      intro a old _ new same
      rw [same, List.mem_singleton.mp new] at old
      exact Nat.not_succ_le_self _ (sound.attempts _ old) }

/-- A token may be late.  If its attempt is not the last one, it is dropped; if it is, the
connection is waiting for it or was interrupted meanwhile. -/
theorem Sound.onToken (sound : Sound connection) {attempt : ℕ}
    (asked : attempt ∈ connection.fetching)
    (result : Option (Option String)) : Sound (onToken attempt result connection) := by
  have answered : connection.currentFetchTokenAttempt ∈ connection.fetching.erase attempt →
      attempt ≠ connection.currentFetchTokenAttempt := by
    rintro mem rfl
    exact (List.Nodup.mem_erase_iff sound.fetchedOnce).mp mem |>.1 rfl
  have kept : Sound { connection with fetching := connection.fetching.erase attempt } :=
    { sound with
      attempt := fun mem => sound.attempt (List.mem_of_mem_erase mem)
      attempts := fun a mem => sound.attempts a (List.mem_of_mem_erase mem)
      fetchedOnce := sound.fetchedOnce.erase attempt }
  unfold FPersistentConnection.onToken
  by_cases latest : attempt = connection.currentFetchTokenAttempt
  · subst latest
    simp only [if_true]
    have waiting := sound.attempt asked
    have noSocket : connection.realtime = none := by
      have socket := sound.socket
      rcases waiting with state | state
      · rwa [state] at socket
      · rwa [state] at socket
    cases result with
    | none =>
        refine Sound.tryScheduleReconnect ?_ rfl
        exact { kept with
          socket := noSocket
          scheduled := fun _ => rfl
          attempt := fun _ => Or.inl rfl }
    | some token =>
        simp only
        split
        case isTrue state =>
          rw [FPersistentConnection.openNetworkConnection, check_of (by simpa using state)]
          exact { kept with
            socket := ⟨_, rfl, rfl⟩
            scheduled := fun set => absurd (state.symm.trans (sound.scheduled set)) (by simp)
            attempt := fun mem => absurd rfl (answered mem) }
        case isFalse other =>
          rw [check_of (by simpa using waiting.resolve_right other)]
          exact kept
  · simp only [latest, if_false]
    exact kept

@[simp] theorem check_connectionState (condition : Bool) (message : String) :
    (connection.check condition message).connectionState = connection.connectionState := by
  unfold check
  split <;> rfl

theorem sendAction_connectionState (action : RequestAction) (onMessage : Option Callback) :
    (sendAction action onMessage connection).connectionState = connection.connectionState := by
  have sent : ∀ request, (sendRequest request { connection with
      requestNumber := connection.requestNumber + 1 }).connectionState =
        connection.connectionState := by
    intro request
    unfold sendRequest
    split
    · rfl
    · split
      · rfl
      · simp
  cases onMessage with
  | none => exact sent _
  | some callback => exact sent _

theorem sendListen_connectionState (listenSpec : FOutstandingQuery) :
    (sendListen listenSpec connection).connectionState = connection.connectionState :=
  sendAction_connectionState _ _

theorem sendPut_connectionState (index : ℕ) :
    (sendPut index connection).connectionState = connection.connectionState := by
  unfold sendPut
  simp only
  split
  · simp
  · rw [sendAction_connectionState]
    exact check_connectionState _ _

/-- All listens are sent again, then all outstanding writes, in order.  Each step leaves the
connection connected, which the next one asserts. -/
theorem Sound.restoreState (sound : Sound connection)
    (state : connection.connectionState = .connected) : Sound connection.restoreState := by
  rw [FPersistentConnection.restoreState, check_of (by simpa using state)]
  have listened := List.foldlRecOn
    (motive := fun connection => Sound connection ∧ connection.connectionState = .connected)
    connection.listens
      (fun connection listenSpec => FPersistentConnection.sendListen listenSpec connection)
    ⟨sound, state⟩ (by
      rintro connection ⟨sound, state⟩ listenSpec -
      exact ⟨sound.sendListen (by simp [connected, state]) listenSpec,
        (sendListen_connectionState listenSpec).trans state⟩)
  refine (List.foldlRecOn
    (motive := fun connection => Sound connection ∧ connection.connectionState = .connected)
    _ _ listened ?_).1
  rintro connection ⟨sound, state⟩ key -
  split
  case isTrue present =>
    exact ⟨sound.sendPut (by simp [canSendWrites, state]) present,
      (sendPut_connectionState key).trans state⟩
  · exact ⟨sound, state⟩

/-- The connection on a socket that has just been greeted. -/
def greeted (connection : FPersistentConnection) (conn : FConnection)
    (state : ConnectionState) :
    FPersistentConnection :=
  { connection with
    realtime := some { conn with ready := true }
    connectionState := state }

theorem onReady_eq {conn : FConnection} (here : connection.realtime = some conn)
    (state : connection.connectionState = .connecting) :
    connection.onReady =
      match connection.authToken with
      | none => (connection.greeted conn .connected).restoreState
      | some _ => (connection.greeted conn .authenticating).sendAuth true := by
  rw [FPersistentConnection.onReady, restoreAuth, check_of (by simpa using state), here]
  rfl

/-- A socket that is ready puts the connection in one of the two live states. -/
theorem Sound.greeted (sound : Sound connection) {conn : FConnection}
    (here : connection.realtime = some conn) (opening : conn.ready = false)
    {state : ConnectionState} (live : state = .connected ∨ state = .authenticating) :
    Sound (connection.greeted conn state) := by
  have before := sound.connecting_of_opening here opening
  have unscheduled : ¬ connection.scheduledRetry = true := fun set =>
    absurd (before.symm.trans (sound.scheduled set)) (by simp)
  have unasked : ¬ connection.currentFetchTokenAttempt ∈ connection.fetching := fun mem => by
    rcases sound.attempt mem with h | h
    · exact absurd (before.symm.trans h) (by simp)
    · exact absurd (before.symm.trans h) (by simp)
  exact { sound with
    socket := by rcases live with rfl | rfl <;> exact ⟨_, rfl, rfl⟩
    scheduled := fun set => absurd set unscheduled
    attempt := fun mem => absurd mem unasked }

/-- After the handshake the token is sent first, if there is one, and the rest is restored when
it is accepted. -/
theorem Sound.onReady (sound : Sound connection) {conn : FConnection}
    (here : connection.realtime = some conn) (opening : conn.ready = false) :
    Sound connection.onReady := by
  rw [onReady_eq here (sound.connecting_of_opening here opening)]
  split
  · exact (sound.greeted here opening (Or.inl rfl)).restoreState rfl
  case h_2 credential token =>
    exact (sound.greeted here opening (Or.inr rfl)).sendAuth rfl token true

/-! ## Losing a socket -/

/-- With the socket go the requests that wait for an answer on it. -/
theorem Sound.dropRealtime (sound : Sound connection) : Sound connection.dropRealtime where
  raised := sound.raised
  socket := rfl
  scheduled := fun _ => rfl
  attempt := fun _ => Or.inl rfl
  attempts := sound.attempts
  fetchedOnce := sound.fetchedOnce
  unacked := rfl
  numbered := fun _ mem => absurd mem List.not_mem_nil
  distinct := List.nodup_nil

/-- Whatever was going on, losing the socket leaves a sound connection. -/
theorem Sound.onDisconnect (sound : Sound connection) : Sound connection.onDisconnect := by
  unfold FPersistentConnection.onDisconnect
  split
  · exact sound.dropRealtime.tryScheduleReconnect rfl
  · exact sound.dropRealtime

theorem Sound.closeRealtime (sound : Sound connection) : Sound connection.closeRealtime := by
  unfold FPersistentConnection.closeRealtime
  split
  · exact sound
  · exact sound.onDisconnect

/-- Without a socket, trying to reconnect sets the timer. -/
theorem tryScheduleReconnect_eq (state : connection.connectionState = .disconnected) :
    connection.tryScheduleReconnect =
      { connection with
        scheduledRetry := connection.shouldReconnect || connection.scheduledRetry } := by
  unfold FPersistentConnection.tryScheduleReconnect
  split
  case isTrue wanted => rw [check_of (by simpa using state), wanted, Bool.true_or]
  case isFalse unwanted => simp [unwanted]

theorem onDisconnect_eq :
    connection.onDisconnect =
      { connection.dropRealtime with
        scheduledRetry := connection.shouldReconnect || connection.scheduledRetry } := by
  unfold FPersistentConnection.onDisconnect
  split
  · exact tryScheduleReconnect_eq rfl
  case isFalse unwanted =>
    rw [Bool.not_eq_true] at unwanted
    rw [unwanted, Bool.false_or]
    rfl

/-- An interruption loses the socket, if there is one. -/
theorem interruptForReason_of_socket {conn : FConnection}
    (here : connection.realtime = some conn)
    (reason : String) :
    interruptForReason reason connection =
      FPersistentConnection.onDisconnect { connection with
        interruptReasons := connection.interruptReasons.insert reason } := by
  unfold FPersistentConnection.interruptForReason FPersistentConnection.closeRealtime
  simp only [here]
  rw [onDisconnect_eq]
  rfl

theorem interruptForReason_of_none (closed : connection.realtime = none) (reason : String) :
    interruptForReason reason connection = { connection with
      interruptReasons := connection.interruptReasons.insert reason
      scheduledRetry := false
      connectionState := .disconnected } := by
  unfold FPersistentConnection.interruptForReason
  simp only [closed]

/-- An interruption closes the socket, or takes back the attempt to open one. -/
theorem Sound.interruptForReason (sound : Sound connection) (reason : String) :
    Sound (interruptForReason reason connection) := by
  have noted : Sound { connection with
      interruptReasons := connection.interruptReasons.insert reason } :=
    sound.of_eq rfl rfl rfl rfl rfl rfl rfl rfl rfl
  cases here : connection.realtime with
  | some conn =>
      rw [interruptForReason_of_socket here]
      exact noted.onDisconnect
  | none =>
      rw [interruptForReason_of_none here]
      exact { noted with
        socket := here
        scheduled := fun set => absurd set Bool.false_ne_true
        attempt := fun _ => Or.inl rfl }

theorem Sound.resumeForReason (sound : Sound connection) (reason : String) :
    Sound (resumeForReason reason connection) := by
  have noted : Sound { connection with
      interruptReasons := connection.interruptReasons.filter fun r => r ≠ reason } :=
    sound.of_eq rfl rfl rfl rfl rfl rfl rfl rfl rfl
  rw [FPersistentConnection.resumeForReason]
  simp only
  split
  case isTrue ready =>
      exact noted.tryScheduleReconnect (by simpa using (Bool.and_eq_true_iff.mp ready).2)
  · exact noted

theorem Sound.reachable (sound : Sound connection) : Sound connection.reachable := by
  rw [FPersistentConnection.reachable]
  split
  case isTrue state => exact sound.tryScheduleReconnect state
  · exact sound

/-! ## Answers -/

/-- The answer to a write touches nothing that the invariant speaks of. -/
theorem Sound.onPutAnswered (sound : Sound connection) (index : ℕ) (status : String) :
    Sound (onPutAnswered index status connection) := by
  unfold FPersistentConnection.onPutAnswered
  split
  · exact sound
  · simp only
    split
    · exact sound.of_eq rfl rfl rfl rfl rfl rfl rfl rfl rfl
    · exact sound.of_eq rfl rfl rfl rfl rfl rfl rfl rfl rfl

/-- A connection that can send is connected once the token is accepted. -/
theorem Sound.authenticated (sound : Sound connection) (live : connection.connected = true) :
    Sound { connection with connectionState := .connected } := by
  have waiting : ¬ connection.connectionState = .disconnected ∧
      ¬ connection.connectionState = .gettingToken := by
    constructor
    · intro state
      simp [FPersistentConnection.connected, state] at live
    · intro state
      simp [FPersistentConnection.connected, state] at live
  exact { sound with
    socket := sound.ready live
    scheduled := fun set => absurd (sound.scheduled set) waiting.1
    attempt := fun mem => absurd (sound.attempt mem) (not_or.mpr waiting) }

/-- A refused token closes the socket; an accepted one restores the state, if it was the first
on this socket. -/
theorem Sound.onAuthAnswered (sound : Sound connection) (live : connection.connected = true)
    (restore : Bool) (status : String) : Sound (onAuthAnswered restore status connection) := by
  have connected := sound.authenticated live
  unfold FPersistentConnection.onAuthAnswered
  simp only
  split
  · split
    · exact connected.restoreState rfl
    · exact connected
  · exact Sound.closeRealtime (connected.of_eq rfl rfl rfl rfl rfl rfl rfl rfl rfl)

/-- A request is in the table once. -/
theorem Sound.exists_of_lookup (sound : Sound connection) {rn : ℕ} {callback : Callback}
    (known : connection.requestCBHash.lookup rn = some callback) :
    ∃ before after, connection.requestCBHash = before ++ (rn, callback) :: after ∧
      (connection.requestCBHash.filter fun e => e.1 ≠ rn) = before ++ after := by
  obtain ⟨before, after, eq, -⟩ := List.lookup_eq_some_iff.mp known
  refine ⟨before, after, eq, ?_⟩
  have distinct := sound.distinct
  rw [eq, List.map_append, List.map_cons] at distinct
  obtain ⟨-, tail, apart⟩ := List.nodup_append.mp distinct
  have front : (before.filter fun e => e.1 ≠ rn) = before := by
    refine List.filter_eq_self.mpr fun e mem => decide_eq_true ?_
    exact apart e.1 (List.mem_map_of_mem mem) rn List.mem_cons_self
  have back : (after.filter fun e => e.1 ≠ rn) = after := by
    refine List.filter_eq_self.mpr fun e mem => decide_eq_true ?_
    intro same
    have again : e.1 ∈ after.map Prod.fst := List.mem_map_of_mem mem
    rw [same] at again
    exact (List.nodup_cons.mp tail).1 again
  rw [eq, List.filter_append, List.filter_cons, front, back, if_neg (by simp)]

/-- An answer other than to a listen, taken from the table. -/
theorem Sound.take (sound : Sound connection) {rn : ℕ} {callback : Callback}
    (known : connection.requestCBHash.lookup rn = some callback) {count : ℕ}
    (counted : count + ([callback].filter fun callback => callback.isListen).length =
      connection.unackedListensCount) :
    Sound { connection with
      requestCBHash := connection.requestCBHash.filter fun e => e.1 ≠ rn
      unackedListensCount := count } := by
  obtain ⟨before, after, eq, left⟩ := sound.exists_of_lookup known
  have sublist : (connection.requestCBHash.filter fun e => e.1 ≠ rn).Sublist
      connection.requestCBHash := List.filter_sublist
  refine { sound with
    unacked := ?_
    numbered := fun e mem => sound.numbered e (sublist.subset mem)
    distinct := sound.distinct.sublist (sublist.map Prod.fst) }
  have before_count := sound.unacked
  rw [eq] at before_count
  simp only [left]
  cases isListen : callback.isListen with
  | true =>
      simp [isListen] at counted before_count ⊢
      omega
  | false =>
      simp [isListen] at counted before_count ⊢
      omega

/-- The answer to a listen is one less to wait for; the count does not wrap. -/
theorem Sound.onListenAnswered (sound : Sound connection)
    {listenSpec : FOutstandingQuery} {rn : ℕ}
    (known : connection.requestCBHash.lookup rn = some (.listen listenSpec)) (status : String) :
    Sound (onListenAnswered listenSpec status { connection with
      requestCBHash := connection.requestCBHash.filter fun e => e.1 ≠ rn }) := by
  have positive : connection.unackedListensCount ≠ 0 := by
    obtain ⟨before, after, eq, -⟩ := sound.exists_of_lookup known
    rw [sound.unacked, eq]
    simp [Callback.isListen]
  have taken : Sound { connection with
      requestCBHash := connection.requestCBHash.filter fun e => e.1 ≠ rn
      unackedListensCount := connection.unackedListensCount - 1 } := by
    refine sound.take known ?_
    simp only [List.filter_singleton, Callback.isListen, cond_true, List.length_singleton]
    omega
  unfold FPersistentConnection.onListenAnswered
  simp only [positive, if_false]
  split
  · exact taken.of_eq rfl rfl rfl rfl rfl rfl rfl rfl rfl
  · exact taken.of_eq rfl rfl rfl rfl rfl rfl rfl rfl rfl

/-- Taking an answered request from the table. -/
theorem Sound.onDataMessage (sound : Sound connection)
    (live : connection.connected = true) (rn : ℕ)
    (status : String) : Sound (onDataMessage rn status connection) := by
  unfold FPersistentConnection.onDataMessage
  split
  · exact sound
  case h_2 callback known =>
    cases callback with
    | put index => exact (sound.take known rfl).onPutAnswered index status
    | listen listenSpec => exact sound.onListenAnswered known status
    | auth restore => exact (sound.take known rfl).onAuthAnswered live restore status

/-! ## Whole runs -/

/-- **Every event keeps a sound connection sound.** -/
theorem Sound.handle (sound : Sound connection) {event : Event}
    (permitted : connection.Permits event) :
    Sound (connection.handle event) := by
  cases event with
  | putData data path hash => exact sound.putInternal _
  | mergeData data path => exact sound.putInternal _
  | listen query => exact sound.listen permitted
  | unlisten query => exact sound.unlisten query
  | refreshAuthToken token => exact sound.refreshAuthToken token
  | purgeOutstandingWrites => exact sound.of_eq rfl rfl rfl rfl rfl rfl rfl rfl rfl
  | interruptForReason reason => exact sound.interruptForReason reason
  | resumeForReason reason => exact sound.resumeForReason reason
  | reachable => exact sound.reachable
  | retry => exact sound.retry permitted
  | onToken attempt result => exact sound.onToken permitted result
  | onReady =>
      obtain ⟨conn, here, opening⟩ := permitted
      exact sound.onReady here opening
  | onDisconnect => exact sound.onDisconnect
  | onKill => exact (sound.interruptForReason _).closeRealtime
  | onAuthRevoked =>
      exact Sound.closeRealtime (sound.of_eq rfl rfl rfl rfl rfl rfl rfl rfl rfl)
  | onListenRevoked path => exact sound.of_eq rfl rfl rfl rfl rfl rfl rfl rfl rfl
  | onDataMessage rn status =>
      obtain ⟨conn, here, ready⟩ := permitted
      exact sound.onDataMessage (sound.connected_of_ready here ready) rn status

/-- **In every order of events the connection stays sound.** -/
theorem sound_of_run {events : List Event} (run : system.Run init events connection) :
    Sound connection :=
  run.invariant sound_init fun _ _ permitted sound => sound.handle permitted

/-- A write is made, and a first attempt to connect is interrupted while it waits for the
token, which arrives all the same. -/
theorem sound_of_late_token :
    ∃ connection, system.Run init
      [.putData (.leaf (.string "a")) ["shared"] none,
        .resumeForReason kFInterruptReasonWaitingForOpen,
        .retry, .interruptForReason "background", .onToken 1 (some none)] connection ∧
      Sound connection := by
  have run : system.Run init
      [.putData (.leaf (.string "a")) ["shared"] none,
        .resumeForReason kFInterruptReasonWaitingForOpen,
        .retry, .interruptForReason "background", .onToken 1 (some none)] _ :=
    .cons trivial (.cons trivial (.cons rfl (.cons trivial (.cons List.mem_cons_self .nil))))
  exact ⟨_, run, sound_of_run run⟩

end FPersistentConnection

end DocumentRelay
