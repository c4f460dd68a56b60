import DocumentRelay.Firebase.Node

/-!
# The connection to the server

`FPersistentConnection`: one object that outlives the sockets it opens.  It keeps the
user's writes until the server has answered them and sends them again on every new
socket, waits with the answers to writes while listens are unanswered, and decides when
to open a socket at all: not while it is interrupted, one attempt at a time, with a token
fetched first.

Every method is a function on the state.  What the object asks of others is in the
state too: `outgoing` is what went into the socket, `fetching` the attempts a token is
being fetched for, `completed` the completion blocks that were called, with the status
they got.  `raised` is the first assertion that
failed, or exception that was thrown; nothing after it counts.

Left out are the delays between attempts, statistics, the queue of on-disconnect
operations, which the app does not use, what is done with data the server sends, and the
exception that a message with a server error throws.  A request number is a natural number;
the source reads it from an answer as an `int`.
A query is its path, as all queries of the app are; an object is told from an equal one
by the number it was created with.
-/

namespace DocumentRelay

inductive ConnectionState where
  | disconnected
  | gettingToken
  | connecting
  | authenticating
  | connected
  deriving DecidableEq, Repr

/-- The actions of the wire protocol. -/
inductive RequestAction where
  | put (path : FPath) (data : FNode) (hash : Option String)
  | merge (path : FPath) (data : List (FPath × FNode))
  | listen (query : FPath)
  | unlisten (query : FPath)
  | auth (credential : String)
  | unauth

/-- A request, under the number its answer will have. -/
structure Request where
  requestNumber : ℕ
  action : RequestAction

/-- `FOutstandingPut`. -/
structure FOutstandingPut where
  request : RequestAction
  sent : Bool

/-- Is this a transaction, a put with a hash, under way? -/
def FOutstandingPut.isSentTransaction (put : FOutstandingPut) : Bool :=
  put.sent && match put.request with
    | .put _ _ (some _) => true
    | _ => false

/-- `FOutstandingQuery`. -/
structure FOutstandingQuery where
  query : FPath
  serial : ℕ
  deriving DecidableEq

/-- What is done with the answer to a request. -/
inductive Callback where
  | put (index : ℕ)
  | listen (listenSpec : FOutstandingQuery)
  | auth (restoreStateAfterComplete : Bool)

/-- Is this the answer to a listen? -/
def Callback.isListen : Callback → Bool
  | .listen _ => true
  | _ => false

/-- `FConnection`, from `open` to `close`: has the handshake been made, and what was sent
and has not arrived. -/
structure FConnection where
  ready : Bool
  outgoing : List Request

structure FPersistentConnection where
  connectionState : ConnectionState
  realtime : Option FConnection
  listens : List FOutstandingQuery
  listenSerial : ℕ
  outstandingPuts : List (ℕ × FOutstandingPut)
  putCounter : ℕ
  requestNumber : ℕ
  requestCBHash : List (ℕ × Callback)
  unackedListensCount : ℕ
  putsToAck : List (ℕ × String)
  interruptReasons : List String
  scheduledRetry : Bool
  currentFetchTokenAttempt : ℕ
  fetching : List ℕ
  authToken : Option String
  completed : List (ℕ × String)
  raised : Option String

def kFWPResponseForActionStatusOk : String := "ok"

def kFInterruptReasonServerKill : String := "server_kill"

def kFInterruptReasonWaitingForOpen : String := "waiting_for_open"

def kFErrorWriteCanceled : String := "write_canceled"

def kFTransactionDisconnect : String := "disconnect"

namespace FPersistentConnection

/-- `initWithRepoInfo:dispatchQueue:config:`.  An `FAtomicNumber` starts at one. -/
def init : FPersistentConnection where
  connectionState := .disconnected
  realtime := none
  listens := []
  listenSerial := 0
  outstandingPuts := []
  putCounter := 1
  requestNumber := 1
  requestCBHash := []
  unackedListensCount := 0
  putsToAck := []
  interruptReasons := [kFInterruptReasonWaitingForOpen]
  scheduledRetry := false
  currentFetchTokenAttempt := 0
  fetching := []
  authToken := none
  completed := []
  raised := none

/-- `NSAssert`, and `assert`. -/
def check (condition : Bool) (message : String) (self : FPersistentConnection) :
    FPersistentConnection :=
  if condition then self else { self with raised := self.raised.or (some message) }

/-- `connected`. -/
def connected (self : FPersistentConnection) : Bool :=
  self.connectionState = .authenticating || self.connectionState = .connected

/-- `canSendWrites`. -/
def canSendWrites (self : FPersistentConnection) : Bool := self.connectionState = .connected

/-- `shouldReconnect`. -/
def shouldReconnect (self : FPersistentConnection) : Bool := self.interruptReasons.length = 0

/-! ## Sending -/

/-- `sendRequest:sensitive:`, with `sendData:sensitive:` of the socket.  A message to no
socket goes nowhere; one to a socket that is not connected is an error. -/
def sendRequest (request : Request) (self : FPersistentConnection) : FPersistentConnection :=
  match self.realtime with
  | none => self
  | some conn =>
      if conn.ready then
        { self with realtime := some { conn with outgoing := conn.outgoing ++ [request] } }
      else self.check false "Tried to send data on an unconnected FConnection"

/-- `sendAction:body:sensitive:callback:`. -/
def sendAction (action : RequestAction) (onMessage : Option Callback)
    (self : FPersistentConnection) :
    FPersistentConnection :=
  let rn := self.requestNumber
  let self := sendRequest ⟨rn, action⟩ { self with requestNumber := rn + 1 }
  match onMessage with
  | none => self
  | some callback => { self with requestCBHash := self.requestCBHash ++ [(rn, callback)] }

/-- `put.sent = YES`. -/
def markSent (index : ℕ) (self : FPersistentConnection) : FPersistentConnection :=
  { self with outstandingPuts := self.outstandingPuts.map fun entry =>
      if entry.1 = index then (entry.1, { entry.2 with sent := true }) else entry }

/-- `sendPut:`. -/
def sendPut (index : ℕ) (self : FPersistentConnection) : FPersistentConnection :=
  let self := self.check self.canSendWrites "sendPut called when not able to send writes"
  match self.outstandingPuts.lookup index with
  | none => self.check false "put != nil"
  | some put => sendAction put.request (some (.put index)) (self.markSent index)

/-- `sendListen:`. -/
def sendListen (listenSpec : FOutstandingQuery) (self : FPersistentConnection) :
    FPersistentConnection :=
  let self := sendAction (.listen listenSpec.query) (some (.listen listenSpec)) self
  { self with unackedListensCount := self.unackedListensCount + 1 }

/-- `sendUnlisten:queryParams:tagId:`. -/
def sendUnlisten (query : FPath) (self : FPersistentConnection) : FPersistentConnection :=
  sendAction (.unlisten query) none self

/-- `sendAuthAndRestoreStateAfterComplete:`. -/
def sendAuth (restoreStateAfterComplete : Bool) (self : FPersistentConnection) :
    FPersistentConnection :=
  let self := self.check self.connected "Must be connected to send auth"
  match self.authToken with
  | none => self.check false "Can't send auth if there is no credential"
  | some token => sendAction (.auth token) (some (.auth restoreStateAfterComplete)) self

/-- `sendUnauth`. -/
def sendUnauth (self : FPersistentConnection) : FPersistentConnection :=
  sendAction .unauth none self

/-! ## Requests of the repo -/

/-- The first half of `putInternal:`: the write is outstanding, under the next index. -/
def addPut (request : RequestAction) (self : FPersistentConnection) : FPersistentConnection :=
  { self with
    putCounter := self.putCounter + 1
    outstandingPuts := self.outstandingPuts ++ [(self.putCounter, ⟨request, false⟩)] }

/-- `putInternal:forAction:forPath:withHash:withCallback:`. -/
def putInternal (request : RequestAction) (self : FPersistentConnection) :
    FPersistentConnection :=
  if self.canSendWrites then sendPut self.putCounter
    (self.addPut request) else self.addPut request

/-- `putData:forPath:withHash:withCallback:`. -/
def putData (data : FNode) (path : FPath) (hash : Option String)
    (self : FPersistentConnection) :
    FPersistentConnection :=
  putInternal (.put path data hash) self

/-- `mergeData:forPath:withCallback:`. -/
def mergeData (data : List (FPath × FNode)) (path : FPath) (self : FPersistentConnection) :
    FPersistentConnection :=
  putInternal (.merge path data) self

/-- The first half of `listen:`: the query is listened to. -/
def addListen (query : FPath) (self : FPersistentConnection) : FPersistentConnection :=
  { self with
    listens := self.listens ++ [⟨query, self.listenSerial⟩]
    listenSerial := self.listenSerial + 1 }

/-- `listen:tagId:hash:onComplete:`. -/
def listen (query : FPath) (self : FPersistentConnection) : FPersistentConnection :=
  let self := self.check (self.listens.all fun l => l.query ≠ query)
    "listen() called twice for the same query"
  if self.connected then sendListen ⟨query, self.listenSerial⟩ (self.addListen query)
  else self.addListen query

/-- `removeListen:`, with whether there was one. -/
def removeListen (query : FPath) (self : FPersistentConnection) :
    Bool × FPersistentConnection :=
  (self.listens.any fun l => l.query = query,
    { self with listens := self.listens.filter fun l => l.query ≠ query })

/-- `unlisten:tagId:`. -/
def unlisten (query : FPath) (self : FPersistentConnection) : FPersistentConnection :=
  let (outstanding, self) := self.removeListen query
  if outstanding && self.connected then sendUnlisten query self else self

/-- `refreshAuthToken:`. -/
def refreshAuthToken (token : Option String) (self : FPersistentConnection) :
    FPersistentConnection :=
  let self := { self with authToken := token }
  if self.connected then
    match token with
    | some _ => sendAuth false self
    | none => sendUnauth self
  else self

/-- `ackPuts`. -/
def ackPuts (self : FPersistentConnection) : FPersistentConnection :=
  { self with completed := self.completed ++ self.putsToAck, putsToAck := [] }

/-- `purgeOutstandingWrites`. -/
def purgeOutstandingWrites (self : FPersistentConnection) : FPersistentConnection :=
  let self := self.ackPuts
  let keys := (self.outstandingPuts.map Prod.fst).mergeSort
  { self with
    completed := self.completed ++ keys.map fun key => (key, kFErrorWriteCanceled)
    outstandingPuts := [] }

/-! ## Opening a socket -/

/-- `tryScheduleReconnect`, up to the block it schedules. -/
def tryScheduleReconnect (self : FPersistentConnection) : FPersistentConnection :=
  if self.shouldReconnect then
    let self := self.check (self.connectionState = .disconnected) "Not in disconnected state"
    { self with scheduledRetry := true }
  else self

/-- The block that `tryScheduleReconnect` schedules, up to the token's arrival. -/
def retry (self : FPersistentConnection) : FPersistentConnection :=
  let self := { self with scheduledRetry := false }
  let self := self.check (self.connectionState = .disconnected) "Not in disconnected state"
  let thisFetchTokenAttempt := self.currentFetchTokenAttempt + 1
  { self with
    connectionState := .gettingToken
    currentFetchTokenAttempt := thisFetchTokenAttempt
    fetching := self.fetching ++ [thisFetchTokenAttempt] }

/-- `openNetworkConnectionWithToken:`. -/
def openNetworkConnection (token : Option String) (self : FPersistentConnection) :
    FPersistentConnection :=
  let self := self.check (self.connectionState = .gettingToken)
    "Trying to open network connection while in wrong state"
  { self with
    authToken := token
    connectionState := .connecting
    realtime := some ⟨false, []⟩ }

/-- What is done when the token of an attempt arrives, or (`none`) an error. -/
def onToken (thisFetchTokenAttempt : ℕ) (result : Option (Option String))
    (self : FPersistentConnection) : FPersistentConnection :=
  let self := { self with fetching := self.fetching.erase thisFetchTokenAttempt }
  if thisFetchTokenAttempt = self.currentFetchTokenAttempt then
    match result with
    | none => tryScheduleReconnect { self with connectionState := .disconnected }
    | some token =>
        if self.connectionState = .gettingToken then openNetworkConnection token self
        else
          self.check (self.connectionState = .disconnected)
            "Expected connection state disconnected"
  else self

/-- `restoreState`. -/
def restoreState (self : FPersistentConnection) : FPersistentConnection :=
  let self := self.check (self.connectionState = .connected)
    "Should be connected if we're restoring state"
  let self := self.listens.foldl (fun self listenSpec => sendListen listenSpec self) self
  let keys := (self.outstandingPuts.map Prod.fst).mergeSort
  keys.foldl (fun self key =>
    if (self.outstandingPuts.lookup key).isSome then sendPut key self else self) self

/-- `restoreAuth`. -/
def restoreAuth (self : FPersistentConnection) : FPersistentConnection :=
  let self := self.check (self.connectionState = .connecting)
    "Wanted to restore auth, but was in wrong state"
  match self.authToken with
  | none => restoreState { self with connectionState := .connected }
  | some _ => sendAuth true { self with connectionState := .authenticating }

/-- `onReady:atTime:sessionID:`, after the handshake of the socket. -/
def onReady (self : FPersistentConnection) : FPersistentConnection :=
  restoreAuth { self with
    realtime := self.realtime.map fun conn => { conn with ready := true } }

/-! ## Losing a socket -/

/-- `cancelSentTransactions`. -/
def cancelSentTransactions (self : FPersistentConnection) : FPersistentConnection :=
  { self with
    completed := self.completed ++
      (self.outstandingPuts.filter fun entry => entry.2.isSentTransaction).map
        fun entry => (entry.1, kFTransactionDisconnect)
    outstandingPuts := self.outstandingPuts.filter fun entry => !entry.2.isSentTransaction }

/-- What `onDisconnect:withReason:` does before it tries to reconnect. -/
def dropRealtime (self : FPersistentConnection) : FPersistentConnection :=
  { self.cancelSentTransactions with
    connectionState := .disconnected
    realtime := none
    requestCBHash := []
    unackedListensCount := 0 }

/-- `onDisconnect:withReason:`. -/
def onDisconnect (self : FPersistentConnection) : FPersistentConnection :=
  if self.shouldReconnect then self.dropRealtime.tryScheduleReconnect else self.dropRealtime

/-- `[self.realtime close]`, which calls `onDisconnect:` at once. -/
def closeRealtime (self : FPersistentConnection) : FPersistentConnection :=
  match self.realtime with
  | none => self
  | some _ => self.onDisconnect

/-- `interruptForReason:`. -/
def interruptForReason (reason : String) (self : FPersistentConnection) :
    FPersistentConnection :=
  let self := { self with interruptReasons := self.interruptReasons.insert reason }
  match self.realtime with
  | some _ => { self.closeRealtime with realtime := none }
  | none => { self with scheduledRetry := false, connectionState := .disconnected }

/-- `resumeForReason:`. -/
def resumeForReason (reason : String) (self : FPersistentConnection) : FPersistentConnection :=
  let self := { self with interruptReasons := self.interruptReasons.filter fun r => r ≠ reason }
  if self.shouldReconnect && self.connectionState = .disconnected then self.tryScheduleReconnect
  else self

/-- `onKill:withReason:`, and the `close` that follows it. -/
def onKill (self : FPersistentConnection) : FPersistentConnection :=
  (self.interruptForReason kFInterruptReasonServerKill).closeRealtime

/-- `reachabilityCallback` and `enteringForeground`. -/
def reachable (self : FPersistentConnection) : FPersistentConnection :=
  if self.connectionState = .disconnected then self.tryScheduleReconnect else self

/-- `onAuthRevokedWithStatus:andReason:`. -/
def onAuthRevoked (self : FPersistentConnection) : FPersistentConnection :=
  closeRealtime { self with authToken := none }

/-- `onListenRevoked:`, with `removeAllListensAtPath:`. -/
def onListenRevoked (path : FPath) (self : FPersistentConnection) : FPersistentConnection :=
  { self with listens := self.listens.filter fun l => l.query ≠ path }

/-! ## Answers -/

/-- The block `sendPut:` gives to `sendAction:`. -/
def onPutAnswered (index : ℕ) (status : String) (self : FPersistentConnection) :
    FPersistentConnection :=
  match self.outstandingPuts.lookup index with
  | none => self
  | some _ =>
      let self := { self with
        outstandingPuts := self.outstandingPuts.filter fun entry => entry.1 ≠ index }
      if self.unackedListensCount = 0 then
        { self with completed := self.completed ++ [(index, status)] }
      else { self with putsToAck := self.putsToAck ++ [(index, status)] }

/-- The block `sendListen:` gives to `sendAction:`. -/
def onListenAnswered (listenSpec : FOutstandingQuery) (status : String)
    (self : FPersistentConnection) : FPersistentConnection :=
  let listens :=
    if listenSpec ∈ self.listens && status ≠ kFWPResponseForActionStatusOk then
      (self.removeListen listenSpec.query).2.listens
    else self.listens
  -- The count is unsigned: below zero it wraps, and the assertion that it does not become
  -- negative holds anyway.
  let unackedListensCount :=
    if self.unackedListensCount = 0 then 2 ^ 64 - 1 else self.unackedListensCount - 1
  let self := { self with listens, unackedListensCount }
  if self.unackedListensCount = 0 then self.ackPuts else self

/-- The block `sendAuthAndRestoreStateAfterComplete:` gives to `sendAction:`. -/
def onAuthAnswered (restoreStateAfterComplete : Bool) (status : String)
    (self : FPersistentConnection) : FPersistentConnection :=
  let self := { self with connectionState := .connected }
  if status = kFWPResponseForActionStatusOk then
    if restoreStateAfterComplete then self.restoreState else self
  else closeRealtime { self with authToken := none }

/-- The block of a request, called with the answer. -/
def onAnswered (callback : Callback) (status : String) (self : FPersistentConnection) :
    FPersistentConnection :=
  match callback with
  | .put index => self.onPutAnswered index status
  | .listen listenSpec => self.onListenAnswered listenSpec status
  | .auth restoreStateAfterComplete => self.onAuthAnswered restoreStateAfterComplete status

/-- `onDataMessage:withMessage:`, with the answer to a request. -/
def onDataMessage (rn : ℕ) (status : String) (self : FPersistentConnection) :
    FPersistentConnection :=
  match self.requestCBHash.lookup rn with
  | none => self
  | some callback =>
      onAnswered callback status
        { self with requestCBHash := self.requestCBHash.filter fun e => e.1 ≠ rn }

end FPersistentConnection

end DocumentRelay
