import SquimpChat.KeyFetch

/-!
# The client's main thread

`main` of `client.c` from its HELLO on: the wait for `login_ready`, `sqmp_login`, the wait for
`auth_done`, the chat loop and the disconnect. The receiving thread runs the handlers and
`on_disconnected`, each of them one step. A wait is three places: before the call of `sem_wait`,
blocked in it, and behind a call that a signal has interrupted.

SIGINT and SIGTERM reach the main thread only. A signal is pending until `sig_handler` runs,
which the main thread may put off to any later step. Signals of one kind do not queue.

Results:
1. `beginChat_chatSystem`, `encryptChat_chatSystem`: the chat loop sends what `ChatSystem` sends.
2. `receive_posts`: what a packet does to the semaphores and to `g_interrupted`.
-/

namespace SquimpChat
open Octets

/-! ## 1. The chat loop -/

/-- What `main` does with a line. -/
inductive ChatLine
  | empty | quit | usage | tooLong
  | message (recipient msg : Bytes)
deriving DecidableEq, Repr

def space : UInt8 := 32

/-- The cases of the chat loop for a line of `readline`. -/
def chatLine (line : Bytes) : ChatLine :=
  let recipient := line.takeWhile (· ≠ space)
  let msg := (line.dropWhile (· ≠ space)).drop 1
  if line.isEmpty then .empty
  else if line = [113, 117, 105, 116] ∨ line = [101, 120, 105, 116] then .quit
  else if recipient.isEmpty || msg.isEmpty then .usage
  else if recipient.length > 32 then .tooLong
  else .message recipient msg

namespace Client

variable (env : ClientEnv) (c : Client)

/-- `send_chat` from its `malloc` on. -/
def sendCiphertext (recipient msg : Bytes) : Client :=
  if env.malloc c.trace.length then
    match encryptChat env.ssl c.trace.length c.session.keyFetchResult msg with
    | none => c
    | some (ephemeralPub, nonce, ciphertext) =>
      c.sqmpStreamSend env (c.chatSendPacket recipient ephemeralPub nonce ciphertext)
  else c

/-- The HELLO of `main`. -/
def helloPacket : Packet := ⟨0, .hello ⟨1, (Buf.zero 8).store [1], 1, 65535⟩⟩

end Client

/-! ## 2. The main thread -/

/-- Where the thread is in `while (sem_wait(..) == -1 && errno == EINTR && !g_interrupted)`. -/
inductive WaitPc
  /-- before `sem_wait` -/
  | call
  /-- in `sem_wait`, which has found the count at 0 -/
  | blocked
  /-- `sem_wait` has failed with EINTR -/
  | eintr
deriving DecidableEq, Repr

/-- One step of the loop: the count it leaves, and where it goes on unless it ends. -/
def WaitPc.next (count : Nat) (interrupted : Bool) : WaitPc → Option (Nat × Option WaitPc)
  | .call => some (if count = 0 then (count, some .blocked) else (count - 1, none))
  | .blocked => if count = 0 then none else some (count - 1, none)
  | .eintr => some (count, if interrupted then none else some .call)

/-- Where the main thread is. -/
inductive MainPc
  /-- before the HELLO is sent -/
  | hello
  | loginWait (w : WaitPc)
  /-- `if (!g_interrupted)` before the login -/
  | loginTest
  | login
  | authWait (w : WaitPc)
  /-- `if (!g_interrupted && session.auth_ok)` -/
  | authTest
  /-- `while (!g_interrupted)` -/
  | chatTest
  | readline
  /-- `sem_timedwait` of `send_chat` -/
  | keyWait (recipient msg : Bytes)
  | keyFetched (recipient msg : Bytes)
  /-- `key_fetch_result` is not zero -/
  | keyChecked (recipient msg : Bytes)
  /-- `if (atomic_load(&g_conn_alive))` -/
  | aliveTest
  | bye
  /-- `sqmp_quic_disconnect` -/
  | disconnect
  | done
deriving DecidableEq, Repr

/-- A blocked `sem_wait` fails when a signal is handled. -/
def MainPc.interrupt : MainPc → MainPc
  | .loginWait .blocked => .loginWait .eintr
  | .authWait .blocked => .authWait .eintr
  | pc => pc

inductive MainSignal
  /-- SIGINT of the user -/
  | interrupt
  /-- SIGTERM -/
  | terminate
  /-- SIGINT of `pthread_kill` -/
  | kill
deriving DecidableEq, Repr

/-- The client with its main thread. -/
structure ClientMain where
  client : Client
  pc : MainPc
  pending : List MainSignal
  /-- `g_conn_alive`, until `on_disconnected` -/
  connAlive : Bool
  /-- `sqmp_login` has returned -1 -/
  loginFailed : Bool

inductive MainAction
  /-- the next step of the main thread -/
  | main
  /-- `sqmp_login` with what stdin holds -/
  | login (stdin : Bytes)
  /-- `readline` returns a line or NULL -/
  | line (l : Option Bytes)
  /-- `sem_timedwait` of `send_chat` fails -/
  | timeout
  /-- the user sends a signal -/
  | signal (k : MainSignal)
  /-- the main thread runs `sig_handler` -/
  | deliver (k : MainSignal)
  /-- RECEIVE: `on_stream_recv` -/
  | receive (data : Bytes)
  /-- SHUTDOWN_COMPLETE of the connection: `on_disconnected` -/
  | disconnected
deriving DecidableEq

/-- The actions of the main thread itself. -/
def MainAction.ofMain : MainAction → Bool
  | main | login _ | line _ | timeout => true
  | signal _ | deliver _ | receive _ | disconnected => false

/-- The packet is handed to `sqmp_process_bye`. -/
def isBye (data : Bytes) : Bool := dispatch Client.handles data = .ok (some .bye)

namespace ClientMain

def init : ClientMain := ⟨.init, .hello, [], true, false⟩

variable (env : ClientEnv) (m : ClientMain)

/-- A signal becomes pending. -/
def raise (k : MainSignal) : ClientMain := { m with pending := m.pending.insert k }

/-- `sig_handler` runs. -/
def handle (k : MainSignal) : ClientMain :=
  { m with
    client := { m.client with interrupted := true }
    pending := m.pending.erase k
    pc := m.pc.interrupt }

/-- `on_stream_recv`; the handler of a BYE calls `pthread_kill`. -/
def receive (data : Bytes) : ClientMain :=
  let m' := { m with client := m.client.receive env data }
  if isBye data then m'.raise .kill else m'

def onDisconnected : ClientMain :=
  { m with client := { m.client with interrupted := true }, connAlive := false }.raise .kill

/-- `sqmp_login`. Its result is not looked at. -/
def login (stdin : Bytes) : ClientMain :=
  let r := m.client.sqmpLogin env stdin
  { m with client := r.1, pc := .authWait .call, loginFailed := r.2 ≠ .ok () }

/-- The body of the chat loop up to the wait of `send_chat`. -/
def line : Option Bytes → ClientMain
  | none => { m with pc := .aliveTest }
  | some l =>
    match chatLine l with
    | .quit => { m with pc := .aliveTest }
    | .empty | .usage | .tooLong => { m with pc := .chatTest }
    | .message recipient msg =>
      { m with
        client := m.client.sqmpStreamSend env (m.client.keyReqPacket recipient)
        pc := .keyWait recipient msg }

/-- One step of the main thread that needs nothing from outside; `none` when it is blocked or has
ended. -/
def mainStep : Option ClientMain :=
  match m.pc with
  | .hello =>
    some { m with
      client := m.client.sqmpStreamSend env Client.helloPacket
      pc := .loginWait .call }
  | .loginWait w =>
    (w.next m.client.session.loginReady m.client.interrupted).map fun (count, w) =>
      { m with
        client := m.client.modify fun x => { x with loginReady := count }
        pc := match w with | some w => .loginWait w | none => .loginTest }
  | .loginTest => some { m with pc := if m.client.interrupted then .authWait .call else .login }
  | .login => none
  | .authWait w =>
    (w.next m.client.session.authDone m.client.interrupted).map fun (count, w) =>
      { m with
        client := m.client.modify fun x => { x with authDone := count }
        pc := match w with | some w => .authWait w | none => .authTest }
  | .authTest =>
    some { m with
      pc := if !m.client.interrupted && m.client.session.authOk then .chatTest else .aliveTest }
  | .chatTest => some { m with pc := if m.client.interrupted then .aliveTest else .readline }
  | .readline => none
  | .keyWait recipient msg =>
    if m.client.session.keyFetchSem = 0 then none
    else some { m with
      client := m.client.modify fun x => { x with keyFetchSem := x.keyFetchSem - 1 }
      pc := .keyFetched recipient msg }
  | .keyFetched recipient msg =>
    some { m with
      pc := if m.client.session.keyFetchResult = Buf.zero 32 then .chatTest
        else .keyChecked recipient msg }
  | .keyChecked recipient msg =>
    some { m with client := m.client.sendCiphertext env recipient msg, pc := .chatTest }
  | .aliveTest => some { m with pc := if m.connAlive then .bye else .disconnect }
  | .bye => some { m with client := m.client.sqmpSendBye env, pc := .disconnect }
  -- `closed_sem` is posted behind `on_disconnected`
  | .disconnect => if m.connAlive then none else some { m with pc := .done }
  | .done => none

def step : MainAction → Option ClientMain
  | .main => m.mainStep env
  | .login stdin => if m.pc = .login then some (m.login env stdin) else none
  | .line l => if m.pc = .readline then some (m.line env l) else none
  | .timeout =>
    match m.pc with
    | .keyWait .. => some { m with pc := .chatTest }
    | _ => none
  | .signal k => if k = .kill then none else some (m.raise k)
  | .deliver k => if k ∈ m.pending then some (m.handle k) else none
  | .receive data => if m.connAlive then some (m.receive env data) else none
  | .disconnected => if m.connAlive then some m.onDisconnected else none

end ClientMain

/-! ## 3. The chat loop and `ChatSystem` -/

section ChatSystem

variable {env : ClientEnv} {w : ChatSystem} {call : SendCall}

/-- A line with a message starts a call of `send_chat`. -/
theorem beginChat_chatSystem {m : ClientMain} {l : Bytes}
    (h : chatLine l = .message call.recipient call.msg) (hc : m.client = w.client) :
    (m.line env (some l)).client = (w.beginCall env call).client := by
  rw [ClientMain.line, h, hc]
  rfl

theorem encryptChat_chatSystem :
    (w.encrypt env call).client = w.client.sendCiphertext env call.recipient call.msg := by
  unfold ChatSystem.encrypt Client.sendCiphertext
  dsimp only
  split
  · cases Client.encryptChat env.ssl w.client.trace.length w.client.session.keyFetchResult
      call.msg <;> rfl
  · rfl

end ChatSystem

/-! ## 4. Waits, packets and logins -/

/-- The steps of a wait. -/
inductive WaitStep (count : Nat) (interrupted : Bool) : WaitPc → Nat → Option WaitPc → Prop
  | blocks (h : count = 0) : WaitStep count interrupted .call count (some .blocked)
  | takes {w : WaitPc} (hw : w ≠ .eintr) (h : 0 < count) :
      WaitStep count interrupted w (count - 1) none
  | leaves (h : interrupted = true) : WaitStep count interrupted .eintr count none
  | retries (h : interrupted = false) : WaitStep count interrupted .eintr count (some .call)

theorem WaitPc.next_step {w : WaitPc} {count n : Nat} {interrupted : Bool} {w' : Option WaitPc}
    (h : w.next count interrupted = some (n, w')) : WaitStep count interrupted w n w' := by
  cases w with
  | call =>
    obtain h := Option.some.inj h
    split at h
    · next h0 =>
      cases h
      exact .blocks h0
    · next h0 =>
      cases h
      exact .takes nofun (Nat.pos_of_ne_zero h0)
  | blocked =>
    obtain ⟨h0, h⟩ := Option.ite_none_left_eq_some.mp h
    cases h
    exact .takes nofun (Nat.pos_of_ne_zero h0)
  | eintr =>
    obtain ⟨hn, hw⟩ := Prod.mk.inj (Option.some.inj h)
    subst hn
    split at hw
    · next hi =>
      cases hw
      exact .leaves hi
    · next hi =>
      cases hw
      exact .retries (Bool.not_eq_true _ ▸ hi)

namespace ClientMainLemmas

variable {env : ClientEnv} {c c' : Client} {data : Bytes}

/-- What a packet may do to what the main thread waits for. -/
structure Posts (data : Bytes) (c c' : Client) : Prop where
  loginReady : c.session.loginReady ≤ c'.session.loginReady
  authDone : c.session.authDone ≤ c'.session.authDone
  interrupted : c'.interrupted = (c.interrupted || isBye data)

/-- A handler other than that of BYE leaves `g_interrupted` alone. -/
theorem posts_of_eq (hb : isBye data = false)
    (hl : c.session.loginReady ≤ c'.session.loginReady)
    (ha : c.session.authDone ≤ c'.session.authDone) (hi : c'.interrupted = c.interrupted) :
    Posts data c c' :=
  ⟨hl, ha, by rw [hb, Bool.or_false, hi]⟩

theorem sqmpProcessChatDeliver_interrupted (h : c.sqmpProcessChatDeliver env data = .ok c') :
    c'.interrupted = c.interrupted := by
  unfold Client.sqmpProcessChatDeliver at h
  split at h
  · cases h
    rfl
  · obtain ⟨n, _, h⟩ := bind_eq_ok.mp h
    obtain ⟨sender, _, h⟩ := bind_eq_ok.mp h
    obtain ⟨text, _, h⟩ := bind_eq_ok.mp h
    cases h
    rfl

theorem onStreamRecv_posts (h : c.onStreamRecv env data = .ok c') : Posts data c c' := by
  obtain ⟨o, ho, h⟩ := bind_eq_ok.mp h
  have hb : isBye data = decide (o = some .bye) := by
    rw [isBye, ho]
    simp
  split at h
  · unfold Client.sqmpProcessHelloAck at h
    split at h
    · cases h
      exact posts_of_eq hb (Nat.le_refl _) (Nat.le_refl _) rfl
    · obtain ⟨v, _, h⟩ := bind_eq_ok.mp h
      split at h
      · cases h
        exact posts_of_eq hb (Nat.le_refl _) (Nat.le_refl _) rfl
      · obtain ⟨sid, _, h⟩ := bind_eq_ok.mp h
        cases h
        exact posts_of_eq hb (Nat.le_succ _) (Nat.le_refl _) rfl
  · unfold Client.sqmpProcessAuthResp at h
    split at h
    · obtain ⟨status, _, h⟩ := bind_eq_ok.mp h
      split at h <;> cases h <;> exact posts_of_eq hb (Nat.le_refl _) (Nat.le_succ _) rfl
    · cases h
      exact posts_of_eq hb (Nat.le_refl _) (Nat.le_succ _) rfl
  · obtain ⟨key, rfl⟩ := ClientStateLemmas.sqmpProcessKeyResp_ok h
    exact posts_of_eq hb (Nat.le_refl _) (Nat.le_refl _) rfl
  · have hs := (ClientStateLemmas.sqmpProcessChatDeliver_ok h).1
    refine posts_of_eq hb (by rw [hs]) (by rw [hs]) (sqmpProcessChatDeliver_interrupted h)
  · obtain ⟨code, desc, rfl⟩ := ClientStateLemmas.sqmpProcessError_ok h
    refine posts_of_eq hb ?_ ?_ ?_ <;> split <;> first | exact Nat.le_refl _ | rfl
  · cases h
    exact ⟨Nat.le_refl _, Nat.le_refl _, by rw [hb]; simp [Client.sqmpProcessBye]⟩
  · next hne =>
    cases h
    exact posts_of_eq (hb.trans (decide_eq_false fun h => hne h)) (Nat.le_refl _)
      (Nat.le_refl _) rfl

/-- The handler of BYE reads nothing of the packet. -/
theorem onStreamRecv_bye (h : isBye data = true) :
    c.onStreamRecv env data = .ok (c.sqmpProcessBye env) := by
  rw [Client.onStreamRecv, of_decide_eq_true h]
  rfl

end ClientMainLemmas
open ClientMainLemmas

/-- A packet posts semaphores and takes nothing from them, and a BYE sets `g_interrupted`. -/
theorem receive_posts (env : ClientEnv) (c : Client) (data : Bytes) :
    Posts data c (c.receive env data) := by
  unfold Client.receive
  split
  · next h => exact onStreamRecv_posts h
  · next e h =>
    refine posts_of_eq ?_ (Nat.le_refl _) (Nat.le_refl _) rfl
    by_contra hb
    rw [onStreamRecv_bye (Bool.not_eq_false _ ▸ hb)] at h
    cases h

/-- `sqmp_login` leaves the semaphores and the flag alone. -/
theorem sqmpLogin_posts (env : ClientEnv) (c : Client) (stdin : Bytes) :
    (c.sqmpLogin env stdin).1.session.loginReady = c.session.loginReady ∧
      (c.sqmpLogin env stdin).1.session.authDone = c.session.authDone ∧
      (c.sqmpLogin env stdin).1.interrupted = c.interrupted := by
  unfold Client.sqmpLogin
  split
  · exact ⟨rfl, rfl, rfl⟩
  · dsimp only
    split
    · exact ⟨rfl, rfl, rfl⟩
    · split
      · exact ⟨rfl, rfl, rfl⟩
      · split <;> exact ⟨rfl, rfl, rfl⟩

end SquimpChat
