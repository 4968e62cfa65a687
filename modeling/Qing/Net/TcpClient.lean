import Mathlib.Data.List.Basic
import Qing.Net.Address
import Qing.Net.Poller

/-!
# The client

`connect` of `TcpClient` in its two versions, with `_connect` and `sock_connect`. What they call
elsewhere is given (`SockMgr`): the socket manager, the sockets that it keeps, `::connect` and
`setNonblocking`. What they rely on is that a registered handle has one socket, whose handle it is,
and that the status read is the one stored last (`SockMgr.Lawful`). The loop counts failed
attempts down from ten, and has a number of turns to go: whatever `::connect` answers, eleven
are enough (`connect_returns`).
-/

namespace Qing

inductive ConnectStatus
  | unconnected
  | connecting
  | connected
  deriving DecidableEq, Repr

/-- The functions called, over states `ω` of all that is outside, and sockets `π` of the manager. -/
structure SockMgr (ω π : Type*) where
  initNewSocket : ω → Socket × ω
  registSocket : Socket → ω → ω
  getSocketInstance : Socket → ω → π × ω
  connStatus : π → ω → ConnectStatus
  setConnStatus : π → ConnectStatus → ω → ω
  socket : π → ω → Socket
  /-- `::connect`, and whether it succeeds. -/
  connect : Socket → SockAddrIn → ω → Bool × ω
  setNonblocking : Socket → ω → ω
  onConnect : Socket → Int32 → ω → ω

/-- What a client does to others, in this order. -/
inductive ClientCall
  | initNewSocket (socket : Socket)
  | registSocket (socket : Socket)
  | connect (socket : Socket) (sin : SockAddrIn) (ok : Bool)
  | setNonblocking (socket : Socket)
  | onConnect (socket : Socket) (serverType : Int32)
  deriving DecidableEq, Repr

/-- What is outside, and the calls made so far. -/
structure Client (ω : Type*) where
  world : ω
  calls : List ClientCall

namespace Client

variable {ω π : Type*} (M : SockMgr ω π)

def call (c : Client ω) (e : ClientCall) (world : ω) : Client ω := ⟨world, c.calls ++ [e]⟩

def sockConnect (sockId : Socket) (sin : SockAddrIn) (c : Client ω) : ConnectStatus × Client ω :=
  let (socketPtr, world) := M.getSocketInstance sockId c.world
  let (ok, world) := M.connect sockId sin world
  let c := c.call (.connect sockId sin ok) world
  let c :=
    if ok = false then
      if M.connStatus socketPtr c.world ≠ .unconnected then
        { c with world := M.setConnStatus socketPtr .unconnected c.world }
      else c
    else
      let c := c.call (.setNonblocking sockId) (M.setNonblocking sockId c.world)
      { c with world := M.setConnStatus socketPtr .connected c.world }
  (M.connStatus socketPtr c.world, c)

def sockConnectText (P : Platform) (sockId : Socket) (ip : List Char) (port : UInt16)
    (c : Client ω) : ConnectStatus × Client ω :=
  sockConnect M sockId (Address.ofText P ip port).sockAddr c

/-- The loop of `connect` and `_connect`: how many failures are left of `testTimes`. -/
def loop (sockConnect : Socket → Client ω → ConnectStatus × Client ω) (socketPtr : π) :
    (turns : ℕ) → ConnectStatus → (testTimes : ℕ) → Client ω → Option (ℕ × Client ω)
  | 0, _, _, _ => none
  | turns + 1, status, testTimes, c =>
      if status = .connecting ∧ 0 < testTimes then
        let r := sockConnect (M.socket socketPtr c.world) c
        if r.1 = .unconnected then loop sockConnect socketPtr turns .connecting (testTimes - 1) r.2
        else loop sockConnect socketPtr turns r.1 testTimes r.2
      else some (testTimes, c)

/-- What the two versions have in common. -/
def connectWith (sockConnect : Socket → Client ω → ConnectStatus × Client ω) (serverType : Int32)
    (turns : ℕ) (world : ω) : Option (Bool × Client ω) :=
  let (sockId, world) := M.initNewSocket world
  let (socketPtr, world) := M.getSocketInstance sockId (M.registSocket sockId world)
  let c : Client ω :=
    ⟨M.setConnStatus socketPtr .connecting world, [.initNewSocket sockId, .registSocket sockId]⟩
  (loop M sockConnect socketPtr turns (M.connStatus socketPtr c.world) 10 c).map fun (left, c) =>
    if left = 0 then (false, c)
    else
      let sockId := M.socket socketPtr c.world
      (true, c.call (.onConnect sockId serverType) (M.onConnect sockId serverType c.world))

def connect (sin : SockAddrIn) (serverType : Int32) (turns : ℕ) (world : ω) :
    Option (Bool × Client ω) :=
  connectWith M (fun sockId => sockConnect M sockId sin) serverType turns world

def connectText (P : Platform) (ip : List Char) (port : UInt16) (serverType : Int32) (turns : ℕ)
    (world : ω) : Option (Bool × Client ω) :=
  connectWith M (fun sockId => sockConnectText M P sockId ip port) serverType turns world

end Client

/-- What the client relies on, `Holds` saying which socket the manager keeps for a handle. -/
structure SockMgr.Lawful {ω π : Type*} (M : SockMgr ω π) (Holds : Socket → π → ω → Prop) :
    Prop where
  registered : ∀ s w, ∃ p, Holds s p (M.registSocket s w)
  found : ∀ {s p w}, Holds s p w →
    (M.getSocketInstance s w).1 = p ∧ Holds s p (M.getSocketInstance s w).2
  socket_eq : ∀ {s p w}, Holds s p w → M.socket p w = s
  status_eq : ∀ {s p w} (status : ConnectStatus), Holds s p w →
    M.connStatus p (M.setConnStatus p status w) = status ∧
      Holds s p (M.setConnStatus p status w)
  kept_connect : ∀ {s p w} (sin : SockAddrIn), Holds s p w → Holds s p (M.connect s sin w).2
  kept_nonblocking : ∀ {s p w}, Holds s p w → Holds s p (M.setNonblocking s w)

namespace Client

variable {ω π : Type*} {M : SockMgr ω π} {Holds : Socket → π → ω → Prop} {socket : Socket} {p : π}
  {sin : SockAddrIn} {c : Client ω}

/-! ## One attempt -/

/-- The client has gone on by these calls, its socket being kept with this status. -/
structure Reaches (M : SockMgr ω π) (Holds : Socket → π → ω → Prop) (socket : Socket) (p : π)
    (c c' : Client ω) (calls : List ClientCall) (status : ConnectStatus) : Prop where
  holds : Holds socket p c'.world
  calls_eq : c'.calls = c.calls ++ calls
  status_eq : M.connStatus p c'.world = status

theorem sockConnect_cases (hM : M.Lawful Holds) (sin : SockAddrIn)
    (h : Holds socket p c.world) :
    ((sockConnect M socket sin c).1 = .unconnected ∧
      Reaches M Holds socket p c (sockConnect M socket sin c).2 [.connect socket sin false]
        .unconnected) ∨
    ((sockConnect M socket sin c).1 = .connected ∧
      Reaches M Holds socket p c (sockConnect M socket sin c).2
        [.connect socket sin true, .setNonblocking socket] .connected) := by
  obtain ⟨hfound, hheld⟩ := hM.found h
  rcases hget : M.getSocketInstance socket c.world with ⟨socketPtr, w⟩
  rw [hget] at hfound hheld
  obtain rfl : socketPtr = p := hfound
  have hconnect := hM.kept_connect sin hheld
  rcases hans : M.connect socket sin w with ⟨ok, w'⟩
  rw [hans] at hconnect
  simp only [sockConnect, hget, hans, call]
  cases ok with
  | false =>
      rw [if_pos rfl]
      split
      · obtain ⟨hstatus, hkept⟩ := hM.status_eq .unconnected hconnect
        exact Or.inl ⟨hstatus, hkept, rfl, hstatus⟩
      · rename_i hstatus
        rw [not_not] at hstatus
        exact Or.inl ⟨hstatus, hconnect, rfl, hstatus⟩
  | true =>
      rw [if_neg nofun]
      obtain ⟨hstatus, hkept⟩ := hM.status_eq .connected (hM.kept_nonblocking hconnect)
      exact Or.inr ⟨hstatus, hkept, List.append_assoc .., hstatus⟩

/-! ## The loop -/

/-- The attempts of a client that failed `k` times. -/
def failures (socket : Socket) (sin : SockAddrIn) (k : ℕ) : List ClientCall :=
  List.replicate k (.connect socket sin false)

theorem loop_returns (hM : M.Lawful Holds) (sin : SockAddrIn) {testTimes turns : ℕ}
    (hturns : testTimes < turns) (h : Holds socket p c.world)
    (hstatus : testTimes = 0 → M.connStatus p c.world = .unconnected) :
    ∃ left c', loop M (fun sockId => sockConnect M sockId sin) p turns .connecting testTimes c =
        some (left, c') ∧
      ((left = 0 ∧ Reaches M Holds socket p c c' (failures socket sin testTimes) .unconnected) ∨
        left ≠ 0 ∧ ∃ k < testTimes, Reaches M Holds socket p c c'
          (failures socket sin k ++ [.connect socket sin true, .setNonblocking socket])
          .connected) := by
  induction testTimes generalizing turns c with
  | zero =>
      obtain ⟨turns, rfl⟩ : ∃ n, turns = n + 1 := ⟨turns - 1, by omega⟩
      have hstop : ¬ (ConnectStatus.connecting = .connecting ∧ 0 < 0) :=
        fun h => absurd h.2 (Nat.lt_irrefl 0)
      exact ⟨0, c, by rw [loop, if_neg hstop],
        Or.inl ⟨rfl, h, (List.append_nil _).symm, hstatus rfl⟩⟩
  | succ n ih =>
      obtain ⟨turns, rfl⟩ : ∃ n, turns = n + 1 := ⟨turns - 1, by omega⟩
      rw [loop, if_pos ⟨rfl, Nat.succ_pos n⟩, hM.socket_eq h]
      rcases sockConnect_cases hM sin h with ⟨hret, hnext⟩ | ⟨hret, hnext⟩
      · simp only [hret, if_pos]
        obtain ⟨left, c', hloop, hend⟩ :=
          ih (show n < turns by omega) hnext.holds fun _ => hnext.status_eq
        refine ⟨left, c', hloop, ?_⟩
        rcases hend with ⟨hleft, hreach⟩ | ⟨hleft, k, hk, hreach⟩
        · refine Or.inl ⟨hleft, hreach.holds, ?_, hreach.status_eq⟩
          rw [hreach.calls_eq, hnext.calls_eq, List.append_assoc]
          rfl
        · refine Or.inr ⟨hleft, k + 1, Nat.succ_lt_succ hk, hreach.holds, ?_, hreach.status_eq⟩
          rw [hreach.calls_eq, hnext.calls_eq, List.append_assoc]
          rfl
      · obtain ⟨turns, rfl⟩ : ∃ n, turns = n + 1 := ⟨turns - 1, by omega⟩
        have hstop : ¬ (ConnectStatus.connected = .connecting ∧ 0 < n + 1) := nofun
        simp only [hret, if_neg (show ConnectStatus.connected ≠ .unconnected from nofun), loop,
          if_neg hstop]
        exact ⟨n + 1, _, rfl, Or.inr ⟨Nat.succ_ne_zero n, 0, Nat.succ_pos n, hnext⟩⟩

/-- Both versions of `connect` return, after ten attempts at most, all on the socket that was
made: with `true` at the first that succeeds, the socket having been made non-blocking and
connected, and `onConnect` being called once after that; and with `false` after ten that fail, the
socket being left registered and unconnected. -/
theorem connect_returns (hM : M.Lawful Holds) (sin : SockAddrIn) (serverType : Int32) (w : ω)
    {turns : ℕ} (hturns : 10 < turns) :
    ∃ c socket p, socket = (M.initNewSocket w).1 ∧
      ((connect M sin serverType turns w = some (false, c) ∧
        c.calls = [.initNewSocket socket, .registSocket socket] ++ failures socket sin 10 ∧
        Holds socket p c.world ∧ M.connStatus p c.world = .unconnected) ∨
      (connect M sin serverType turns w = some (true, c) ∧
        ∃ k < 10, c.calls = [.initNewSocket socket, .registSocket socket] ++
          failures socket sin k ++
          [.connect socket sin true, .setNonblocking socket, .onConnect socket serverType] ∧
        ∃ w', Holds socket p w' ∧ M.connStatus p w' = .connected ∧
          c.world = M.onConnect socket serverType w')) ∧
      ∀ P ip port, (Address.ofText P ip port).sockAddr = sin →
        connectText M P ip port serverType turns w = connect M sin serverType turns w := by
  rcases hinit : M.initNewSocket w with ⟨socket, w₁⟩
  obtain ⟨p, hregistered⟩ := hM.registered socket w₁
  obtain ⟨hfound, hheld⟩ := hM.found hregistered
  rcases hget : M.getSocketInstance socket (M.registSocket socket w₁) with ⟨socketPtr, w₂⟩
  rw [hget] at hfound hheld
  obtain rfl : socketPtr = p := hfound
  obtain ⟨hstatus, hkept⟩ := hM.status_eq .connecting hheld
  have hbegin : Holds socket socketPtr (⟨M.setConnStatus socketPtr .connecting w₂,
      [.initNewSocket socket, .registSocket socket]⟩ : Client ω).world := hkept
  obtain ⟨left, c, hloop, hend⟩ := loop_returns hM sin hturns hbegin nofun
  have htext : ∀ P ip port, (Address.ofText P ip port).sockAddr = sin →
      connectText M P ip port serverType turns w = connect M sin serverType turns w := by
    rintro P ip port rfl
    rfl
  rcases hend with ⟨rfl, hreach⟩ | ⟨hleft, k, hk, hreach⟩
  · refine ⟨c, socket, socketPtr, rfl, Or.inl ⟨?_, hreach.calls_eq, hreach.holds,
      hreach.status_eq⟩, htext⟩
    simp only [connect, connectWith, hinit, hget, hstatus]
    rw [hloop]
    rfl
  · refine ⟨c.call (.onConnect socket serverType) (M.onConnect socket serverType c.world), socket,
      socketPtr, rfl, Or.inr ⟨?_, k, hk, ?_, c.world, hreach.holds, hreach.status_eq, rfl⟩, htext⟩
    · simp only [connect, connectWith, hinit, hget, hstatus]
      rw [hloop, Option.map_some, if_neg hleft, hM.socket_eq hreach.holds]
    · simp [call, hreach.calls_eq]

/-! ## A socket manager -/

/-- The handles registered, each with a status of its own, and the attempts made to connect. -/
structure SampleWorld where
  handles : List Socket
  status : Socket → ConnectStatus
  attempts : ℕ

/-- A manager whose sockets are known by their handles; the third attempt to connect succeeds. -/
def sampleMgr : SockMgr SampleWorld Socket where
  initNewSocket w := (7, w)
  registSocket s w := { w with handles := s :: w.handles }
  getSocketInstance s w := (s, w)
  connStatus s w := w.status s
  setConnStatus s status w := { w with status := Function.update w.status s status }
  socket s _ := s
  connect _ _ w := (w.attempts == 2, { w with attempts := w.attempts + 1 })
  setNonblocking _ w := w
  onConnect _ _ w := w

theorem sampleMgr_lawful :
    sampleMgr.Lawful fun s p w => p = s ∧ s ∈ w.handles where
  registered s _ := ⟨s, rfl, List.mem_cons_self⟩
  found := by
    rintro s p w ⟨rfl, hmem⟩
    exact ⟨rfl, rfl, hmem⟩
  socket_eq h := h.1
  status_eq := by
    rintro s p w status ⟨rfl, hmem⟩
    exact ⟨Function.update_self .., rfl, hmem⟩
  kept_connect _ h := h
  kept_nonblocking h := h

/-- A manager of no socket. -/
def sampleWorld : SampleWorld := ⟨[], fun _ => .unconnected, 0⟩

theorem connect_returns_sample :
    ∃ c, connect sampleMgr ⟨afInet, 80, 0⟩ 1 11 sampleWorld = some (true, c) ∧
      ∃ k < 10, c.calls = [.initNewSocket 7, .registSocket 7] ++ failures 7 ⟨afInet, 80, 0⟩ k ++
        [.connect 7 ⟨afInet, 80, 0⟩ true, .setNonblocking 7, .onConnect 7 1] := by
  have hret : (connect sampleMgr ⟨afInet, 80, 0⟩ 1 11 sampleWorld).map Prod.fst = some true := by
    decide
  obtain ⟨c, socket, p, rfl, ⟨hfalse, -⟩ | ⟨htrue, k, hk, hcalls, -⟩, -⟩ :=
    connect_returns sampleMgr_lawful ⟨afInet, 80, 0⟩ 1 sampleWorld (show 10 < 11 by decide)
  · rw [hfalse] at hret
    cases hret
  · exact ⟨c, htrue, k, hk, hcalls⟩

end Client

end Qing
