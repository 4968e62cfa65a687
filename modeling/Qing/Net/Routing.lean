import Mathlib.Data.List.Nodup
import Qing.Net.Poller

/-!
# Which handler a completion reaches

`poll` finds the handler to call under the key in the record that was posted. In
every run the table of sockets holds exactly what `add` entered (`pool_iff`), so a
completion reaches the socket that posted it just when the key in its record is a
handle that socket was added under and the record still has a type that leads to the
right handler (`routed_iff`).

No function sets the key of a record that is posted: `init` fills `_ioData`, while
`read` and `write` post `_readIoData` and `_WriteIoData`. On an open socket the key is
whatever the memory held when the object was built in it.
-/

namespace Qing

variable {Obj : Type*}

theorem SocketPool.lookup_fst {pool : SocketPool Obj} {key : Socket} {o : Obj} :
    (pool.lookup key).1 = some o ↔ pool key = some (some o) := by
  cases h : pool key with
  | none => simp [lookup, h]
  | some p => simp [lookup, h]

theorem SocketPool.lookup_snd {pool : SocketPool Obj} {key k : Socket} {o : Obj} :
    (pool.lookup key).2 k = some (some o) ↔ pool k = some (some o) := by
  cases h : pool key with
  | some p => simp [lookup, h]
  | none =>
      rcases eq_or_ne k key with rfl | hne
      · simp [lookup, h]
      · simp [lookup, h, Function.update_of_ne hne]

theorem Poller.poll_pool {pool : SocketPool Obj} {ioData : IoData} {k : Socket} {o : Obj} :
    (Poller.poll pool ioData).pool k = some (some o) ↔ pool k = some (some o) := by
  rcases Poller.poll_spec pool ioData with ⟨-, heq⟩ | ⟨handler, -, heq⟩
  · rw [heq]
  · rw [heq]
    exact SocketPool.lookup_snd

/-- The key that an `add` entered. -/
def IocpEvent.addedKey? : IocpEvent Obj → Option Socket
  | added _ key _ => some key
  | _ => none

/-- Every `add` succeeded, and no two of them had the same handle. -/
structure Registered (tr : List (IocpEvent Obj)) : Prop where
  created : ∀ o key ok, IocpEvent.added o key ok ∈ tr → ok = true
  distinct : (tr.filterMap IocpEvent.addedKey?).Nodup

theorem Registered.of_append {tr tr' : List (IocpEvent Obj)} (h : Registered (tr ++ tr')) :
    Registered tr := by
  constructor
  · exact fun o key ok hmem => h.created o key ok (List.mem_append_left tr' hmem)
  · have hdistinct := h.distinct
    rw [List.filterMap_append] at hdistinct
    exact hdistinct.of_append_left

theorem Registered.key_ne {tr : List (IocpEvent Obj)} {o : Obj} {key : Socket} {ok : Bool}
    (h : Registered (tr ++ [.added o key ok])) {o' : Obj} {k : Socket} {ok' : Bool}
    (hmem : .added o' k ok' ∈ tr) : k ≠ key := by
  have hdistinct := h.distinct
  rw [List.filterMap_append, List.nodup_append] at hdistinct
  have hk : k ∈ tr.filterMap IocpEvent.addedKey? :=
    List.mem_filterMap.mpr ⟨.added o' k ok', hmem, rfl⟩
  exact hdistinct.2.2 k hk key (List.mem_singleton_self key)

section Runs

variable [DecidableEq Obj] {X : External} {s s' : Iocp Obj} {e : IocpEvent Obj}
  {tr : List (IocpEvent Obj)} {o : Obj} {d : Dir}

namespace Iocp

theorem dispatched_pool (called : Option (Option Obj × Handler)) :
    (dispatched X s called).1.pool = s.pool := by
  match called with
  | none => rfl
  | some (none, _) => rfl
  | some (some o, handler) => rfl

theorem pool_step (h : (iocpSystem Obj X).step s e s') (k : Socket) (o : Obj) :
    (∃ o' ok, e = .added o' (s.sockets o').socket ok ∧
      s'.pool = Function.update s.pool (s.sockets o').socket (some (some o'))) ∨
    (e.addedKey? = none ∧ (s'.pool k = some (some o) ↔ s.pool k = some (some o))) := by
  rcases step_cases h with ⟨o', ok, rfl, rfl⟩ | ⟨o', key, rfl, rfl⟩ | ⟨o', op, rfl, rfl⟩ |
    ⟨rfl, rfl⟩ | ⟨o', d, n, data, s₁, -, hs₁, rfl, rfl⟩
  · exact Or.inl ⟨o', ok, rfl, rfl⟩
  · exact Or.inr ⟨rfl, Iff.rfl⟩
  · exact Or.inr ⟨rfl, Iff.rfl⟩
  · exact Or.inr ⟨rfl, Iff.rfl⟩
  · refine Or.inr ⟨rfl, ?_⟩
    rw [dispatched_pool, hs₁]
    exact Poller.poll_pool

theorem polled_spec {countBytes : UInt32} {data : Memory} {key : Option Socket}
    {called : Option (Option Obj × Handler)} {calls : List Call}
    (h : (iocpSystem Obj X).step s (.polled o d countBytes data key called calls) s') :
    let ioData := (s.sockets o).record d
    (o, d) ∈ s.inflight ∧
    ((ioData.type.handler? = none ∧ key = none ∧ called = none) ∨
      ∃ handler, ioData.type.handler? = some handler ∧ key = some ioData.socket ∧
        called = some ((s.pool.lookup ioData.socket).1, handler)) := by
  intro ioData
  rcases step_cases h with ⟨o', ok, he, -⟩ | ⟨o', k, he, -⟩ | ⟨o', op, he, -⟩ |
    ⟨he, -⟩ | ⟨o', d', n, data, s₁, hmem, hs₁, he, -⟩
  · cases he
  · cases he
  · cases he
  · cases he
  · obtain ⟨rfl, rfl, -, -, rfl, rfl, -⟩ := IocpEvent.polled.inj he
    refine ⟨hmem, ?_⟩
    have hrecord : (s₁.sockets o).record d = { ioData with bytes := n } := by
      rw [hs₁, dequeue]
      dsimp only
      rw [Function.update_self]
      exact TcpSocket.record_complete (s.sockets o) n data d
    have hpool : s₁.pool = s.pool := by rw [hs₁, dequeue]
    rw [dispatch, hrecord, hpool]
    rcases Poller.poll_spec s.pool { ioData with bytes := n } with
      ⟨htype, heq⟩ | ⟨handler, htype, heq⟩
    · rw [heq]
      exact Or.inl ⟨htype, rfl, rfl⟩
    · rw [heq]
      exact Or.inr ⟨handler, htype, rfl, rfl⟩

end Iocp

/-- The table holds exactly what was added. -/
theorem pool_iff (h : (iocpSystem Obj X).Run tr s) (hreg : Registered tr) (k : Socket)
    (o : Obj) : s.pool k = some (some o) ↔ .added o k true ∈ tr := by
  revert hreg
  refine System.Run.induction
    (P := fun tr s => Registered tr → (s.pool k = some (some o) ↔ .added o k true ∈ tr)) ?_ ?_ h
  · rintro s ⟨sockets, -, rfl⟩ -
    exact ⟨nofun, nofun⟩
  · intro tr s e s' hrun ih hstep hreg
    have hprev := ih hreg.of_append
    rcases Iocp.pool_step hstep k o with ⟨o', ok, rfl, hpool⟩ | ⟨he, hpool⟩
    · rw [hpool, List.mem_append, List.mem_singleton]
      have hok : ok = true := hreg.created _ _ _ (List.mem_append_right tr List.mem_cons_self)
      rcases eq_or_ne k (s.sockets o').socket with hk | hne
      · rw [hk, Function.update_self]
        constructor
        · intro heq
          obtain rfl : o' = o := Option.some.inj (Option.some.inj heq)
          exact Or.inr (by rw [hok])
        · rintro (hmem | heq)
          · exact absurd rfl (hreg.key_ne hmem)
          · rw [(IocpEvent.added.inj heq).1]
      · rw [Function.update_of_ne hne, hprev]
        constructor
        · exact Or.inl
        · rintro (hmem | heq)
          · exact hmem
          · exact absurd (IocpEvent.added.inj heq).2.1 hne
    · rw [hpool, hprev, List.mem_append, List.mem_singleton]
      constructor
      · exact Or.inl
      · rintro (hmem | rfl)
        · exact hmem
        · cases he

/-! ## The keys of the records -/

/-- On a socket that is still open no posted record has had its key set since `s₀`,
and a record in flight has the type of its direction. -/
def Untouched (s₀ s : Iocp Obj) : Prop :=
  ∀ o, (s.sockets o).valid = true →
    (∀ d, ((s.sockets o).record d).socket = ((s₀.sockets o).record d).socket) ∧
    ∀ d, (o, d) ∈ s.inflight → ((s.sockets o).record d).type = d.ioType

namespace Untouched

variable {s₀ : Iocp Obj}

theorem perform (h : Untouched s₀ s) (o : Obj) (op : SocketOp) :
    Untouched s₀ (s.perform o ((s.sockets o).perform X op)) := by
  intro o' hvalid
  simp only [Iocp.perform] at hvalid ⊢
  rcases eq_or_ne o' o with rfl | hne
  · rw [Function.update_self] at hvalid ⊢
    have hkept : TcpSocket.Kept (s.sockets o') ((s.sockets o').perform X op) :=
      TcpSocket.kept_of_valid hvalid
    obtain ⟨hsocket, htype⟩ := h o' hkept.valid
    refine ⟨fun d => (hkept.socket d).trans (hsocket d), fun d hd => ?_⟩
    rw [List.mem_append, List.mem_map] at hd
    rcases hd with hd | ⟨d', hd', heq⟩
    · rcases hkept.type d with ht | ht
      · exact ht.trans (htype d hd)
      · exact ht
    · obtain rfl : d' = d := (Prod.mk.inj heq).2
      exact hkept.posted d' hd'
  · rw [Function.update_of_ne hne] at hvalid ⊢
    obtain ⟨hsocket, htype⟩ := h o' hvalid
    refine ⟨hsocket, fun d hd => ?_⟩
    rw [List.mem_append, List.mem_map] at hd
    rcases hd with hd | ⟨d', -, heq⟩
    · exact htype d hd
    · exact absurd (Prod.mk.inj heq).1.symm hne

theorem dequeue (h : Untouched s₀ s) (o : Obj) (d : Dir) (countBytes : UInt32)
    (data : Memory) : Untouched s₀ (s.dequeue o d countBytes data) := by
  intro o' hvalid
  simp only [Iocp.dequeue] at hvalid ⊢
  have hinflight : ∀ d', (o', d') ∈ s.inflight.erase (o, d) → (o', d') ∈ s.inflight :=
    fun d' => List.mem_of_mem_erase
  rcases eq_or_ne o' o with rfl | hne
  · rw [Function.update_self] at hvalid ⊢
    have hsame : (s.sockets o').valid = true := by
      cases d <;> exact hvalid
    obtain ⟨hsocket, htype⟩ := h o' hsame
    have hrecord : ∀ d', (((s.sockets o').complete countBytes data d).record d').socket =
          ((s.sockets o').record d').socket ∧
        (((s.sockets o').complete countBytes data d).record d').type =
          ((s.sockets o').record d').type := by
      intro d'
      cases d <;> cases d' <;> exact ⟨rfl, rfl⟩
    refine ⟨fun d' => (hrecord d').1.trans (hsocket d'), fun d' hd' => ?_⟩
    exact (hrecord d').2.trans (htype d' (hinflight d' hd'))
  · rw [Function.update_of_ne hne] at hvalid ⊢
    obtain ⟨hsocket, htype⟩ := h o' hvalid
    exact ⟨hsocket, fun d' hd' => htype d' (hinflight d' hd')⟩

omit [DecidableEq Obj] in
theorem withPool (h : Untouched s₀ s) (pool : SocketPool Obj) :
    Untouched s₀ { s with pool := pool } := h

theorem dispatched (h : Untouched s₀ s) (called : Option (Option Obj × Handler)) :
    Untouched s₀ (Iocp.dispatched X s called).1 := by
  match called with
  | none => exact h
  | some (none, _) => exact h
  | some (some o, handler) => exact h.perform o handler.op

theorem step (h : Untouched s₀ s) (hstep : (iocpSystem Obj X).step s e s') :
    Untouched s₀ s' := by
  rcases Iocp.step_cases hstep with ⟨o, ok, rfl, rfl⟩ | ⟨o, key, rfl, rfl⟩ | ⟨o, op, rfl, rfl⟩ |
    ⟨rfl, rfl⟩ | ⟨o, d, n, data, s₁, -, rfl, rfl, rfl⟩
  · exact h
  · exact h
  · exact h.perform o op
  · exact h
  · exact ((h.dequeue o d n data).withPool _).dispatched _

end Untouched

theorem untouched_of_path {s₀ : Iocp Obj} (h₀ : (iocpSystem Obj X).init s₀)
    (h : (iocpSystem Obj X).Path s₀ tr s) : Untouched s₀ s := by
  refine h.preserve (fun s e s' hs hstep => hs.step hstep) ?_
  obtain ⟨sockets, -, rfl⟩ := h₀
  intro o _
  exact ⟨fun d => rfl, nofun⟩

/-! ## Routing -/

/-- The `poll` called the handler of the socket that had posted the operation, the one
for its direction, and looked no key up that had not been added before. -/
def Routed (tr : List (IocpEvent Obj)) (o : Obj) (d : Dir) (key : Option Socket)
    (called : Option (Option Obj × Handler)) : Prop :=
  called = some (some o, d.handler) ∧ ∀ k ∈ key, ∃ o', .added o' k true ∈ tr

/-- A completion is routed exactly when its record holds a handle that its socket was
added under and a type that leads to the right handler. As long as the socket is open
the handle must have been in the record when the object was built. -/
theorem routed_iff {s₀ : Iocp Obj} (h₀ : (iocpSystem Obj X).init s₀)
    (hpath : (iocpSystem Obj X).Path s₀ tr s) (hreg : Registered tr)
    {countBytes : UInt32} {data : Memory} {key : Option Socket}
    {called : Option (Option Obj × Handler)} {calls : List Call}
    (hstep : (iocpSystem Obj X).step s (.polled o d countBytes data key called calls) s') :
    (Routed tr o d key called ↔
      .added o ((s.sockets o).record d).socket true ∈ tr ∧
        ((s.sockets o).record d).type.handler? = some d.handler) ∧
    ((s.sockets o).valid = true →
      (Routed tr o d key called ↔
        .added o ((s₀.sockets o).record d).socket true ∈ tr)) := by
  have hpool := pool_iff ⟨s₀, h₀, hpath⟩ hreg ((s.sockets o).record d).socket o
  obtain ⟨hmem, hspec⟩ := Iocp.polled_spec hstep
  have hiff : Routed tr o d key called ↔
      .added o ((s.sockets o).record d).socket true ∈ tr ∧
        ((s.sockets o).record d).type.handler? = some d.handler := by
    rcases hspec with ⟨htype, hkey, hcalled⟩ | ⟨handler, htype, hkey, hcalled⟩
    · rw [Routed, hcalled, htype]
      constructor
      · rintro ⟨heq, -⟩
        cases heq
      · rintro ⟨-, heq⟩
        cases heq
    · rw [Routed, hcalled, htype, hkey]
      constructor
      · rintro ⟨heq, -⟩
        obtain ⟨hfst, hhandler⟩ := Prod.mk.inj (Option.some.inj heq)
        exact ⟨hpool.mp (SocketPool.lookup_fst.mp hfst), congrArg some hhandler⟩
      · rintro ⟨hadded, hhandler⟩
        have hfst := SocketPool.lookup_fst.mpr (hpool.mpr hadded)
        refine ⟨by rw [hfst, Option.some.inj hhandler], fun k hk => ⟨o, ?_⟩⟩
        rwa [← Option.some.inj hk]
  refine ⟨hiff, fun hvalid => ?_⟩
  obtain ⟨hsocket, htype⟩ := untouched_of_path h₀ hpath o hvalid
  rw [hiff, hsocket d, htype d hmem]
  exact ⟨fun h => h.1, fun h => ⟨h, d.handler?_ioType⟩⟩

end Runs

section Sample

/-- Sockets with the handle 5 built in that memory. -/
def samplePort (key : Socket) : Iocp ℕ := { sockets := fun _ => TcpSocket.new (rawMemory key) 5 }

theorem samplePort_init (key : Socket) :
    (iocpSystem ℕ External.plain).init (samplePort key) :=
  ⟨_, fun _ => TcpSocket.Constructed.new (rawMemory key) 5, rfl⟩

def postedRead : List (IocpEvent ℕ) :=
  [.added 0 5 true,
    .called 0 (.read (.error ioPending)) [.wsaRecv 5 (.error ioPending)] (some true)]

/-- A completion of that read, found under the key 0. -/
def lostRead : List (IocpEvent ℕ) :=
  postedRead ++ [.polled 0 .read 3 (fun _ => 7) (some 0) (some (none, .onRead)) []]

theorem registered_lostRead : Registered lostRead := by
  constructor
  · intro o key ok hmem
    simp only [lostRead, postedRead, List.cons_append, List.nil_append, List.mem_cons,
      List.not_mem_nil, or_false] at hmem
    rcases hmem with h | h | h
    · exact (IocpEvent.added.inj h).2.2
    · cases h
    · cases h
  · exact List.nodup_singleton 5

/-- The port after socket 0 was added and has posted a read. -/
def samplePosted (key : Socket) : Iocp ℕ :=
  (System.exec (Iocp.next External.plain) [.add 0 true, .call 0 (.read (.error ioPending))]
    (samplePort key)).elim (samplePort key) Prod.fst

theorem path_samplePosted (key : Socket) :
    (iocpSystem ℕ External.plain).Path (samplePort key) postedRead (samplePosted key) := by
  have hexec : System.exec (Iocp.next External.plain)
      [.add 0 true, .call 0 (.read (.error ioPending))] (samplePort key) =
        some (samplePosted key, postedRead) := rfl
  exact System.exec_path hexec

end Sample

/-- Built in zeroed memory, a socket posts records with the key 0, under which nothing
was added, and `poll` calls `onRead` on a null pointer. -/
theorem not_routed :
    ¬ ∀ (X : External) {tr : List (IocpEvent ℕ)} {s : Iocp ℕ}, (iocpSystem ℕ X).Run tr s →
      Registered tr → ∀ pre post o d countBytes data key called calls,
        tr = pre ++ .polled o d countBytes data key called calls :: post →
          Routed pre o d key called := by
  intro h
  have hstep : (iocpSystem ℕ External.plain).step (samplePosted 0)
      (.polled 0 .read 3 (fun _ => 7) (some 0) (some (none, .onRead)) []) _ :=
    ⟨.poll (some (0, .read)) 3 (fun _ => 7), rfl⟩
  have hrun : (iocpSystem ℕ External.plain).Run lostRead _ :=
    ⟨samplePort 0, samplePort_init 0, (path_samplePosted 0).tail hstep⟩
  have hrouted := h External.plain hrun registered_lostRead postedRead [] 0 .read 3 _ _ _ _ rfl
  cases hrouted.1

theorem routed_iff_sample :
    Routed postedRead 0 .read (some 5) (some (some 0, .onRead)) := by
  have hstep : (iocpSystem ℕ External.plain).step (samplePosted 5)
      (.polled 0 .read 3 (fun _ => 7) (some 5) (some (some 0, .onRead)) [.closesocket 0]) _ :=
    ⟨.poll (some (0, .read)) 3 (fun _ => 7), rfl⟩
  have hreg : Registered postedRead := registered_lostRead.of_append
  have hiff := routed_iff (samplePort_init 5) (path_samplePosted 5) hreg hstep
  exact (hiff.2 rfl).mpr List.mem_cons_self

end Qing
