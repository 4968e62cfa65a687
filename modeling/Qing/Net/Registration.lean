import Qing.Net.Routing

/-!
# What the table of sockets says

`add` writes its entry before it knows whether the socket can be registered, `remove`
touches no entry, and the lookup of `poll` enters a null pointer under a key that is not
there. So the table says what the latest `add` and `remove` have asked for only in a run
that gives none of the three a chance: `Meets` is the condition on a step, and
`registration_iff` says what holds in a run of such steps, and that a step that is not
one of them breaks it.
-/

namespace Qing

variable {Obj : Type*}

/-- What the call leaves registered for the handle `k`, if `r` was. -/
def IocpEvent.register (k : Socket) (r : Option Obj) : IocpEvent Obj → Option Obj
  | added o key ok => if ok = true ∧ key = k then some o else r
  | removed _ key => if key = k then none else r
  | _ => r

/-- The object of the latest `add` for the handle `k` that succeeded, unless a `remove`
came after it. -/
def registered (tr : List (IocpEvent Obj)) (k : Socket) : Option Obj :=
  tr.foldl (IocpEvent.register k) none

theorem registered_append (tr : List (IocpEvent Obj)) (e : IocpEvent Obj) (k : Socket) :
    registered (tr ++ [e]) k = e.register k (registered tr k) := by
  rw [registered, List.foldl_append]
  rfl

/-- The table maps a handle to an object exactly when that is what is registered. -/
def Maps (tr : List (IocpEvent Obj)) (s : Iocp Obj) : Prop :=
  ∀ k o, s.pool k = some (some o) ↔ registered tr k = some o

/-- No handle leads to `o`. -/
def Unlisted (s : Iocp Obj) (o : Obj) : Prop := ∀ k, s.pool k ≠ some (some o)

/-- An `add` succeeds or finds its own entry there; what is removed is not in the table;
a completion is looked up under a key that is. -/
def Meets (s : Iocp Obj) (e : IocpEvent Obj) : Prop :=
  match e with
  | .added o key ok => ok = true ∨ s.pool key = some (some o)
  | .removed o key => Unlisted s o ∧ ∀ o', s.pool key ≠ some (some o')
  | .polled o d _ _ _ _ _ =>
      ((s.sockets o).record d).type.handler? = none ∨
        s.pool ((s.sockets o).record d).socket ≠ none
  | _ => True

/-- The event is a `poll` that called a handler of `o`. -/
def IocpEvent.Reaches (o : Obj) : IocpEvent Obj → Prop
  | polled _ _ _ _ _ (some (some o', _)) _ => o' = o
  | _ => False

/-- The step leaves the table saying what is registered: an `add` that fails changes
nothing, a `poll` changes nothing, and an object that was removed is no longer listed. -/
structure Sound (tr : List (IocpEvent Obj)) (s : Iocp Obj) (e : IocpEvent Obj)
    (s' : Iocp Obj) : Prop where
  maps : Maps (tr ++ [e]) s'
  failed : ∀ o key, e = .added o key false → s'.pool = s.pool
  removed : ∀ o key, e = .removed o key → Unlisted s' o
  polled : ∀ o d countBytes data key called calls,
    e = .polled o d countBytes data key called calls → s'.pool = s.pool

theorem SocketPool.lookup_snd_eq_iff {pool : SocketPool Obj} {key : Socket} :
    (pool.lookup key).2 = pool ↔ pool key ≠ none := by
  cases h : pool key with
  | some p => simp [lookup, h]
  | none =>
      refine iff_of_false (fun heq => ?_) fun hne => hne rfl
      have hkey := congrFun heq key
      simp [lookup, h] at hkey

section Steps

variable [DecidableEq Obj] {X : External} {s s' : Iocp Obj} {e : IocpEvent Obj}
  {tr : List (IocpEvent Obj)} {o : Obj} {k : Socket}

theorem pool_polled_iff {d : Dir} {countBytes : UInt32} {data : Memory} {key : Option Socket}
    {called : Option (Option Obj × Handler)} {calls : List Call}
    (h : (iocpSystem Obj X).step s (.polled o d countBytes data key called calls) s') :
    s'.pool = s.pool ↔ ((s.sockets o).record d).type.handler? = none ∨
      s.pool ((s.sockets o).record d).socket ≠ none := by
  rcases Iocp.step_cases h with ⟨o', ok, he, -⟩ | ⟨o', k', he, -⟩ | ⟨o', op, he, -⟩ | ⟨he, -⟩ |
    ⟨o', d', n, data', s₁, -, hs₁, he, hs'⟩
  · cases he
  · cases he
  · cases he
  · cases he
  · obtain ⟨rfl, rfl, -, -, -, -, -⟩ := IocpEvent.polled.inj he
    have hrecord : (s₁.sockets o).record d = { (s.sockets o).record d with bytes := n } := by
      rw [hs₁, Iocp.dequeue]
      dsimp only
      rw [Function.update_self]
      exact TcpSocket.record_complete (s.sockets o) n data' d
    have hpool : s₁.pool = s.pool := by rw [hs₁, Iocp.dequeue]
    rw [hs', Iocp.dispatched_pool]
    dsimp only
    rw [Iocp.dispatch, hrecord, hpool]
    rcases Poller.poll_spec s.pool { (s.sockets o).record d with bytes := n } with
      ⟨htype, heq⟩ | ⟨handler, htype, heq⟩
    · rw [heq]
      exact iff_of_true rfl (Or.inl htype)
    · rw [heq]
      refine SocketPool.lookup_snd_eq_iff.trans ?_
      have hsome : ((s.sockets o).record d).type.handler? ≠ none := by
        rw [show ((s.sockets o).record d).type.handler? = some handler from htype]
        exact Option.some_ne_none handler
      exact ⟨Or.inr, fun hor => hor.resolve_left hsome⟩

theorem added_spec {ok : Bool} (h : (iocpSystem Obj X).step s (.added o k ok) s') :
    s' = { s with pool := Function.update s.pool k (some (some o)) } := by
  rcases Iocp.step_cases h with ⟨o', ok', he, hs'⟩ | ⟨o', k', he, -⟩ | ⟨o', op, he, -⟩ | ⟨he, -⟩ |
    ⟨o', d', n, data', s₁, -, -, he, -⟩
  · obtain ⟨rfl, rfl, rfl⟩ := IocpEvent.added.inj he
    exact hs'
  · cases he
  · cases he
  · cases he
  · cases he

theorem pool_quiet (h : (iocpSystem Obj X).step s e s')
    (hadded : ∀ o k ok, e ≠ .added o k ok)
    (hpolled : ∀ o d countBytes data key called calls,
      e ≠ .polled o d countBytes data key called calls) : s'.pool = s.pool := by
  rcases Iocp.step_cases h with ⟨o', ok', he, -⟩ | ⟨o', k', he, rfl⟩ | ⟨o', op, he, rfl⟩ |
    ⟨he, rfl⟩ | ⟨o', d', n, data', s₁, -, -, he, -⟩
  · exact absurd he (hadded _ _ _)
  · rfl
  · rfl
  · rfl
  · exact absurd he (hpolled _ _ _ _ _ _ _)

omit [DecidableEq Obj] in
theorem Maps.of_same (h : Maps tr s) (hpool : s'.pool = s.pool)
    (he : ∀ k r, e.register k r = r) : Maps (tr ++ [e]) s' := by
  intro k o
  rw [hpool, registered_append, he]
  exact h k o

omit [DecidableEq Obj] in
theorem Maps.added (h : Maps tr s) {ok : Bool} (hok : ok = true ∨ s.pool k = some (some o))
    (hpool : s'.pool = Function.update s.pool k (some (some o))) :
    Maps (tr ++ [.added o k ok]) s' := by
  intro k' o'
  rw [hpool, registered_append, IocpEvent.register]
  rcases eq_or_ne k k' with rfl | hne
  · rw [Function.update_self]
    by_cases htrue : ok = true
    · rw [if_pos ⟨htrue, rfl⟩]
      exact ⟨Option.some.inj, congrArg some⟩
    · rw [if_neg fun hand => htrue hand.1, ← h k o', hok.resolve_left htrue]
  · rw [Function.update_of_ne hne.symm, if_neg fun hand => hne hand.2]
    exact h k' o'

/-- A step from a state whose table says what is registered is sound exactly when it
meets the condition. -/
theorem sound_iff (h : Maps tr s) (hstep : (iocpSystem Obj X).step s e s') :
    Sound tr s e s' ↔ Meets s e := by
  cases e with
  | timedOut =>
      have hpool := pool_quiet hstep nofun nofun
      exact iff_of_true ⟨h.of_same hpool fun _ _ => rfl, nofun, nofun, nofun⟩ trivial
  | called o op calls ret =>
      have hpool := pool_quiet hstep nofun nofun
      exact iff_of_true ⟨h.of_same hpool fun _ _ => rfl, nofun, nofun, nofun⟩ trivial
  | added o key ok =>
      have hs' := added_spec hstep
      have hpool : s'.pool = Function.update s.pool key (some (some o)) := by rw [hs']
      rw [Meets]
      constructor
      · intro hsound
        cases ok with
        | true => exact Or.inl rfl
        | false =>
            have hsame := hsound.failed o key rfl
            rw [← hsame, hpool, Function.update_self]
            exact Or.inr rfl
      · intro hok
        refine ⟨h.added hok hpool, ?_, nofun, nofun⟩
        intro o' key' he
        obtain ⟨rfl, rfl, rfl⟩ := IocpEvent.added.inj he
        rw [hpool, ← hok.resolve_left Bool.false_ne_true, Function.update_eq_self]
  | removed o key =>
      have hpool := pool_quiet hstep nofun nofun
      rw [Meets]
      constructor
      · intro hsound
        have hunlisted := hsound.removed o key rfl
        rw [Unlisted, hpool] at hunlisted
        refine ⟨hunlisted, fun o' ho' => ?_⟩
        have hmaps := hsound.maps key o'
        rw [hpool, registered_append, IocpEvent.register, if_pos rfl] at hmaps
        cases hmaps.mp ho'
      · rintro ⟨hunlisted, hfree⟩
        refine ⟨fun k' o' => ?_, nofun, ?_, nofun⟩
        · rw [hpool, registered_append, IocpEvent.register]
          split_ifs with hk
          · rw [← hk]
            exact iff_of_false (hfree o') nofun
          · exact h k' o'
        · intro o' key' he
          obtain ⟨rfl, rfl⟩ := IocpEvent.removed.inj he
          rwa [Unlisted, hpool]
  | polled o d countBytes data key called calls =>
      rw [Meets, ← pool_polled_iff hstep]
      constructor
      · exact fun hsound => hsound.polled _ _ _ _ _ _ _ rfl
      · intro hpool
        exact ⟨h.of_same hpool fun _ _ => rfl, nofun, nofun, fun _ _ _ _ _ _ _ _ => hpool⟩

theorem maps_of_met (h : ((iocpSystem Obj X).restrict fun s e _ => Meets s e).Run tr s) :
    Maps tr s := by
  refine System.Run.induction (P := fun tr s => Maps tr s) ?_ ?_ h
  · rintro s ⟨sockets, -, rfl⟩ k o
    exact ⟨nofun, nofun⟩
  · intro tr s e s' _ ih hstep
    exact ((sound_iff ih hstep.1).mpr hstep.2).maps

theorem unlisted_step (hstep : (iocpSystem Obj X).step s e s') (hmeets : Meets s e)
    (h : Unlisted s o) (he : ∀ k, e ≠ .added o k true) : Unlisted s' o := by
  intro k' hk'
  rcases Iocp.pool_step hstep k' o with ⟨o', ok, rfl, hpool⟩ | ⟨-, hpool⟩
  · rw [hpool, Function.update_apply] at hk'
    split_ifs at hk' with hkey
    · obtain rfl : o' = o := Option.some.inj (Option.some.inj hk')
      rcases hmeets with rfl | hthere
      · exact he _ rfl
      · exact h _ hthere
    · exact h k' hk'
  · exact h k' (hpool.mp hk')

theorem unlisted_of_path {s₀ : Iocp Obj}
    (h : ((iocpSystem Obj X).restrict fun s e _ => Meets s e).Path s₀ tr s)
    (h₀ : Unlisted s₀ o) (hadd : ∀ k, .added o k true ∉ tr) : Unlisted s o := by
  induction h with
  | refl => exact h₀
  | tail _ hstep ih =>
      refine unlisted_step hstep.1 hstep.2
        (ih fun k hk => hadd k (List.mem_append_left _ hk)) fun k he => ?_
      exact hadd k (List.mem_append_right _ (by rw [he]; exact List.mem_cons_self))

theorem not_reaches_of_unlisted (hstep : (iocpSystem Obj X).step s e s') (h : Unlisted s o) :
    ¬e.Reaches o := by
  intro hreach
  cases e with
  | polled o' d countBytes data key called calls =>
      obtain ⟨-, hspec⟩ := Iocp.polled_spec hstep
      rcases hspec with ⟨-, -, rfl⟩ | ⟨handler, -, -, rfl⟩
      · exact hreach
      · cases hfst : (s.pool.lookup ((s.sockets o').record d).socket).1 with
        | none =>
            rw [hfst] at hreach
            exact hreach
        | some o'' =>
            rw [hfst] at hreach
            obtain rfl : o'' = o := hreach
            exact h _ (SocketPool.lookup_fst.mp hfst)
  | _ => exact hreach

/-- In a run whose steps meet the condition the table maps a handle to an object exactly
when the latest call for the handle that succeeded was an `add` of the object, every
step is sound, and no `poll` calls a handler of an object that was removed and not added
again; and a step that does not meet the condition is not sound. -/
theorem registration_iff (h : ((iocpSystem Obj X).restrict fun s e _ => Meets s e).Run tr s) :
    Maps tr s ∧
    (∀ e s', (iocpSystem Obj X).step s e s' → (Sound tr s e s' ↔ Meets s e)) ∧
    ∀ before o key between e after,
      tr = before ++ .removed o key :: (between ++ e :: after) →
        (∀ k, .added o k true ∉ between) → ¬e.Reaches o := by
  have hmaps := maps_of_met h
  refine ⟨hmaps, fun e s' hstep => sound_iff hmaps hstep, ?_⟩
  rintro before o key between e after rfl hadd
  obtain ⟨s₁, s₂, -, hremoved, hpath⟩ := h.cut
  obtain ⟨s₃, hbetween, hrest⟩ := hpath.split
  rw [← List.singleton_append] at hrest
  obtain ⟨s₄, hstep, -⟩ := hrest.split
  have hunlisted : Unlisted s₂ o := by
    have hpool := pool_quiet hremoved.1 nofun nofun
    rw [Unlisted, hpool]
    exact hremoved.2.1
  exact not_reaches_of_unlisted hstep.step_of_single.1 (unlisted_of_path hbetween hunlisted hadd)

end Steps

/-- A socket is added, and a read that it posted is found under its handle. -/
theorem registration_iff_sample :
    ∃ s, Maps (postedRead ++
      [.polled 0 .read 3 (fun _ => 7) (some 5) (some (some 0, .onRead)) [.closesocket 0]]) s := by
  have hposted : ∀ e ∈ postedRead, ∀ s s' : Iocp ℕ, (fun s e _ => Meets s e) s e s' := by
    simp only [postedRead, List.forall_mem_cons]
    exact ⟨fun _ _ => Or.inl rfl, fun _ _ => trivial, List.forall_mem_nil _⟩
  have hrun := System.Run.to_restrict
    ⟨samplePort 5, samplePort_init 5, path_samplePosted 5⟩ hposted
  have hpoll : (iocpSystem ℕ External.plain).step (samplePosted 5)
      (.polled 0 .read 3 (fun _ => 7) (some 5) (some (some 0, .onRead)) [.closesocket 0]) _ :=
    ⟨.poll (some (0, .read)) 3 (fun _ => 7), rfl⟩
  have hfound : (samplePosted 5).pool 5 = some (some 0) := rfl
  have hmeets : Meets (samplePosted 5)
      (.polled 0 .read 3 (fun _ => 7) (some 5) (some (some 0, .onRead)) [.closesocket 0]) := by
    refine Or.inr ?_
    change (samplePosted 5).pool 5 ≠ none
    rw [hfound]
    exact Option.some_ne_none _
  exact ⟨_, (registration_iff (hrun.snoc ⟨hpoll, hmeets⟩)).1⟩

/-- A socket that was removed stays in the table. -/
theorem not_maps :
    ¬ ∀ (X : External) {tr : List (IocpEvent ℕ)} {s : Iocp ℕ},
      (iocpSystem ℕ X).Run tr s → Maps tr s := by
  intro h
  have hexec : System.exec (Iocp.next External.plain) [.add 0 true, .remove 0] (samplePort 5) =
      some (_, [.added 0 5 true, .removed 0 5]) := rfl
  have hmaps := h External.plain (System.run_of_exec (samplePort_init 5) hexec) 5 0
  cases hmaps.mp rfl

end Qing
