import Qing.Net.Handles

/-!
# Handles are conserved as long as nothing fails

`getNewSocket` and `listen` close nothing when they fail, `accept` loses every handle it
obtains, `close` closes `_handle` and not `_socket`, and the destructor closes nothing. For
each step the condition under which it loses no handle is exact (`kept_iff_meets`): one
lemma for a handle that is obtained, one for a handle that is given away, and the steps
are cases of these.
-/

namespace Qing

variable {Obj : Type*}

namespace Handles

variable [DecidableEq Obj] {X : External} {s s' : Handles Obj} {e : Conduct} {h k : Socket}
  {o : Obj} {i j : Holder Obj}

theorem step_spec {e : HandleEvent Obj} (hstep : (handleSystem Obj X).step s e s') :
    ∃ s₁, s.perform X e.act = some (s₁, e.toConduct) ∧
      openAfter s.isOpen e.calls = some s'.isOpen ∧ ∀ k i, s'.Holds k i ↔ s₁.Holds k i := by
  obtain ⟨a, hnext⟩ := hstep
  rw [next] at hnext
  split_ifs at hnext
  obtain ⟨⟨s₁, conduct⟩, hperform, hmap⟩ := Option.bind_eq_some_iff.mp hnext
  obtain ⟨isOpen, hopen, heq⟩ := Option.map_eq_some_iff.mp hmap
  obtain ⟨rfl, rfl⟩ := Prod.mk.inj heq
  exact ⟨s₁, hperform, hopen, fun k i => holds_with_isOpen isOpen⟩

omit [DecidableEq Obj] in
theorem clean_iff (hoverran : e.overran = false) (hclose : ∀ k, .closesocket k ∉ e.calls) :
    e.Clean ↔ e.failed = true → created e.calls = [] := by
  rw [Conduct.Clean, and_iff_right hoverran]
  refine forall_congr' fun hfailed => ?_
  rw [List.eq_nil_iff_forall_not_mem]
  exact forall_congr' fun k => imp_congr_right fun _ => iff_of_false (hclose k) id

omit [DecidableEq Obj] in
theorem clean_of_not_failed {calls : List SysCall} : Conduct.Clean { calls } :=
  ⟨rfl, fun htrue => absurd htrue Bool.false_ne_true⟩

omit [DecidableEq Obj] in
theorem isOpen_eq_of_no_calls {isOpen' : Socket → Bool}
    (hopen : openAfter s.isOpen [] = some isOpen') : isOpen' = s.isOpen :=
  (Option.some.inj hopen).symm

omit [DecidableEq Obj] in
theorem Kept.of_same (hkept : s.Kept) (hopen : s'.isOpen = s.isOpen)
    (hholds : ∀ k, k ≠ invalidSocket → ∀ j, s'.Holds k j ↔ s.Holds k j) : s'.Kept := by
  intro k hk
  rw [inCustody_congr (by rw [hopen]) (hholds k hk)]
  exact hkept k hk

omit [DecidableEq Obj] in
theorem kept_iff_of_obtained {P : Prop} {new : NewSocket} (hkept : s.Kept)
    (hP : P → new.Succeeds) (hopen : openAfter s.isOpen e.calls = some s'.isOpen)
    (hoverran : e.overran = false) (hcreated : created e.calls = new.opened)
    (hclose : ∀ k, .closesocket k ∉ e.calls) (hfailed : e.failed = true ↔ ¬P)
    (hholds : ∀ k, k ≠ invalidSocket →
      ∀ j, s'.Holds k j ↔ s.Holds k j ∨ P ∧ j = i ∧ k = new.socket) :
    s'.Kept ∧ e.Clean ↔ new.socket = invalidSocket ∨ P := by
  obtain ⟨-, hfresh, hopen'⟩ := openAfter_spec hopen hclose
  rw [clean_iff hoverran hclose, hcreated]
  rw [hcreated] at hfresh hopen'
  by_cases hnew : new.socket = invalidSocket
  · have hnone : new.opened = [] := if_pos hnew
    have hnotP : ¬P := fun hp => (hP hp).1 hnew
    have hsame : s'.isOpen = s.isOpen := by
      funext k
      rw [hnone] at hopen'
      exact Bool.eq_iff_iff.mpr ((hopen' k).trans (or_iff_left List.not_mem_nil))
    refine iff_of_true ⟨hkept.of_same hsame fun k hk j => ?_, fun _ => hnone⟩ (Or.inl hnew)
    exact (hholds k hk j).trans (or_iff_left fun h => hnotP h.1)
  have hone : new.opened = [new.socket] := if_neg hnew
  rw [hone] at hfresh hopen' ⊢
  have hclosed : ¬s.isOpen new.socket = true :=
    Bool.eq_false_iff.mp (hfresh _ (List.mem_singleton_self _))
  have hopened : s'.isOpen new.socket = true :=
    (hopen' _).mpr (Or.inr (List.mem_singleton_self _))
  rw [or_iff_right hnew]
  constructor
  · rintro ⟨-, hclean⟩
    by_contra hnot
    exact List.cons_ne_nil _ _ (hclean (hfailed.mpr hnot))
  · intro hp
    refine ⟨fun k hk => ?_, fun h => absurd hp (hfailed.mp h)⟩
    by_cases hkn : k = new.socket
    · have hgain : ∀ j, s'.Holds new.socket j ↔ s.Holds new.socket j ∨ j = i := fun j =>
        (hholds _ hnew j).trans (or_congr_right ⟨fun h => h.2.1, fun h => ⟨hp, h, rfl⟩⟩)
      rw [hkn]
      exact (hkept _ hnew).acquire hclosed hopened hgain
    · have hsame : s'.isOpen k = true ↔ s.isOpen k = true :=
        (hopen' k).trans (or_iff_left fun h => hkn (List.mem_singleton.mp h))
      rw [inCustody_congr hsame fun j => (hholds k hk j).trans (or_iff_left fun h => hkn h.2.2)]
      exact hkept k hk

section Acts

variable {s₁ : Handles Obj} {new : NewSocket} {result : Option WsaResult} {raw : TcpSocket}

omit [DecidableEq Obj] in
theorem kept_iff_of_getNewSocket (hkept : s.Kept)
    (hconduct : ⟨(Util.getNewSocket new).2,
      decide ((Util.getNewSocket new).1 = invalidSocket), false⟩ = e)
    (hopen : openAfter s.isOpen e.calls = some s'.isOpen)
    (hholds : ∀ k, k ≠ invalidSocket →
      ∀ j, s'.Holds k j ↔ s.Holds k j ∨ j = i ∧ k = (Util.getNewSocket new).1) :
    s'.Kept ∧ e.Clean ↔ new.socket = invalidSocket ∨ new.Succeeds := by
  subst hconduct
  refine kept_iff_of_obtained (i := i) hkept id hopen rfl (Util.created_getNewSocket new)
    (Util.closesocket_notMem_getNewSocket new)
    (by rw [decide_eq_true_iff, Util.getNewSocket_eq_invalid_iff]) fun k hk j => ?_
  rw [hholds k hk]
  apply or_congr_right
  rcases Util.getNewSocket_fst new with ⟨hnew, heq⟩ | ⟨hnew, heq⟩
  · rw [heq, and_iff_right hnew]
  · rw [heq]
    exact iff_of_false (fun h => hk h.2) fun h => hnew h.1

theorem kept_iff_getNewSocket (hkept : s.Kept)
    (hperform : s.perform X (.getNewSocket new) = some (s₁, e))
    (hopen : openAfter s.isOpen e.calls = some s'.isOpen)
    (hholds : ∀ k i, s'.Holds k i ↔ s₁.Holds k i) :
    s'.Kept ∧ e.Clean ↔ new.socket = invalidSocket ∨ new.Succeeds := by
  obtain ⟨rfl, hconduct⟩ := Prod.mk.inj (Option.some.inj hperform)
  refine kept_iff_of_getNewSocket (i := .caller) hkept hconduct hopen fun k hk j => ?_
  rw [hholds, holds_give]
  refine or_congr_right (and_iff_right_of_imp fun h => ?_)
  rw [← h.2]
  exact hk

theorem kept_iff_accept (hkept : s.Kept)
    (hperform : s.perform X (.accept o new result) = some (s₁, e))
    (hopen : openAfter s.isOpen e.calls = some s'.isOpen)
    (hholds : ∀ k i, s'.Holds k i ↔ s₁.Holds k i) :
    s'.Kept ∧ e.Clean ↔ new.socket = invalidSocket := by
  let l := s.listeners o
  rw [perform] at hperform
  by_cases hnew : new.Succeeds
  · have hoverran : e.overran = (l.accept new result).overran := by
      split_ifs at hperform
      all_goals rw [← (Prod.mk.inj (Option.some.inj hperform)).2]
    rw [(l.accept_overran_iff new result).mpr hnew] at hoverran
    exact iff_of_false (fun h => Bool.noConfusion (hoverran.symm.trans h.2.1)) hnew.1
  rw [if_neg fun h => hnew h.1] at hperform
  obtain ⟨rfl, rfl⟩ := Prod.mk.inj (Option.some.inj hperform)
  have hoverran : (l.accept new result).overran = false :=
    Bool.eq_false_iff.mpr ((l.accept_overran_iff new result).not.mpr hnew)
  have hobtained := kept_iff_of_obtained (P := False) (i := .listener o) hkept False.elim hopen
    hoverran (l.created_accept new result) (l.closesocket_notMem_accept new result)
    (iff_of_true rfl not_false) fun k hk j => ?_
  · rw [hobtained, or_false]
  · rw [hholds, holds_with_halted, holds_setListener, TcpListener.accept_socket, false_and,
      or_false]
    by_cases hj : j = .listener o
    · rw [hj]
      simp [Holds]
    · simp [hj]

theorem kept_iff_construct (hkept : s.Kept)
    (hperform : s.perform X (.construct o raw new) = some (s₁, e))
    (hopen : openAfter s.isOpen e.calls = some s'.isOpen)
    (hholds : ∀ k i, s'.Holds k i ↔ s₁.Holds k i) :
    s'.Kept ∧ e.Clean ↔ new.socket = invalidSocket ∨ new.Succeeds := by
  rw [perform] at hperform
  split_ifs at hperform with hnone
  obtain ⟨rfl, hconduct⟩ := Prod.mk.inj (Option.some.inj hperform)
  refine kept_iff_of_getNewSocket (i := .socket o) hkept hconduct hopen fun k hk j => ?_
  rw [hholds, holds_fill hnone]
  exact or_congr_right (and_congr_right fun _ => eq_comm)

/-- What a step is that calls `listen` of `o`. -/
structure Listened (s : Handles Obj) (o : Obj) (r : TcpListener.Listening) (new : NewSocket)
    (e : Conduct) (s' : Handles Obj) : Prop where
  opens : openAfter s.isOpen e.calls = some s'.isOpen
  closes : ∀ k, .closesocket k ∉ e.calls
  made : created e.calls = r.opened ++ if r.Accepts then new.opened else []
  overran : e.overran = true ↔ r.Accepts ∧ new.Succeeds
  failed : e.overran = false → e.failed = true
  holds : ∀ k j, s'.Holds k j ↔
    j ≠ .listener o ∧ s.Holds k j ∨ j = .listener o ∧ r.socket = k

section Listened

variable {r : TcpListener.Listening}

theorem listened_of_perform
    (hperform : s.perform X (.listen o r new result) = some (s₁, e))
    (hopen : openAfter s.isOpen e.calls = some s'.isOpen)
    (hholds : ∀ k i, s'.Holds k i ↔ s₁.Holds k i) : Listened s o r new e s' := by
  let l := s.listeners o
  obtain ⟨rfl, rfl⟩ := Prod.mk.inj (Option.some.inj hperform)
  constructor
  case opens => exact hopen
  case closes => exact l.closesocket_notMem_listen r new result
  case made => exact l.created_listen r new result
  case overran => exact l.listen_overran_iff r new result
  case failed =>
      intro hoverran
      refine decide_eq_true (l.listen_ret_of_not r new result fun h => ?_)
      rw [(l.listen_overran_iff r new result).mpr h] at hoverran
      cases hoverran
  case holds =>
      intro k j
      rw [hholds, holds_with_halted, holds_setListener, l.listen_socket]

omit [DecidableEq Obj]

theorem Listened.old_eq (h : Listened s o r new e s') (hkept : s.Kept)
    (hkept' : s'.Kept) (hr : r.socket = invalidSocket) :
    (s.listeners o).socket = invalidSocket := by
  by_contra hold
  obtain ⟨-, -, hopen'⟩ := openAfter_spec h.opens h.closes
  have hheld : s.Holds (s.listeners o).socket (.listener o) := rfl
  have hclosed := ((hkept _ hold).drop_iff hheld fun j hj => ?_).mp (hkept' _ hold)
  · exact hclosed ((hopen' _).mpr (Or.inl ((hkept _ hold).2 _ hheld)))
  · rcases (h.holds _ j).mp hj with hother | hnew
    · exact hother.symm
    · exact absurd (hnew.2.symm.trans hr) hold

theorem Listened.kept (h : Listened s o r new e s') (hkept : s.Kept)
    (hold : (s.listeners o).socket = invalidSocket) (hr : r.socket = invalidSocket)
    (hnone : created e.calls = []) : s'.Kept := by
  obtain ⟨-, -, hopen'⟩ := openAfter_spec h.opens h.closes
  rw [hnone] at hopen'
  have hsame : s'.isOpen = s.isOpen := by
    funext k
    exact Bool.eq_iff_iff.mpr ((hopen' k).trans (or_iff_left List.not_mem_nil))
  refine hkept.of_same hsame fun k hk j => ?_
  rw [h.holds, hr]
  by_cases hj : j = .listener o
  · rw [hj]
    simp [Holds, hold]
  · simp [hj]

theorem Listened.made_eq_nil_iff (h : Listened s o r new e s') :
    created e.calls = [] ↔
      r.socket = invalidSocket ∧ (r.Accepts → new.socket = invalidSocket) := by
  have hnil : ∀ h : Socket, (if h = invalidSocket then [] else [h]) = [] ↔ h = invalidSocket := by
    intro h
    by_cases heq : h = invalidSocket
    · exact iff_of_true (if_pos heq) heq
    · rw [if_neg heq]
      exact iff_of_false (List.cons_ne_nil h []) heq
  rw [h.made, List.append_eq_nil_iff, TcpListener.Listening.opened, hnil]
  refine and_congr_right fun _ => ?_
  split_ifs with haccepts
  · rw [NewSocket.opened, hnil, forall_prop_of_true haccepts]
  · exact iff_of_true rfl fun h => absurd h haccepts

theorem Listened.kept_iff (h : Listened s o r new e s') (hkept : s.Kept) :
    s'.Kept ∧ e.Clean ↔ (s.listeners o).socket = invalidSocket ∧
      r.socket = invalidSocket ∧ (r.Accepts → new.socket = invalidSocket) := by
  constructor
  · rintro ⟨hkept', hclean⟩
    have hnone := (clean_iff hclean.1 h.closes).mp hclean (h.failed hclean.1)
    obtain ⟨hr, hnew⟩ := h.made_eq_nil_iff.mp hnone
    exact ⟨h.old_eq hkept hkept' hr, hr, hnew⟩
  · rintro ⟨hold, hnew⟩
    have hnone := h.made_eq_nil_iff.mpr hnew
    have hoverran : e.overran = false :=
      Bool.eq_false_iff.mpr fun htrue => (h.overran.mp htrue).2.1 (hnew.2 (h.overran.mp htrue).1)
    exact ⟨h.kept hkept hold hnew.1 hnone, (clean_iff hoverran h.closes).mpr fun _ => hnone⟩

end Listened

theorem kept_constructIdle (hkept : s.Kept)
    (hperform : s.perform X (.constructIdle o raw) = some (s₁, e))
    (hopen : openAfter s.isOpen e.calls = some s'.isOpen)
    (hholds : ∀ k i, s'.Holds k i ↔ s₁.Holds k i) : s'.Kept ∧ e.Clean := by
  rw [perform] at hperform
  split_ifs at hperform with hnone
  obtain ⟨rfl, rfl⟩ := Prod.mk.inj (Option.some.inj hperform)
  refine ⟨hkept.of_same (isOpen_eq_of_no_calls hopen) fun k hk j => ?_, clean_of_not_failed⟩
  rw [hholds, holds_fill hnone]
  exact or_iff_left fun h => hk h.2.symm

theorem kept_iff_constructWith (hkept : s.Kept)
    (hperform : s.perform X (.constructWith o raw h) = some (s₁, e))
    (hopen : openAfter s.isOpen e.calls = some s'.isOpen)
    (hholds : ∀ k i, s'.Holds k i ↔ s₁.Holds k i) :
    s'.Kept ∧ e.Clean ↔ h = invalidSocket ∨ h ∈ s.returned := by
  rw [perform] at hperform
  split_ifs at hperform with hnone
  obtain ⟨rfl, rfl⟩ := Prod.mk.inj (Option.some.inj hperform)
  have hsame := isOpen_eq_of_no_calls hopen
  have hsocket : (TcpSocket.ofSocket X raw h).socket = h := by
    rw [TcpSocket.ofSocket, X.setSocket_eq]
    rfl
  have hheld : ∀ k j, s'.Holds k j ↔
      s.Holds k j ∧ ¬(j = .caller ∧ k = h) ∨ j = .socket o ∧ h = k := by
    intro k j
    have hnone' : ((s.passOn h).sockets o).isNone = true := hnone
    rw [hholds, holds_fill hnone', holds_passOn, hsocket]
  have hother : ∀ k, k ≠ h → ∀ j, s'.Holds k j ↔ s.Holds k j := by
    intro k hk j
    rw [hheld, or_iff_left fun hj => hk hj.2.symm]
    exact and_iff_left fun hj => hk hj.2
  rw [and_iff_left clean_of_not_failed]
  by_cases hh : h = invalidSocket
  · exact iff_of_true (hkept.of_same hsame fun k hk => hother k (hh ▸ hk)) (Or.inl hh)
  rw [or_iff_right hh]
  constructor
  · intro hkept'
    by_contra hnot
    have hshared : ∀ j, s'.Holds h j ↔ s.Holds h j ∨ j = .socket o := by
      intro j
      have hkeeps : s.Holds h j → ¬j = .caller := by
        rintro hj rfl
        exact hnot hj
      rw [hheld, and_iff_left rfl, and_iff_left rfl, and_iff_left_of_imp hkeeps]
    refine (hkept h hh).share (not_holds_of_isNone hnone) hshared ?_
    rw [← hsame]
    exact hkept' h hh
  · intro hreturned k hk
    by_cases hkh : k = h
    · have hmoved : ∀ j, s'.Holds h j ↔ j ≠ .caller ∧ s.Holds h j ∨ j = .socket o := by
        intro j
        rw [hheld, and_iff_left rfl, and_iff_left rfl, and_comm]
      rw [hkh, hsame]
      exact (hkept h hh).move (i := .caller) hreturned hmoved
    · rw [inCustody_congr (by rw [hsame]) (hother k hkh)]
      exact hkept k hk

omit [DecidableEq Obj] in
theorem kept_iff_of_dropped {v c : Socket} (hkept : s.Kept) (hv : v ≠ invalidSocket)
    (hopen : ∀ k, k ≠ invalidSocket → (s'.isOpen k = true ↔ s.isOpen k = true ∧ k ≠ c))
    (hheld : ∀ k, s.Holds k i ↔ k = v)
    (hholds : ∀ k, k ≠ invalidSocket → ∀ j, s'.Holds k j ↔ s.Holds k j ∧ j ≠ i) :
    s'.Kept ↔ c = v := by
  have hv' : s.Holds v i := (hheld v).mpr rfl
  have hdrop : InCustody (s'.isOpen v = true) (s'.Holds v) ↔ c = v := by
    rw [(hkept v hv).drop_iff hv' fun j => (hholds v hv j).mp, hopen v hv,
      and_iff_right ((hkept v hv).2 i hv'), not_not, eq_comm]
  constructor
  · exact fun hkept' => hdrop.mp (hkept' v hv)
  · intro hc k hk
    by_cases hkv : k = v
    · rw [hkv]
      exact hdrop.mpr hc
    · have hsame : s'.isOpen k = true ↔ s.isOpen k = true :=
        (hopen k hk).trans (and_iff_left fun h => hkv (h.trans hc))
      have hother : ∀ j, s'.Holds k j ↔ s.Holds k j := fun j =>
        (hholds k hk j).trans (and_iff_left_of_imp fun hj hji => hkv ((hheld k).mp (hji ▸ hj)))
      rw [inCustody_congr hsame hother]
      exact hkept k hk

theorem kept_iff_close (hkept : s.Kept)
    (hperform : s.perform X (.close o) = some (s₁, e))
    (hopen : openAfter s.isOpen e.calls = some s'.isOpen)
    (hholds : ∀ k i, s'.Holds k i ↔ s₁.Holds k i) :
    s'.Kept ∧ e.Clean ↔
      ∀ t, s.sockets o = some t → t.valid = false ∨ t.handle = t.socket := by
  obtain ⟨t, ht, heq⟩ := Option.map_eq_some_iff.mp hperform
  obtain ⟨rfl, rfl⟩ := Prod.mk.inj heq
  have hheld : ∀ k, s.Holds k (.socket o) ↔ k = t.socket := fun k => holds_socket_iff ht
  have honly : (∀ t', s.sockets o = some t' → t'.valid = false ∨ t'.handle = t'.socket) ↔
      t.valid = false ∨ t.handle = t.socket := by
    rw [ht]
    simp only [Option.some.injEq, forall_eq']
  rw [and_iff_left clean_of_not_failed, honly, TcpSocket.valid_eq_false_iff]
  by_cases hv : t.socket = invalidSocket
  · have hclosed : t.close X = { self := t } :=
      if_pos (TcpSocket.valid_eq_false_iff.mpr hv)
    rw [hclosed] at hopen hholds
    have hsame := isOpen_eq_of_no_calls hopen
    refine iff_of_true (hkept.of_same hsame fun k hk j => ?_) (Or.inl hv)
    rw [hholds, holds_setSocket, Option.map_some, Option.some_inj]
    by_cases hj : j = .socket o
    · rw [hj, hheld]
      simp [eq_comm]
    · simp [hj]
  · have hvalid : t.valid = true :=
      Bool.of_not_eq_false (mt TcpSocket.valid_eq_false_iff.mp hv)
    rw [or_iff_right hv]
    refine kept_iff_of_dropped hkept hv (fun k hk => ?_) hheld fun k hk j => ?_
    · rw [TcpSocket.sysCalls_close X hvalid] at hopen
      split_ifs at hopen with hhandle
      · rw [← Option.some.inj hopen, hhandle, and_iff_left hk]
      · rw [← Option.some.inj hopen, Function.update_apply]
        split_ifs with hkc
        · exact iff_of_false id fun h => h.2 hkc
        · exact (and_iff_left hkc).symm
    · rw [hholds, holds_setSocket, Option.map_some, TcpSocket.socket_close X hvalid,
        or_iff_left fun h => hk (Option.some.inj h.2).symm]
      exact and_comm

theorem kept_iff_destroy (hkept : s.Kept)
    (hperform : s.perform X (.destroy o) = some (s₁, e))
    (hopen : openAfter s.isOpen e.calls = some s'.isOpen)
    (hholds : ∀ k i, s'.Holds k i ↔ s₁.Holds k i) :
    s'.Kept ∧ e.Clean ↔ ∀ t, s.sockets o = some t → t.valid = false := by
  obtain ⟨t, ht, heq⟩ := Option.map_eq_some_iff.mp hperform
  obtain ⟨rfl, rfl⟩ := Prod.mk.inj heq
  have hsame := isOpen_eq_of_no_calls hopen
  have hheld : ∀ k, s.Holds k (.socket o) ↔ k = t.socket := fun k => holds_socket_iff ht
  have hgone : ∀ k j, s'.Holds k j ↔ s.Holds k j ∧ j ≠ .socket o := by
    intro k j
    rw [hholds, holds_setSocket, or_iff_left fun h => Option.some_ne_none k h.2.symm, and_comm]
  have honly : (∀ t', s.sockets o = some t' → t'.valid = false) ↔ t.valid = false := by
    rw [ht]
    simp only [Option.some.injEq, forall_eq']
  rw [and_iff_left clean_of_not_failed, honly, TcpSocket.valid_eq_false_iff]
  by_cases hv : t.socket = invalidSocket
  · refine iff_of_true (hkept.of_same hsame fun k hk j => ?_) hv
    rw [hgone]
    refine and_iff_left_of_imp fun hj hjo => hk ?_
    rw [← hv, (hheld k).mp (hjo ▸ hj)]
  · refine iff_of_false (fun hkept' => hv ?_) hv
    -- nothing is closed, which is to close `-1`
    have hopen' : ∀ k, k ≠ invalidSocket →
        (s'.isOpen k = true ↔ s.isOpen k = true ∧ k ≠ invalidSocket) := by
      intro k hk
      rw [hsame, and_iff_left hk]
    exact ((kept_iff_of_dropped hkept hv hopen' hheld fun k _ => hgone k).mp hkept').symm

end Acts

/-- From a state in which every handle is in custody, a step keeps it so and closes what
it failed with exactly when it meets the condition. -/
theorem kept_iff_meets {e : HandleEvent Obj} (hkept : s.Kept)
    (hstep : (handleSystem Obj X).step s e s') : s'.Kept ∧ e.Clean ↔ s.Meets e.act := by
  obtain ⟨s₁, hperform, hopen, hholds⟩ := step_spec hstep
  generalize hact : e.act = act at hperform
  cases act with
  | getNewSocket new => exact kept_iff_getNewSocket hkept hperform hopen hholds
  | listen o r new result => exact (listened_of_perform hperform hopen hholds).kept_iff hkept
  | accept o new result => exact kept_iff_accept hkept hperform hopen hholds
  | construct o raw new => exact kept_iff_construct hkept hperform hopen hholds
  | constructIdle o raw =>
      exact iff_of_true (kept_constructIdle hkept hperform hopen hholds) trivial
  | constructWith o raw h => exact kept_iff_constructWith hkept hperform hopen hholds
  | close o => exact kept_iff_close hkept hperform hopen hholds
  | destroy o => exact kept_iff_destroy hkept hperform hopen hholds

omit [DecidableEq Obj] in
theorem kept_init {listeners : Obj → TcpListener}
    (h : ∀ o, (listeners o).socket = invalidSocket) : Kept { listeners } := by
  intro k hk
  rw [InCustody.iff_not_open]
  · exact Bool.false_ne_true
  intro i hi
  cases i with
  | caller => cases hi
  | listener o => exact hk (hi.symm.trans (h o))
  | socket o => cases hi

end Handles

/-- In a run whose steps all meet the condition every open handle is held by one listener or
socket, or by the caller, in every state, and no function has reported failure and left
a handle open, nor overrun its memory; and a step that does not meet it loses a handle, or
leaves one open, or overruns. -/
theorem conserved_of_met {X : External} [DecidableEq Obj] {tr : List (HandleEvent Obj)}
    {s : Handles Obj}
    (h : ((handleSystem Obj X).restrict fun s e _ => s.Meets e.act).Run tr s) :
    s.Conserved ∧ (∀ e ∈ tr, e.Clean) ∧
      ∀ e s', (handleSystem Obj X).step s e s' → (s'.Kept ∧ e.Clean ↔ s.Meets e.act) := by
  have hkept : s.Kept ∧ ∀ e ∈ tr, e.Clean := by
    refine System.Run.induction
      (P := fun tr s => s.Kept ∧ ∀ e ∈ tr, Conduct.Clean e.toConduct) ?_ ?_ h
    · rintro s ⟨listeners, hlisteners, rfl⟩
      exact ⟨Handles.kept_init hlisteners, fun _ he => absurd he List.not_mem_nil⟩
    · intro tr s e s' _ ih hstep
      obtain ⟨hkept', hclean⟩ := (Handles.kept_iff_meets ih.1 hstep.1).mpr hstep.2
      refine ⟨hkept', fun e' he' => ?_⟩
      rcases List.mem_append.mp he' with hold | hnew
      · exact ih.2 e' hold
      · rwa [List.mem_singleton.mp hnew]
  exact ⟨fun k hk => (hkept.1 k hk).1, hkept.2,
    fun e s' hstep => Handles.kept_iff_meets hkept.1 hstep⟩

/-- Objects named by numbers, over listeners that have not listened. -/
def noHandles : Handles ℕ := { listeners := fun _ => { ioData := ⟨0, .handleAccept, 0⟩ } }

theorem noHandles_init : (handleSystem ℕ External.plain).init noHandles :=
  ⟨_, fun _ => rfl, rfl⟩

/-- The caller obtains handle 4 and passes it on to a socket. -/
theorem conserved_of_met_sample : ∃ s : Handles ℕ, s.Conserved ∧ s.isOpen 4 = true := by
  let M := (handleSystem ℕ External.plain).restrict fun s e _ => s.Meets e.act
  let new : NewSocket := ⟨4, true, true⟩
  let obtained : Handles ℕ :=
    { noHandles with isOpen := Function.update (fun _ => false) 4 true, returned := [4] }
  have hget : M.step noHandles
      ⟨{ calls := (Util.getNewSocket new).2 }, .getNewSocket new⟩ obtained :=
    ⟨⟨.getNewSocket new, rfl⟩, Or.inr (by decide)⟩
  have hpass : M.step obtained ⟨{}, .constructWith 0 (rawMemory 0) 4⟩ _ :=
    ⟨⟨.constructWith 0 (rawMemory 0) 4, rfl⟩, Or.inr List.mem_cons_self⟩
  exact ⟨_, (conserved_of_met
    ⟨_, noHandles_init, ((System.Path.refl _).tail hget).tail hpass⟩).1, rfl⟩

/-- A `setsockopt` that fails in `getNewSocket`: `-1` is returned and handle 4 is lost. -/
theorem not_conserved : ¬∀ tr s, (handleSystem ℕ External.plain).Run tr s →
    s.Conserved ∧ ∀ e ∈ tr, e.Clean := by
  intro hall
  let new : NewSocket := ⟨4, false, true⟩
  have hstep : (handleSystem ℕ External.plain).step noHandles
      ⟨{ calls := (Util.getNewSocket new).2, failed := true }, .getNewSocket new⟩ _ :=
    ⟨.getNewSocket new, rfl⟩
  obtain ⟨hconserved, -⟩ := hall _ _ ⟨_, noHandles_init, System.Path.single hstep⟩
  obtain ⟨i, hi, -⟩ := hconserved 4 (by decide) rfl
  cases i with
  | caller => cases hi
  | listener o =>
      have heq : invalidSocket = 4 := hi
      exact absurd heq (by decide)
  | socket o => cases hi

end Qing
