import Mathlib.Data.List.Nodup
import Mathlib.Data.List.Pairwise
import Mathlib.Order.Basic
import Mathlib.Order.Lattice
import Mathlib.Data.Option.Basic

/-!
# Ordered maps walked by an iterator

`OrderedMap κ α` is a finite map whose entries are listed by strictly increasing
key, the order in which an iterator meets them. The invariant is a field, so a
map with a repeated or a misplaced key cannot be built, and two maps with the
same lookups are equal (`ext_find?`).

An iterator is the key it stands on, or `none` past the end: `first?` is where it
starts and `next? k` is where it goes from `k`. `walk` is the loop that erases
behind its own iterator, `Walked` the invariant of such a loop, and `walk_entries`
says it meets every entry once.
-/

namespace Qing

/-- A finite map listed by strictly increasing key. -/
structure OrderedMap (κ α : Type*) [LinearOrder κ] where
  entries : List (κ × α)
  sorted : entries.Pairwise fun a b => a.1 < b.1

namespace OrderedMap

variable {κ α β : Type*} [LinearOrder κ]

def empty : OrderedMap κ α := ⟨[], List.Pairwise.nil⟩

def find? (m : OrderedMap κ α) (k : κ) : Option α :=
  (m.entries.find? fun e => decide (e.1 = k)).map Prod.snd

def keys (m : OrderedMap κ α) : List κ := m.entries.map Prod.fst

def first? (m : OrderedMap κ α) : Option κ := m.entries.head?.map Prod.fst

/-- Where an iterator standing on `k` goes next. -/
def next? (m : OrderedMap κ α) (k : κ) : Option κ :=
  (m.entries.find? fun e => decide (k < e.1)).map Prod.fst

/-- Insertion into a sorted list of entries; a taken key keeps its value. -/
def insertEntry (k : κ) (v : α) : List (κ × α) → List (κ × α)
  | [] => [(k, v)]
  | e :: es =>
      if k < e.1 then (k, v) :: e :: es
      else if k = e.1 then e :: es
      else e :: insertEntry k v es

theorem mem_insertEntry {k : κ} {v : α} {e : κ × α} {es : List (κ × α)}
    (h : e ∈ insertEntry k v es) : e = (k, v) ∨ e ∈ es := by
  induction es with
  | nil => simpa [insertEntry] using h
  | cons d ds ih =>
      rw [insertEntry] at h
      split_ifs at h with hlt heq
      · simpa using h
      · exact Or.inr h
      · rcases List.mem_cons.mp h with rfl | hmem
        · exact Or.inr List.mem_cons_self
        · exact (ih hmem).imp id (List.mem_cons_of_mem d)

theorem insertEntry_sorted (k : κ) (v : α) {es : List (κ × α)}
    (h : es.Pairwise fun a b => a.1 < b.1) :
    (insertEntry k v es).Pairwise fun a b => a.1 < b.1 := by
  induction es with
  | nil => simp [insertEntry]
  | cons d ds ih =>
      obtain ⟨hd, hds⟩ := List.pairwise_cons.mp h
      rw [insertEntry]
      split_ifs with hlt heq
      · refine List.pairwise_cons.mpr ⟨?_, h⟩
        intro e he
        rcases List.mem_cons.mp he with rfl | hmem
        · exact hlt
        · exact hlt.trans (hd e hmem)
      · exact h
      · have hdk : d.1 < k := lt_of_le_of_ne (not_lt.mp hlt) (Ne.symm heq)
        refine List.pairwise_cons.mpr ⟨?_, ih hds⟩
        intro e he
        rcases mem_insertEntry he with rfl | hmem
        · exact hdk
        · exact hd e hmem

/-- Insertion as `std::map::insert` does it: nothing happens on a taken key. -/
def insert (m : OrderedMap κ α) (k : κ) (v : α) : OrderedMap κ α :=
  ⟨insertEntry k v m.entries, insertEntry_sorted k v m.sorted⟩

def erase (m : OrderedMap κ α) (k : κ) : OrderedMap κ α :=
  ⟨m.entries.filter fun e => decide (e.1 ≠ k), m.sorted.filter _⟩

/-- The values rewritten in place by `g`, an entry on which `g` answers `none`
being dropped. -/
def filterMap (g : κ → α → Option β) (m : OrderedMap κ α) : OrderedMap κ β where
  entries := m.entries.filterMap fun e => (g e.1 e.2).map fun v => (e.1, v)
  sorted := by
    refine List.Pairwise.filterMap _ ?_ m.sorted
    intro a b hab a' ha b' hb
    obtain ⟨v, -, rfl⟩ := Option.map_eq_some_iff.mp ha
    obtain ⟨w, -, rfl⟩ := Option.map_eq_some_iff.mp hb
    exact hab

/-- The value under `k`, if there is one, rewritten in place. -/
def modify (m : OrderedMap κ α) (k : κ) (g : α → α) : OrderedMap κ α where
  entries := m.entries.map fun e => (e.1, if e.1 = k then g e.2 else e.2)
  sorted := List.pairwise_map.mpr m.sorted

/-! ## Lookups -/

theorem find?_eq_some_iff (m : OrderedMap κ α) (k : κ) (v : α) :
    m.find? k = some v ↔ (k, v) ∈ m.entries := by
  obtain ⟨es, hs⟩ := m
  simp only [find?]
  induction es with
  | nil => simp
  | cons d ds ih =>
      obtain ⟨hd, hds⟩ := List.pairwise_cons.mp hs
      by_cases hk : d.1 = k
      · have hnot : (k, v) ∉ ds := fun hmem => absurd (hd _ hmem) (by simp [hk])
        simp only [List.find?_cons, hk, decide_true, Option.map_some,
          Option.some.injEq, List.mem_cons, hnot, or_false]
        constructor
        · rintro rfl
          rw [← hk]
        · intro h
          rw [← h]
      · have hne : (k, v) ≠ d := fun h => hk (by rw [← h])
        simp [hk, hne, ih hds]

theorem find?_eq_none_iff (m : OrderedMap κ α) (k : κ) :
    m.find? k = none ↔ ∀ v, (k, v) ∉ m.entries := by
  constructor
  · intro h v hv
    rw [(m.find?_eq_some_iff k v).mpr hv] at h
    cases h
  · intro h
    cases hf : m.find? k with
    | none => rfl
    | some v => exact absurd ((m.find?_eq_some_iff k v).mp hf) (h v)

theorem mem_keys_iff (m : OrderedMap κ α) (k : κ) :
    k ∈ m.keys ↔ (m.find? k).isSome := by
  rw [keys, List.mem_map, Option.isSome_iff_exists]
  constructor
  · rintro ⟨⟨j, v⟩, hmem, rfl⟩
    exact ⟨v, (m.find?_eq_some_iff j v).mpr hmem⟩
  · rintro ⟨v, hv⟩
    exact ⟨(k, v), (m.find?_eq_some_iff k v).mp hv, rfl⟩

@[simp] theorem find?_empty (k : κ) : (empty : OrderedMap κ α).find? k = none := rfl

theorem ext_find? {m n : OrderedMap κ α} (h : ∀ k, m.find? k = n.find? k) : m = n := by
  have hmem : ∀ e, e ∈ m.entries ↔ e ∈ n.entries := by
    rintro ⟨k, v⟩
    rw [← find?_eq_some_iff, ← find?_eq_some_iff, h]
  have hnodup : ∀ p : OrderedMap κ α, p.entries.Nodup :=
    fun p => p.sorted.imp fun hab heq => absurd hab (by rw [heq]; exact lt_irrefl _)
  have hperm : m.entries.Perm n.entries :=
    (List.perm_ext_iff_of_nodup (hnodup m) (hnodup n)).mpr hmem
  have heq : m.entries = n.entries :=
    hperm.eq_of_pairwise (fun a b _ _ hab hba => absurd hab (lt_asymm hba)) m.sorted n.sorted
  cases m
  cases n
  congr

theorem find?_filterMap (g : κ → α → Option β) (m : OrderedMap κ α) (k : κ) :
    (m.filterMap g).find? k = (m.find? k).bind (g k) := by
  refine Option.ext fun w => ?_
  rw [find?_eq_some_iff, filterMap, List.mem_filterMap, Option.bind_eq_some_iff]
  constructor
  · rintro ⟨⟨j, v⟩, hmem, hg⟩
    obtain ⟨u, hu, heq⟩ := Option.map_eq_some_iff.mp hg
    obtain ⟨rfl, rfl⟩ := Prod.mk.inj heq
    exact ⟨v, (m.find?_eq_some_iff j v).mpr hmem, hu⟩
  · rintro ⟨v, hv, hg⟩
    exact ⟨(k, v), (m.find?_eq_some_iff k v).mp hv, by simp [hg]⟩

theorem find?_modify (m : OrderedMap κ α) (k j : κ) (g : α → α) :
    (m.modify k g).find? j = if j = k then (m.find? j).map g else m.find? j := by
  have hmap : (m.modify k g).find? j =
      (m.find? j).map fun v => if j = k then g v else v := by
    refine Option.ext fun w => ?_
    rw [find?_eq_some_iff, modify, List.mem_map, Option.map_eq_some_iff]
    constructor
    · rintro ⟨⟨i, v⟩, hmem, heq⟩
      obtain ⟨rfl, rfl⟩ := Prod.mk.inj heq
      exact ⟨v, (m.find?_eq_some_iff i v).mpr hmem, rfl⟩
    · rintro ⟨v, hv, rfl⟩
      exact ⟨(j, v), (m.find?_eq_some_iff j v).mp hv, rfl⟩
  rw [hmap]
  split_ifs with hj
  · rfl
  · exact Option.map_id'

theorem find?_erase (m : OrderedMap κ α) (k j : κ) :
    (m.erase k).find? j = if j = k then none else m.find? j := by
  refine Option.ext fun w => ?_
  rw [find?_eq_some_iff]
  split_ifs with hj
  · simp [erase, hj]
  · simp [erase, hj, find?_eq_some_iff]

theorem modify_id (m : OrderedMap κ α) (k : κ) : m.modify k id = m := by
  refine ext_find? fun j => ?_
  rw [find?_modify, Option.map_id_fun]
  exact ite_self (m.find? j)

theorem modify_of_absent {m : OrderedMap κ α} {k : κ} (h : m.find? k = none) (g : α → α) :
    m.modify k g = m := by
  refine ext_find? fun j => ?_
  rw [find?_modify]
  split_ifs with hj
  · rw [hj, h]
    rfl
  · rfl

theorem erase_modify (m : OrderedMap κ α) (k : κ) (g : α → α) :
    (m.modify k g).erase k = m.erase k := by
  refine ext_find? fun j => ?_
  rw [find?_erase, find?_erase, find?_modify]
  split_ifs <;> rfl

theorem mem_insertEntry_iff {k : κ} {v : α} {e : κ × α} {es : List (κ × α)}
    (h : es.Pairwise fun a b => a.1 < b.1) :
    e ∈ insertEntry k v es ↔ e ∈ es ∨ (e = (k, v) ∧ ∀ w, (k, w) ∉ es) := by
  induction es with
  | nil => simp [insertEntry]
  | cons d ds ih =>
      obtain ⟨hd, hds⟩ := List.pairwise_cons.mp h
      rw [insertEntry]
      split_ifs with hlt heq
      · have hfree : ∀ w, (k, w) ∉ d :: ds := by
          intro w hw
          rcases List.mem_cons.mp hw with rfl | hmem
          · exact lt_irrefl _ hlt
          · exact lt_asymm hlt (hd _ hmem)
        rw [List.mem_cons, or_comm]
        simp [hfree]
      · refine ⟨Or.inl, ?_⟩
        rintro (hmem | ⟨-, hfree⟩)
        · exact hmem
        · exact absurd List.mem_cons_self (heq ▸ hfree d.2)
      · have hdk : ∀ w, (k, w) ≠ d := fun w hw => heq (by rw [← hw])
        simp only [List.mem_cons, ih hds, hdk, false_or, or_assoc]

theorem find?_insert (m : OrderedMap κ α) (k j : κ) (v : α) :
    (m.insert k v).find? j =
      if j = k then some ((m.find? k).getD v) else m.find? j := by
  refine Option.ext fun w => ?_
  rw [find?_eq_some_iff, insert, mem_insertEntry_iff m.sorted, ← find?_eq_some_iff,
    ← find?_eq_none_iff]
  split_ifs with hj
  · subst hj
    cases hf : m.find? j <;> simp [eq_comm]
  · simp [hj]

/-! ## Iterators -/

theorem first?_isSome_find? {m : OrderedMap κ α} {k : κ} (h : m.first? = some k) :
    (m.find? k).isSome := by
  obtain ⟨e, he, rfl⟩ := Option.map_eq_some_iff.mp h
  exact Option.isSome_of_eq_some
    ((m.find?_eq_some_iff e.1 e.2).mpr (List.mem_of_head? he))

theorem next?_isSome_find? {m : OrderedMap κ α} {k j : κ} (h : m.next? k = some j) :
    (m.find? j).isSome := by
  obtain ⟨e, he, rfl⟩ := Option.map_eq_some_iff.mp h
  exact Option.isSome_of_eq_some
    ((m.find?_eq_some_iff e.1 e.2).mpr (List.mem_of_find?_eq_some he))

theorem lt_of_next? {m : OrderedMap κ α} {k j : κ} (h : m.next? k = some j) : k < j := by
  obtain ⟨e, he, rfl⟩ := Option.map_eq_some_iff.mp h
  simpa using List.find?_some he

section Split

variable {m : OrderedMap κ α} {k : κ} {v : α} {pre post : List (κ × α)}

theorem key_lt_of_split (h : m.entries = pre ++ (k, v) :: post) :
    (∀ e ∈ pre, e.1 < k) ∧ ∀ e ∈ post, k < e.1 := by
  have hs := m.sorted
  rw [h, List.pairwise_append, List.pairwise_cons] at hs
  exact ⟨fun e he => hs.2.2 e he (k, v) List.mem_cons_self, hs.2.1.1⟩

theorem find?_of_split (h : m.entries = pre ++ (k, v) :: post) : m.find? k = some v :=
  (m.find?_eq_some_iff k v).mpr (by simp [h])

theorem next?_of_split (h : m.entries = pre ++ (k, v) :: post) :
    m.next? k = post.head?.map Prod.fst := by
  obtain ⟨hpre, hpost⟩ := key_lt_of_split h
  have hskip : pre.find? (fun e => decide (k < e.1)) = none := by
    simpa using fun e he => (hpre e he).le
  rw [next?, h, List.find?_append, hskip, Option.none_or]
  cases post with
  | nil => simp
  | cons d ds => simp [hpost d List.mem_cons_self]

theorem erase_entries_of_split (h : m.entries = pre ++ (k, v) :: post) :
    (m.erase k).entries = pre ++ post := by
  obtain ⟨hpre, hpost⟩ := key_lt_of_split h
  have hkeep : ∀ l : List (κ × α), (∀ e ∈ l, e.1 ≠ k) →
      l.filter (fun e => decide (e.1 ≠ k)) = l := by
    intro l hl
    exact List.filter_eq_self.mpr fun e he => decide_eq_true (hl e he)
  simp only [erase, h, List.filter_append]
  rw [List.filter_cons_of_neg (by simp), hkeep pre fun e he => (hpre e he).ne,
    hkeep post fun e he => (hpost e he).ne']

theorem modify_entries_of_split (h : m.entries = pre ++ (k, v) :: post) (g : α → α) :
    (m.modify k g).entries = pre ++ (k, g v) :: post := by
  obtain ⟨hpre, hpost⟩ := key_lt_of_split h
  have hkeep : ∀ l : List (κ × α), (∀ e ∈ l, e.1 ≠ k) →
      l.map (fun e => (e.1, if e.1 = k then g e.2 else e.2)) = l := by
    intro l hl
    calc l.map (fun e => (e.1, if e.1 = k then g e.2 else e.2))
        = l.map id := List.map_congr_left fun e he => by rw [if_neg (hl e he)]; rfl
      _ = l := List.map_id l
  simp only [modify, h, List.map_append, List.map_cons, if_true]
  rw [hkeep pre fun e he => (hpre e he).ne, hkeep post fun e he => (hpost e he).ne']

end Split

section Keys

variable {m : OrderedMap κ α} {k : κ} {pre post : List κ}

theorem first?_eq_head? (m : OrderedMap κ α) : m.first? = m.keys.head? := List.head?_map.symm

theorem split_of_keys (h : m.keys = pre ++ k :: post) :
    ∃ pre' v post', m.entries = pre' ++ (k, v) :: post' ∧ pre'.map Prod.fst = pre ∧
      post'.map Prod.fst = post := by
  obtain ⟨pre', rest, hm, hpre, hrest⟩ := List.map_eq_append_iff.mp h
  obtain ⟨⟨j, v⟩, post', rfl, hj, hpost⟩ := List.map_eq_cons_iff.mp hrest
  obtain rfl : j = k := hj
  exact ⟨pre', v, post', hm, hpre, hpost⟩

theorem next?_of_keys (h : m.keys = pre ++ k :: post) : m.next? k = post.head? := by
  obtain ⟨pre', v, post', hm, -, rfl⟩ := split_of_keys h
  rw [next?_of_split hm, List.head?_map]

theorem next?_eq_of_keys {m' : OrderedMap κ α} (h : m'.keys = m.keys)
    (hk : (m.find? k).isSome) : m'.next? k = m.next? k := by
  obtain ⟨pre, post, hsplit⟩ := List.append_of_mem ((mem_keys_iff m k).mpr hk)
  rw [next?_of_keys hsplit, next?_of_keys (h.trans hsplit)]

@[simp] theorem keys_modify (m : OrderedMap κ α) (k : κ) (g : α → α) :
    (m.modify k g).keys = m.keys := by
  rw [keys, modify, List.map_map]
  rfl

theorem keys_erase_of_keys (h : m.keys = pre ++ k :: post) : (m.erase k).keys = pre ++ post := by
  obtain ⟨pre', v, post', hm, rfl, rfl⟩ := split_of_keys h
  rw [keys, erase_entries_of_split hm, List.map_append]

theorem keys_nodup (m : OrderedMap κ α) : m.keys.Nodup :=
  List.pairwise_map.mpr (m.sorted.imp fun hlt => hlt.ne)

end Keys

theorem entries_nodup (m : OrderedMap κ α) : m.entries.Nodup :=
  m.sorted.imp fun hlt heq => absurd (congrArg Prod.fst heq) hlt.ne

theorem perm_of_union {m₁ m₂ r : OrderedMap κ α}
    (h : ∀ k v, r.find? k = some v ↔ m₁.find? k = some v ∨ m₂.find? k = some v)
    (hdisj : ∀ k, (m₁.find? k).isSome → m₂.find? k = none) :
    r.entries.Perm (m₁.entries ++ m₂.entries) := by
  have hmem : ∀ e : κ × α, e ∈ r.entries ↔ e ∈ m₁.entries ++ m₂.entries := by
    rintro ⟨k, v⟩
    rw [List.mem_append, ← find?_eq_some_iff, ← find?_eq_some_iff, ← find?_eq_some_iff]
    exact h k v
  have hnodup : (m₁.entries ++ m₂.entries).Nodup := by
    apply List.Nodup.append m₁.entries_nodup m₂.entries_nodup
    rintro ⟨k, v⟩ h₁ h₂
    rw [← find?_eq_some_iff] at h₁ h₂
    rw [hdisj k (Option.isSome_of_eq_some h₁)] at h₂
    cases h₂
  exact (List.perm_ext_iff_of_nodup r.entries_nodup hnodup).mpr hmem

/-! ## What lies ahead -/

/-- The entries that an iterator has still before it. -/
def ahead (m : OrderedMap κ α) : Option κ → List (κ × α)
  | none => []
  | some k => m.entries.filter fun e => decide (k ≤ e.1)

section Ahead

variable {m : OrderedMap κ α} {k : κ} {v : α}

theorem ahead_of_split {pre post : List (κ × α)} (h : m.entries = pre ++ post) :
    m.ahead (post.head?.map Prod.fst) = post := by
  cases post with
  | nil => rfl
  | cons d ds =>
      obtain ⟨j, v⟩ := d
      obtain ⟨hpre, hpost⟩ := key_lt_of_split h
      have hnone : pre.filter (fun e => decide (j ≤ e.1)) = [] := by
        simpa using hpre
      have hall : ((j, v) :: ds).filter (fun e => decide (j ≤ e.1)) = (j, v) :: ds := by
        simpa using fun a b hmem => (hpost (a, b) hmem).le
      rw [List.head?_cons, Option.map_some, ahead, h, List.filter_append, hnone, List.nil_append]
      exact hall

theorem exists_split (h : m.find? k = some v) :
    ∃ pre post, m.entries = pre ++ (k, v) :: post :=
  List.append_of_mem ((m.find?_eq_some_iff k v).mp h)

theorem entries_insert_perm (h : m.find? k = none) :
    (m.insert k v).entries.Perm ((k, v) :: m.entries) := by
  rw [find?_eq_none_iff] at h
  have hnodup : ((k, v) :: m.entries).Nodup := List.nodup_cons.mpr ⟨h v, m.entries_nodup⟩
  refine (List.perm_ext_iff_of_nodup (entries_nodup _) hnodup).mpr fun e => ?_
  rw [insert, mem_insertEntry_iff m.sorted, List.mem_cons, or_comm]
  simp [h]

theorem insert_of_taken (h : m.find? k ≠ none) : m.insert k v = m := by
  refine ext_find? fun j => ?_
  rw [find?_insert]
  split_ifs with hj
  · obtain ⟨w, hw⟩ := Option.ne_none_iff_exists'.mp h
    rw [hj, hw, Option.getD_some]
  · rfl

theorem next?_le {j : κ} (hjk : j < k) (h : (m.find? k).isSome) :
    ∃ i, m.next? j = some i ∧ i ≤ k := by
  obtain ⟨v, hv⟩ := Option.isSome_iff_exists.mp h
  obtain ⟨pre, post, hm⟩ := exists_split hv
  rw [next?, hm, List.find?_append]
  cases hpre : pre.find? (fun e => decide (j < e.1)) with
  | none => exact ⟨k, by simp [hjk], le_rfl⟩
  | some e => exact ⟨e.1, rfl, ((key_lt_of_split hm).1 e (List.mem_of_find?_eq_some hpre)).le⟩

theorem first?_le (h : (m.find? k).isSome) : ∃ i, m.first? = some i ∧ i ≤ k := by
  obtain ⟨v, hv⟩ := Option.isSome_iff_exists.mp h
  obtain ⟨pre, post, hm⟩ := exists_split hv
  rw [first?, hm]
  cases pre with
  | nil => exact ⟨k, rfl, le_rfl⟩
  | cons e pre => exact ⟨e.1, rfl, ((key_lt_of_split hm).1 e List.mem_cons_self).le⟩

end Ahead

/-! ## The erasing walk -/

/-- The loop `for (it = begin(); it != end();)` whose body either erases the entry
it stands on through `erase(it++)` or rewrites it and moves on with `it++`. What
the body answers is the entry's new value, `none` for an erased one, and what it
puts out. The first argument bounds the number of turns. -/
def walk (body : κ → α → Option α × List β) :
    ℕ → OrderedMap κ α → Option κ → OrderedMap κ α × List β
  | 0, m, _ => (m, [])
  | _ + 1, m, none => (m, [])
  | n + 1, m, some k =>
      match m.find? k with
      | none => (m, [])
      | some v =>
          let m' := match (body k v).1 with
            | none => m.erase k
            | some w => m.modify k fun _ => w
          let rest := walk body n m' (m.next? k)
          (rest.1, (body k v).2 ++ rest.2)

/-- A loop with that body over `m` has the entries `post` still before it: it has
turned the map into `m'` and put out `out`. -/
def Walked (body : κ → α → Option α × List β) (m : OrderedMap κ α) (post : List (κ × α))
    (m' : OrderedMap κ α) (out : List β) : Prop :=
  ∃ pre, m.entries = pre ++ post ∧
    m'.entries = pre.filterMap (fun e => (body e.1 e.2).1.map fun w => (e.1, w)) ++ post ∧
    out = pre.flatMap fun e => (body e.1 e.2).2

section Walked

variable {body : κ → α → Option α × List β} {m m' : OrderedMap κ α} {k : κ} {v : α}
  {post : List (κ × α)} {out : List β}

theorem Walked.start (body : κ → α → Option α × List β) (m : OrderedMap κ α) :
    Walked body m m.entries m [] :=
  ⟨[], rfl, rfl, rfl⟩

theorem Walked.find? (h : Walked body m ((k, v) :: post) m' out) : m'.find? k = some v := by
  obtain ⟨pre, -, hm', -⟩ := h
  exact find?_of_split hm'

theorem Walked.next? (h : Walked body m ((k, v) :: post) m' out) :
    m'.next? k = post.head?.map Prod.fst := by
  obtain ⟨pre, -, hm', -⟩ := h
  exact next?_of_split hm'

theorem Walked.erase (h : Walked body m ((k, v) :: post) m' out) (hb : (body k v).1 = none) :
    Walked body m post (m'.erase k) (out ++ (body k v).2) := by
  obtain ⟨pre, hm, hm', rfl⟩ := h
  refine ⟨pre ++ [(k, v)], by rw [hm, List.append_cons], ?_, ?_⟩
  · rw [erase_entries_of_split hm', List.filterMap_append]
    simp [hb]
  · simp [List.flatMap_append]

theorem Walked.modify {w : α} {g : α → α} (h : Walked body m ((k, v) :: post) m' out)
    (hb : (body k v).1 = some w) (hw : g v = w) :
    Walked body m post (m'.modify k g) (out ++ (body k v).2) := by
  obtain ⟨pre, hm, hm', rfl⟩ := h
  refine ⟨pre ++ [(k, v)], by rw [hm, List.append_cons], ?_, ?_⟩
  · rw [modify_entries_of_split hm', List.filterMap_append]
    simp [hb, hw]
  · simp [List.flatMap_append]

theorem Walked.keep (h : Walked body m ((k, v) :: post) m' out) (hb : (body k v).1 = some v) :
    Walked body m post m' (out ++ (body k v).2) := by
  have hmodify := h.modify (g := id) hb rfl
  rwa [modify_id] at hmodify

/-- A loop that has come to its end has met every entry once, in key order: it
leaves what the body left of each, and puts out what the body put out on each. -/
theorem Walked.finish (h : Walked body m [] m' out) :
    m' = m.filterMap (fun k v => (body k v).1) ∧
      out = m.entries.flatMap fun e => (body e.1 e.2).2 := by
  obtain ⟨pre, hm, hm', hout⟩ := h
  rw [List.append_nil] at hm hm'
  rw [← hm] at hm' hout
  refine ⟨?_, hout⟩
  cases m'
  rw [OrderedMap.mk.injEq]
  exact hm'

theorem walked_walk {n : ℕ} (hn : post.length < n) (h : Walked body m post m' out) :
    Walked body m [] (walk body n m' (post.head?.map Prod.fst)).1
      (out ++ (walk body n m' (post.head?.map Prod.fst)).2) := by
  induction post generalizing n m' out with
  | nil =>
      obtain ⟨n, rfl⟩ := Nat.exists_eq_succ_of_ne_zero (Nat.ne_zero_of_lt hn)
      simpa [walk] using h
  | cons d post ih =>
      obtain ⟨n, rfl⟩ := Nat.exists_eq_succ_of_ne_zero (Nat.ne_zero_of_lt hn)
      obtain ⟨k, v⟩ := d
      have hn' : post.length < n := by simpa using hn
      simp only [List.head?_cons, Option.map_some, walk, h.find?, h.next?]
      rw [← List.append_assoc]
      cases hb : (body k v).1 with
      | none => exact ih hn' (h.erase hb)
      | some w => exact ih hn' (h.modify hb rfl)

end Walked

theorem walk_entries (body : κ → α → Option α × List β) (m : OrderedMap κ α) :
    walk body (m.entries.length + 1) m m.first? =
      (m.filterMap fun k v => (body k v).1, m.entries.flatMap fun e => (body e.1 e.2).2) := by
  obtain ⟨hmap, hout⟩ :=
    (walked_walk (Nat.lt_succ_self m.entries.length) (Walked.start body m)).finish
  exact Prod.ext hmap hout

end OrderedMap

end Qing
