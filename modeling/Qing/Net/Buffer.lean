import Mathlib.Data.List.Basic
import Mathlib.Data.List.Induction
import Qing.Lib.Transition

/-!
# The byte buffer

`Buffer` is the string of bytes that a connection has received and not yet handed
out. `write` appends to it and `fetch` takes from its front, all it asks for or
nothing. Over every run of the three operations no byte is lost, repeated or moved
(`lossless`), so what a sequence of fetches returns depends on the stream that was
written and not on how it was cut into writes (`chunks_of_recut`).
-/

namespace Qing

/-- Memory a `char *` points to. -/
abbrev Memory := ℕ → UInt8

structure Buffer where
  bytes : List UInt8

def bytesAt (data : Memory) (size : UInt32) : List UInt8 := (List.range size.toNat).map data

@[simp] theorem bytesAt_length (data : Memory) (size : UInt32) :
    (bytesAt data size).length = size.toNat := by
  rw [bytesAt, List.length_map, List.length_range]

theorem bytesAt_eq_nil {data : Memory} {size : UInt32} : bytesAt data size = [] ↔ size = 0 := by
  rw [← List.length_eq_zero_iff, bytesAt_length]
  exact UInt32.toNat_inj (b := 0)

/-- The bytes `write` is given; a null pointer gives none. -/
def chunk (data : Option Memory) (size : UInt32) : List UInt8 :=
  data.elim [] fun p => bytesAt p size

/-- `memcpy` from the start of a string. -/
def memcpy (data : Memory) (src : List UInt8) (size : ℕ) : Memory :=
  fun i => if i < size then src.getD i 0 else data i

namespace Buffer

def init : Buffer := ⟨[]⟩

def release (_ : Buffer) : Buffer := ⟨[]⟩

def size (b : Buffer) : ℕ := b.bytes.length

def write (b : Buffer) (data : Option Memory) (size : UInt32) : Buffer :=
  match data with
  | none => b
  | some p => if size = 0 then b else ⟨b.bytes ++ bytesAt p size⟩

/-- What `fetch` answers, with the buffer and the memory at `data` after it. -/
def fetch (b : Buffer) (data : Memory) (size : UInt32) : Bool × Buffer × Memory :=
  if size.toNat > b.size then (false, b, data)
  else (true, ⟨b.bytes.drop size.toNat⟩, memcpy data b.bytes size.toNat)

theorem write_bytes (b : Buffer) (data : Option Memory) (size : UInt32) :
    (b.write data size).bytes = b.bytes ++ chunk data size := by
  cases data with
  | none => exact (List.append_nil b.bytes).symm
  | some p =>
      rw [write]
      split_ifs with hsize
      · rw [hsize]
        exact (List.append_nil b.bytes).symm
      · rfl

end Buffer

theorem bytesAt_memcpy (data : Memory) {src : List UInt8} {size : UInt32}
    (h : size.toNat ≤ src.length) :
    bytesAt (memcpy data src size.toNat) size = src.take size.toNat := by
  refine List.ext_getElem (by simp [h]) fun i h₁ h₂ => ?_
  have hi : i < size.toNat := by simpa using h₁
  have hsrc : i < src.length := Nat.lt_of_lt_of_le hi h
  simp [bytesAt, memcpy, hi, List.getElem?_eq_getElem hsrc]

theorem Buffer.fetch_spec (b : Buffer) (data : Memory) (size : UInt32) :
    (size.toNat ≤ b.size ∧ (b.fetch data size).1 = true ∧
        bytesAt (b.fetch data size).2.2 size = b.bytes.take size.toNat ∧
        (∀ i, size.toNat ≤ i → (b.fetch data size).2.2 i = data i) ∧
        (b.fetch data size).2.1.bytes = b.bytes.drop size.toNat) ∨
      (b.size < size.toNat ∧ b.fetch data size = (false, b, data)) := by
  rw [fetch]
  split_ifs with h
  · exact Or.inr ⟨h, rfl⟩
  · have hle : size.toNat ≤ b.bytes.length := Nat.le_of_not_lt h
    refine Or.inl ⟨hle, rfl, bytesAt_memcpy data hle, fun i hi => ?_, rfl⟩
    exact if_neg (Nat.not_lt.mpr hi)

/-! ## Runs of the three operations -/

inductive BufferOp
  | write (data : Option Memory) (size : UInt32)
  | fetch (data : Memory) (size : UInt32)
  | release

/-- What a call did: the bytes it was given, or what it answered and left at `data`. -/
inductive BufferEvent
  | wrote (data : Option Memory) (size : UInt32)
  | fetched (size : UInt32) (ok : Bool) (data data' : Memory)
  | released

def Buffer.next : BufferOp → Buffer → Option (Buffer × BufferEvent)
  | .write data size, b => some (b.write data size, .wrote data size)
  | .fetch data size, b =>
      let r := b.fetch data size
      some (r.2.1, .fetched size r.1 data r.2.2)
  | .release, b => some (b.release, .released)

def bufferSystem : System Buffer BufferEvent :=
  System.ofNext (fun b => b = Buffer.init) Buffer.next

/-- The bytes a fetch returned, for a successful one. -/
def BufferEvent.chunk? : BufferEvent → Option (List UInt8)
  | fetched size true _ data' => some (bytesAt data' size)
  | _ => none

def writtenBytes (tr : List BufferEvent) : List UInt8 :=
  tr.foldl (fun w e => match e with
    | .wrote data size => w ++ chunk data size
    | .fetched _ _ _ _ => w
    | .released => []) []

/-- The bytes returned by successful fetches since the last release. -/
def fetchedBytes (tr : List BufferEvent) : List UInt8 :=
  tr.foldl (fun f e => match e with
    | .wrote _ _ => f
    | .fetched _ _ _ _ => f ++ e.chunk?.getD []
    | .released => []) []

/-- In every run the bytes fetched, followed by those in the buffer, are the bytes
written, since the last release. -/
theorem fetched_append_bytes {tr : List BufferEvent} {b : Buffer} (h : bufferSystem.Run tr b) :
    fetchedBytes tr ++ b.bytes = writtenBytes tr := by
  refine System.Run.induction (P := fun tr b => fetchedBytes tr ++ b.bytes = writtenBytes tr)
    ?_ ?_ h
  · rintro b rfl
    rfl
  · rintro tr b e b' - ih ⟨op, hnext⟩
    cases op with
    | write data size =>
        obtain ⟨rfl, rfl⟩ := Prod.mk.inj (Option.some.inj hnext)
        simp only [fetchedBytes, writtenBytes, List.foldl_append, List.foldl_cons, List.foldl_nil,
          Buffer.write_bytes] at ih ⊢
        rw [← ih, List.append_assoc]
    | release =>
        obtain ⟨rfl, rfl⟩ := Prod.mk.inj (Option.some.inj hnext)
        simp [fetchedBytes, writtenBytes, Buffer.release]
    | fetch data size =>
        obtain ⟨rfl, rfl⟩ := Prod.mk.inj (Option.some.inj hnext)
        simp only [fetchedBytes, writtenBytes, List.foldl_append, List.foldl_cons,
          List.foldl_nil] at ih ⊢
        rcases b.fetch_spec data size with ⟨-, hok, hchunk, -, hbytes⟩ | ⟨-, hfail⟩
        · rw [hok, BufferEvent.chunk?, Option.getD_some, hchunk, hbytes, List.append_assoc,
            List.take_append_drop]
          exact ih
        · rw [hfail]
          simpa [BufferEvent.chunk?] using ih

/-! ## Cutting a stream into writes -/

def BufferEvent.size? : BufferEvent → Option UInt32
  | fetched size _ _ _ => some size
  | _ => none

def BufferEvent.isReleased : BufferEvent → Bool
  | released => true
  | _ => false

def BufferEvent.isFailed : BufferEvent → Bool
  | fetched _ ok _ _ => !ok
  | _ => false

/-- Between two releases: the same fetches, and writes that cut up one stream. -/
structure SameStream (seg seg' : List BufferEvent) : Prop where
  kept : ∀ e ∈ seg, e.isReleased = false
  kept' : ∀ e ∈ seg', e.isReleased = false
  sizes : seg.filterMap BufferEvent.size? = seg'.filterMap BufferEvent.size?
  stream : ∃ stream, writtenBytes seg <+: stream ∧ writtenBytes seg' <+: stream

/-- Two histories whose writes cut up the same streams. -/
inductive Recut : List BufferEvent → List BufferEvent → Prop
  | stream {seg seg' : List BufferEvent} (h : SameStream seg seg') : Recut seg seg'
  | released {tr tr' seg seg' : List BufferEvent} (htr : Recut tr tr') (h : SameStream seg seg') :
      Recut (tr ++ .released :: seg) (tr' ++ .released :: seg')

def chunks (tr : List BufferEvent) : List (List UInt8) := tr.filterMap BufferEvent.chunk?

theorem eq_of_flatten_prefix {α : Type*} {xs ys : List (List α)} {stream : List α}
    (hxs : xs.flatten <+: stream) (hys : ys.flatten <+: stream)
    (h : xs.map List.length = ys.map List.length) : xs = ys := by
  have hlength : xs.flatten.length = ys.flatten.length := by
    rw [List.length_flatten, List.length_flatten, h]
  have hpre : xs.flatten <+: ys.flatten :=
    List.prefix_of_prefix_length_le hxs hys (Nat.le_of_eq hlength)
  rw [List.eq_iff_flatten_eq]
  exact ⟨hpre.eq_of_length hlength, h⟩

section Segment

variable {seg seg' : List BufferEvent} {b b' : Buffer}

theorem fetchedBytes_eq_flatten (hkept : ∀ e ∈ seg, e.isReleased = false) :
    fetchedBytes seg = (chunks seg).flatten := by
  induction seg using List.reverseRecOn with
  | nil => rfl
  | append_singleton seg e ih =>
      have hseg : fetchedBytes seg = (chunks seg).flatten :=
        ih fun e he => hkept e (List.mem_append_left _ he)
      have he : e.isReleased = false := hkept e (List.mem_append_right seg List.mem_cons_self)
      rw [fetchedBytes, List.foldl_append, ← fetchedBytes, hseg, chunks, chunks,
        List.filterMap_append, List.flatten_append]
      cases e with
      | wrote => simp [BufferEvent.chunk?]
      | fetched size ok data data' => cases ok <;> simp [BufferEvent.chunk?]
      | released => cases he

theorem chunks_length (hok : ∀ e ∈ seg, e.isFailed = false) :
    (chunks seg).map List.length = (seg.filterMap BufferEvent.size?).map UInt32.toNat := by
  rw [chunks, List.map_filterMap, List.map_filterMap]
  refine List.filterMap_congr fun e he => ?_
  have hf := hok e he
  cases e with
  | wrote | released => rfl
  | fetched size ok data data' =>
      cases ok with
      | true => simp [BufferEvent.chunk?, BufferEvent.size?]
      | false => cases hf

theorem chunks_of_sameStream (h : SameStream seg seg') (hrun : bufferSystem.Run seg b)
    (hrun' : bufferSystem.Run seg' b') (hok : ∀ e ∈ seg, e.isFailed = false)
    (hok' : ∀ e ∈ seg', e.isFailed = false) : chunks seg = chunks seg' := by
  obtain ⟨stream, hstream, hstream'⟩ := h.stream
  have hpre : (chunks seg).flatten <+: stream := by
    rw [← fetched_append_bytes hrun, fetchedBytes_eq_flatten h.kept] at hstream
    exact (List.prefix_append _ _).trans hstream
  have hpre' : (chunks seg').flatten <+: stream := by
    rw [← fetched_append_bytes hrun', fetchedBytes_eq_flatten h.kept'] at hstream'
    exact (List.prefix_append _ _).trans hstream'
  have hlengths : (chunks seg).map List.length = (chunks seg').map List.length := by
    rw [chunks_length hok, chunks_length hok', h.sizes]
  exact eq_of_flatten_prefix hpre hpre' hlengths

theorem run_of_released {tr : List BufferEvent}
    (h : bufferSystem.Run (tr ++ .released :: seg) b) :
    (∃ b₀, bufferSystem.Run tr b₀) ∧ bufferSystem.Run seg b := by
  obtain ⟨b₀, b₁, hpre, ⟨op, hnext⟩, hpost⟩ := h.cut
  refine ⟨⟨b₀, hpre⟩, b₁, ?_, hpost⟩
  cases op with
  | write | fetch => cases hnext
  | release => exact (Prod.mk.inj (Option.some.inj hnext)).1.symm

end Segment

theorem chunks_of_recut {tr tr' : List BufferEvent} {b b' : Buffer} (h : Recut tr tr')
    (hrun : bufferSystem.Run tr b) (hrun' : bufferSystem.Run tr' b')
    (hok : ∀ e ∈ tr, e.isFailed = false) (hok' : ∀ e ∈ tr', e.isFailed = false) :
    chunks tr = chunks tr' := by
  induction h generalizing b b' with
  | stream h => exact chunks_of_sameStream h hrun hrun' hok hok'
  | @released tr tr' seg seg' _ h ih =>
      obtain ⟨⟨b₀, hpre⟩, hseg⟩ := run_of_released hrun
      obtain ⟨⟨b₀', hpre'⟩, hseg'⟩ := run_of_released hrun'
      obtain ⟨hok₁, hok₂⟩ := List.forall_mem_append.mp hok
      obtain ⟨hok₁', hok₂'⟩ := List.forall_mem_append.mp hok'
      have htr : chunks tr = chunks tr' := ih hpre hpre' hok₁ hok₁'
      have hchunks : chunks seg = chunks seg' := chunks_of_sameStream h hseg hseg'
        (fun e he => hok₂ e (List.mem_cons_of_mem _ he))
        (fun e he => hok₂' e (List.mem_cons_of_mem _ he))
      rw [chunks, chunks] at htr hchunks ⊢
      rw [List.filterMap_append, List.filterMap_append, htr, List.filterMap_cons_none rfl,
        List.filterMap_cons_none rfl, hchunks]

/-- The buffer is a lossless stream of bytes: fetched and kept bytes are the written
ones, a fetch succeeds exactly when there are enough, takes them from the front, and
otherwise changes nothing, and the same fetches of the same streams return the same
whatever writes the streams came in. -/
theorem lossless {tr : List BufferEvent} {b : Buffer} (h : bufferSystem.Run tr b) :
    fetchedBytes tr ++ b.bytes = writtenBytes tr ∧
    (∀ pre post size ok data data', tr = pre ++ .fetched size ok data data' :: post →
      ∃ b₁ b₂, bufferSystem.Run pre b₁ ∧ bufferSystem.Path b₂ post b ∧
        (ok = true ↔ size.toNat ≤ b₁.size) ∧
        (ok = true → bytesAt data' size = b₁.bytes.take size.toNat ∧
          (∀ i, size.toNat ≤ i → data' i = data i) ∧
          b₂.bytes = b₁.bytes.drop size.toNat ∧ b₂.size = b₁.size - size.toNat) ∧
        (ok = false → b₂ = b₁ ∧ data' = data)) ∧
    ∀ tr' b', bufferSystem.Run tr' b' → Recut tr tr' → (∀ e ∈ tr, e.isFailed = false) →
      (∀ e ∈ tr', e.isFailed = false) → chunks tr = chunks tr' := by
  refine ⟨fetched_append_bytes h, ?_, fun tr' b' h' hcut => chunks_of_recut hcut h h'⟩
  rintro pre post size ok data data' rfl
  obtain ⟨b₁, b₂, hpre, ⟨op, hnext⟩, hpost⟩ := h.cut
  refine ⟨b₁, b₂, hpre, hpost, ?_⟩
  cases op with
  | write | release => cases hnext
  | fetch data₀ size₀ =>
      obtain ⟨hb, he⟩ := Prod.mk.inj (Option.some.inj hnext)
      obtain ⟨hsize, hok, hdata, hdata'⟩ := BufferEvent.fetched.inj he
      subst hb hsize hok hdata hdata'
      rcases b₁.fetch_spec data₀ size₀ with ⟨hle, hok, hchunk, hkeep, hbytes⟩ | ⟨hlt, hfail⟩
      · have hsize : (b₁.fetch data₀ size₀).2.1.size = b₁.size - size₀.toNat := by
          rw [Buffer.size, hbytes, List.length_drop]
          rfl
        refine ⟨⟨fun _ => hle, fun _ => hok⟩, fun _ => ⟨hchunk, hkeep, hbytes, hsize⟩, ?_⟩
        intro hfail
        rw [hok] at hfail
        cases hfail
      · rw [hfail]
        refine ⟨⟨fun hok => ?_, fun hle => ?_⟩, fun hok => ?_, ?_⟩
        · cases hok
        · exact absurd hle (Nat.not_le.mpr hlt)
        · cases hok
        · exact fun _ => ⟨rfl, rfl⟩

section Sample

def sampleBytes : Memory := fun i => if i = 0 then 1 else if i = 2 then 2 else 0

def wholeWrites : List BufferOp := [.write (some sampleBytes) 3, .fetch (fun _ => 9) 2]

def cutWrites : List BufferOp :=
  [.write (some sampleBytes) 1, .write none 7, .write (some fun i => sampleBytes (i + 1)) 3,
    .fetch (fun _ => 8) 2]

/-- The history of a list of calls on a new buffer. -/
def historyOf (ops : List BufferOp) : List BufferEvent :=
  (System.exec Buffer.next ops Buffer.init).elim [] Prod.snd

theorem run_wholeWrites : bufferSystem.Run (historyOf wholeWrites) ⟨[2]⟩ := by
  have hexec : System.exec Buffer.next wholeWrites Buffer.init =
      some (⟨[2]⟩, historyOf wholeWrites) := rfl
  exact System.run_of_exec rfl hexec

theorem run_cutWrites : bufferSystem.Run (historyOf cutWrites) ⟨[2, 0]⟩ := by
  have hexec : System.exec Buffer.next cutWrites Buffer.init =
      some (⟨[2, 0]⟩, historyOf cutWrites) := rfl
  exact System.run_of_exec rfl hexec

theorem lossless_sample :
    fetchedBytes (historyOf wholeWrites) ++ [2] = [1, 0, 2] ∧
      chunks (historyOf wholeWrites) = chunks (historyOf cutWrites) := by
  obtain ⟨hbytes, -, hcut⟩ := lossless run_wholeWrites
  have hkept : (historyOf wholeWrites).all (fun e => !e.isReleased) = true := rfl
  have hkept' : (historyOf cutWrites).all (fun e => !e.isReleased) = true := rfl
  have hok : (historyOf wholeWrites).all (fun e => !e.isFailed) = true := rfl
  have hok' : (historyOf cutWrites).all (fun e => !e.isFailed) = true := rfl
  simp only [List.all_eq_true, Bool.not_eq_true'] at hkept hkept' hok hok'
  have hstream : SameStream (historyOf wholeWrites) (historyOf cutWrites) :=
    ⟨hkept, hkept', rfl, [1, 0, 2, 0], ⟨[0], rfl⟩, ⟨[], rfl⟩⟩
  exact ⟨hbytes, hcut _ ⟨[2, 0]⟩ run_cutWrites (Recut.stream hstream) hok hok'⟩

end Sample

end Qing
