import Mathlib.Algebra.Order.Ring.Nat
import Qing.Lib.Circle
import Qing.Lib.StoreBuffer

/-!
# The reader-writer queue

A circle of blocks, each a ring of slots with one slot always left empty. One thread
enqueues and owns the tails, the links and `tailBlock`; the other dequeues and owns the
fronts and `frontBlock`; each only reads what the other owns. The fences between
the loads and stores of the source are barriers for the compiler on x86 and
x64, so a thread's stores reach the other in their order, but late: they wait in the store
buffer of the thread. A step is one load of something that the other thread writes, with
the thread's own loads and stores up to the next such load; every store is drained by
itself, at any time.

A block is a number and a null pointer is `none`. A thread that fails an assertion, follows
a null pointer, constructs an element over another one or uses a slot that holds none
comes to `failed` and does nothing more.
-/

namespace Qing

inductive QueueThread
  | producer
  | consumer
  deriving DecidableEq, Repr

/-- What the threads share. A slot of `data` holds an element or is raw memory. -/
structure QueueMemory (T : Type*) where
  front : ℕ → ℕ
  tail : ℕ → ℕ
  next : ℕ → Option ℕ
  data : ℕ → ℕ → Option T
  frontBlock : ℕ
  tailBlock : ℕ

inductive QueueStore (T : Type*)
  | front (block i : ℕ)
  | tail (block i : ℕ)
  | next (block : ℕ) (target : Option ℕ)
  | data (block i : ℕ) (content : Option T)
  | frontBlock (block : ℕ)
  | tailBlock (block : ℕ)

inductive AllocationMode
  | canAlloc
  | cannotAlloc
  deriving DecidableEq, Repr

/-- Where `inner_enqueue` is. -/
inductive Enqueuing (T : Type*)
  | idle
  | start (element : T) (mode : AllocationMode)
  /-- There is no room in the tail block. -/
  | full (element : T) (mode : AllocationMode)
  /-- The block ahead is not the front block. -/
  | advance (element : T)
  | allocate (element : T)
  | failed

inductive Dequeue
  | tryDequeue
  | pop
  | peek
  deriving DecidableEq, Repr

/-- Where `try_dequeue`, `pop` or `peek` is. -/
inductive Dequeuing
  | idle
  | start (op : Dequeue)
  | seen (op : Dequeue) (tailBlockAtStart : ℕ)
  /-- The front block is empty and was not the tail block. -/
  | leaving (op : Dequeue)
  | entering (op : Dequeue) (nextBlock : ℕ)
  /-- The element in this slot is moved out and destroyed. -/
  | taking (op : Dequeue) (block i : ℕ)
  | failed
  deriving DecidableEq, Repr

structure ReaderWriterQueue (T : Type*) where
  memory : Buffered QueueThread (QueueMemory T) (QueueStore T)
  /-- The constant `size` of each block. -/
  size : ℕ → ℕ
  blocks : ℕ
  largestBlockSize : ℕ
  producer : Enqueuing T := .idle
  consumer : Dequeuing := .idle

inductive EnqueueResult
  /-- In a block that was there. -/
  | stored
  | allocated
  | outOfMemory
  /-- A new block was needed and not allowed. -/
  | noRoom
  deriving DecidableEq, Repr

def EnqueueResult.ret : EnqueueResult → Bool
  | stored | allocated => true
  | outOfMemory | noRoom => false

/-- Where a thread is in `size_approx`: the field of the block that is loaded next. -/
inductive Sizing
  | start
  | front (frontBlock block result : ℕ)
  | tail (frontBlock block result blockFront : ℕ)
  | next (frontBlock block result : ℕ)
  | returned (result : ℕ)
  | failed
  deriving DecidableEq, Repr

inductive QueueEvent (T : Type*)
  | internal
  | enqueued (element : T) (result : EnqueueResult)
  /-- `op` took the element out and returned true. -/
  | removed (op : Dequeue) (element : T)
  /-- `op` returned false, or a null pointer. -/
  | empty (op : Dequeue)
  /-- `peek` returned the address of this slot. -/
  | peeked (block i : ℕ)
  deriving DecidableEq

inductive QueueAct (T : Type*)
  | enqueue (element : T) (mode : AllocationMode)
  /-- `malloc` is whether the system has memory to give. -/
  | producer (malloc : Bool)
  | dequeue (op : Dequeue)
  | consumer
  | drain (thread : QueueThread)

variable {T : Type*}

/-- The thread that takes the step, if one does. -/
def QueueAct.thread : QueueAct T → Option QueueThread
  | enqueue _ _ | producer _ => some .producer
  | dequeue _ | consumer => some .consumer
  | drain _ => none

def QueueStore.apply : QueueStore T → QueueMemory T → QueueMemory T
  | front block i, m => { m with front := Function.update m.front block i }
  | tail block i, m => { m with tail := Function.update m.tail block i }
  | next block target, m => { m with next := Function.update m.next block target }
  | data block i content, m =>
      { m with data := Function.update m.data block (Function.update (m.data block) i content) }
  | frontBlock block, m => { m with frontBlock := block }
  | tailBlock block, m => { m with tailBlock := block }

/-- From `maxSize + 1 > 2 ^ 63` on, the result wraps to 0. -/
def ceilToPow2 (x : UInt64) : UInt64 :=
  let x := x - 1
  let x := x ||| (x >>> 1)
  let x := x ||| (x >>> 2)
  let x := x ||| (x >>> 4)
  let x := ([1, 2, 4] : List UInt64).foldl (fun (x i : UInt64) => x ||| (x >>> (i <<< 3))) x
  x + 1

namespace ReaderWriterQueue

/-- The constructor, its one allocation granted and of less than `2 ^ 64` bytes. -/
def construct (maxSize : UInt64) : ReaderWriterQueue T :=
  let largestBlockSize := (ceilToPow2 (maxSize + 1)).toNat
  { memory :=
      { mem :=
          { front := fun _ => 0, tail := fun _ => 0, next := fun b => if b = 0 then some 0 else none
            data := fun _ _ => none, frontBlock := 0, tailBlock := 0 }
        buffer := fun _ => [] }
    size := fun b => if b = 0 then largestBlockSize else 0
    blocks := 1
    largestBlockSize }

def sizeMask (q : ReaderWriterQueue T) (block : ℕ) : ℕ := q.size block - 1

/-- The index that follows `i` in a block. -/
def after (q : ReaderWriterQueue T) (block i : ℕ) : ℕ := (i + 1) &&& q.sizeMask block

/-- The shared memory as a thread reads it. -/
def view (q : ReaderWriterQueue T) (thread : QueueThread) : QueueMemory T :=
  q.memory.view QueueStore.apply thread

def store (q : ReaderWriterQueue T) (thread : QueueThread) (stores : List (QueueStore T)) :
    ReaderWriterQueue T :=
  { q with memory := q.memory.push thread stores }

/-- Constructs the element in a slot, makes the stores that follow and returns. -/
def place (q : ReaderWriterQueue T) (block i : ℕ) (element : T) (stores : List (QueueStore T))
    (result : EnqueueResult) : ReaderWriterQueue T × QueueEvent T :=
  match (q.view .producer).data block i with
  | some _ => ({ q with producer := .failed }, .internal)
  | none =>
      ({ q.store .producer (.data block i (some element) :: stores) with producer := .idle },
        .enqueued element result)

/-- `make_block`: the stores of the constructor of `Block`, into memory nobody else
knows of. With no allocation of `2 ^ 63` bytes ever granted, the next block, twice as large as
one that was, asks for less than `2 ^ 64`. -/
def makeBlock (q : ReaderWriterQueue T) (capacity : ℕ) (malloc : Bool) :
    Option (ReaderWriterQueue T) :=
  if malloc && capacity < 2 ^ 64 then
    some { q.store .producer [.front q.blocks 0, .tail q.blocks 0, .next q.blocks none] with
      size := Function.update q.size q.blocks capacity
      blocks := q.blocks + 1 }
  else none

/-- The next step of `inner_enqueue`. -/
def innerEnqueue (q : ReaderWriterQueue T) (malloc : Bool) :
    Option (ReaderWriterQueue T × QueueEvent T) :=
  let m := q.view .producer
  match q.producer with
  | .idle | .failed => none
  | .start element mode =>
      let blockTail := m.tail m.tailBlock
      let nextBlockTail := q.after m.tailBlock blockTail
      if nextBlockTail ≠ m.front m.tailBlock then
        some (q.place m.tailBlock blockTail element [.tail m.tailBlock nextBlockTail] .stored)
      else some ({ q with producer := .full element mode }, .internal)
  | .full element mode =>
      if m.next m.tailBlock ≠ some m.frontBlock then
        some ({ q with producer := .advance element }, .internal)
      else match mode with
        | .canAlloc => some ({ q with producer := .allocate element }, .internal)
        | .cannotAlloc => some ({ q with producer := .idle }, .enqueued element .noRoom)
  | .advance element =>
      match m.next m.tailBlock with
      | none => some ({ q with producer := .failed }, .internal)
      | some tailBlockNext =>
          let nextBlockTail := m.tail tailBlockNext
          if m.front tailBlockNext = nextBlockTail then
            some (q.place tailBlockNext nextBlockTail element
              [.tail tailBlockNext (q.after tailBlockNext nextBlockTail), .tailBlock tailBlockNext]
              .stored)
          else some ({ q with producer := .failed }, .internal)
  | .allocate element =>
      match q.makeBlock (q.largestBlockSize * 2) malloc with
      | none => some ({ q with producer := .idle }, .enqueued element .outOfMemory)
      | some q' =>
          let newBlock := q.blocks
          if (q'.view .producer).front newBlock = 0 then
            some ({ q' with largestBlockSize := q.largestBlockSize * 2 }.place newBlock 0 element
              [.tail newBlock 1, .next newBlock (m.next m.tailBlock),
                .next m.tailBlock (some newBlock), .tailBlock newBlock] .allocated)
          else some ({ q' with producer := .failed }, .internal)

/-- The next step of `try_dequeue`, `pop` or `peek`. -/
def stepDequeue (q : ReaderWriterQueue T) : Option (ReaderWriterQueue T × QueueEvent T) :=
  let m := q.view .consumer
  match q.consumer with
  | .idle | .failed => none
  | .start op => some ({ q with consumer := .seen op m.tailBlock }, .internal)
  | .seen op tailBlockAtStart =>
      let blockFront := m.front m.frontBlock
      if blockFront ≠ m.tail m.frontBlock then
        match op with
        | .peek => some ({ q with consumer := .idle }, .peeked m.frontBlock blockFront)
        | .tryDequeue | .pop =>
            some ({ q with consumer := .taking op m.frontBlock blockFront }, .internal)
      else if m.frontBlock ≠ tailBlockAtStart then
        some ({ q with consumer := .leaving op }, .internal)
      else some ({ q with consumer := .idle }, .empty op)
  | .leaving op =>
      match m.next m.frontBlock with
      | none => some ({ q with consumer := .failed }, .internal)
      | some nextBlock => some ({ q with consumer := .entering op nextBlock }, .internal)
  | .entering op nextBlock =>
      let nextBlockFront := m.front nextBlock
      if nextBlockFront = m.tail nextBlock then
        some ({ q with consumer := .failed }, .internal)
      else match op with
        | .peek => some ({ q with consumer := .idle }, .peeked nextBlock nextBlockFront)
        | .tryDequeue | .pop =>
            some ({ q.store .consumer [.frontBlock nextBlock] with
              consumer := .taking op nextBlock nextBlockFront }, .internal)
  | .taking op block i =>
      match m.data block i with
      | none => some ({ q with consumer := .failed }, .internal)
      | some element =>
          some ({ q.store .consumer [.data block i none, .front block (q.after block i)] with
            consumer := .idle }, .removed op element)

def next : QueueAct T → ReaderWriterQueue T → Option (ReaderWriterQueue T × QueueEvent T)
  | .enqueue element mode, q =>
      match q.producer with
      | .idle => some ({ q with producer := .start element mode }, .internal)
      | _ => none
  | .producer malloc, q => q.innerEnqueue malloc
  | .dequeue op, q =>
      match q.consumer with
      | .idle => some ({ q with consumer := .start op }, .internal)
      | _ => none
  | .consumer, q => q.stepDequeue
  | .drain thread, q =>
      (q.memory.drain QueueStore.apply thread).map fun memory => ({ q with memory }, .internal)

/-! ### The whole circle -/

/-- The next load of `size_approx`, and what is made of it. -/
def stepSize (q : ReaderWriterQueue T) (thread : QueueThread) (pc : Sizing) : Option Sizing :=
  let m := q.view thread
  match pc with
  | .returned _ | .failed => none
  | .start => some (.front m.frontBlock m.frontBlock 0)
  | .front frontBlock block result => some (.tail frontBlock block result (m.front block))
  | .tail frontBlock block result blockFront =>
      let held := (m.tail block + 2 ^ 64 - blockFront) % 2 ^ 64 &&& q.sizeMask block
      some (.next frontBlock block ((result + held) % 2 ^ 64))
  | .next frontBlock block result =>
      match m.next block with
      | none => some .failed
      | some block =>
          some (if block = frontBlock then .returned result else .front frontBlock block result)

/-- A load of `size_approx`, called by a thread, or what the other thread does meanwhile. -/
def nextSize (thread : QueueThread) : Option (QueueAct T) → ReaderWriterQueue T × Sizing →
    Option ((ReaderWriterQueue T × Sizing) × QueueEvent T)
  | none, (q, pc) => (q.stepSize thread pc).map fun pc => ((q, pc), .internal)
  | some act, (q, pc) =>
      if act.thread = some thread then none
      else (next act q).map fun p => ((p.1, pc), p.2)

/-- What `size_approx` returns if all stands still during the call. -/
def sizeApprox (q : ReaderWriterQueue T) (thread : QueueThread) : Option ℕ :=
  let m := q.view thread
  (circuit m.next m.frontBlock q.blocks m.frontBlock).map fun blocks =>
    (blocks.map fun b => (m.tail b + 2 ^ 64 - m.front b) % 2 ^ 64 &&& q.sizeMask b).sum % 2 ^ 64

def slots (q : ReaderWriterQueue T) (block blockTail : ℕ) : ℕ → ℕ → Option (List ℕ)
  | 0, _ => none
  | n + 1, i =>
      if i = blockTail then some []
      else (q.slots block blockTail n (q.after block i)).map (i :: ·)

/-- The elements of a block in the order in which they are destroyed; none if a raw slot
were destroyed. -/
def destroyBlock (q : ReaderWriterQueue T) (block : ℕ) : Option (List T) :=
  let m := q.memory.mem
  (q.slots block (m.tail block) (q.size block) (m.front block)).bind
    (List.mapM (m.data block))

/-- The destructor: the elements that it destroys and the blocks that it frees. -/
def destroy (q : ReaderWriterQueue T) : Option (List T × List ℕ) :=
  let m := q.memory.mem
  (circuit m.next m.frontBlock q.blocks m.frontBlock).bind fun blocks =>
    (blocks.mapM q.destroyBlock).map fun elements => (elements.flatten, blocks)

/-- The constructor asserts the first bound; from the second on there is no block size. -/
def system (maxSize : UInt64) : System (ReaderWriterQueue T) (QueueEvent T) :=
  System.ofNext (fun q => 0 < maxSize.toNat ∧ maxSize.toNat < 2 ^ 63 ∧ q = construct maxSize) next

end ReaderWriterQueue

end Qing
