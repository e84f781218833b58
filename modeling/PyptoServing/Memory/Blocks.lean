import Mathlib.Logic.Function.Basic
import PyptoServing.Lib.LinkedQueue

/-!
# Physical blocks, the free queue and block hashes

A block object is addressed by its id; the objects live in a heap from ids to
records. `FreeKVCacheBlockQueue` threads its list through the `prevFree` and
`nextFree` fields of that heap, so each operation returns the queue and the heap.
-/
namespace PyptoServing.Memory

abbrev RequestId := String
abbrev BlockId := Nat

/-- The exceptions the cache manager raises, with their messages. -/
inductive KvError
  | capacity (message : String)
  | value (message : String)
  | runtime (message : String)
  | index (message : String)
  deriving DecidableEq, Repr

/-- Metadata for one physical KV cache block; the id is its heap address. -/
structure KVCacheBlock where
  refCnt : Nat := 0
  blockHash : Option Int := none
  prevFree : Option BlockId := none
  nextFree : Option BlockId := none
  deriving DecidableEq, Repr

/-- The block objects by id. -/
abbrev BlockHeap := BlockId → KVCacheBlock

/-- Write one block object. -/
def BlockHeap.modify (heap : BlockHeap) (b : BlockId) (f : KVCacheBlock → KVCacheBlock) :
    BlockHeap :=
  Function.update heap b (f (heap b))

@[simp] theorem BlockHeap.modify_self (heap : BlockHeap) (b : BlockId)
    (f : KVCacheBlock → KVCacheBlock) : heap.modify b f b = f (heap b) := by
  simp [BlockHeap.modify]

@[simp] theorem BlockHeap.modify_ne (heap : BlockHeap) {b c : BlockId} (h : c ≠ b)
    (f : KVCacheBlock → KVCacheBlock) : heap.modify b f c = heap c := by
  simp [BlockHeap.modify, h]

theorem BlockHeap.modify_apply (heap : BlockHeap) (b c : BlockId)
    (f : KVCacheBlock → KVCacheBlock) :
    heap.modify b f c = if c = b then f (heap b) else heap c := by
  by_cases h : c = b <;> simp [h]

/-- Write the block a pointer refers to; a null pointer writes nothing. -/
def BlockHeap.modify? (heap : BlockHeap) (p : Option BlockId) (f : KVCacheBlock → KVCacheBlock) :
    BlockHeap :=
  match p with
  | some b => heap.modify b f
  | none => heap

theorem BlockHeap.modify?_apply (heap : BlockHeap) (p : Option BlockId) (c : BlockId)
    (f : KVCacheBlock → KVCacheBlock) :
    heap.modify? p f c = if p = some c then f (heap c) else heap c := by
  cases p with
  | none => rfl
  | some b =>
    rw [BlockHeap.modify?, BlockHeap.modify_apply]
    by_cases h : c = b
    · simp [h]
    · simp [h, Ne.symm h]

/-- Doubly-linked free block queue in eviction order. -/
structure FreeKVCacheBlockQueue where
  head : Option BlockId := none
  tail : Option BlockId := none
  count : Nat := 0
  deriving DecidableEq, Repr

namespace FreeKVCacheBlockQueue

def append (q : FreeKVCacheBlockQueue) (heap : BlockHeap) (b : BlockId) :
    FreeKVCacheBlockQueue × BlockHeap :=
  let heap := heap.modify b fun block => { block with prevFree := q.tail, nextFree := none }
  ({ head := if q.tail.isSome then q.head else some b
     tail := some b
     count := q.count + 1 },
    heap.modify? q.tail fun block => { block with nextFree := some b })

def appendN (q : FreeKVCacheBlockQueue) (heap : BlockHeap) (bs : List BlockId) :
    FreeKVCacheBlockQueue × BlockHeap :=
  bs.foldl (fun s b => append s.1 s.2 b) (q, heap)

def remove (q : FreeKVCacheBlockQueue) (heap : BlockHeap) (b : BlockId) :
    FreeKVCacheBlockQueue × BlockHeap :=
  let prevB := (heap b).prevFree
  let nextB := (heap b).nextFree
  -- A block that is neither an end nor linked is not in the queue.
  if q.head ≠ some b ∧ q.tail ≠ some b ∧ prevB = none ∧ nextB = none then (q, heap)
  else
    let heap := heap.modify? prevB fun block => { block with nextFree := nextB }
    let heap := heap.modify? nextB fun block => { block with prevFree := prevB }
    ({ head := if prevB.isSome then q.head else nextB
       tail := if nextB.isSome then q.tail else prevB
       count := q.count - 1 },
      heap.modify b fun block => { block with prevFree := none, nextFree := none })

end FreeKVCacheBlockQueue

/-- Python's `hash` as the prefix cache uses it: the value of `("__none__",)` and the
value of a pair of a parent hash and a token tuple. -/
structure PyHash where
  noneHash : Int
  hash : Int → List Int → Int

namespace PyHash
variable (H : PyHash)

/-- No two different chains of blocks have the same hash. -/
structure CollisionFree : Prop where
  hash_inj : ∀ {p q : Int} {ts us : List Int}, H.hash p ts = H.hash q us → p = q ∧ ts = us
  hash_ne_none : ∀ (p : Int) (ts : List Int), H.hash p ts ≠ H.noneHash

/-- A chained prefix-cache hash for one full token block. -/
def hashBlockTokens (parentHash : Int) (tokenIds : List Int) : Int := H.hash parentHash tokenIds

/-- The chained hashes of the token blocks `chunk 0 .. chunk (n - 1)`, after `parent`. -/
def chain (chunk : Nat → List Int) : Int → Nat → Nat → List Int
  | _, _, 0 => []
  | parent, i, n + 1 =>
    H.hashBlockTokens parent (chunk i) :: chain chunk (H.hashBlockTokens parent (chunk i)) (i + 1) n

/-- `_iter_token_block_hashes`: chained hashes for full `blockSize` token chunks. -/
def iterTokenBlockHashes (tokenIds : List Int) (blockSize : Nat) : List Int :=
  H.chain (fun i => (tokenIds.drop (i * blockSize)).take blockSize) H.noneHash 0
    (tokenIds.length / blockSize)

/-- `_iter_eagle_token_block_hashes`: shifted pages with one token of look-ahead. -/
def iterEagleTokenBlockHashes (tokenIds : List Int) (blockSize : Nat) : List Int :=
  H.chain (fun i => (tokenIds.drop (i * blockSize)).take (blockSize + 1)) H.noneHash 0
    ((tokenIds.length - 1) / blockSize)

@[simp] theorem chain_length (chunk : Nat → List Int) (parent : Int) (i n : Nat) :
    (H.chain chunk parent i n).length = n := by
  induction n generalizing parent i with
  | zero => rfl
  | succ n ih => simp [chain, ih]

variable {H}

/-- Every element of a chain is the hash of its predecessor or of the parent. -/
theorem mem_chain {chunk : Nat → List Int} {parent : Int} {i n : Nat} {x : Int}
    (hx : x ∈ H.chain chunk parent i n) :
    ∃ y ∈ parent :: H.chain chunk parent i n, ∃ ts, x = H.hash y ts := by
  induction n generalizing parent i with
  | zero => cases hx
  | succ n ih =>
    rcases List.mem_cons.mp hx with rfl | hx
    · exact ⟨parent, by simp, chunk i, rfl⟩
    · obtain ⟨y, hy, ts, rfl⟩ := ih hx
      exact ⟨y, List.mem_cons_of_mem _ hy, ts, rfl⟩

/-- A chain that does not come back to its parent never repeats. -/
theorem CollisionFree.chain_nodup (h : H.CollisionFree) {chunk : Nat → List Int} {parent : Int}
    {i n : Nat} (hp : parent ∉ H.chain chunk parent i n) : (H.chain chunk parent i n).Nodup := by
  induction n generalizing parent i with
  | zero => exact List.nodup_nil
  | succ n ih =>
    have hfirst : H.hashBlockTokens parent (chunk i) ∉
        H.chain chunk (H.hashBlockTokens parent (chunk i)) (i + 1) n := by
      intro hmem
      obtain ⟨y, hy, ts, heq⟩ := mem_chain hmem
      obtain ⟨rfl, -⟩ := h.hash_inj heq
      exact hp hy
    exact List.nodup_cons.mpr ⟨hfirst, ih hfirst⟩

theorem CollisionFree.noneHash_not_mem (h : H.CollisionFree) (chunk : Nat → List Int) (i n : Nat) :
    H.noneHash ∉ H.chain chunk H.noneHash i n := by
  intro hmem
  obtain ⟨y, -, ts, heq⟩ := mem_chain hmem
  exact h.hash_ne_none y ts heq.symm

/-- The block hashes of a token sequence are pairwise different. -/
theorem CollisionFree.nodup_iterTokenBlockHashes (h : H.CollisionFree) (ts : List Int) (n : Nat) :
    (H.iterTokenBlockHashes ts n).Nodup :=
  h.chain_nodup (h.noneHash_not_mem _ _ _)

theorem CollisionFree.nodup_iterEagleTokenBlockHashes (h : H.CollisionFree) (ts : List Int)
    (n : Nat) : (H.iterEagleTokenBlockHashes ts n).Nodup :=
  h.chain_nodup (h.noneHash_not_mem _ _ _)

end PyHash
end PyptoServing.Memory
