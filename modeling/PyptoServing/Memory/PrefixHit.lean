import PyptoServing.Memory.Conservation

/-!
# How long a prefix hit can be

Both caches leave at least the last token of a lookup uncached: the generic lookup stops
after the full blocks of all tokens but one, and a grouped hit is a candidate of the
backward search, which starts below the requested limit.
-/
namespace PyptoServing.Memory

open Lib Config

namespace KvCacheManager
variable {m m' : KvCacheManager} {r : RequestId} {p : Nat}

theorem getCachedBlock_blockSize (m : KvCacheManager) (h : Int) :
    (m.getCachedBlock h).2.blockSize = m.blockSize := by
  unfold getCachedBlock
  split
  · rfl
  · split
    · rfl
    · dsimp only
      split <;> rfl

theorem hitLoop_length_le (m : KvCacheManager) (n : Nat) (hashes : List Int) :
    (m.hitLoop n hashes).1.length ≤ n := by
  induction n generalizing m hashes with
  | zero => simp [hitLoop]
  | succ n ih =>
    cases hashes with
    | nil => simp [hitLoop]
    | cons h hashes =>
      rw [hitLoop]
      split
      · simp
      · next b m' _ =>
        have := ih m' hashes
        simp only [List.length_cons]
        omega

theorem hitLoop_blockSize (m : KvCacheManager) (n : Nat) (hashes : List Int) :
    (m.hitLoop n hashes).2.blockSize = m.blockSize := by
  induction n generalizing m hashes with
  | zero => rfl
  | succ n ih =>
    cases hashes with
    | nil => rfl
    | cons h hashes =>
      have hone := getCachedBlock_blockSize m h
      rw [hitLoop]
      split
      · next heq => rw [← hone, heq]
      · next heq =>
        rw [heq] at hone
        exact (ih _ _).trans hone

theorem getComputedBlocks_blockSize (m : KvCacheManager) (tokenIds : List Int) :
    (m.getComputedBlocks tokenIds).2.blockSize = m.blockSize := by
  unfold getComputedBlocks
  split
  · rfl
  · exact hitLoop_blockSize _ _ _

/-- The tokens of the cached blocks leave one token uncached. -/
theorem getComputedBlocks_le (m : KvCacheManager) (tokenIds : List Int) :
    (m.getComputedBlocks tokenIds).1.length * m.blockSize ≤ tokenIds.length - 1 := by
  unfold getComputedBlocks
  split
  · simp
  · exact (Nat.mul_le_mul_right _ (hitLoop_length_le _ _ _)).trans (Nat.div_mul_le_self _ _)

theorem searchCandidate_le (m : KvCacheManager) (p : Nat) (hashes : GroupHashes)
    (alignment k : Nat) : (m.searchCandidate p hashes alignment k).1 ≤ k * alignment := by
  induction k with
  | zero => simp [searchCandidate]
  | succ k ih =>
    rw [searchCandidate]
    split
    · exact le_rfl
    · exact ih.trans (Nat.mul_le_mul_right _ (Nat.le_succ k))

theorem fullHistoryHit_le (pool : GroupBlockPool) (p : Nat) (hashes : List Int)
    (candidate : Nat) : pool.fullHistoryHit p hashes candidate ≤ candidate := by
  unfold GroupBlockPool.fullHistoryHit
  split
  · exact le_rfl
  · exact min_le_left _ _

theorem partitionHit_le (m : KvCacheManager) (hashes : GroupHashes) (limit p : Nat) :
    (m.partitionHit hashes limit p).1 ≤ limit := by
  have hfold : ∀ (l : List GroupBlockPool) (n : Nat),
      l.foldl (fun candidate pool =>
        pool.fullHistoryHit p (groupEntry hashes pool) candidate) n ≤ n := by
    intro l
    induction l with
    | nil => exact fun n => le_rfl
    | cons pool l ih => exact fun n => (ih _).trans (fullHistoryHit_le _ _ _ _)
  exact ((searchCandidate_le m p hashes _ _).trans (Nat.div_mul_le_self _ _)).trans (hfold _ _)

theorem bestHit_le {hashes : GroupHashes} {limit : Nat} {hit : Nat × Nat × List (List (Option BlockId))}
    (h : m.bestHit hashes limit = some hit) : hit.2.1 ≤ limit := by
  have hinv : ∀ (l : List Nat) (best : Option (Nat × Nat × List (List (Option BlockId)))),
      (∀ e ∈ best, e.2.1 ≤ limit) →
      ∀ e ∈ l.foldl (fun best partition =>
        let hit := m.partitionHit hashes limit partition
        if (best.map (·.2.1)).getD 0 < hit.1 then some (partition, hit) else best) best,
        e.2.1 ≤ limit := by
    intro l
    induction l with
    | nil => exact fun best hb => hb
    | cons q l ih =>
      intro best hb
      apply ih
      dsimp only
      split
      · intro e he
        cases he
        exact partitionHit_le m hashes limit q
      · exact hb
  exact hinv _ none (by simp) hit h

/-- An attached hit stays within the requested limit. -/
theorem acquire_hit_le {hashes : GroupHashes} {limit : Nat} {res : GroupTables × Nat × Option Nat}
    (h : m.acquireGroupPrefixBlocks r hashes limit = .ok (res, m')) : res.2.1 ≤ limit := by
  unfold acquireGroupPrefixBlocks at h
  split at h
  · cases h
    exact Nat.zero_le _
  · split at h
    · cases h
    · split at h
      · cases h
      · dsimp only at h
        split at h
        · cases h
          exact Nat.zero_le _
        · split at h
          · cases h
            exact Nat.zero_le _
          · next hbest =>
            cases h
            exact (bestHit_le hbest).trans (Nat.sub_le _ _)

end KvCacheManager
end PyptoServing.Memory
