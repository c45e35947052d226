import GramIndex.Shard

/-!
This module contains what shards cut a list into: they follow each other without gaps from its start
to its end, so their slices in order are the list again.
-/

namespace GramIndex

/--
Shards that follow each other without gaps from one position up to another one.
-/
inductive Tiles : Nat → Nat → List Shard → Prop where
  | nil (stop : Nat) : Tiles stop stop []
  | cons {start stop : Nat} {s : Shard} {rest : List Shard} (hstart : s.start = start)
      (hle : s.start ≤ s.stop) (hrest : Tiles s.stop stop rest) : Tiles start stop (s :: rest)

theorem shardCount_pos (len wanted : Nat) : 0 < shardCount len wanted := by
  unfold shardCount
  omega

theorem tiles_go (len wanted start : Nat) {count extra : Nat} (hextra : extra ≤ count) :
    Tiles start (start + count * (len / shardCount len wanted) + extra)
      (shards.go len wanted count start extra) := by
  induction count generalizing start extra with
  | zero =>
    have hzero : extra = 0 := by omega
    rw [hzero, Nat.zero_mul]
    exact .nil start
  | succ count ih =>
    rw [shards.go]
    refine .cons rfl ?_ ?_
    · rw [Nat.add_assoc]
      exact Nat.le_add_right ..
    · have hfewer : extra - 1 ≤ count := by omega
      have hrest := ih (start + len / shardCount len wanted + if 0 < extra then 1 else 0) hfewer
      have hstop : start + (count + 1) * (len / shardCount len wanted) + extra =
          start + len / shardCount len wanted + (if 0 < extra then 1 else 0) +
            count * (len / shardCount len wanted) + (extra - 1) := by
        rw [Nat.succ_mul]
        split
        · omega
        · omega
      rw [hstop]
      exact hrest

theorem tiles_shards (len wanted : Nat) : Tiles 0 len (shards len wanted) := by
  have hlt := Nat.mod_lt len (shardCount_pos len wanted)
  have h := tiles_go len wanted 0 (Nat.le_of_lt hlt)
  rw [Nat.zero_add, Nat.div_add_mod] at h
  exact h

theorem Tiles.le {start stop : Nat} {l : List Shard} (h : Tiles start stop l) : start ≤ stop := by
  induction h with
  | nil => exact Nat.le_refl _
  | cons hstart hle _ ih => omega

theorem Tiles.flatten_slice {start stop : Nat} {l : List Shard} (h : Tiles start stop l)
    (items : List α) :
    (l.map fun s => s.slice items).flatten = (items.drop start).take (stop - start) := by
  induction h with
  | nil => simp
  | @cons start stop s rest hstart hle hrest ih =>
    have := hrest.le
    rw [List.map_cons, List.flatten_cons, ih, Shard.slice, Shard.size, hstart]
    have hsplit : stop - start = (s.stop - start) + (stop - s.stop) := by omega
    rw [hsplit, List.take_add, List.drop_drop]
    congr 3
    omega

namespace Pool

theorem flatten_slice (pool : Pool) (items : List α) :
    (pool.mapShards items.length fun s => s.slice items).flatten = items := by
  unfold mapShards
  rw [(tiles_shards _ _).flatten_slice]
  simp

theorem flatten_flatMap_slice (pool : Pool) (items : List α) (f : α → List β) :
    (pool.mapShards items.length fun s => (s.slice items).flatMap f).flatten = items.flatMap f := by
  have h := congrArg (List.flatMap f) (pool.flatten_slice items)
  rw [← h]
  unfold mapShards
  rw [List.flatMap_def, List.map_flatten, List.flatten_flatten, List.map_map, List.map_map]
  rfl

theorem flatten_map_slice (pool : Pool) (items : List α) (f : α → β) :
    (pool.mapShards items.length fun s => (s.slice items).map f).flatten = items.map f := by
  have h := congrArg (List.map f) (pool.flatten_slice items)
  rw [← h]
  unfold mapShards
  rw [List.map_flatten, List.map_map]
  rfl

end Pool

end GramIndex
