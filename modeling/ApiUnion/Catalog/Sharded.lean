import ApiUnion.Catalog.Basic

-- Merging in shards: the snapshots are divided by class name, each part is merged alone, and the
-- parts are put together.

namespace ApiUnion.Catalog

-- Names in the order of first appearance.
def firstSeen (snapshots : List ApiClass) : List String :=
  (snapshots.foldl (fun (seen : Table Unit) snapshot => seen.insert snapshot.name ()) .empty).keys

def shard (options : MergeOptions) (shardOf : String → Nat) (index : Nat)
    (snapshots : List ApiClass) : Catalog :=
  (empty options).appendAll (snapshots.filter fun snapshot => shardOf snapshot.name = index)

-- Classes of all parts, in the order of their first snapshots.
def gather (names : List String) (parts : List Catalog) : Table ApiClass :=
  .ofRows (names.filterMap fun name =>
    (parts.findSome? fun part => part.get? name).map (name, ·))

-- The snapshots merged in as many shards as given. `shardOf` tells the shard of a class, modulo
-- their number; it does not matter which.
def mergeSharded (options : MergeOptions) (shardOf : String → Nat) (shards : Nat)
    (snapshots : List ApiClass) : Catalog :=
  if shards ≤ 1 then (empty options).appendAll snapshots
  else
    let parts := (List.range shards).map fun index =>
      shard options (fun name => shardOf name % shards) index snapshots
    { options
      classes := gather (firstSeen snapshots) parts
      tally := parts.foldl (fun tally part => tally.add part.tally) {} }

-- An even division.
def hashShard (name : String) : Nat :=
  name.hash.toNat

end ApiUnion.Catalog
