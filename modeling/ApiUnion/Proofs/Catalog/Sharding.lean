import ApiUnion.Catalog.Sharded
import ApiUnion.Proofs.Catalog.Acceptance
import ApiUnion.Proofs.Merge.Tally
import ApiUnion.Proofs.Table

-- Merging in shards gives what merging one snapshot after another gives. An append depends on the
-- class of its own name alone and changes no other, so a run over the snapshots of some names does
-- to these names what the whole run does, and records the same of them.

namespace ApiUnion

namespace Catalog

-- What appending a snapshot makes of the class that is known under its name, and what it records.
def taken (options : MergeOptions) (known : Option ApiClass) (snapshot : ApiClass) :
    Logged (Option ApiClass) :=
  if options.skipPackagePrivateMembers && snapshot.isPackagePrivateMember then pure known
  else
    match known with
    | none => pure (some snapshot)
    | some existing =>
      if existing.version.contains snapshot.version then pure known
      else do
        let merged ← Merge.classes options existing snapshot
        pure (merged.or known)

theorem get?_append (catalog : Catalog) (snapshot : ApiClass) (hkeyed : catalog.Keyed)
    (name : String) :
    (catalog.append snapshot).1.get? name =
      if name = snapshot.name then
        (taken catalog.options (catalog.get? snapshot.name) snapshot).value
      else catalog.get? name := by
  by_cases hname : name = snapshot.name
  · subst hname
    rw [if_pos rfl]
    unfold append taken skips
    split
    · rfl
    · cases hknown : catalog.get? snapshot.name with
      | none => simp [get?_put]
      | some existing =>
          by_cases hseen : existing.version.contains snapshot.version
          · simp [hseen, hknown]
          · have hown : existing.name = snapshot.name := hkeyed _ _ hknown
            simp only [hseen, Bool.false_eq_true, if_false, Logged.value_bind, Merge.value_classes]
            cases Merge.checkClass existing snapshot with
            | error conflict => exact hknown
            | ok signature =>
                refine (get?_put _ _ _ _).trans (if_pos ?_)
                exact hown.symm.trans (Merge.name_applyClass _ _ _ _).symm
  · rw [if_neg hname]
    have hkept := acceptance?_of_ne name catalog snapshot (Ne.symm hname)
    cases appended_append name catalog snapshot hkeyed with
    | kept _ hget => exact hget
    | installed haccepted => rw [hkept] at haccepted; cases haccepted
    | merged _ _ haccepted => rw [hkept] at haccepted; cases haccepted

theorem tally_append (catalog : Catalog) (snapshot : ApiClass) :
    (catalog.append snapshot).1.tally = catalog.tally.recordAll
      (taken catalog.options (catalog.get? snapshot.name) snapshot).events := by
  unfold append taken skips
  split
  · rfl
  · cases hknown : catalog.get? snapshot.name with
    | none => rfl
    | some existing =>
        by_cases hseen : existing.version.contains snapshot.version
        · simp only [hseen]
          rfl
        · simp only [hseen, Bool.false_eq_true, if_false, Logged.events_bind, Logged.events_pure,
            List.append_nil, Merge.value_classes]
          cases Merge.checkClass existing snapshot with
          | error conflict => rfl
          | ok signature => rfl

-- All that a run records, each event under the name of the snapshot that it comes from.
def events : Catalog → List ApiClass → List (String × Event)
  | _, [] => []
  | catalog, snapshot :: rest =>
    (taken catalog.options (catalog.get? snapshot.name) snapshot).events.map (snapshot.name, ·) ++
      events (catalog.append snapshot).1 rest

theorem tally_appendAll (catalog : Catalog) (snapshots : List ApiClass) :
    (catalog.appendAll snapshots).tally =
      catalog.tally.recordAll ((catalog.events snapshots).map Prod.snd) := by
  induction snapshots generalizing catalog with
  | nil => rfl
  | cons snapshot rest ih =>
      have hstep : catalog.appendAll (snapshot :: rest) =
          (catalog.append snapshot).1.appendAll rest := rfl
      rw [hstep, ih, tally_append, events, List.map_append, Tally.recordAll_append, List.map_map,
        Function.comp_def, List.map_id']

-- A run over the snapshots of some names, beside the run over all.
theorem appendAll_filter (keep : String → Bool) (whole part : Catalog) (snapshots : List ApiClass)
    (hwhole : whole.Keyed) (hpart : part.Keyed) (hoptions : whole.options = part.options)
    (hagree : ∀ name, keep name → part.get? name = whole.get? name) :
    let kept := snapshots.filter fun snapshot => keep snapshot.name
    (∀ name, keep name → (part.appendAll kept).get? name = (whole.appendAll snapshots).get? name) ∧
      part.events kept = (whole.events snapshots).filter fun event => keep event.1 := by
  induction snapshots generalizing whole part with
  | nil => exact ⟨hagree, rfl⟩
  | cons snapshot rest ih =>
      have hwhole' := keyed_append whole snapshot hwhole
      have hoptions' := options_append whole snapshot
      let recorded := (taken whole.options (whole.get? snapshot.name) snapshot).events
      by_cases hkeep : keep snapshot.name
      · have hsame := hagree snapshot.name hkeep
        obtain ⟨hget, hevents⟩ := ih (whole.append snapshot).1 (part.append snapshot).1 hwhole'
          (keyed_append part snapshot hpart)
          (by rw [hoptions', options_append, hoptions]) (fun name hname => by
            rw [get?_append _ _ hpart, get?_append _ _ hwhole, hagree name hname, hsame, hoptions])
        have hall : (recorded.map (snapshot.name, ·)).filter (fun event => keep event.1) =
            recorded.map (snapshot.name, ·) := by
          simp [List.filter_map, Function.comp_def, hkeep]
        rw [List.filter_cons_of_pos (by simpa using hkeep)]
        refine ⟨hget, ?_⟩
        rw [events, events, List.filter_append, ← hevents, hall, hsame, ← hoptions]
      · obtain ⟨hget, hevents⟩ := ih (whole.append snapshot).1 part hwhole' hpart
          (by rw [hoptions', hoptions]) (fun name hname => by
            have hne : name ≠ snapshot.name := by
              rintro rfl
              exact hkeep hname
            rw [get?_append _ _ hwhole, if_neg hne, hagree name hname])
        have hnone : (recorded.map (snapshot.name, ·)).filter (fun event => keep event.1) = [] := by
          simp [List.filter_map, Function.comp_def, hkeep]
        rw [List.filter_cons_of_neg (by simpa using hkeep)]
        refine ⟨hget, ?_⟩
        rw [hevents, events, List.filter_append, hnone, List.nil_append]

theorem get?_appendAll_of_absent (options : MergeOptions) (snapshots : List ApiClass) (name : String)
    (h : ∀ snapshot ∈ snapshots, snapshot.name ≠ name) :
    ((empty options).appendAll snapshots).get? name = none := by
  obtain ⟨hget, -⟩ := appendAll_filter (· = name) (empty options) (empty options) snapshots
    (keyed_empty options) (keyed_empty options) rfl fun _ _ => rfl
  have hnone : snapshots.filter (fun snapshot => snapshot.name = name) = [] := by
    simpa using h
  rw [← hget name (by simp), hnone]
  rfl

theorem mem_firstSeen (snapshots : List ApiClass) (name : String) :
    name ∈ firstSeen snapshots ↔ ∃ snapshot ∈ snapshots, snapshot.name = name := by
  have hfold : ∀ seen : Table Unit, name ∈ (snapshots.foldl
      (fun (seen : Table Unit) snapshot => seen.insert snapshot.name ()) seen).keys ↔
      name ∈ seen.keys ∨ ∃ snapshot ∈ snapshots, snapshot.name = name := by
    induction snapshots with
    | nil => simp
    | cons snapshot rest ih =>
        intro seen
        rw [List.foldl_cons, ih, Table.keys, Table.insert, Table.mem_keys_put]
        simp [Table.keys, or_assoc, or_left_comm, eq_comm]
  simpa [firstSeen, Table.keys, Table.empty] using hfold .empty

theorem nodup_firstSeen (snapshots : List ApiClass) : (firstSeen snapshots).Nodup :=
  Table.distinct _

theorem findSome?_of_unique {α β : Type} (found : α → Option β) (items : List α) (item : α)
    (hitem : item ∈ items) (hothers : ∀ other ∈ items, other ≠ item → found other = none) :
    items.findSome? found = found item := by
  induction items with
  | nil => cases hitem
  | cons first rest ih =>
      rw [List.forall_mem_cons] at hothers
      rw [List.findSome?_cons]
      by_cases hfirst : first = item
      · subst hfirst
        cases hfound : found first with
        | some value => rfl
        | none =>
            refine List.findSome?_eq_none_iff.mpr fun other hother => ?_
            by_cases hsame : other = first
            · rw [hsame, hfound]
            · exact hothers.2 other hother hsame
      · rw [hothers.1 hfirst]
        exact ih ((List.mem_cons.mp hitem).resolve_left (Ne.symm hfirst)) hothers.2

-- The shard of a name knows all of it, and the other shards nothing.
theorem get?_shard (options : MergeOptions) (shardOf : String → Nat) (snapshots : List ApiClass)
    (index : Nat) (name : String) :
    (shard options shardOf index snapshots).get? name =
      if shardOf name = index then ((empty options).appendAll snapshots).get? name else none := by
  unfold shard
  split
  · rename_i hname
    exact (appendAll_filter (fun name => shardOf name = index) (empty options) (empty options)
      snapshots (keyed_empty options) (keyed_empty options) rfl fun _ _ => rfl).1 name (by simpa)
  · rename_i hname
    refine get?_appendAll_of_absent options _ name fun snapshot hsnapshot heq => hname ?_
    simpa [heq] using (List.mem_filter.mp hsnapshot).2

theorem tally_shard (options : MergeOptions) (shardOf : String → Nat) (snapshots : List ApiClass)
    (index : Nat) :
    (shard options shardOf index snapshots).tally = ({} : Tally).recordAll
      ((((empty options).events snapshots).filter fun event => shardOf event.1 = index).map
        Prod.snd) := by
  obtain ⟨-, hevents⟩ := appendAll_filter (fun name => shardOf name = index) (empty options)
    (empty options) snapshots (keyed_empty options) (keyed_empty options) rfl fun _ _ => rfl
  rw [← hevents]
  exact tally_appendAll _ _

-- Exactly one shard can know a name.
theorem findSome?_shards (options : MergeOptions) (shardOf : String → Nat) (shards : Nat)
    (snapshots : List ApiClass) (hshard : ∀ name, shardOf name < shards) (name : String) :
    (((List.range shards).map fun index => shard options shardOf index snapshots).findSome?
        fun part => part.get? name) = ((empty options).appendAll snapshots).get? name := by
  have hown := get?_shard options shardOf snapshots (shardOf name) name
  rw [if_pos rfl] at hown
  rw [List.findSome?_map, ← hown]
  refine findSome?_of_unique _ _ (shardOf name) (by simpa using hshard name) ?_
  intro index _ hindex
  exact (get?_shard options shardOf snapshots index name).trans (if_neg (Ne.symm hindex))

theorem get?_gather_shards (options : MergeOptions) (shardOf : String → Nat) (shards : Nat)
    (snapshots : List ApiClass) (name : String) (hshard : ∀ name, shardOf name < shards) :
    (gather (firstSeen snapshots)
        ((List.range shards).map fun index => shard options shardOf index snapshots)).get? name =
      ((empty options).appendAll snapshots).get? name := by
  have hfound := findSome?_shards options shardOf shards snapshots hshard
  rw [gather, Table.get?_ofRows_filterMap, hfound]
  intro hname
  rw [hfound]
  refine get?_appendAll_of_absent options snapshots name fun snapshot hsnapshot heq => hname ?_
  exact (mem_firstSeen snapshots name).mpr ⟨snapshot, hsnapshot, heq⟩

theorem foldl_add_tally (options : MergeOptions) (shardOf : String → Nat)
    (snapshots : List ApiClass) (indices : List Nat) (tally : Tally) :
    (indices.map fun index => shard options shardOf index snapshots).foldl
        (fun tally part => tally.add part.tally) tally =
      tally.recordAll ((indices.flatMap fun index =>
        ((empty options).events snapshots).filter fun event => shardOf event.1 = index).map
          Prod.snd) := by
  induction indices generalizing tally with
  | nil => rfl
  | cons index indices ih =>
      rw [List.map_cons, List.foldl_cons, ih, tally_shard, Tally.add_recordAll,
        List.flatMap_cons, List.map_append, Tally.recordAll_append]

-- Items sorted into numbered boxes, put together again.
theorem flatMap_filter_perm {α : Type} (box : α → Nat) (count : Nat) (items : List α)
    (h : ∀ item ∈ items, box item < count) :
    ((List.range count).flatMap fun index => items.filter fun item => box item = index).Perm
      items := by
  have hupTo : ∀ count, ((List.range count).flatMap fun index =>
      items.filter fun item => box item = index).Perm
        (items.filter fun item => box item < count) := by
    intro count
    induction count with
    | zero => simp
    | succ count ih =>
        have hsplit := List.filter_append_perm (fun item => box item < count)
          (items.filter fun item => box item < count + 1)
        have hbelow : (items.filter fun item => box item < count + 1).filter
            (fun item => box item < count) = items.filter fun item => box item < count := by
          rw [List.filter_filter]
          refine List.filter_congr fun item _ => ?_
          simp only [← Bool.decide_and, decide_eq_decide]
          omega
        have hlast : (items.filter fun item => box item < count + 1).filter
            (fun item => !decide (box item < count)) = items.filter fun item => box item = count := by
          rw [List.filter_filter]
          refine List.filter_congr fun item _ => ?_
          simp only [← decide_not, ← Bool.decide_and, decide_eq_decide]
          omega
        rw [hbelow, hlast] at hsplit
        rw [List.range_succ, List.flatMap_append, List.flatMap_singleton]
        exact (ih.append_right _).trans hsplit
  have hall : items.filter (fun item => box item < count) = items := by
    simpa using h
  simpa [hall] using hupTo count

theorem get?_mergeSharded (options : MergeOptions) (shardOf : String → Nat) (shards : Nat)
    (snapshots : List ApiClass) (name : String) :
    (mergeSharded options shardOf shards snapshots).get? name =
      ((empty options).appendAll snapshots).get? name := by
  unfold mergeSharded
  split
  · rfl
  · rename_i hshards
    exact get?_gather_shards options (shardOf · % shards) shards snapshots name
      fun name => Nat.mod_lt _ (by omega)

-- Shards record what the whole run records, in another order.
theorem exists_events_mergeSharded (options : MergeOptions) (shardOf : String → Nat) (shards : Nat)
    (snapshots : List ApiClass) :
    ∃ events : List (String × Event), events.Perm ((empty options).events snapshots) ∧
      (mergeSharded options shardOf shards snapshots).tally =
        ({} : Tally).recordAll (events.map Prod.snd) := by
  unfold mergeSharded
  split
  · exact ⟨_, .refl _, tally_appendAll _ _⟩
  · rename_i hshards
    exact ⟨_, flatMap_filter_perm (fun event : String × Event => shardOf event.1 % shards) shards
      ((empty options).events snapshots) fun event _ => Nat.mod_lt _ (by omega),
      foldl_add_tally options (shardOf · % shards) snapshots (List.range shards) {}⟩

theorem mergeSharded_eq_appendAll (options : MergeOptions) (shardOf : String → Nat) (shards : Nat)
    (snapshots : List ApiClass) :
    let sharded := mergeSharded options shardOf shards snapshots
    let sequential := (empty options).appendAll snapshots
    (∀ name, sharded.get? name = sequential.get? name) ∧
      (∀ name, name ∈ sharded.classes.keys ↔ name ∈ sequential.classes.keys) ∧
      ∀ scope, (sharded.tally.scope scope).SameFigures (sequential.tally.scope scope) := by
  intro sharded sequential
  have hget := get?_mergeSharded options shardOf shards snapshots
  refine ⟨hget, fun name => ?_, fun scope => ?_⟩
  · have hname := hget name
    rw [get?, get?] at hname
    rw [Table.mem_keys_iff, Table.mem_keys_iff, hname]
  · obtain ⟨events, hperm, htally⟩ := exists_events_mergeSharded options shardOf shards snapshots
    rw [htally, tally_appendAll]
    exact Tally.sameFigures_recordAll {} (hperm.map Prod.snd) scope

end Catalog

end ApiUnion
