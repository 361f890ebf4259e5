import ApiUnion.Proofs.Catalog.Filing
import ApiUnion.Proofs.Catalog.Tidying
import ApiUnion.Run.Basic

-- Runs with and without grouping. Where nothing is split, grouping only brings the snapshots of
-- each class together, which neither the classes nor the statistics tell.

namespace ApiUnion

namespace Catalog

-- The snapshots class by class.
def gathered (snapshots : List ApiClass) : List ApiClass :=
  (firstSeen snapshots).flatMap fun name => snapshots.filter fun snapshot => snapshot.name = name

theorem mem_gathered {snapshots : List ApiClass} {snapshot : ApiClass} (h : snapshot ∈ snapshots) :
    snapshot ∈ gathered snapshots := by
  have hseen := (mem_firstSeen snapshots snapshot.name).mpr ⟨snapshot, h, rfl⟩
  exact List.mem_flatMap.mpr
    ⟨snapshot.name, hseen, List.mem_filter.mpr ⟨h, decide_eq_true rfl⟩⟩

theorem filter_gathered (snapshots : List ApiClass) (name : String) :
    (gathered snapshots).filter (fun snapshot => snapshot.name = name) =
      snapshots.filter fun snapshot => snapshot.name = name := by
  have hone (other : String) : (snapshots.filter fun snapshot => snapshot.name = other).filter
      (fun snapshot => snapshot.name = name) =
        if other = name then snapshots.filter fun snapshot => snapshot.name = name else [] := by
    rw [List.filter_filter]
    split
    · rename_i hother
      rw [hother]
      exact List.filter_congr fun snapshot _ => Bool.and_self _
    · rename_i hother
      refine List.filter_eq_nil_iff.mpr fun snapshot _ => ?_
      simp only [Bool.and_eq_true, decide_eq_true_eq, not_and]
      exact fun hname hsame => hother (hsame.symm.trans hname)
  have hnames : ∀ names : List String, names.Nodup →
      (names.flatMap fun other => if other = name then
        snapshots.filter fun snapshot => snapshot.name = name else []) =
        if name ∈ names then snapshots.filter fun snapshot => snapshot.name = name else [] := by
    intro names
    induction names with
    | nil => exact fun _ => rfl
    | cons other names ih =>
        intro hnodup
        rw [List.nodup_cons] at hnodup
        rw [List.flatMap_cons, ih hnodup.2]
        by_cases hother : other = name
        · subst hother
          simp [hnodup.1]
        · simp [hother, Ne.symm hother]
  rw [gathered, List.filter_flatMap]
  simp only [hone]
  rw [hnames _ (nodup_firstSeen snapshots)]
  split
  · rfl
  · rename_i habsent
    rw [mem_firstSeen] at habsent
    refine (List.filter_eq_nil_iff.mpr fun snapshot hsnapshot => ?_).symm
    simpa using fun hname => habsent ⟨snapshot, hsnapshot, hname⟩

section Rearranging

variable (options : MergeOptions) {snapshots others : List ApiClass}
  (h : ∀ name, snapshots.filter (fun snapshot => snapshot.name = name) =
    others.filter fun snapshot => snapshot.name = name)

include h

-- Only the order of the snapshots of each class counts.
theorem get?_appendAll_congr (name : String) :
    ((empty options).appendAll snapshots).get? name =
      ((empty options).appendAll others).get? name := by
  have hpart (list : List ApiClass) := (appendAll_filter (· = name) (empty options) (empty options)
    list (keyed_empty options) (keyed_empty options) rfl fun _ _ => rfl).1 name (by simp)
  rw [← hpart snapshots, ← hpart others, h name]

theorem events_perm_of_filter :
    ((empty options).events snapshots).Perm ((empty options).events others) := by
  have hpart (list : List ApiClass) (name : String) := (appendAll_filter (· = name) (empty options)
    (empty options) list (keyed_empty options) (keyed_empty options) rfl fun _ _ => rfl).2
  refine List.perm_iff_count.mpr fun event => ?_
  have hcount (list : List ApiClass) : ((empty options).events list).count event =
      ((empty options).events
        (list.filter fun snapshot => snapshot.name = event.1)).count event := by
    rw [hpart list event.1, List.count_filter (by simp)]
  rw [hcount snapshots, hcount others, h event.1]

end Rearranging

end Catalog

namespace ScopeTally

variable {a b : ScopeTally}

theorem SameFigures.text (h : SameFigures a b) : a.text = b.text := by
  rw [ScopeTally.text, ScopeTally.text, total, total, h.successes, h.failed, h.byCategory]

theorem SameFigures.json (h : SameFigures a b) : a.json = b.json := by
  rw [ScopeTally.json, ScopeTally.json, total, total, h.successes, h.failed, h.byCategory]

end ScopeTally

theorem RunSummary.text_congr {a b : RunSummary} (hroots : a.roots = b.roots)
    (hclasses : a.classes = b.classes)
    (htally : ∀ scope, (a.tally.scope scope).SameFigures (b.tally.scope scope)) :
    a.text = b.text := by
  rw [text, text, hroots, hclasses, Tally.text, Tally.text]
  simp only [(htally _).text]

theorem RunSummary.json_congr {a b : RunSummary} (hroots : a.roots = b.roots)
    (hclasses : a.classes = b.classes)
    (htally : ∀ scope, (a.tally.scope scope).SameFigures (b.tally.scope scope)) :
    a.json = b.json := by
  rw [json, json, hroots, hclasses, Tally.json, Tally.json]
  simp only [(htally _).json]

namespace Run

-- What is told of two runs is the same if they have the same classes and figures.
structure Same (a b : Merged) : Prop where
  classes : ∀ name, a.catalog.get? name = b.catalog.get? name
  tally : ∀ scope, (a.catalog.tally.scope scope).SameFigures (b.catalog.tally.scope scope)
  text : a.summary.text = b.summary.text
  json : a.summary.json = b.summary.json

theorem same_mergeSharded (options : MergeOptions) (shardOf : String → Nat) (shards : Nat)
    {snapshots others : List ApiClass} (roots : List (RootSpec × ReadStats))
    (h : ∀ name, snapshots.filter (fun snapshot => snapshot.name = name) =
      others.filter fun snapshot => snapshot.name = name) :
    Same ⟨(Catalog.mergeSharded options shardOf shards snapshots).cleanUp, roots⟩
      ⟨(Catalog.mergeSharded options shardOf shards others).cleanUp, roots⟩ := by
  have hget (name : String) :
      (Catalog.mergeSharded options shardOf shards snapshots).cleanUp.get? name =
        (Catalog.mergeSharded options shardOf shards others).cleanUp.get? name := by
    rw [Catalog.get?_cleanUp, Catalog.get?_cleanUp, Catalog.get?_mergeSharded,
      Catalog.get?_mergeSharded, Catalog.get?_appendAll_congr options h]
  obtain ⟨recorded, hrecorded, htally⟩ :=
    Catalog.exists_events_mergeSharded options shardOf shards snapshots
  obtain ⟨recorded', hrecorded', htally'⟩ :=
    Catalog.exists_events_mergeSharded options shardOf shards others
  have hevents : recorded.Perm recorded' :=
    (hrecorded.trans (Catalog.events_perm_of_filter options h)).trans hrecorded'.symm
  have hfigures (scope : Scope) :
      (((Catalog.mergeSharded options shardOf shards snapshots).cleanUp.tally).scope
          scope).SameFigures
        (((Catalog.mergeSharded options shardOf shards others).cleanUp.tally).scope scope) := by
    have hsame := Tally.sameFigures_recordAll {} (hevents.map Prod.snd) scope
    rw [← htally, ← htally'] at hsame
    exact hsame
  exact ⟨hget, hfigures, RunSummary.text_congr rfl (Table.size_congr hget) hfigures,
    RunSummary.json_congr rfl (Table.size_congr hget) hfigures⟩

-- Where every class has one group, grouping gives back all snapshots as they are if each slot has
-- the size that pushing gives it, and a run is then the same with grouping as without. This is so
-- in whichever order classes were grouped.
theorem grouped_of_unsplit (order : QueueOrder) (snapshots : List ApiClass)
    (hkeys : ∀ snapshot ∈ snapshots, snapshot.UnderOwnKeys)
    (hone : (Splitter.grouped order snapshots).Unsplit) :
    (grouped order snapshots = (Catalog.firstSeen snapshots).flatMap (fun name =>
        snapshots.filter fun snapshot => snapshot.name = name) ↔
      ∀ snapshot ∈ snapshots, ∀ slot ∈ snapshot.methods.values, slot.Sized) ∧
    ((∀ snapshot ∈ snapshots, ∀ slot ∈ snapshot.methods.values, slot.Sized) →
      ∀ (settings : Settings) (roots : List RootSnapshots),
        roots.flatMap RootSnapshots.classes = snapshots →
          Same (mergeRoots order { settings with groupClasses := true } roots)
            (mergeRoots order { settings with groupClasses := false } roots)) := by
  have hrenamed (hsized : ∀ snapshot ∈ snapshots, ∀ slot ∈ snapshot.methods.values, slot.Sized) :
      grouped order snapshots = Catalog.gathered snapshots :=
    Splitter.renamed_of_unsplit hone hkeys hsized
  refine ⟨⟨fun hsame snapshot hsnapshot => ?_, hrenamed⟩, fun hsized settings roots hroots => ?_⟩
  · -- What comes out of grouping has slots of that size.
    have hmem := Catalog.mem_gathered hsnapshot
    rw [Catalog.gathered, ← hsame] at hmem
    have hfiled := Splitter.filed_renamed (Splitter.grouped order snapshots) order snapshot hmem
    exact ((ApiClass.filed_iff snapshot).mp hfiled).2
  · have hfilter := Catalog.filter_gathered snapshots
    rw [← hrenamed hsized] at hfilter
    subst hroots
    exact same_mergeSharded settings.merge Catalog.hashShard settings.shards _ hfilter

-- A class that refers to another one in everything that it has, in one version.
def referring (tag : String) : ApiClass :=
  { Splitter.seenIn tag "p/A" 0x0001 (some "<X:Lp/B;>Ljava/lang/Object;Lp/B<TX;>.I;") none with
    innerClasses := .ofRows [("p/B$I", ⟨some "p/B", some "I", 0x0001⟩)]
    fields := .ofRows [("x[Lp/B;",
      { access := ⟨0x0001⟩, name := "x", descriptor := "[Lp/B;", signature := some "[Lp/B<*>;" })]
    methods := .ofRows [("m(Lp/B;I)V", .single
      { access := ⟨0x0001⟩, name := "m", descriptor := "(Lp/B;I)V",
        signature := some "<Y:Lp/B;>(TY;I)V", exceptions := ["p/B"] })] }

def unsplitRoots : List RootSnapshots :=
  [⟨⟨"1", "x"⟩, [referring "1", Splitter.seenIn "1" "p/B" 0x0001 none none], {}⟩,
    ⟨⟨"2", "y"⟩, [referring "2", Splitter.seenIn "2" "p/B" 0x0001 none none], {}⟩]

theorem grouped_of_unsplit_referring :
    (grouped .asNoted (unsplitRoots.flatMap RootSnapshots.classes)).map ApiClass.name =
        ["p/A", "p/A", "p/B", "p/B"] ∧
      Same (mergeRoots .asNoted { groupClasses := true, shards := 4 } unsplitRoots)
        (mergeRoots .asNoted { groupClasses := false, shards := 4 } unsplitRoots) := by
  obtain ⟨hgrouped, hsame⟩ := grouped_of_unsplit .asNoted
    (unsplitRoots.flatMap RootSnapshots.classes) (by decide +kernel) (by decide +kernel)
  have hsized : ∀ snapshot ∈ unsplitRoots.flatMap RootSnapshots.classes,
      ∀ slot ∈ snapshot.methods.values, slot.Sized := by decide +kernel
  rw [hgrouped.mpr hsized]
  exact ⟨by decide +kernel, hsame hsized { shards := 4 } unsplitRoots rfl⟩

-- A class with a group of one method. That method is no group when it comes out of grouping.
def lonely : ApiClass :=
  { Splitter.seenIn "1" "p/A" 0x0001 none none with
    methods := .ofRows
      [("m()V", .group [{ access := ⟨0x0001⟩, name := "m", descriptor := "()V" }])] }

theorem grouped_ne_lonely :
    ¬ ∃ order : QueueOrder, ∀ snapshots : List ApiClass,
      (∀ snapshot ∈ snapshots, snapshot.UnderOwnKeys) →
      (Splitter.grouped order snapshots).Unsplit →
        grouped order snapshots = (Catalog.firstSeen snapshots).flatMap fun name =>
          snapshots.filter fun snapshot => snapshot.name = name := by
  rintro ⟨order, h⟩
  have hsame := h [lonely] (by decide +kernel)
  rw [grouped, ← Splitter.grouped,
    Splitter.renamed_of_isOrderless order .asNoted (by decide +kernel),
    Splitter.grouped_of_isOrderless order .asNoted (by decide +kernel)] at hsame
  exact absurd (hsame (by decide +kernel)) (by decide +kernel)

end Run

end ApiUnion
