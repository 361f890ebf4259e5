import ApiUnion.Proofs.Catalog.Admission
import ApiUnion.Proofs.Merge.Supertypes

-- Over a run, the super types that a class lists stay those of its signature.

namespace ApiUnion

namespace Catalog

-- What is taken in lists the super types of its signature, so the class does. The names that a
-- class declares are those of the snapshot that was installed, and a use of a name ends with a
-- semicolon.
theorem drawnBy_run (options : MergeOptions) (snapshots : List ApiClass) (name : String)
    (hdrawn : ∀ step ∈ acceptances name (empty options) snapshots,
      step.snapshot.interfaces.Nodup ∧ ∃ signature, step.snapshot.DrawnBy signature)
    (hused : ∀ step ∈ acceptances name (empty options) snapshots, step.before = none →
      ∀ signature, step.snapshot.DrawnBy signature →
        ∀ own ∈ signature.ownNames, ';' ∉ own.toList) :
    ∀ entry ∈ ((empty options).appendAll snapshots).get? name,
      entry.interfaces.Nodup ∧ ∃ signature, entry.DrawnBy signature := by
  suffices h : ∀ entry ∈ ((empty options).appendAll snapshots).get? name,
      entry.interfaces.Nodup ∧ ∃ signature : ClassSignature,
        (∀ own ∈ signature.ownNames, ';' ∉ own.toList) ∧ entry.DrawnBy signature from
    fun entry hentry => (h entry hentry).imp_right fun ⟨signature, _, hsignature⟩ =>
      ⟨signature, hsignature⟩
  revert hdrawn hused
  refine run_induction (motive := fun found taken =>
    (∀ step ∈ taken, step.snapshot.interfaces.Nodup ∧
      ∃ signature, step.snapshot.DrawnBy signature) →
    (∀ step ∈ taken, step.before = none → ∀ signature, step.snapshot.DrawnBy signature →
      ∀ own ∈ signature.ownNames, ';' ∉ own.toList) →
    ∀ entry : ApiClass, entry ∈ found → entry.interfaces.Nodup ∧ ∃ signature : ClassSignature,
      (∀ own ∈ signature.ownNames, ';' ∉ own.toList) ∧ entry.DrawnBy signature)
    name options snapshots ?_ ?_ ?_
  · intro _ _ entry hentry
    cases hentry
  · intro snapshot _ hdrawn hused entry hentry
    obtain rfl := Option.some.inj hentry
    obtain ⟨hdistinct, signature, hsignature⟩ := hdrawn _ (List.mem_singleton.mpr rfl)
    have hplain := hused _ (List.mem_singleton.mpr rfl) rfl signature hsignature
    exact ⟨hdistinct, signature, hplain, hsignature⟩
  · intro existing taken snapshot _ signature ih hchecked hdrawn hused entry hentry
    obtain rfl := Option.some.inj hentry
    rw [List.forall_mem_append] at hdrawn hused
    obtain ⟨haDistinct, a, haUsed, ha⟩ := ih hdrawn.1 hused.1 existing rfl
    obtain ⟨hbDistinct, b, hb⟩ := hdrawn.2 _ (List.mem_singleton.mpr rfl)
    obtain ⟨merged, hnames, hmerged⟩ :=
      Merge.drawnBy_applyClass options ha hb hbDistinct haUsed hchecked
    exact ⟨Merge.nodup_union haDistinct hbDistinct, merged,
      fun own hown => haUsed own (hnames hown), hmerged⟩

-- A class signature with one type variable of its own.
def extending (own : String) (interfaces : List ClassType) : ClassSignature :=
  ⟨[⟨own, some (.classType [⟨"p/A", []⟩]), []⟩], [⟨"p/S", []⟩], interfaces⟩

def lists (name own : String) : ClassType :=
  [⟨name, [.bounded .exact (.var own)]⟩]

-- A class drawn by a signature.
def drawn (signature : ClassSignature) (tag : String) : ApiClass where
  name := "p/C"
  access := ⟨0x0001⟩
  superclass := some signature.superclass.internalName
  interfaces := signature.interfaceNames
  signature := some signature.text
  version := .single tag

theorem drawnBy_drawn {signature : ClassSignature}
    (htext : ClassSignature.ofText signature.text = .ok signature) (tag : String) :
    (drawn signature tag).DrawnBy signature :=
  ⟨⟨signature.text, rfl, htext⟩, rfl, rfl⟩

theorem drawnBy_run_extended :
    ∃ entry ∈ ((empty {}).appendAll [drawn (extending "X" [lists "p/I" "X"]) "1",
        drawn (extending "Y" [lists "p/J" "Y", lists "p/I" "Y"]) "2"]).get? "p/C",
      entry.interfaces = ["p/I", "p/J"] ∧ ∃ signature, entry.DrawnBy signature := by
  have hfirst : (drawn (extending "X" [lists "p/I" "X"]) "1").DrawnBy
      (extending "X" [lists "p/I" "X"]) := drawnBy_drawn (by decide +kernel) "1"
  have hsecond : (drawn (extending "Y" [lists "p/J" "Y", lists "p/I" "Y"]) "2").DrawnBy
      (extending "Y" [lists "p/J" "Y", lists "p/I" "Y"]) := drawnBy_drawn (by decide +kernel) "2"
  have hplain : ∀ signature ∈ [extending "X" [lists "p/I" "X"],
      extending "Y" [lists "p/J" "Y", lists "p/I" "Y"]],
      ∀ own ∈ signature.ownNames, ';' ∉ own.toList := by decide +kernel
  have hdistinct : ∀ snapshot ∈ [drawn (extending "X" [lists "p/I" "X"]) "1",
      drawn (extending "Y" [lists "p/J" "Y", lists "p/I" "Y"]) "2"],
      snapshot.interfaces.Nodup := by decide +kernel
  have hdrawn (snapshot : ApiClass) (h : snapshot ∈ [drawn (extending "X" [lists "p/I" "X"]) "1",
      drawn (extending "Y" [lists "p/J" "Y", lists "p/I" "Y"]) "2"]) :=
    exists_of_forall₂ (List.Forall₂.cons hfirst (.cons hsecond .nil)).flip snapshot h
  have hrun := drawnBy_run {} [drawn (extending "X" [lists "p/I" "X"]) "1",
    drawn (extending "Y" [lists "p/J" "Y", lists "p/I" "Y"]) "2"] "p/C"
    (fun step hstep => by
      have hsnapshot := (mem_acceptances hstep).1
      exact ⟨hdistinct _ hsnapshot, (hdrawn _ hsnapshot).imp fun _ h => h.2⟩)
    (fun step hstep _ signature hsignature => by
      obtain ⟨found, hfound, hsame⟩ := hdrawn _ (mem_acceptances hstep).1
      rw [hsignature.unique hsame]
      exact hplain found hfound)
  have hinterfaces : (((empty {}).appendAll [drawn (extending "X" [lists "p/I" "X"]) "1",
      drawn (extending "Y" [lists "p/J" "Y", lists "p/I" "Y"]) "2"]).get? "p/C").map
        ApiClass.interfaces = some ["p/I", "p/J"] := by decide +kernel
  obtain ⟨entry, hentry, hlisted⟩ := Option.map_eq_some_iff.mp hinterfaces
  exact ⟨entry, hentry, hlisted, (hrun entry hentry).2⟩

-- A name that holds a semicolon ends early where it is used, and the rest can read as another
-- interface.
theorem not_drawnBy_run :
    ¬ ∀ (options : MergeOptions) (snapshots : List ApiClass) (name : String),
      (∀ step ∈ acceptances name (empty options) snapshots,
        step.snapshot.interfaces.Nodup ∧ ∃ signature, step.snapshot.DrawnBy signature) →
      ∀ entry ∈ ((empty options).appendAll snapshots).get? name, ∀ text signature,
        entry.signature = some text → ClassSignature.ofText text = .ok signature →
        entry.interfaces.Nodup ∧ entry.DrawnBy signature := by
  intro h
  have hfirst : (drawn (extending "a;>;Lp/K<TX" []) "1").DrawnBy (extending "a;>;Lp/K<TX" []) :=
    drawnBy_drawn (by decide +kernel) "1"
  have hsecond : (drawn (extending "Y" [lists "p/J" "Y"]) "2").DrawnBy
      (extending "Y" [lists "p/J" "Y"]) := drawnBy_drawn (by decide +kernel) "2"
  have hdistinct : ∀ snapshot ∈ [drawn (extending "a;>;Lp/K<TX" []) "1",
      drawn (extending "Y" [lists "p/J" "Y"]) "2"], snapshot.interfaces.Nodup := by decide +kernel
  have hdrawn (snapshot : ApiClass) (h : snapshot ∈ [drawn (extending "a;>;Lp/K<TX" []) "1",
      drawn (extending "Y" [lists "p/J" "Y"]) "2"]) :=
    exists_of_forall₂ (List.Forall₂.cons hfirst (.cons hsecond .nil)).flip snapshot h
  have hrun := h {} [drawn (extending "a;>;Lp/K<TX" []) "1",
    drawn (extending "Y" [lists "p/J" "Y"]) "2"] "p/C" fun step hstep => by
      have hsnapshot := (mem_acceptances hstep).1
      exact ⟨hdistinct _ hsnapshot, (hdrawn _ hsnapshot).imp fun _ h => h.2⟩
  have hmerged : (((empty {}).appendAll [drawn (extending "a;>;Lp/K<TX" []) "1",
      drawn (extending "Y" [lists "p/J" "Y"]) "2"]).get? "p/C").map (fun entry =>
        (entry.signature, entry.interfaces)) =
      some (some "<a;>;Lp/K<TX:Lp/A;>Lp/S;Lp/J<Ta;>;Lp/K<TX;>;", ["p/J"]) := by decide +kernel
  obtain ⟨entry, hentry, hlisted⟩ := Option.map_eq_some_iff.mp hmerged
  have hread := (hrun entry hentry _
    (extending "a;>;Lp/K<TX" [lists "p/J" "a", lists "p/K" "X"])
    (congrArg Prod.fst hlisted) (by decide +kernel)).2
  have hnames : entry.interfaces = ["p/J", "p/K"] := hread.interfaces.trans (by decide +kernel)
  exact absurd ((congrArg Prod.snd hlisted).symm.trans hnames) (by decide)

end Catalog

end ApiUnion
