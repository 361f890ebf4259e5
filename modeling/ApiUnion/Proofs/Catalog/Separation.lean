import ApiUnion.Proofs.Catalog.Acceptance
import ApiUnion.Proofs.Catalog.Unchanged
import ApiUnion.Proofs.Merge.Separation

-- Methods under one key that a run keeps apart. A method is only put beside others if each of them
-- refuses it, and whatever they take in later, they go on to refuse it for as long as they have
-- signatures.

namespace ApiUnion

open Merge

-- Every key has variants that stay apart.
def ApiClass.Separated (options : MergeOptions) (entry : ApiClass) : Prop :=
  ∀ key slot, entry.methods.get? key = some slot →
    Merge.Separated options slot.toList

theorem ApiClass.separated_of_lone (options : MergeOptions) {entry : ApiClass} (hlone : entry.Lone)
    (hdeclarable : ∀ method ∈ entry.allMethods, method.Declarable) : entry.Separated options := by
  intro key slot hget
  have hslot := entry.methods.mem_values_of_get? key slot hget
  constructor
  · intro method hmethod
    exact hdeclarable method (List.mem_flatMap.mpr ⟨slot, hslot, hmethod⟩)
  · obtain ⟨method, rfl⟩ := MethodSlot.exists_eq_single (hlone slot hslot)
    exact List.pairwise_singleton _ _

theorem Merge.separated_applyClass {options : MergeOptions} {target incoming : ApiClass}
    (signature : Option String) (htarget : target.Separated options)
    (hincoming : incoming.Separated options) :
    (applyClass options target incoming signature).value.Separated options := by
  intro key slot hget
  rw [get?_methods_applyClass] at hget
  cases hnew : incoming.methods.get? key with
  | none =>
      rw [hnew] at hget
      obtain ⟨old, hold, rfl⟩ := Option.map_eq_some_iff.mp hget
      exact separated_explicitMethod target.version (htarget key old hold)
  | some added =>
      have hadded := separated_explicitMethod incoming.version (hincoming key added hnew)
      rw [hnew] at hget
      obtain rfl := Option.some.inj hget
      cases hold : target.methods.get? key with
      | none => exact hadded
      | some old =>
          exact separated_foldlM target.name _ _
            (separated_explicitMethod target.version (htarget key old hold)) hadded.declarable

namespace Catalog

theorem separated_run (options : MergeOptions) (snapshots : List ApiClass)
    (hlone : ∀ snapshot ∈ snapshots, snapshot.Lone)
    (hdeclarable : ∀ snapshot ∈ snapshots, ∀ method ∈ snapshot.allMethods, method.Declarable)
    (name : String) :
    ∀ entry ∈ ((empty options).appendAll snapshots).get? name, entry.Separated options := by
  have hsnapshot : ∀ snapshot ∈ snapshots, snapshot.Separated options := fun snapshot hmem =>
    ApiClass.separated_of_lone options (hlone snapshot hmem) (hdeclarable snapshot hmem)
  refine run_induction (motive := fun known _ => ∀ entry ∈ known, entry.Separated options) name
    options snapshots ?_ ?_ ?_
  · intro entry hentry
    cases hentry
  · intro snapshot hmem entry hentry
    obtain rfl := Option.some.inj hentry
    exact hsnapshot snapshot hmem
  · intro existing taken snapshot hmem signature hexisting hchecked entry hentry
    obtain rfl := Option.some.inj hentry
    exact separated_applyClass signature (hexisting existing rfl) (hsnapshot snapshot hmem)

-- A variant refuses every later one of its key, unless it has lost its signature.
theorem separate_run (options : MergeOptions) (snapshots : List ApiClass)
    (hlone : ∀ snapshot ∈ snapshots, snapshot.Lone)
    (hdeclarable : ∀ snapshot ∈ snapshots, ∀ method ∈ snapshot.allMethods, method.Declarable)
    (name : String) (entry : ApiClass)
    (hentry : ((empty options).appendAll snapshots).get? name = some entry) :
    ∀ slot ∈ entry.methods.values, slot.toList.Pairwise (Separate options) := by
  intro slot hslot
  obtain ⟨row, hrow, rfl⟩ := List.mem_map.mp hslot
  have hseparated := separated_run options snapshots hlone hdeclarable name entry hentry
  exact (hseparated row.1 row.2 (Table.get?_of_mem_rows hrow)).pairwise

-- A class of one method, once for each of its signatures, in versions of their own.
def overloaded (methods : List ApiMethod) : List ApiClass :=
  methods.zipIdx.map fun (method, index) =>
    { name := "p/A", access := ⟨0x0001⟩, superclass := some "p/S",
      version := .single (toString index),
      methods := .ofRows [(method.key, .single method)] }

def signedMethod (name descriptor : String) (signature : Option String) : ApiMethod where
  access := ⟨0x0001⟩
  name := name
  descriptor := descriptor
  signature := signature

theorem separate_run_overloaded :
    let snapshots := overloaded (["(Lp/L<Lp/A;>;)V", "<X:Lp/A;>(Lp/L<TX;>;)V",
      "(Lp/L<Lp/B;>;)V", "<Y:Lp/A;>(Lp/L<Lp/B;>;)V"].map
        fun signature => signedMethod "m" "(Lp/L;)V" (some signature))
    ∃ entry, ((empty {}).appendAll snapshots).get? "p/A" = some entry ∧
      entry.allMethods.map ApiMethod.signature =
        [some "(Lp/L<*>;)V", some "<X:Lp/A;>(Lp/L<*>;)V"] ∧
      ∀ slot ∈ entry.methods.values, slot.toList.Pairwise (Separate {}) := by
  intro snapshots
  have hfound : (((empty {}).appendAll snapshots).get? "p/A").map
      (fun entry => entry.allMethods.map ApiMethod.signature) =
        some [some "(Lp/L<*>;)V", some "<X:Lp/A;>(Lp/L<*>;)V"] := by decide +kernel
  obtain ⟨entry, hentry, htexts⟩ := Option.map_eq_some_iff.mp hfound
  exact ⟨entry, hentry, htexts, separate_run {} snapshots (by decide +kernel) (by decide +kernel)
    "p/A" entry hentry⟩

-- Runs that leave variants under one key which accept each other. A version without a signature
-- takes that of the first variant away. A name that is declared cannot be used, or is declared
-- twice. Constructors, which are joined although nothing else is, share a key with another method.
def reconcilableRuns : List (MergeOptions × List ApiClass) :=
  [({}, overloaded [signedMethod "m" "()V" (some "<T:Ljava/lang/Object;>()V"),
      signedMethod "m" "()V" (some "()V"), signedMethod "m" "()V" none]),
    ({}, overloaded (["<a;Lx/Y:Lp/A;>(Lp/S<TT0;>;)V", "<Y:Lp/A;>(Lp/S<**>;)V",
      "<Y:Lp/A;>(Lp/S<+TY;>;)V"].map fun signature =>
        signedMethod "m" "(Lp/S;)V" (some signature))),
    ({}, overloaded (["<X::TT0;X:Lp/Y;>(Lp/L<Lp/A;>;)V", "<X::TX;X:Lp/Y;>(Lp/L<*>;)V",
      "<X::TT0;X:Lp/Y;>(Lp/L<*>;)V"].map fun signature =>
        signedMethod "m" "(Lp/L;)V" (some signature))),
    ({ deep := false }, overloaded
      [signedMethod "<init>(Lp/L;)La" "()Lb;" (some "(Lp/L<*>;)V"),
        signedMethod "<init>" "(Lp/L;)La()Lb;" (some "(Lp/L<Lp/A;>;)V"),
        signedMethod "<init>" "(Lp/L;)La()Lb;" (some "(Lp/L<Lp/B;>;)V")])]

theorem reconcilable_run : ¬ ∃ run ∈ reconcilableRuns,
    (∀ snapshot ∈ run.2, snapshot.Lone) →
      ∀ entry ∈ ((empty run.1).appendAll run.2).get? "p/A",
        ∀ slot ∈ entry.methods.values, slot.toList.Pairwise fun a b =>
          (checkMethod run.1 a b).isOk = false ∨ (checkMethod run.1 b a).isOk = false := by
  decide +kernel

end Catalog

end ApiUnion
