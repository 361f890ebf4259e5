import ApiUnion.Proofs.Merge.Members
import ApiUnion.Proofs.Merge.Sightings

-- What a method tells of all methods that were merged into it, apart from what the first of them
-- decides: its version, its access, the weakest promises, and all exceptions. None of that depends
-- on the order in which the methods came.

namespace ApiUnion

open Version Merge

-- All items of a list reconciled with one another, if it has any.
def pooled {α : Type} (reconcile : α → α → α) (items : List α) : Option α :=
  items.foldr (fun item rest => Option.merge reconcile (some item) rest) none

section Pooled

variable {α : Type} (reconcile : α → α → α)

theorem pooled_append [Std.Associative reconcile] (xs ys : List α) :
    pooled reconcile (xs ++ ys) =
      Option.merge reconcile (pooled reconcile xs) (pooled reconcile ys) := by
  induction xs with
  | nil => exact (Std.LawfulLeftIdentity.left_id _).symm
  | cons x xs ih =>
      have hcons (items : List α) : pooled reconcile (x :: items) =
          Option.merge reconcile (some x) (pooled reconcile items) := rfl
      rw [List.cons_append, hcons, hcons, ih]
      ac_rfl

theorem pooled_perm [Std.Associative reconcile] [Std.Commutative reconcile] {xs ys : List α}
    (h : xs.Perm ys) : pooled reconcile xs = pooled reconcile ys := by
  induction h with
  | nil => rfl
  | cons item _ ih => exact congrArg (Option.merge reconcile (some item)) ih
  | swap a b items =>
      have hswap (rest : Option α) :
          Option.merge reconcile (some b) (Option.merge reconcile (some a) rest) =
            Option.merge reconcile (some a) (Option.merge reconcile (some b) rest) := by
        ac_rfl
      exact hswap _
  | trans _ _ hxy hyz => exact hxy.trans hyz

end Pooled

namespace Nullability

theorem weaken_comm (a b : Nullability) : a.weaken b = b.weaken a := by
  cases a <;> cases b <;> rfl

theorem weaken_assoc (a b c : Nullability) : (a.weaken b).weaken c = a.weaken (b.weaken c) := by
  cases a <;> cases b <;> cases c <;> rfl

instance : Std.Associative weaken := ⟨weaken_assoc⟩

instance : Std.Commutative weaken := ⟨weaken_comm⟩

end Nullability

namespace Parameter

-- What is reconciled of a parameter.
def promise (parameter : Parameter) : Nullability × UInt16 :=
  (parameter.nullability, parameter.access)

def weakenPromise (a b : Nullability × UInt16) : Nullability × UInt16 :=
  (a.1.weaken b.1, a.2 ||| b.2)

instance : Std.Associative weakenPromise :=
  ⟨fun a b c => Prod.ext (Nullability.weaken_assoc a.1 b.1 c.1) (UInt16.or_assoc a.2 b.2 c.2)⟩

instance : Std.Commutative weakenPromise :=
  ⟨fun a b => Prod.ext (Nullability.weaken_comm a.1 b.1) (UInt16.or_comm a.2 b.2)⟩

end Parameter

namespace ApiMethod

-- What is reconciled of the parameter at a position, if there is one.
def promise? (index : Nat) (method : ApiMethod) : Option (Nullability × UInt16) :=
  (method.parameters[index]?).map Parameter.promise

-- What a method with a version of its own shows.
def sighting? (method : ApiMethod) : Option Sighting :=
  method.version.map (Sighting.of method.access)

-- A method made of all of a list, in some order.
structure Gathered (methods : List ApiMethod) (merged : ApiMethod) : Prop where
  explicit : merged.version.isSome
  version : merged.version = join? (methods.filterMap ApiMethod.version)
  access : ExactAccess (methods.filterMap sighting?) merged.access merged.visibilities
    merged.modalities
  nullability : some merged.nullability =
    pooled Nullability.weaken (methods.map ApiMethod.nullability)
  exceptions : ∀ name, name ∈ merged.exceptions ↔ ∃ method ∈ methods, name ∈ method.exceptions
  parameters : ∀ index, merged.promise? index =
    pooled Parameter.weakenPromise (methods.filterMap (promise? index))

-- A method that was not merged yet, with its version written out.
structure Unmerged (method : ApiMethod) : Prop where
  explicit : method.version.isSome
  visibilities : method.visibilities.isEmpty
  modalities : method.modalities.isEmpty

end ApiMethod

namespace Merge

theorem mem_union (target incoming : List String) (item : String) :
    item ∈ union target incoming ↔ item ∈ target ∨ item ∈ incoming := by
  unfold union
  induction incoming generalizing target with
  | nil => simp
  | cons first incoming ih =>
      rw [List.foldl_cons, ih, List.mem_cons]
      by_cases hfound : target.contains first
      · have hmem : first ∈ target := List.contains_iff_mem.mp hfound
        rw [if_pos hfound]
        constructor
        · rintro (h | h)
          · exact .inl h
          · exact .inr (.inr h)
        · rintro (h | rfl | h)
          · exact .inl h
          · exact .inl hmem
          · exact .inr h
      · rw [if_neg hfound, List.mem_append, List.mem_singleton, or_assoc]

-- Position by position, whatever both sides have there.
theorem promise_parametersFrom (subject : String) (start : Nat) (targets incomings : List Parameter)
    (index : Nat) :
    ((parametersFrom subject start targets incomings).value[index]?).map Parameter.promise =
      Option.merge Parameter.weakenPromise ((targets[index]?).map Parameter.promise)
        ((incomings[index]?).map Parameter.promise) := by
  induction targets generalizing start incomings index with
  | nil =>
      cases incomings with
      | nil => rfl
      | cons incoming incomings => simp [parametersFrom]
  | cons target targets ih =>
      cases incomings with
      | nil => simp [parametersFrom]
      | cons incoming incomings =>
          cases index with
          | zero => rfl
          | succ index => exact ih (start + 1) incomings index

end Merge

namespace ApiMethod

theorem versions_sightings (methods : List ApiMethod) :
    Sighting.versions (methods.filterMap sighting?) = methods.filterMap ApiMethod.version := by
  rw [Sighting.versions, List.map_filterMap]
  refine List.filterMap_congr fun method _ => ?_
  unfold sighting?
  cases method.version <;> rfl

theorem gathered_single (method : ApiMethod) (h : method.Unmerged) : Gathered [method] method := by
  obtain ⟨version, hversion⟩ := Option.isSome_iff_exists.mp h.explicit
  refine ⟨h.explicit, ?_, ?_, rfl, ?_, ?_⟩
  · simp [hversion]
  · have hseen : [method].filterMap sighting? = [Sighting.of method.access version] := by
      simp [sighting?, hversion]
    rw [hseen]
    exact exactAccess_single _ _ _ _ h.visibilities h.modalities
  · simp
  · intro index
    rw [List.filterMap_cons]
    cases method.promise? index <;> rfl

theorem gathered_applyMethod (subject : String) (methods : List ApiMethod)
    (target incoming : ApiMethod) (signature : Option String) (htarget : Gathered methods target)
    (hincoming : incoming.Unmerged) :
    Gathered (methods ++ [incoming]) (applyMethod subject target incoming signature).value := by
  obtain ⟨known, hknown⟩ := Option.isSome_iff_exists.mp htarget.explicit
  obtain ⟨version, hversion⟩ := Option.isSome_iff_exists.mp hincoming.explicit
  have hmerged : (applyMethod subject target incoming signature).value.version =
      plus? target.version incoming.version := rfl
  refine ⟨?_, ?_, ?_, ?_, ?_, ?_⟩
  · rw [hmerged, hknown, hversion]
    rfl
  · rw [hmerged, List.filterMap_append, join?_append, ← htarget.version, hversion]
    simp [hversion]
  · have hseen : [incoming].filterMap sighting? = [Sighting.of incoming.access version] := by
      simp [sighting?, hversion]
    -- A table that is started now takes all versions so far from that of the target.
    have hjoin : target.version = join? (Sighting.versions (methods.filterMap sighting?)) := by
      rw [versions_sightings]
      exact htarget.version
    have hwidened := exactAccess_widen _ target.access incoming.access target.visibilities
      incoming.visibilities target.modalities incoming.modalities target.version version
      htarget.access hjoin hincoming.visibilities hincoming.modalities
    rw [← hversion] at hwidened
    rw [List.filterMap_append, hseen]
    exact hwidened
  · rw [List.map_append, pooled_append, ← htarget.nullability]
    rfl
  · intro name
    have hunion : (applyMethod subject target incoming signature).value.exceptions =
        union target.exceptions incoming.exceptions := rfl
    rw [hunion, mem_union, htarget.exceptions]
    simp [or_and_right, exists_or]
  · intro index
    have hparameters : (applyMethod subject target incoming signature).value.parameters =
        (parametersFrom subject 0 target.parameters incoming.parameters).value := rfl
    have htargets : (target.parameters[index]?).map Parameter.promise = _ :=
      htarget.parameters index
    rw [promise?, hparameters, promise_parametersFrom, htargets, List.filterMap_append,
      pooled_append]
    congr 1
    rw [List.filterMap_cons]
    unfold promise?
    cases incoming.parameters[index]? <;> rfl

-- Methods that agree in all that is reconciled when methods are merged.
structure Alike (a b : ApiMethod) : Prop where
  version : a.version = b.version
  visibility : a.access.visibility = b.access.visibility
  modality : a.access.modality = b.access.modality
  visibilities : a.visibilities = b.visibilities
  modalities : a.modalities = b.modalities
  nullability : a.nullability = b.nullability
  exceptions : ∀ name, name ∈ a.exceptions ↔ name ∈ b.exceptions
  parameters : ∀ index, a.promise? index = b.promise? index

theorem Alike.refl (method : ApiMethod) : method.Alike method :=
  ⟨rfl, rfl, rfl, rfl, rfl, rfl, fun _ => .rfl, fun _ => rfl⟩

theorem Gathered.alike {xs ys : List ApiMethod} {a b : ApiMethod} (hperm : xs.Perm ys)
    (ha : Gathered xs a) (hb : Gathered ys b) : a.Alike b := by
  obtain ⟨⟨hvisibility, hvisibilities⟩, hmodality, hmodalities⟩ :=
    ha.access.unique (hperm.filterMap sighting?) hb.access
  refine ⟨?_, hvisibility, hmodality, hvisibilities, hmodalities, ?_, ?_, ?_⟩
  · rw [ha.version, hb.version, join?_perm (hperm.filterMap ApiMethod.version)]
  · have hpooled := pooled_perm Nullability.weaken (hperm.map ApiMethod.nullability)
    exact Option.some.inj (ha.nullability.trans (hpooled.trans hb.nullability.symm))
  · intro name
    rw [ha.exceptions, hb.exceptions]
    simp only [hperm.mem_iff]
  · intro index
    rw [ha.parameters, hb.parameters, pooled_perm _ (hperm.filterMap (promise? index))]

end ApiMethod

-- Variants that all methods of a list went into, each into one of them.
inductive Shared : List ApiMethod → List ApiMethod → Prop
  | nil : Shared [] []
  | cons {methods part rest variants : List ApiMethod} {variant : ApiMethod}
      (hpart : ApiMethod.Gathered part variant) (hrest : Shared rest variants)
      (hperm : (part ++ rest).Perm methods) : Shared methods (variant :: variants)

namespace Shared

open ApiMethod

variable {methods variants : List ApiMethod}

theorem explicit (h : Shared methods variants) : ∀ variant ∈ variants, variant.version.isSome := by
  induction h with
  | nil => exact fun _ hmethod => by cases hmethod
  | cons hpart _ _ ih => exact List.forall_mem_cons.mpr ⟨hpart.explicit, ih⟩

theorem eq_nil (h : Shared methods []) : methods = [] := by
  cases h
  rfl

theorem join?_versions (h : Shared methods variants) :
    join? (variants.filterMap ApiMethod.version) = join? (methods.filterMap ApiMethod.version) := by
  induction h with
  | nil => rfl
  | @cons methods part rest variants variant hpart hrest hperm ih =>
      obtain ⟨version, hversion⟩ := Option.isSome_iff_exists.mp hpart.explicit
      have hjoin := hpart.version
      rw [hversion] at hjoin
      rw [List.filterMap_cons_some hversion, join?_cons, ih, hjoin, ← join?_append,
        ← List.filterMap_append, join?_perm (hperm.filterMap ApiMethod.version)]

-- A single variant took in all of the methods.
theorem gathered {variant : ApiMethod} (h : Shared methods [variant]) :
    ∃ part, part.Perm methods ∧ Gathered part variant := by
  cases h with
  | @cons _ part rest _ _ hpart hrest hperm =>
      cases hrest
      rw [List.append_nil] at hperm
      exact ⟨part, hperm, hpart⟩

theorem unmerged (h : ∀ method ∈ methods, method.Unmerged) : Shared methods methods := by
  induction methods with
  | nil => exact .nil
  | cons method methods ih =>
      rw [List.forall_mem_cons] at h
      exact .cons (gathered_single method h.1) (ih h.2) (.refl _)

theorem push {incoming : ApiMethod} (h : Shared methods variants) (hincoming : incoming.Unmerged) :
    Shared (methods ++ [incoming]) (variants ++ [incoming]) := by
  induction h with
  | nil => exact .cons (gathered_single incoming hincoming) .nil (.refl _)
  | cons hpart _ hperm ih =>
      refine .cons hpart ih ?_
      rw [← List.append_assoc]
      exact hperm.append_right [incoming]

theorem into {incoming target merged : ApiMethod} {front back : List ApiMethod}
    (h : Shared methods (front ++ target :: back))
    (hmerged : ∀ part, Gathered part target → Gathered (part ++ [incoming]) merged) :
    Shared (methods ++ [incoming]) (front ++ merged :: back) := by
  induction front generalizing methods with
  | nil =>
      cases h with
      | @cons _ part rest _ _ hpart hrest hperm =>
          refine .cons (hmerged part hpart) hrest ?_
          -- The new method joins the part of its variant, past all that went into the others.
          have hmoved : ([incoming] ++ rest).Perm (rest ++ [incoming]) := List.perm_append_comm
          have hall := (hmoved.append_left part).trans
            (List.append_assoc part rest [incoming] ▸ hperm.append_right [incoming])
          rwa [← List.append_assoc] at hall
  | cons first front ih =>
      cases h with
      | cons hpart hrest hperm =>
          refine .cons hpart (ih hrest) ?_
          rw [← List.append_assoc]
          exact hperm.append_right [incoming]

theorem absorbed {options : MergeOptions} {after : List ApiMethod} {incoming : ApiMethod}
    (h : Shared methods variants) (hincoming : incoming.Unmerged)
    (habsorbed : Absorbed options variants incoming after) :
    Shared (methods ++ [incoming]) after := by
  cases habsorbed with
  | into front target back signature subject hvariants _ _ hafter =>
      subst hvariants hafter
      exact h.into fun part hpart =>
        gathered_applyMethod subject part target incoming signature hpart hincoming
  | beside _ hafter =>
      subst hafter
      exact h.push hincoming

theorem foldlM_intoVariants (options : MergeOptions) (owner : String) {known : MethodSlot}
    {incoming : List ApiMethod} (h : Shared methods known.toList)
    (hincoming : ∀ method ∈ incoming, method.Unmerged) :
    Shared (methods ++ incoming)
      (incoming.foldlM (intoVariants options owner) known).value.toList := by
  induction incoming generalizing methods known with
  | nil => rwa [List.append_nil]
  | cons method incoming ih =>
      rw [List.forall_mem_cons] at hincoming
      rw [List.foldlM_cons, Logged.value_bind, List.append_cons]
      exact ih (h.absorbed hincoming.1 (absorbed_intoVariants options owner known method))
        hincoming.2

end Shared

end ApiUnion
