import ApiUnion.Proofs.Signature.Binding
import ApiUnion.Merge.Signatures

-- Merged signature texts: what they say of the variables of either side, and when they can be read.

namespace ApiUnion

open Renaming

theorem ClassSignature.ofChars?_of_ofText {text : String} {signature : ClassSignature}
    (h : ClassSignature.ofText text = .ok signature) :
    ClassSignature.ofChars? text.toList = some signature := by
  obtain ⟨hlegible, htext⟩ := (ClassSignature.ofText_eq_ok_iff _ _).mp h
  exact (ClassSignature.ofChars?_eq_some_iff _ _).mpr ⟨hlegible, (eq_ofList_iff _ _).mpr htext⟩

namespace Merge

theorem readable_eq_ok_iff {α : Type} (ofText : String → Except ClassFileError α) (text : String)
    (signature : α) : readable ofText text = .ok signature ↔ ofText text = .ok signature := by
  rw [readable]
  cases ofText text <;> simp

theorem joined_eq_ok_iff {α : Type} (target source : String) (found : Option α) (join : α) :
    joined target source found = .ok join ↔ found = some join := by
  cases found <;> simp [joined]

theorem Except.bind_eq_ok_iff {ε α β : Type} (x : Except ε α) (f : α → Except ε β) (y : β) :
    (x >>= f) = .ok y ↔ ∃ a, x = .ok a ∧ f a = .ok y := by
  cases x with
  | error e => simp [bind, Except.bind]
  | ok a => simp [bind, Except.bind]

theorem Except.pure_eq_ok_iff {ε α : Type} (x y : α) :
    (pure x : Except ε α) = .ok y ↔ x = y := by
  simp [pure, Except.pure]

theorem Except.map_some_eq_ok_iff {ε α : Type} (x : Except ε α) (y : α) :
    some <$> x = .ok (some y) ↔ x = .ok y := by
  cases x <;> simp [Functor.map, Except.map]

-- The first text where the canonical forms are the same, or else that of their join.
theorem sameOrJoined_eq_ok_iff {α : Type} [DecidableEq α] (target source : String) (a b : α)
    (found : Option α) (print : α → String) (merged : String) :
    (if a = b then pure target
      else joined target source found >>= fun join => pure (print join)) = .ok merged ↔
      a = b ∧ target = merged ∨ a ≠ b ∧ ∃ join, found = some join ∧ print join = merged := by
  by_cases hsame : a = b
  · simp [hsame, Except.pure_eq_ok_iff]
  · rw [if_neg hsame]
    simp only [Except.bind_eq_ok_iff, joined_eq_ok_iff, Except.pure_eq_ok_iff]
    simp [hsame]

theorem methodTexts_eq_ok_iff (target source : String) (deep : Bool) (merged : String) :
    methodTexts target source deep = .ok merged ↔
      ∃ a, MethodSignature.ofText target = .ok a ∧ ∃ b, MethodSignature.ofText source = .ok b ∧
        (a.canonical = b.canonical ∧ target = merged ∨
          a.canonical ≠ b.canonical ∧ deep = true ∧
            ∃ join, a.canonical.join? b.canonical = some join ∧
              (join.rename (.fromPlaceholders a.ownNames b.ownNames)).text = merged) := by
  simp only [methodTexts, Except.bind_eq_ok_iff, readable_eq_ok_iff, sameOrJoined_eq_ok_iff]
  cases deep <;> simp

theorem classTexts_eq_ok_iff (target source : String) (merged : String) :
    classTexts target source = .ok merged ↔
      ∃ a, ClassSignature.ofText target = .ok a ∧ ∃ b, ClassSignature.ofText source = .ok b ∧
        (a.canonical = b.canonical ∧ target = merged ∨
          a.canonical ≠ b.canonical ∧
            ∃ join, a.canonical.join? b.canonical = some join ∧
              (join.rename (.fromPlaceholders a.ownNames b.ownNames)).text = merged) := by
  simp only [classTexts, Except.bind_eq_ok_iff, readable_eq_ok_iff, sameOrJoined_eq_ok_iff]

theorem fieldTexts_eq_ok_iff (target source : String) (merged : String) :
    fieldTexts target source = .ok merged ↔
      ∃ a, GenericType.ofText target = .ok a ∧ ∃ b, GenericType.ofText source = .ok b ∧
        ∃ join, a.join? b = some join ∧ join.text = merged := by
  simp only [fieldTexts, Except.bind_eq_ok_iff, readable_eq_ok_iff, joined_eq_ok_iff,
    Except.pure_eq_ok_iff]

theorem methodSignatures_eq_ok_iff {target source : String} (hne : target ≠ source) (deep : Bool)
    (merged : String) :
    methodSignatures (some target) (some source) deep = .ok (some merged) ↔
      methodTexts target source deep = .ok merged := by
  rw [methodSignatures, if_neg hne, Except.map_some_eq_ok_iff]

theorem classSignatures_eq_ok_iff {target source : String} (hne : target ≠ source)
    (merged : String) :
    classSignatures (some target) (some source) = .ok (some merged) ↔
      classTexts target source = .ok merged := by
  have hread : classSignatures (some target) (some source) =
      if target = source then pure (some target) else some <$> classTexts target source := rfl
  rw [hread, if_neg hne, Except.map_some_eq_ok_iff]

theorem fieldSignatures_eq_ok_iff {target source : String} (hne : target ≠ source)
    (merged : String) :
    fieldSignatures (some target) (some source) = .ok (some merged) ↔
      fieldTexts target source = .ok merged := by
  have hread : fieldSignatures (some target) (some source) =
      if target = source then pure (some target) else some <$> fieldTexts target source := rfl
  rw [hread, if_neg hne, Except.map_some_eq_ok_iff]

theorem legible_methodTexts {target source : String} {deep : Bool} {merged : String}
    (h : methodTexts target source deep = .ok merged)
    (hused : ∀ a, MethodSignature.ofText target = .ok a → ∀ name ∈ a.ownNames, ';' ∉ name.toList) :
    ∃ signature, MethodSignature.ofText merged = .ok signature := by
  obtain ⟨a, ha, b, -, ⟨-, rfl⟩ | ⟨-, -, join, hjoin, rfl⟩⟩ := (methodTexts_eq_ok_iff _ _ _ _).mp h
  · exact ⟨a, ha⟩
  · have hlegible := ((MethodSignature.ofText_eq_ok_iff _ _).mp ha).1
    exact ⟨_, (MethodSignature.ofText_eq_ok_iff _ _).mpr
      ⟨MethodSignature.legible_merged hlegible (hused a ha) hjoin, rfl⟩⟩

theorem ofText_merged {target source : String} {a b join : ClassSignature}
    (ha : ClassSignature.ofText target = .ok a) (hb : ClassSignature.ofText source = .ok b)
    (hused : ∀ name ∈ a.ownNames, ';' ∉ name.toList)
    (hjoin : a.canonical.join? b.canonical = some join) :
    ClassSignature.ofText (join.rename (.fromPlaceholders a.ownNames b.ownNames)).text =
      .ok (join.rename (.fromPlaceholders a.ownNames b.ownNames)) := by
  have haLegible := ((ClassSignature.ofText_eq_ok_iff _ _).mp ha).1
  have hbLegible := ((ClassSignature.ofText_eq_ok_iff _ _).mp hb).1
  exact (ClassSignature.ofText_eq_ok_iff _ _).mpr
    ⟨ClassSignature.legible_merged haLegible hbLegible hused hjoin, rfl⟩

theorem legible_classTexts {target source : String} {merged : String}
    (h : classTexts target source = .ok merged)
    (hused : ∀ a, ClassSignature.ofText target = .ok a → ∀ name ∈ a.ownNames, ';' ∉ name.toList) :
    ∃ signature, ClassSignature.ofText merged = .ok signature := by
  obtain ⟨a, ha, b, hb, ⟨-, rfl⟩ | ⟨-, join, hjoin, rfl⟩⟩ := (classTexts_eq_ok_iff _ _ _).mp h
  · exact ⟨a, ha⟩
  · exact ⟨_, ofText_merged ha hb (hused a ha) hjoin⟩

theorem legible_fieldTexts {target source : String} {merged : String}
    (h : fieldTexts target source = .ok merged) : ∃ type, GenericType.ofText merged = .ok type := by
  obtain ⟨a, ha, b, -, join, hjoin, rfl⟩ := (fieldTexts_eq_ok_iff _ _ _).mp h
  obtain ⟨⟨href, hlegible⟩, -⟩ := (GenericType.ofText_eq_ok_iff _ _).mp ha
  have hle := GenericType.loosens_join? a b join hjoin
  exact ⟨join, (GenericType.ofText_eq_ok_iff _ _).mpr ⟨⟨hle.isReference href, hle.legible hlegible⟩,
    rfl⟩⟩

-- Two texts merge into one that can be read, unless a name that the first declares ends early where
-- it is used.
theorem readable_merged (left right : String) (hne : left ≠ right) :
    (∀ deep merged, methodSignatures (some left) (some right) deep = .ok (some merged) →
      (∀ a, MethodSignature.ofText left = .ok a → ∀ name ∈ a.ownNames, ';' ∉ name.toList) →
      ∃ signature, MethodSignature.ofText merged = .ok signature) ∧
    (∀ merged, classSignatures (some left) (some right) = .ok (some merged) →
      (∀ a, ClassSignature.ofText left = .ok a → ∀ name ∈ a.ownNames, ';' ∉ name.toList) →
      ∃ signature, ClassSignature.ofText merged = .ok signature) ∧
    ∀ merged, fieldSignatures (some left) (some right) = .ok (some merged) →
      ∃ type, GenericType.ofText merged = .ok type := by
  refine ⟨fun deep merged h hused => ?_, fun merged h hused => ?_, fun merged h => ?_⟩
  · exact legible_methodTexts ((methodSignatures_eq_ok_iff hne deep merged).mp h) hused
  · exact legible_classTexts ((classSignatures_eq_ok_iff hne merged).mp h) hused
  · exact legible_fieldTexts ((fieldSignatures_eq_ok_iff hne merged).mp h)

theorem readable_merged_lists :
    ∃ signature, MethodSignature.ofText "<X:Lp/A;>(TX;Lp/L<*>;)V" = .ok signature := by
  refine (readable_merged "<X:Lp/A;>(TX;Lp/L<TX;>;)V" "<Y:Lp/A;>(TY;Lp/L<Lp/B;>;)V"
    (by decide)).1 true _ (by decide +kernel) fun a ha name hname => ?_
  have hnames : (MethodSignature.ofText "<X:Lp/A;>(TX;Lp/L<TX;>;)V").toOption.map
      MethodSignature.ownNames = some ["X"] := by decide +kernel
  rw [ha] at hnames
  rw [Option.some.inj hnames, List.mem_singleton] at hname
  rw [hname]
  decide

-- The name of a parameter ends with a colon, that of its uses with a semicolon.
theorem unreadable_merged :
    ¬ ∀ left right : String, left ≠ right →
      (∀ deep merged, methodSignatures (some left) (some right) deep = .ok (some merged) →
        ∃ signature, MethodSignature.ofText merged = .ok signature) ∧
      (∀ merged, classSignatures (some left) (some right) = .ok (some merged) →
        ∃ signature, ClassSignature.ofText merged = .ok signature) ∧
      ∀ merged, fieldSignatures (some left) (some right) = .ok (some merged) →
        ∃ type, GenericType.ofText merged = .ok type := by
  intro h
  obtain ⟨signature, hread⟩ := (h "<a;b:Lp/A;>Lp/A;" "<Y:Lp/A;>Lp/A;Lp/J<TY;>;" (by decide)).2.1
    "<a;b:Lp/A;>Lp/A;Lp/J<Ta;b;>;" (by decide +kernel)
  have hnone : ClassSignature.ofChars? "<a;b:Lp/A;>Lp/A;Lp/J<Ta;b;>;".toList = none := by
    decide +kernel
  rw [ClassSignature.ofText, hnone] at hread
  cases hread

theorem ok_methodSignatures_iff {left right : String} {a b : MethodSignature}
    (ha : MethodSignature.ofText left = .ok a) (hb : MethodSignature.ofText right = .ok b) :
    (∃ merged, methodSignatures (some left) (some right) false = .ok merged) ↔
      a.canonical = b.canonical := by
  by_cases hne : left = right
  · subst hne
    obtain rfl := Except.ok.inj (ha.symm.trans hb)
    simp [methodSignatures, pure, Except.pure]
  · have hok : (∃ merged, methodSignatures (some left) (some right) false = .ok merged) ↔
        ∃ merged, methodTexts left right false = .ok merged := by
      rw [methodSignatures, if_neg hne]
      cases methodTexts left right false <;> simp [Functor.map, Except.map]
    rw [hok]
    constructor
    · rintro ⟨merged, h⟩
      obtain ⟨a', ha', b', hb', ⟨hsame, -⟩ | ⟨-, hdeep, -⟩⟩ := (methodTexts_eq_ok_iff _ _ _ _).mp h
      · obtain rfl := Except.ok.inj (ha.symm.trans ha')
        obtain rfl := Except.ok.inj (hb.symm.trans hb')
        exact hsame
      · cases hdeep
    · intro hsame
      exact ⟨left, (methodTexts_eq_ok_iff _ _ _ _).mpr ⟨a, ha, b, hb, .inl ⟨hsame, rfl⟩⟩⟩

-- The merged signature: that of the first if both are the same up to their own names, or else the
-- join under the names of the first.
theorem methodSignatures_cases {left right : String} {a b : MethodSignature}
    (ha : MethodSignature.ofText left = .ok a) (hb : MethodSignature.ofText right = .ok b)
    {deep : Bool} {merged : String}
    (h : methodSignatures (some left) (some right) deep = .ok (some merged)) :
    a.canonical = b.canonical ∧ left = merged ∨
      ∃ join, a.canonical.join? b.canonical = some join ∧
        (join.rename (.fromPlaceholders a.ownNames b.ownNames)).text = merged := by
  by_cases hne : left = right
  · subst hne
    obtain rfl := Except.ok.inj (ha.symm.trans hb)
    rw [methodSignatures, if_pos rfl, Except.pure_eq_ok_iff] at h
    exact .inl ⟨rfl, Option.some.inj h⟩
  · obtain ⟨a', ha', b', hb', hmerged⟩ :=
      (methodTexts_eq_ok_iff _ _ _ _).mp ((methodSignatures_eq_ok_iff hne deep merged).mp h)
    obtain rfl := Except.ok.inj (ha.symm.trans ha')
    obtain rfl := Except.ok.inj (hb.symm.trans hb')
    exact hmerged.imp_right fun ⟨_, _, hjoin⟩ => hjoin

theorem classSignatures_cases {left right : String} {a b : ClassSignature}
    (ha : ClassSignature.ofText left = .ok a) (hb : ClassSignature.ofText right = .ok b)
    {merged : String} (h : classSignatures (some left) (some right) = .ok (some merged)) :
    a.canonical = b.canonical ∧ left = merged ∨
      ∃ join, a.canonical.join? b.canonical = some join ∧
        (join.rename (.fromPlaceholders a.ownNames b.ownNames)).text = merged := by
  by_cases hne : left = right
  · subst hne
    obtain rfl := Except.ok.inj (ha.symm.trans hb)
    have hsame : classSignatures (some left) (some left) = .ok (some left) := if_pos rfl
    rw [hsame] at h
    exact .inl ⟨rfl, Option.some.inj (Except.ok.inj h)⟩
  · obtain ⟨a', ha', b', hb', hmerged⟩ :=
      (classTexts_eq_ok_iff _ _ _).mp ((classSignatures_eq_ok_iff hne merged).mp h)
    obtain rfl := Except.ok.inj (ha.symm.trans ha')
    obtain rfl := Except.ok.inj (hb.symm.trans hb')
    exact hmerged.imp_right fun ⟨_, hjoin⟩ => hjoin

-- Merging does not confuse variables if none is called like a placeholder: methods that are not
-- joined merge exactly if they are the same with symbols for their own variables, and what merges
-- is, with symbols, either side or their join. The interfaces that a class takes from the second
-- must not mention a variable that the first declares.
theorem merged_scopes (symbol : Nat → String) (left right : String) :
    (∀ a b : MethodSignature, MethodSignature.ofText left = .ok a →
      MethodSignature.ofText right = .ok b → a.ownNames.Nodup → b.ownNames.Nodup →
      Apart a.ownNames a.variables → Apart b.ownNames b.variables →
      Fresh symbol (a.variables ++ b.variables) →
      ((∃ merged, methodSignatures (some left) (some right) false = .ok merged) ↔
        a.bound symbol = b.bound symbol) ∧
      ∀ deep merged, methodSignatures (some left) (some right) deep = .ok (some merged) →
        ∃ signature : MethodSignature, signature.text = merged ∧
          ((∀ name ∈ a.ownNames, ';' ∉ name.toList) →
            MethodSignature.ofText merged = .ok signature) ∧
          signature.ownNames = a.ownNames ∧
          (signature.bound symbol = a.bound symbol ∧ signature.bound symbol = b.bound symbol ∨
            (a.bound symbol).join? (b.bound symbol) = some (signature.bound symbol))) ∧
    ∀ a b : ClassSignature, ClassSignature.ofText left = .ok a →
      ClassSignature.ofText right = .ok b → a.ownNames.Nodup → b.ownNames.Nodup →
      Apart a.ownNames a.variables → Apart b.ownNames b.variables →
      (∀ v ∈ b.variables, v ∈ b.ownNames ∨ v ∉ a.ownNames) →
      Fresh symbol (a.variables ++ b.variables) →
      ∀ merged, classSignatures (some left) (some right) = .ok (some merged) →
        ∃ signature : ClassSignature, signature.text = merged ∧
          ((∀ name ∈ a.ownNames, ';' ∉ name.toList) →
            ClassSignature.ofText merged = .ok signature) ∧
          signature.ownNames = a.ownNames ∧
          (signature.bound symbol = a.bound symbol ∧ signature.bound symbol = b.bound symbol ∨
            (a.bound symbol).join? (b.bound symbol) = some (signature.bound symbol)) := by
  constructor
  · intro a b ha hb haNodup hbNodup haApart hbApart hfresh
    have haText := (MethodSignature.ofText_eq_ok_iff _ _).mp ha
    have hiff := MethodSignature.bound_eq_bound_iff haNodup hbNodup haApart hbApart hfresh
    refine ⟨(ok_methodSignatures_iff ha hb).trans hiff.symm, fun deep merged hmerged => ?_⟩
    rcases methodSignatures_cases ha hb hmerged with ⟨hsame, rfl⟩ | ⟨join, hjoin, rfl⟩
    · exact ⟨a, haText.2.symm, fun _ => ha, rfl, .inl ⟨rfl, hiff.mpr hsame⟩⟩
    · obtain ⟨hplaceholders, hnames, hbound⟩ :=
        MethodSignature.bound_fromPlaceholders symbol haNodup hjoin
      refine ⟨_, rfl, fun hused => ?_, hnames, .inr ?_⟩
      · exact (MethodSignature.ofText_eq_ok_iff _ _).mpr
          ⟨MethodSignature.legible_merged haText.1 hused hjoin, rfl⟩
      · rw [MethodSignature.join?_bound haNodup hbNodup hplaceholders haApart hbApart hfresh,
          hjoin, hbound, Option.map_some]
  · intro a b ha hb haNodup hbNodup haApart hbApart hforeign hfresh merged hmerged
    have haText := (ClassSignature.ofText_eq_ok_iff _ _).mp ha
    have hbText := (ClassSignature.ofText_eq_ok_iff _ _).mp hb
    rcases classSignatures_cases ha hb hmerged with ⟨hsame, rfl⟩ | ⟨join, hjoin, rfl⟩
    · exact ⟨a, haText.2.symm, fun _ => ha, rfl, .inl ⟨rfl,
        ClassSignature.bound_eq_bound haNodup hbNodup haApart hbApart hsame⟩⟩
    · obtain ⟨hplaceholders, hnames, hbound⟩ :=
        ClassSignature.bound_fromPlaceholders symbol haNodup hbNodup hforeign hjoin
      refine ⟨_, rfl, fun hused => ?_, hnames, .inr ?_⟩
      · exact (ClassSignature.ofText_eq_ok_iff _ _).mpr
          ⟨ClassSignature.legible_merged haText.1 hbText.1 hused hjoin, rfl⟩
      · rw [ClassSignature.join?_bound haNodup hbNodup hplaceholders haApart hbApart hfresh,
          hjoin, hbound, Option.map_some]

def taking (own : String) (parameters : List GenericType) : MethodSignature :=
  ⟨[⟨own, some (.classType [⟨"p/A", []⟩]), []⟩], parameters, none, []⟩

theorem merged_scopes_lists :
    (∃ signature : MethodSignature,
      signature.text = "<X:Lp/A;>(TX;Lp/L<+TE;>;)V" ∧ signature.ownNames = ["X"]) ∧
    ∃ signature : ClassSignature,
      signature.text = "<X:Lp/A;>Lp/A;Lp/L<TX;>;" ∧ signature.ownNames = ["X"] := by
  constructor
  · obtain ⟨signature, htext, -, hnames, -⟩ := ((merged_scopes marked
      "<X:Lp/A;>(TX;Lp/L<TE;>;)V" "<Y:Lp/A;>(TY;Lp/L<+TE;>;)V").1
      (taking "X" [.var "X", .classType [⟨"p/L", [.bounded .exact (.var "E")]⟩]])
      (taking "Y" [.var "Y", .classType [⟨"p/L", [.bounded .covariant (.var "E")]⟩]])
      (by decide +kernel) (by decide +kernel) (by decide) (by decide) (by decide +kernel)
      (by decide +kernel) (fresh_marked (by decide +kernel))).2 true
      "<X:Lp/A;>(TX;Lp/L<+TE;>;)V" (by decide +kernel)
    exact ⟨signature, htext, hnames⟩
  · obtain ⟨signature, htext, -, hnames, -⟩ := (merged_scopes marked
      "<X:Lp/A;>Lp/A;" "<Y:Lp/A;>Lp/A;Lp/L<TY;>;").2
      ⟨[⟨"X", some (.classType [⟨"p/A", []⟩]), []⟩], [⟨"p/A", []⟩], []⟩
      ⟨[⟨"Y", some (.classType [⟨"p/A", []⟩]), []⟩], [⟨"p/A", []⟩],
        [[⟨"p/L", [.bounded .exact (.var "Y")]⟩]]⟩
      (by decide +kernel) (by decide +kernel) (by decide) (by decide) (by decide +kernel)
      (by decide +kernel) (by decide +kernel) (fresh_marked (by decide +kernel))
      "<X:Lp/A;>Lp/A;Lp/L<TX;>;" (by decide +kernel)
    exact ⟨signature, htext, hnames⟩

-- A variable of the enclosing class that is called like the placeholder of an own one is taken for
-- it.
theorem captured_merged :
    ¬ ∀ (symbol : Nat → String) (left right : String) (a b : MethodSignature),
      MethodSignature.ofText left = .ok a → MethodSignature.ofText right = .ok b →
      a.ownNames.Nodup → b.ownNames.Nodup → Fresh symbol (a.variables ++ b.variables) →
      ((∃ merged, methodSignatures (some left) (some right) false = .ok merged) ↔
        a.bound symbol = b.bound symbol) := by
  intro h
  have hbound := (h marked "<X:Lp/A;>(TX;)V" "<Y:Lp/A;>(TT0;)V"
    (taking "X" [.var "X"]) (taking "Y" [.var "T0"]) (by decide +kernel) (by decide +kernel)
    (by decide) (by decide) (fresh_marked (by decide +kernel))).mp
    ⟨some "<X:Lp/A;>(TX;)V", by decide +kernel⟩
  exact absurd hbound (by decide +kernel)

end Merge

end ApiUnion
