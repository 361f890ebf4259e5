import ApiUnion.Proofs.Descriptor
import ApiUnion.Proofs.Model.Slots
import ApiUnion.Proofs.Splitting.Partition
import ApiUnion.Proofs.Table

-- The members of a snapshot under the names of groups. All methods are kept, as variants if they
-- come to share a key. Of fields that come to share a key one is kept. This takes a field whose
-- descriptor changes and another whose descriptor stays as it is.

namespace ApiUnion

namespace Splitting

theorem insertVariant_of_get? {methods : Table MethodSlot} {method : ApiMethod} {slot : MethodSlot}
    (h : methods.get? method.key = some slot) :
    insertVariant methods method = methods.insert method.key (slot.push method) := by
  rw [insertVariant, h]

theorem insertVariant_of_none {methods : Table MethodSlot} {method : ApiMethod}
    (h : methods.get? method.key = none) :
    insertVariant methods method = methods.insert method.key (.single method) := by
  rw [insertVariant, h]

theorem perm_insertVariant (methods : Table MethodSlot) (method : ApiMethod) :
    ((insertVariant methods method).values.flatMap MethodSlot.toList).Perm
      (method :: methods.values.flatMap MethodSlot.toList) := by
  cases hget : methods.get? method.key with
  | none =>
      have hnew : method.key ∉ methods.keys := by
        rw [Table.mem_keys_iff, hget]
        exact Bool.false_ne_true
      rw [insertVariant_of_none hget, Table.values, Table.rows_insert_of_notMem _ _ _ hnew,
        List.map_append, List.flatMap_append]
      exact List.perm_append_comm
  | some slot =>
      obtain ⟨front, back, hrows, hinsert⟩ :=
        Table.exists_rows_insert hget (slot.push method)
      rw [insertVariant_of_get? hget, Table.values, Table.values, hinsert, hrows]
      simp only [List.map_append, List.map_cons, List.flatMap_append, List.flatMap_cons]
      rw [MethodSlot.toList_push, List.append_assoc, List.singleton_append, ← List.append_assoc,
        ← List.append_assoc]
      exact List.perm_middle

theorem perm_foldl_insertVariant (methods : Table MethodSlot) (more : List ApiMethod) :
    ((more.foldl insertVariant methods).values.flatMap MethodSlot.toList).Perm
      (more ++ methods.values.flatMap MethodSlot.toList) := by
  induction more generalizing methods with
  | nil => exact .rfl
  | cons method more ih =>
      exact (ih _).trans (((perm_insertVariant methods method).append_left more).trans
        List.perm_middle)

theorem allMethods_renameClass (names : String → String) (entry : ApiClass) :
    (renameClass names entry).allMethods.Perm (entry.allMethods.map (renameMethod names)) := by
  have hperm := perm_foldl_insertVariant .empty (entry.allMethods.map (renameMethod names))
  have hempty : (Table.empty : Table MethodSlot).values.flatMap MethodSlot.toList = [] := rfl
  rwa [hempty, List.append_nil] at hperm

end Splitting

-- In a descriptor that changes, a number comes in front of its last semicolon.
def NumbersDescriptor (old new : List Char) : Prop :=
  ∃ front index, old = front ++ [';'] ∧ new = front ++ 'V' :: (Nat.toDigits 10 index ++ [';'])

theorem FieldType.numbersDescriptor_renameClasses {names : String → String}
    (hnames : NumbersNames names) (type : FieldType) :
    type.renameClasses names = type ∨
      NumbersDescriptor type.chars (type.renameClasses names).chars := by
  induction type with
  | base type => exact .inl rfl
  | object name =>
      rcases hnames name with hkept | ⟨index, hindex⟩
      · exact .inl (congrArg object hkept)
      · refine .inr ⟨'L' :: name.toList, index, by simp [chars], ?_⟩
        rw [renameClasses, hindex, chars, toList_numbered]
        simp
  | array component ih =>
      rcases ih with hkept | ⟨front, index, hold, hnew⟩
      · exact .inl (congrArg array hkept)
      · refine .inr ⟨'[' :: front, index, ?_, ?_⟩
        · rw [chars, hold, List.cons_append]
        · rw [renameClasses, chars, hnew, List.cons_append]

theorem numbersDescriptor_renameInFieldDescriptor {names : String → String}
    (hnames : NumbersNames names) (text : String) :
    renameInFieldDescriptor names text = text ∨
      NumbersDescriptor text.toList (renameInFieldDescriptor names text).toList := by
  unfold renameInFieldDescriptor
  cases hread : FieldType.ofText? text with
  | none => exact .inl rfl
  | some type =>
      obtain ⟨-, rfl⟩ := (FieldType.ofText?_eq_some_iff text type).mp hread
      rw [Option.elim_some]
      refine (type.numbersDescriptor_renameClasses hnames).imp (congrArg FieldType.text) fun h => ?_
      rwa [FieldType.text, FieldType.text, String.toList_ofList, String.toList_ofList]

namespace Splitting

variable {names : String → String}

-- Two fields that come to share a key: the descriptor of one changes, and that of the other does
-- not.
def Clash (names : String → String) (changed kept : ApiField) : Prop :=
  renameInFieldDescriptor names changed.descriptor ≠ changed.descriptor ∧
    renameInFieldDescriptor names kept.descriptor = kept.descriptor ∧
      (renameField names changed).key = kept.key

instance (names : String → String) (changed kept : ApiField) :
    Decidable (Clash names changed kept) :=
  inferInstanceAs (Decidable (_ ∧ _ ∧ _))

theorem key_renameField_of_kept {field : ApiField}
    (h : renameInFieldDescriptor names field.descriptor = field.descriptor) :
    (renameField names field).key = field.key :=
  congrArg (memberKey field.name) h

-- Keys that change in the number alone were the same.
theorem key_eq_of_changed (hnames : NumbersNames names) {first second : ApiField}
    (hfirst : renameInFieldDescriptor names first.descriptor ≠ first.descriptor)
    (hsecond : renameInFieldDescriptor names second.descriptor ≠ second.descriptor)
    (h : (renameField names first).key = (renameField names second).key) :
    first.key = second.key := by
  obtain ⟨front, i, hold, hnew⟩ :=
    (numbersDescriptor_renameInFieldDescriptor hnames first.descriptor).resolve_left hfirst
  obtain ⟨back, j, hold', hnew'⟩ :=
    (numbersDescriptor_renameInFieldDescriptor hnames second.descriptor).resolve_left hsecond
  have hlast (index : Nat) : 'V' ∉ Nat.toDigits 10 index ++ [';'] := by
    rw [List.mem_append, not_or]
    exact ⟨notMem_toDigits rfl index, by decide⟩
  have hkeys : first.name.toList ++ (renameInFieldDescriptor names first.descriptor).toList =
      second.name.toList ++ (renameInFieldDescriptor names second.descriptor).toList := by
    rw [← String.toList_append, ← String.toList_append]
    exact congrArg String.toList h
  rw [hnew, hnew', ← List.append_assoc, ← List.append_assoc,
    append_stop_inj (hlast i) (hlast j)] at hkeys
  rw [← String.toList_inj, ApiField.key, ApiField.key, memberKey, memberKey, String.toList_append,
    String.toList_append, hold, hold', ← List.append_assoc, ← List.append_assoc, hkeys.1]

theorem nodup_keys_renameField (hnames : NumbersNames names) {fields : List ApiField}
    (hkeys : (fields.map ApiField.key).Nodup) :
    (fields.map fun field => (renameField names field).key).Nodup ↔
      ∀ changed ∈ fields, ∀ kept ∈ fields, ¬ Clash names changed kept := by
  constructor
  · rintro hnodup changed hchanged kept hkept ⟨hdescriptor, hsame, hkey⟩
    rw [← key_renameField_of_kept hsame] at hkey
    obtain rfl := List.inj_on_of_nodup_map hnodup hchanged hkept hkey
    exact hdescriptor hsame
  · intro hclash
    refine hkeys.of_map.map_on fun first hfirst second hsecond hkey => ?_
    refine List.inj_on_of_nodup_map hkeys hfirst hsecond ?_
    by_cases hsame : renameInFieldDescriptor names first.descriptor = first.descriptor
    · by_cases hsame' : renameInFieldDescriptor names second.descriptor = second.descriptor
      · rw [← key_renameField_of_kept hsame, hkey, key_renameField_of_kept hsame']
      · refine absurd ⟨hsame', hsame, ?_⟩ (hclash second hsecond first hfirst)
        rw [← hkey, key_renameField_of_kept hsame]
    · by_cases hsame' : renameInFieldDescriptor names second.descriptor = second.descriptor
      · refine absurd ⟨hsame, hsame', ?_⟩ (hclash first hfirst second hsecond)
        rw [hkey, key_renameField_of_kept hsame']
      · exact key_eq_of_changed hnames hsame hsame' hkey

-- As many fields are kept as there were, unless two clash.
theorem size_fields_renameClass (hnames : NumbersNames names) {entry : ApiClass}
    (hkeys : ∀ row ∈ entry.fields.rows, row.2.key = row.1) :
    (renameClass names entry).fields.size = entry.fields.size ↔
      ∀ changed ∈ entry.fields.values, ∀ kept ∈ entry.fields.values,
        ¬ Clash names changed kept := by
  have hdistinct : (entry.fields.values.map ApiField.key).Nodup := by
    have hrow : ∀ row ∈ entry.fields.rows, (ApiField.key ∘ Prod.snd) row = row.1 := hkeys
    rw [Table.values, List.map_map, List.map_congr_left hrow]
    exact entry.fields.distinct
  have hsize : entry.fields.size = (entry.fields.values.map fun field =>
      ((renameField names field).key, renameField names field)).length := by
    rw [List.length_map, Table.values, List.length_map, Table.size]
  rw [← nodup_keys_renameField hnames hdistinct, hsize]
  refine (Table.size_ofRows_iff _).trans ?_
  rw [List.map_map]
  rfl

end Splitting

end ApiUnion
