import ApiUnion.Access

-- Access words: what sets some bits leaves all others as they are.

namespace ApiUnion

namespace Access

-- A bit outside of the mask is the bit of the word, and one inside is that of what is written.
theorem and_masked_or (word mask written bit : UInt16) :
    (word &&& ~~~mask ||| written) &&& bit = word &&& (~~~mask &&& bit) ||| written &&& bit := by
  apply UInt16.toBitVec_inj.mp
  ext i hi
  simp [Bool.and_or_distrib_right, Bool.and_assoc]

theorem not_and_of_and_eq_zero {mask bit : UInt16} (h : mask &&& bit = 0) :
    ~~~mask &&& bit = bit := by
  apply UInt16.toBitVec_inj.mp
  ext i hi
  have hi' : (mask &&& bit).toBitVec[i] = false := by
    rw [h]
    simp
  simp only [UInt16.toBitVec_and, BitVec.getElem_and] at hi'
  simp only [UInt16.toBitVec_and, UInt16.toBitVec_not, BitVec.getElem_and, BitVec.getElem_not]
  cases hbit : bit.toBitVec[i] with
  | false => rw [Bool.and_false]
  | true =>
      rw [hbit, Bool.and_true] at hi'
      rw [hi']
      rfl

-- What is written within a mask leaves the other bits as they are.
theorem masked_or_and {mask written bit : UInt16} (hwritten : written &&& mask = written)
    (hbit : mask &&& bit = 0) (word : UInt16) :
    (word &&& ~~~mask ||| written) &&& bit = word &&& bit := by
  have houtside : written &&& bit = 0 := by
    rw [← hwritten, UInt16.and_assoc, hbit, UInt16.and_zero]
  rw [and_masked_or, not_and_of_and_eq_zero hbit, houtside, UInt16.or_zero]

theorem bits_withVisibility_and (access : Access) (visibility : Visibility) (bit : UInt16)
    (hbit : visibilityMask &&& bit = 0) :
    (access.withVisibility visibility).bits &&& bit = access.bits &&& bit :=
  masked_or_and (by cases visibility <;> decide) hbit access.bits

theorem bits_withModality_and (access : Access) (modality : Modality) (bit : UInt16)
    (hbit : modalityMask &&& bit = 0) :
    (access.withModality modality).bits &&& bit = access.bits &&& bit :=
  masked_or_and (by cases modality <;> decide) hbit access.bits

theorem has_withVisibility (access : Access) (visibility : Visibility) (bit : UInt16)
    (hbit : visibilityMask &&& bit = 0) :
    (access.withVisibility visibility).has bit = access.has bit := by
  rw [has, bits_withVisibility_and access visibility bit hbit, has]

theorem has_withModality (access : Access) (modality : Modality) (bit : UInt16)
    (hbit : modalityMask &&& bit = 0) :
    (access.withModality modality).has bit = access.has bit := by
  rw [has, bits_withModality_and access modality bit hbit, has]

@[simp] theorem visibility_withVisibility (access : Access) (visibility : Visibility) :
    (access.withVisibility visibility).visibility = visibility := by
  have h : ∀ bit, ~~~visibilityMask &&& bit = 0 →
      (access.withVisibility visibility).has bit = ((visibility.bits &&& bit) != 0) := by
    intro bit hbit
    simp only [has, withVisibility, and_masked_or, hbit, UInt16.and_zero, UInt16.zero_or]
  unfold Access.visibility
  rw [h 0x0001 (by decide), h 0x0004 (by decide), h 0x0002 (by decide)]
  cases visibility <;> rfl

@[simp] theorem modality_withVisibility (access : Access) (visibility : Visibility) :
    (access.withVisibility visibility).modality = access.modality := by
  have h := has_withVisibility access visibility
  unfold Access.modality
  rw [h abstractBit (by decide), h finalBit (by decide)]

@[simp] theorem modality_withModality (access : Access) (modality : Modality) :
    (access.withModality modality).modality = modality := by
  have h : ∀ bit, ~~~modalityMask &&& bit = 0 →
      (access.withModality modality).has bit = ((modality.bits &&& bit) != 0) := by
    intro bit hbit
    simp only [has, withModality, and_masked_or, hbit, UInt16.and_zero, UInt16.zero_or]
  unfold Access.modality
  rw [h abstractBit (by decide), h finalBit (by decide)]
  cases modality <;> rfl

@[simp] theorem visibility_withModality (access : Access) (modality : Modality) :
    (access.withModality modality).visibility = access.visibility := by
  have h := has_withModality access modality
  unfold Access.visibility
  rw [h 0x0001 (by decide), h 0x0004 (by decide), h 0x0002 (by decide)]

@[simp] theorem classKind_withVisibility (access : Access) (visibility : Visibility) :
    (access.withVisibility visibility).classKind = access.classKind := by
  have h := has_withVisibility access visibility
  unfold Access.classKind
  rw [h annotationTypeBit (by decide), h interfaceBit (by decide), h enumBit (by decide)]

@[simp] theorem classKind_withModality (access : Access) (modality : Modality) :
    (access.withModality modality).classKind = access.classKind := by
  have h := has_withModality access modality
  unfold Access.classKind
  rw [h annotationTypeBit (by decide), h interfaceBit (by decide), h enumBit (by decide)]

end Access

end ApiUnion
