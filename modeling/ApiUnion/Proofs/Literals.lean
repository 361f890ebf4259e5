import Mathlib.Data.List.DropRight
import Mathlib.Data.List.TakeWhile
import ApiUnion.Run.RootSpec
import ApiUnion.Version

-- What is read from the literal of a version: the version, if its tags can be told apart in it.

namespace ApiUnion

namespace Text

theorem splitChars_of_notMem {separator : Char} {text : List Char} (h : separator ∉ text) :
    splitChars separator text = [text] := by
  induction text with
  | nil => rfl
  | cons c text ih =>
      rw [List.mem_cons, not_or] at h
      rw [splitChars, if_neg (Ne.symm h.1), ih h.2]

theorem splitChars_append {separator : Char} {text : List Char} (h : separator ∉ text)
    (rest : List Char) :
    splitChars separator (text ++ separator :: rest) = text :: splitChars separator rest := by
  induction text with
  | nil => exact if_pos rfl
  | cons c text ih =>
      rw [List.mem_cons, not_or] at h
      rw [List.cons_append, splitChars, if_neg (Ne.symm h.1), ih h.2]

theorem trimChars_eq (text : List Char) :
    trimChars text = (text.dropWhile isBlank).rdropWhile isBlank := rfl

theorem trimChars_cons_of_isBlank {c : Char} (h : isBlank c = true) (text : List Char) :
    trimChars (c :: text) = trimChars text := by
  rw [trimChars, List.dropWhile_cons_of_pos h, trimChars]

-- What is left begins as it did before its end was trimmed, so nothing more goes from the front.
theorem trimChars_trimChars (text : List Char) : trimChars (trimChars text) = trimChars text := by
  have hfront : (trimChars text).dropWhile isBlank = trimChars text := by
    rw [trimChars_eq]
    refine List.dropWhile_eq_self_iff.mpr fun hl => ?_
    have hstart := List.rdropWhile_prefix isBlank (text.dropWhile isBlank)
    have hfirst : 0 < (text.dropWhile isBlank).length := hl.trans_le hstart.length_le
    rw [hstart.getElem hl]
    exact List.dropWhile_eq_self_iff.mp (List.dropWhile_idempotent ..) hfirst
  rw [trimChars_eq (trimChars text), hfront, trimChars_eq, List.rdropWhile_idempotent]

theorem trim_trim (text : String) : trim (trim text) = trim text := by
  rw [trim, trim, String.toList_ofList, trimChars_trimChars]

theorem splitChars_ne_nil (separator : Char) (text : List Char) :
    splitChars separator text ≠ [] := by
  cases text with
  | nil => simp [splitChars]
  | cons c text =>
      rw [splitChars]
      split
      · simp
      · split <;> simp

-- A blank after a separator goes when the pieces are trimmed.
theorem map_trimChars_splitChars_cons {separator c : Char} (hc : c ≠ separator)
    (hblank : isBlank c = true) (text : List Char) :
    (splitChars separator (c :: text)).map trimChars =
      (splitChars separator text).map trimChars := by
  have hsome := splitChars_ne_nil separator text
  rw [splitChars, if_neg hc]
  cases hpieces : splitChars separator text with
  | nil => exact absurd hpieces hsome
  | cons piece pieces =>
      rw [List.map_cons, List.map_cons, trimChars_cons_of_isBlank hblank]

theorem map_trimChars_splitChars_intercalate (pieces : List (List Char)) (hsome : pieces ≠ [])
    (h : ∀ piece ∈ pieces, ',' ∉ piece) :
    (splitChars ',' ([',', ' '].intercalate pieces)).map trimChars = pieces.map trimChars := by
  induction pieces with
  | nil => exact absurd rfl hsome
  | cons piece rest ih =>
      obtain ⟨hpiece, hrest⟩ := List.forall_mem_cons.mp h
      cases rest with
      | nil => rw [List.intercalate_singleton, splitChars_of_notMem hpiece]
      | cons next rest =>
          rw [List.intercalate_cons_cons, List.append_assoc, List.cons_append,
            splitChars_append hpiece, List.map_cons, List.singleton_append,
            map_trimChars_splitChars_cons (by decide) (by decide), ih (by simp) hrest]
          rfl

end Text

-- A tag that keeps its form in a literal: it has no comma and no blanks at its ends.
def IsPlainTag (tag : String) : Prop :=
  ',' ∉ tag.toList ∧ Text.trim tag = tag

-- Empty tags cannot be seen in a literal.
theorem TagSet.mem_tags_ofLiteral_literal {set : TagSet} (h : ∀ tag ∈ set.tags, IsPlainTag tag)
    (tag : String) : tag ∈ (ofLiteral set.literal).tags ↔ tag ∈ set.tags ∧ tag ≠ "" := by
  have hpieces : ((Text.splitChars ',' set.literal.toList).map Text.trimChars).filter
      (fun piece => !piece.isEmpty) =
        (set.tags.map String.toList).filter fun piece => !piece.isEmpty := by
    have hcomma : ", ".toList = [',', ' '] := rfl
    rw [literal, String.toList_intercalate, hcomma]
    by_cases hsome : set.tags.map String.toList = []
    · rw [hsome]
      rfl
    · rw [Text.map_trimChars_splitChars_intercalate _ hsome, List.map_map]
      · refine congrArg (List.filter _) (List.map_congr_left fun tag htag => ?_)
        have htrim := congrArg String.toList (h tag htag).2
        rwa [Text.trim, String.toList_ofList] at htrim
      · intro piece hpiece
        obtain ⟨tag, htag, rfl⟩ := List.mem_map.mp hpiece
        exact (h tag htag).1
  have hempty (tag : String) : tag.toList.isEmpty = false ↔ tag ≠ "" := by
    rw [← Bool.not_eq_true, List.isEmpty_iff, String.toList_eq_nil_iff]
  rw [ofLiteral, mem_tags_ofList, hpieces, List.mem_map]
  constructor
  · rintro ⟨piece, hpiece, rfl⟩
    obtain ⟨hmem, hsome⟩ := List.mem_filter.mp hpiece
    obtain ⟨tag, htag, rfl⟩ := List.mem_map.mp hmem
    rw [String.ofList_toList]
    exact ⟨htag, (hempty tag).mp (by simpa using hsome)⟩
  · rintro ⟨htag, hsome⟩
    refine ⟨tag.toList, List.mem_filter.mpr ⟨List.mem_map_of_mem htag, ?_⟩, String.ofList_toList⟩
    rw [(hempty tag).mpr hsome]
    rfl

namespace Version

-- What is read from the literal of a version, if it has one.
def reread? (version : Version) : Option Version :=
  version.literal?.map ofLiteral

-- Every tag keeps its form in a literal, if there is one.
def IsPlain : Version → Prop
  | universal => True
  | tags set => ∀ tag ∈ set.tags, IsPlainTag tag

-- The literal tells the version.
def IsLegible : Version → Prop
  | universal => False
  | tags set => ∀ tag ∈ set.tags, IsPlainTag tag ∧ tag ≠ ""

theorem reread?_of_isLegible {version : Version} (h : version.IsLegible) :
    version.reread? = some version := by
  cases version with
  | universal => exact h.elim
  | tags set =>
      refine congrArg (fun set => some (tags set)) (TagSet.ext_mem fun tag => ?_)
      rw [TagSet.mem_tags_ofLiteral_literal fun tag htag => (h tag htag).1]
      exact ⟨fun htag => htag.1, fun htag => ⟨htag, (h tag htag).2⟩⟩

-- Nothing is read that was not written.
theorem contains_reread? {version found : Version} (h : version.IsPlain)
    (hfound : version.reread? = some found) : version.contains found := by
  cases version with
  | universal => rfl
  | tags set =>
      obtain rfl := Option.some.inj hfound
      refine TagSet.subset_iff.mpr fun tag htag => ?_
      exact ((TagSet.mem_tags_ofLiteral_literal h tag).mp htag).1

-- A tag with a comma comes back as two.
example : (single "1,2").reread? = some (ofTags ["1", "2"]) := by decide +kernel

theorem IsPlain.plus {a b : Version} (ha : a.IsPlain) (hb : b.IsPlain) : (a.plus b).IsPlain := by
  cases a with
  | universal => trivial
  | tags a =>
      cases b with
      | universal => trivial
      | tags b =>
          intro tag htag
          exact (TagSet.mem_tags_union.mp htag).elim (ha tag) (hb tag)

theorem IsLegible.plus {a b : Version} (ha : a.IsLegible) (hb : b.IsLegible) :
    (a.plus b).IsLegible := by
  cases a with
  | universal => exact ha.elim
  | tags a =>
      cases b with
      | universal => exact hb.elim
      | tags b =>
          intro tag htag
          exact (TagSet.mem_tags_union.mp htag).elim (ha tag) (hb tag)

-- The tag of a root stands for itself wherever it is written.
theorem isLegible_of_ofText {text : String} {root : RootSpec} (h : RootSpec.ofText text = .ok root) :
    (single root.version).IsLegible := by
  unfold RootSpec.ofText at h
  generalize hversion : String.ofList (text.toList.takeWhile (· ≠ '=')) = version at h
  dsimp only at h
  split at h
  · cases h
  · split at h
    · cases h
    · rename_i hvalid
      split at h
      · cases h
      · cases h
        simp only [Bool.or_eq_true, not_or, String.isEmpty_iff, List.contains_iff_mem] at hvalid
        intro tag htag
        obtain rfl : tag = Text.trim version := by simpa using htag
        exact ⟨⟨hvalid.2, Text.trim_trim version⟩, hvalid.1⟩

end Version

end ApiUnion
