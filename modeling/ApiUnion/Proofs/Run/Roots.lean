import ApiUnion.Proofs.Descriptor
import ApiUnion.Proofs.Literals

-- Roots as a command gives them. A root is read from what is printed of it, and the tags of any
-- number of roots are read from the literal of the version that they make together.

namespace ApiUnion

theorem Text.mem_of_mem_trim {c : Char} {text : String} (h : c ∈ (trim text).toList) :
    c ∈ text.toList := by
  rw [trim, String.toList_ofList, trimChars_eq] at h
  have hfront := (List.rdropWhile_prefix isBlank (text.toList.dropWhile isBlank)).subset h
  exact (List.dropWhile_suffix isBlank).subset hfront

namespace RootSpec

theorem ofText_eq (text : String) :
    ofText text = match cutAt? '=' text.toList with
      | none => .error (.noSeparator text)
      | some (front, path) =>
        let version := Text.trim (String.ofList front)
        if version.isEmpty || version.toList.contains ',' then .error (.invalidVersion version)
        else if path.isEmpty then .error (.noPath version)
        else .ok ⟨version, String.ofList path⟩ := by
  have hstop : (fun c : Char => decide (c ≠ '=')) = (· != '=') := by
    funext c
    by_cases hc : c = '=' <;> simp [hc]
  unfold ofText cutAt?
  rw [hstop]
  cases text.toList.dropWhile (· != '=') <;> rfl

-- All that is read: what is in front of the first equals sign, without the blanks around it, and
-- the path behind.
theorem ofText_eq_ok_iff (text : String) (root : RootSpec) :
    ofText text = .ok root ↔
      ∃ front : String, text = front ++ "=" ++ root.path ∧ '=' ∉ front.toList ∧
        Text.trim front = root.version ∧ root.version ≠ "" ∧ ',' ∉ root.version.toList ∧
        root.path ≠ "" := by
  obtain ⟨version, path⟩ := root
  have hprinted (front : String) : (front ++ "=" ++ path).toList =
      front.toList ++ '=' :: path.toList := by
    rw [String.toList_append, String.toList_append, List.append_assoc]
    rfl
  rw [ofText_eq]
  constructor
  · intro h
    split at h
    · cases h
    · rename_i front rest hcut
      obtain ⟨htext, hfront⟩ := (cutAt?_eq_some_iff '=' _ front rest).mp hcut
      dsimp only at h
      split at h
      · cases h
      · rename_i hversion
        split at h
        · cases h
        · rename_i hpath
          cases h
          simp only [Bool.or_eq_true, not_or, String.isEmpty_iff, List.contains_iff_mem]
            at hversion
          refine ⟨String.ofList front, ?_, ?_, rfl, hversion.1, hversion.2, ?_⟩
          · rw [← String.toList_inj, hprinted, String.toList_ofList, String.toList_ofList, htext]
          · rwa [String.toList_ofList]
          · rwa [Ne, ← String.toList_eq_nil_iff, String.toList_ofList, ← List.isEmpty_iff]
  · rintro ⟨front, rfl, hfront, hversion, htag, hcomma, hpath⟩
    have hcut := (cutAt?_eq_some_iff '=' _ front.toList path.toList).mpr ⟨hprinted front, hfront⟩
    rw [hcut]
    simp only at hversion htag hcomma hpath
    simp [hversion, htag, hcomma, hpath, String.ofList_toList]

-- A root that can be written: its tag keeps its form in a literal and before an equals sign, and
-- there is a path.
structure Legible (root : RootSpec) : Prop where
  plain : IsPlainTag root.version
  tag : root.version ≠ ""
  separated : '=' ∉ root.version.toList
  path : root.path ≠ ""

theorem legible_of_ofText {text : String} {root : RootSpec} (h : ofText text = .ok root) :
    root.Legible := by
  obtain ⟨front, -, hfront, hversion, htag, hcomma, hpath⟩ := (ofText_eq_ok_iff text root).mp h
  have htrim : Text.trim root.version = root.version := by
    rw [← hversion, Text.trim_trim]
  refine ⟨⟨hcomma, htrim⟩, htag, fun hmem => ?_, hpath⟩
  rw [← hversion] at hmem
  exact hfront (Text.mem_of_mem_trim hmem)

theorem ofText_text_of_legible {root : RootSpec} (h : root.Legible) :
    ofText root.text = .ok root :=
  (ofText_eq_ok_iff root.text root).mpr
    ⟨root.version, rfl, h.separated, h.plain.2, h.tag, h.plain.1, h.path⟩

end RootSpec

theorem Version.isLegible_ofTags {tags : List String}
    (h : ∀ tag ∈ tags, IsPlainTag tag ∧ tag ≠ "") : (ofTags tags).IsLegible :=
  fun tag htag => h tag (TagSet.mem_tags_ofList.mp htag)

-- Which roots there are to read is told by the roots alone. Each that was read is read again from
-- what is printed of it, and the version that their tags make is read again from its literal.
theorem reread_roots (roots : List RootSpec)
    (h : ∀ root ∈ roots, ∃ text, RootSpec.ofText text = .ok root) :
    let version := Version.ofTags (roots.map RootSpec.version)
    (∀ root : RootSpec, (∃ text, RootSpec.ofText text = .ok root) ↔ root.Legible) ∧
      (∀ root ∈ roots, RootSpec.ofText root.text = .ok root) ∧
      version.literal?.map Version.ofLiteral = some version := by
  have hread : ∀ root : RootSpec, (∃ text, RootSpec.ofText text = .ok root) ↔ root.Legible := by
    intro root
    constructor
    · rintro ⟨text, htext⟩
      exact RootSpec.legible_of_ofText htext
    · intro hlegible
      exact ⟨root.text, RootSpec.ofText_text_of_legible hlegible⟩
  refine ⟨hread, fun root hroot => ?_, ?_⟩
  · exact RootSpec.ofText_text_of_legible ((hread root).mp (h root hroot))
  · apply Version.reread?_of_isLegible
    apply Version.isLegible_ofTags
    intro tag htag
    obtain ⟨root, hroot, rfl⟩ := List.mem_map.mp htag
    have hlegible := (hread root).mp (h root hroot)
    exact ⟨hlegible.plain, hlegible.tag⟩

-- A tag with a blank inside, blanks around it, and an equals sign in the path.
theorem reread_roots_blanks :
    RootSpec.ofText " 2 b\u3000=a=b" = .ok ⟨"2 b", "a=b"⟩ ∧
      RootSpec.ofText "10=x" = .ok ⟨"10", "x"⟩ ∧
      RootSpec.ofText (RootSpec.text ⟨"2 b", "a=b"⟩) = .ok ⟨"2 b", "a=b"⟩ ∧
      (Version.ofTags ["2 b", "10"]).literal? = some "10, 2 b" ∧
      Version.ofLiteral "10, 2 b" = Version.ofTags ["2 b", "10"] := by
  have hblanks : RootSpec.ofText " 2 b\u3000=a=b" = .ok ⟨"2 b", "a=b"⟩ := by decide +kernel
  have hten : RootSpec.ofText "10=x" = .ok ⟨"10", "x"⟩ := by decide +kernel
  have hliteral : (Version.ofTags ["2 b", "10"]).literal? = some "10, 2 b" := by decide +kernel
  obtain ⟨-, hprinted, hreread⟩ := reread_roots [⟨"2 b", "a=b"⟩, ⟨"10", "x"⟩] <| by
    rw [List.forall_mem_cons, List.forall_mem_singleton]
    exact ⟨⟨_, hblanks⟩, ⟨_, hten⟩⟩
  have hsame : (Version.ofTags ["2 b", "10"]).literal?.map Version.ofLiteral =
      some (Version.ofTags ["2 b", "10"]) := hreread
  rw [hliteral] at hsame
  exact ⟨hblanks, hten, hprinted _ List.mem_cons_self, hliteral, Option.some.inj hsame⟩

end ApiUnion
