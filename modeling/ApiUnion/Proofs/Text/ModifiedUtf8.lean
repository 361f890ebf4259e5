import Mathlib.Data.List.Basic
import ApiUnion.Text.ModifiedUtf8

-- The byte texts that can be read are those that spell the UTF-16 units of a text, each unit by a
-- group of one, two or three bytes. Written texts are among them, and the text that was written is
-- read back.

namespace ApiUnion.ModifiedUtf8

-- A byte that continues a group.
def Tail (byte : UInt8) : Prop :=
  0x80 ≤ byte.toNat ∧ byte.toNat ≤ 0xBF

instance (byte : UInt8) : Decidable (Tail byte) :=
  inferInstanceAs (Decidable (0x80 ≤ byte.toNat ∧ byte.toNat ≤ 0xBF))

-- A group of bytes and the unit that it stands for. A short unit may be spelled by a long group.
inductive Spells : List UInt8 → Nat → Prop
  | one {a : UInt8} : 0x01 ≤ a.toNat → a.toNat ≤ 0x7F → Spells [a] a.toNat
  | two {a b : UInt8} : 0xC0 ≤ a.toNat → a.toNat ≤ 0xDF → Tail b →
      Spells [a, b] ((a.toNat - 0xC0) * 0x40 + (b.toNat - 0x80))
  | three {a b c : UInt8} : 0xE0 ≤ a.toNat → a.toNat ≤ 0xEF → Tail b → Tail c →
      Spells [a, b, c] ((a.toNat - 0xE0) * 0x1000 + (b.toNat - 0x80) * 0x40 + (c.toNat - 0x80))

inductive Spelled : List UInt8 → List Nat → Prop
  | nil : Spelled [] []
  | cons {group rest : List UInt8} {unit : Nat} {list : List Nat} :
      Spells group unit → Spelled rest list → Spelled (group ++ rest) (unit :: list)

theorem isTail_iff {byte : UInt8} : isTail byte ↔ Tail byte := by
  simp only [isTail, Tail, beq_iff_eq]
  omega

theorem Spells.lt {bytes : List UInt8} {unit : Nat} (h : Spells bytes unit) : unit < 0x10000 := by
  cases h with
  | one _ ha => omega
  | two _ ha hb =>
      obtain ⟨-, hb⟩ := hb
      omega
  | three _ ha hb hc =>
      obtain ⟨-, hb⟩ := hb
      obtain ⟨-, hc⟩ := hc
      omega

theorem Spells.zero_notMem {bytes : List UInt8} {unit : Nat} (h : Spells bytes unit) :
    0 ∉ bytes := by
  have hzero : (0 : UInt8).toNat = 0 := rfl
  intro hmem
  cases h with
  | one ha =>
      obtain rfl := List.mem_singleton.mp hmem
      omega
  | two ha _ hb =>
      obtain ⟨hb, -⟩ := hb
      simp only [List.mem_cons, List.not_mem_nil, or_false] at hmem
      rcases hmem with rfl | rfl
      · omega
      · omega
  | three ha _ hb hc =>
      obtain ⟨hb, -⟩ := hb
      obtain ⟨hc, -⟩ := hc
      simp only [List.mem_cons, List.not_mem_nil, or_false] at hmem
      rcases hmem with rfl | rfl | rfl
      · omega
      · omega
      · omega

theorem Spelled.lt {bytes : List UInt8} {list : List Nat} (h : Spelled bytes list) :
    ∀ unit ∈ list, unit < 0x10000 := by
  induction h with
  | nil => simp
  | cons hgroup _ ih => exact List.forall_mem_cons.mpr ⟨hgroup.lt, ih⟩

theorem Spelled.zero_notMem {bytes : List UInt8} {list : List Nat} (h : Spelled bytes list) :
    0 ∉ bytes := by
  induction h with
  | nil => exact List.not_mem_nil
  | cons hgroup _ ih =>
      rw [List.mem_append]
      rintro (hmem | hmem)
      · exact hgroup.zero_notMem hmem
      · exact ih hmem

-- Whatever its length, a group gives its unit.
theorem Spells.splitUnits?_append {bytes : List UInt8} {unit : Nat} (h : Spells bytes unit)
    (found : List Nat) (rest : List UInt8) :
    splitUnits? found (bytes ++ rest) = splitUnits? (unit :: found) rest := by
  cases h with
  | @one a ha ha' =>
      rw [List.cons_append, List.nil_append, splitUnits?.eq_def]
      dsimp only
      rw [if_pos (by omega), if_neg (by omega)]
  | @two a b ha ha' hb =>
      have htail := isTail_iff.mpr hb
      obtain ⟨hb, hb'⟩ := hb
      have hunit : a.toNat % 0x20 * 0x40 + b.toNat % 0x40 =
          (a.toNat - 0xC0) * 0x40 + (b.toNat - 0x80) := by omega
      simp only [List.cons_append, List.nil_append, splitUnits?, htail, if_true, hunit]
      rw [if_neg (by omega), if_pos (by omega)]
  | @three a b c ha ha' hb hc =>
      have hmiddle := isTail_iff.mpr hb
      have hlast := isTail_iff.mpr hc
      obtain ⟨hb, hb'⟩ := hb
      obtain ⟨hc, hc'⟩ := hc
      have hunit : a.toNat % 0x10 * 0x1000 + b.toNat % 0x40 * 0x40 + c.toNat % 0x40 =
          (a.toNat - 0xE0) * 0x1000 + (b.toNat - 0x80) * 0x40 + (c.toNat - 0x80) := by omega
      simp only [List.cons_append, List.nil_append, splitUnits?, hmiddle, hlast, Bool.and_self,
        if_true, hunit]
      rw [if_neg (by omega), if_neg (by omega), if_pos (by omega)]

theorem Spelled.splitUnits? {bytes : List UInt8} {list : List Nat} (h : Spelled bytes list)
    (found : List Nat) : splitUnits? found bytes = some (found.reverse ++ list) := by
  induction h generalizing found with
  | nil => rw [ModifiedUtf8.splitUnits?, List.append_nil]
  | cons hgroup _ ih => rw [hgroup.splitUnits?_append, ih, List.reverse_cons, List.append_assoc,
      List.singleton_append]

theorem exists_spelled {bytes : List UInt8} {found all : List Nat}
    (h : splitUnits? found bytes = some all) :
    ∃ list, all = found.reverse ++ list ∧ Spelled bytes list := by
  -- The group that is taken off the front is read as the unit that it spells.
  have hstep {group rest : List UInt8} {unit spelled : Nat} {found : List Nat}
      (hgroup : Spells group spelled) (hunit : unit = spelled)
      (h : ∃ list, all = (unit :: found).reverse ++ list ∧ Spelled rest list) :
      ∃ list, all = found.reverse ++ list ∧ Spelled (group ++ rest) list := by
    obtain ⟨list, rfl, hlist⟩ := h
    exact ⟨unit :: list, by rw [List.reverse_cons, List.append_assoc, List.singleton_append],
      hunit ▸ .cons hgroup hlist⟩
  fun_induction splitUnits? found bytes with
  | case1 found =>
      obtain rfl := Option.some.inj h
      exact ⟨[], (List.append_nil _).symm, .nil⟩
  | case3 found a rest hlt hne ih =>
      exact hstep (.one (by omega) (by omega)) rfl (ih h)
  | case4 found a hge hlead b rest htail ih =>
      have hb := isTail_iff.mp htail
      refine hstep (.two (by omega) (by omega) hb) ?_ (ih h)
      obtain ⟨hb, hb'⟩ := hb
      omega
  | case7 found a hge hne hlead b c rest htails ih =>
      rw [Bool.and_eq_true] at htails
      have hb := isTail_iff.mp htails.1
      have hc := isTail_iff.mp htails.2
      refine hstep (.three (by omega) (by omega) hb hc) ?_ (ih h)
      obtain ⟨hb, hb'⟩ := hb
      obtain ⟨hc, hc'⟩ := hc
      omega
  | case2 | case5 | case6 | case8 | case9 | case10 => cases h

theorem splitUnits?_eq_some_iff {bytes : List UInt8} {list : List Nat} :
    splitUnits? [] bytes = some list ↔ Spelled bytes list := by
  constructor
  · intro h
    obtain ⟨list, rfl, hlist⟩ := exists_spelled h
    exact hlist
  · intro h
    exact h.splitUnits? []

theorem Spelled.unique {bytes : List UInt8} {list other : List Nat} (h : Spelled bytes list)
    (hother : Spelled bytes other) : list = other :=
  Option.some.inj
    ((splitUnits?_eq_some_iff.mpr h).symm.trans (splitUnits?_eq_some_iff.mpr hother))

-- The units of a text.
def utf16 (text : String) : List Nat :=
  text.toList.flatMap units

-- Units among which every surrogate is one of a pair, the high one first.
inductive Paired : List Nat → Prop
  | nil : Paired []
  | single {unit : Nat} {rest : List Nat} :
      unit < 0xD800 ∨ 0xE000 ≤ unit ∧ unit < 0x10000 → Paired rest → Paired (unit :: rest)
  | pair {high low : Nat} {rest : List Nat} : 0xD800 ≤ high → high ≤ 0xDBFF → 0xDC00 ≤ low →
      low ≤ 0xDFFF → Paired rest → Paired (high :: low :: rest)

theorem isHighSurrogate_iff {unit : Nat} :
    isHighSurrogate unit ↔ 0xD800 ≤ unit ∧ unit ≤ 0xDBFF := by
  simp only [isHighSurrogate, beq_iff_eq]
  omega

theorem isLowSurrogate_iff {unit : Nat} :
    isLowSurrogate unit ↔ 0xDC00 ≤ unit ∧ unit ≤ 0xDFFF := by
  simp only [isLowSurrogate, beq_iff_eq]
  omega

-- No character is a surrogate.
theorem toNat_cases (c : Char) :
    c.toNat < 0xD800 ∨ 0xE000 ≤ c.toNat ∧ c.toNat < 0x110000 := by
  have h := c.valid
  simp only [UInt32.isValidChar, Nat.isValidChar] at h
  have hc : c.toNat = c.val.toNat := rfl
  omega

theorem toNat_ofNat {n : Nat} (h : n < 0xD800 ∨ 0xE000 ≤ n ∧ n < 0x110000) :
    (Char.ofNat n).toNat = n := by
  have hvalid : n.isValidChar := by
    unfold Nat.isValidChar
    omega
  rw [Char.ofNat, dif_pos hvalid]
  rfl

theorem Paired.units_append {rest : List Nat} (c : Char) (h : Paired rest) :
    Paired (units c ++ rest) := by
  have hc := toNat_cases c
  unfold units
  split
  · exact .single (by omega) h
  · exact .pair (by omega) (by omega) (by omega) (by omega) h

theorem paired_utf16 (text : String) : Paired (utf16 text) := by
  unfold utf16
  induction text.toList with
  | nil => exact .nil
  | cons c chars ih => exact ih.units_append c

theorem Paired.exists_flatMap_units {list : List Nat} (h : Paired list) :
    ∃ chars : List Char, chars.flatMap units = list := by
  induction h with
  | nil => exact ⟨[], rfl⟩
  | @single unit rest hunit _ ih =>
      obtain ⟨chars, rfl⟩ := ih
      have hchar : (Char.ofNat unit).toNat = unit := toNat_ofNat (by omega)
      refine ⟨Char.ofNat unit :: chars, ?_⟩
      rw [List.flatMap_cons, units, hchar, if_pos (by omega), List.singleton_append]
  | @pair high low rest hhigh hhigh' hlow hlow' _ ih =>
      obtain ⟨chars, rfl⟩ := ih
      obtain ⟨n, hn⟩ : ∃ n, n = 0x10000 + (high - 0xD800) * 0x400 + (low - 0xDC00) := ⟨_, rfl⟩
      have hchar : (Char.ofNat n).toNat = n := toNat_ofNat (by omega)
      have hhighUnit : 0xD800 + (n - 0x10000) / 0x400 = high := by omega
      have hlowUnit : 0xDC00 + (n - 0x10000) % 0x400 = low := by omega
      refine ⟨Char.ofNat n :: chars, ?_⟩
      rw [List.flatMap_cons, units, hchar, if_neg (by omega), hhighUnit, hlowUnit,
        List.cons_append, List.singleton_append]

theorem Paired.exists_utf16 {list : List Nat} (h : Paired list) : ∃ text, utf16 text = list := by
  obtain ⟨chars, hchars⟩ := h.exists_flatMap_units
  exact ⟨String.ofList chars, by rw [utf16, String.toList_ofList, hchars]⟩

theorem pairUnits?_units (found : List Char) (c : Char) (rest : List Nat) :
    pairUnits? found (units c ++ rest) = pairUnits? (c :: found) rest := by
  have hc := toNat_cases c
  unfold units
  split
  · have hhigh : ¬ isHighSurrogate c.toNat := by
      rw [isHighSurrogate_iff]
      omega
    have hlow : ¬ isLowSurrogate c.toNat := by
      rw [isLowSurrogate_iff]
      omega
    rw [List.cons_append, List.nil_append, pairUnits?.eq_def]
    dsimp only
    rw [if_neg hhigh, if_neg hlow, Char.ofNat_toNat]
  · have hhigh : isHighSurrogate (0xD800 + (c.toNat - 0x10000) / 0x400) :=
      isHighSurrogate_iff.mpr (by omega)
    have hlow : isLowSurrogate (0xDC00 + (c.toNat - 0x10000) % 0x400) :=
      isLowSurrogate_iff.mpr (by omega)
    have hunit : 0x10000 + (0xD800 + (c.toNat - 0x10000) / 0x400) % 0x400 * 0x400 +
        (0xDC00 + (c.toNat - 0x10000) % 0x400) % 0x400 = c.toNat := by
      omega
    simp only [List.cons_append, List.nil_append, pairUnits?, hhigh, hlow, if_true, hunit,
      Char.ofNat_toNat]

theorem pairUnits?_flatMap_units (found chars : List Char) :
    pairUnits? found (chars.flatMap units) = some (found.reverse ++ chars) := by
  induction chars generalizing found with
  | nil => rw [List.flatMap_nil, pairUnits?, List.append_nil]
  | cons c chars ih => rw [List.flatMap_cons, pairUnits?_units, ih, List.reverse_cons,
      List.append_assoc, List.singleton_append]

theorem pairUnits?_utf16 (text : String) : pairUnits? [] (utf16 text) = some text.toList :=
  pairUnits?_flatMap_units [] text.toList

theorem paired_of_pairUnits? {list : List Nat} {found all : List Char}
    (hlt : ∀ unit ∈ list, unit < 0x10000) (h : pairUnits? found list = some all) :
    Paired list := by
  fun_induction pairUnits? found list with
  | case1 => exact .nil
  | case2 found unit hhigh low rest hlow ih =>
      rw [List.forall_mem_cons, List.forall_mem_cons] at hlt
      obtain ⟨hhigh, hhigh'⟩ := isHighSurrogate_iff.mp hhigh
      obtain ⟨hlow, hlow'⟩ := isLowSurrogate_iff.mp hlow
      exact .pair hhigh hhigh' hlow hlow' (ih hlt.2.2 h)
  | case6 found unit rest hhigh hlow ih =>
      rw [List.forall_mem_cons] at hlt
      obtain ⟨hunit, hrest⟩ := hlt
      rw [isHighSurrogate_iff] at hhigh
      rw [isLowSurrogate_iff] at hlow
      exact .single (by omega) (ih hrest h)
  | case3 | case4 | case5 => cases h

theorem decode?_eq_some_iff {bytes : List UInt8} {text : String} :
    decode? bytes = some text ↔ Spelled bytes (utf16 text) := by
  constructor
  · intro h
    obtain ⟨list, hlist, h⟩ := Option.bind_eq_some_iff.mp h
    obtain ⟨chars, hchars, h⟩ := Option.bind_eq_some_iff.mp h
    have hspelled := splitUnits?_eq_some_iff.mp hlist
    obtain ⟨other, rfl⟩ := (paired_of_pairUnits? hspelled.lt hchars).exists_utf16
    rw [pairUnits?_utf16] at hchars
    obtain rfl := Option.some.inj hchars
    obtain rfl : other = text := by simpa using h
    exact hspelled
  · intro h
    have hsplit := splitUnits?_eq_some_iff.mpr h
    simp [decode?, hsplit, pairUnits?_utf16]

theorem spells_group {unit : Nat} (h : unit < 0x10000) : Spells (group unit) unit := by
  have hbyte {n : Nat} (hn : n < 0x100) : (UInt8.ofNat n).toNat = n :=
    UInt8.toNat_ofNat_of_lt' hn
  have htail (n : Nat) : Tail (UInt8.ofNat (0x80 + n % 0x40)) := by
    rw [Tail, hbyte (by omega)]
    omega
  unfold group
  split
  · have ha := hbyte (n := unit) (by omega)
    have hgroup : Spells [UInt8.ofNat unit] _ := .one (by omega) (by omega)
    rwa [ha] at hgroup
  · split
    · have ha := hbyte (n := 0xC0 + unit / 0x40) (by omega)
      have hb := hbyte (n := 0x80 + unit % 0x40) (by omega)
      have hgroup := Spells.two (a := UInt8.ofNat (0xC0 + unit / 0x40)) (by omega) (by omega)
        (htail unit)
      have hunit : (0xC0 + unit / 0x40 - 0xC0) * 0x40 + (0x80 + unit % 0x40 - 0x80) = unit := by
        omega
      rwa [ha, hb, hunit] at hgroup
    · have ha := hbyte (n := 0xE0 + unit / 0x1000) (by omega)
      have hb := hbyte (n := 0x80 + unit / 0x40 % 0x40) (by omega)
      have hc := hbyte (n := 0x80 + unit % 0x40) (by omega)
      have hgroup := Spells.three (a := UInt8.ofNat (0xE0 + unit / 0x1000)) (by omega) (by omega)
        (htail (unit / 0x40)) (htail unit)
      have hunit : (0xE0 + unit / 0x1000 - 0xE0) * 0x1000 +
          (0x80 + unit / 0x40 % 0x40 - 0x80) * 0x40 + (0x80 + unit % 0x40 - 0x80) = unit := by
        omega
      rwa [ha, hb, hc, hunit] at hgroup

theorem units_lt (c : Char) (unit : Nat) (h : unit ∈ units c) : unit < 0x10000 := by
  have hc := toNat_cases c
  unfold units at h
  split at h
  · rw [List.mem_singleton] at h
    omega
  · simp only [List.mem_cons, List.not_mem_nil, or_false] at h
    omega

theorem utf16_lt (text : String) : ∀ unit ∈ utf16 text, unit < 0x10000 := by
  intro unit hunit
  obtain ⟨c, _, hc⟩ := List.mem_flatMap.mp hunit
  exact units_lt c unit hc

theorem spelled_flatMap_group {list : List Nat} (h : ∀ unit ∈ list, unit < 0x10000) :
    Spelled (list.flatMap group) list := by
  induction list with
  | nil => exact .nil
  | cons unit list ih =>
      rw [List.forall_mem_cons] at h
      exact .cons (spells_group h.1) (ih h.2)

theorem spelled_encode (text : String) : Spelled (encode text) (utf16 text) := by
  have hbytes : encode text = (utf16 text).flatMap group := by
    rw [encode, utf16, List.flatMap_assoc]
  rw [hbytes]
  exact spelled_flatMap_group (utf16_lt text)

-- A text is read back, NUL and supplementary characters included.
theorem decode?_encode (text : String) : decode? (encode text) = some text :=
  decode?_eq_some_iff.mpr (spelled_encode text)

-- Each ASCII character but NUL is one byte.
theorem length_encode_of_ascii {text : String}
    (h : ∀ c ∈ text.toList, 0 < c.toNat ∧ c.toNat < 0x80) :
    (encode text).length = text.toList.length := by
  unfold encode
  generalize text.toList = chars at h ⊢
  induction chars with
  | nil => rfl
  | cons c chars ih =>
      obtain ⟨hc, hchars⟩ := List.forall_mem_cons.mp h
      have hunits : units c = [c.toNat] := if_pos (by omega)
      have hgroup : group c.toNat = [UInt8.ofNat c.toNat] := if_pos hc
      rw [List.flatMap_cons, List.length_append, ih hchars, hunits, List.flatMap_singleton, hgroup,
        List.length_singleton, List.length_cons, Nat.add_comm]

-- No byte of a written text is zero, and the text is read back. What can be read is what spells
-- paired units, and it is read as the text whose units these are.
theorem lossless :
    (∀ text, 0 ∉ encode text ∧ decode? (encode text) = some text) ∧
      (∀ bytes, (decode? bytes).isSome ↔ ∃ list, Spelled bytes list ∧ Paired list) ∧
      ∀ bytes list, Spelled bytes list →
        ∀ text, decode? bytes = some text ↔ utf16 text = list := by
  refine ⟨fun text => ⟨(spelled_encode text).zero_notMem, decode?_encode text⟩,
    fun bytes => ?_, fun bytes list hlist text => ?_⟩
  · rw [Option.isSome_iff_exists]
    constructor
    · rintro ⟨text, htext⟩
      exact ⟨utf16 text, decode?_eq_some_iff.mp htext, paired_utf16 text⟩
    · rintro ⟨list, hlist, hpaired⟩
      obtain ⟨text, rfl⟩ := hpaired.exists_utf16
      exact ⟨text, decode?_eq_some_iff.mpr hlist⟩
  · rw [decode?_eq_some_iff]
    constructor
    · intro htext
      exact htext.unique hlist
    · rintro rfl
      exact hlist

-- A letter that is spelled by two bytes, a NUL, and a character of two surrogates.
theorem lossless_long_letter :
    Spelled [0xC1, 0x81, 0xC0, 0x80, 0xED, 0xA0, 0xBD, 0xED, 0xB8, 0x80]
        [0x41, 0x00, 0xD83D, 0xDE00] ∧
      decode? [0xC1, 0x81, 0xC0, 0x80, 0xED, 0xA0, 0xBD, 0xED, 0xB8, 0x80] =
        some "A\x00😀" := by
  have hspelled : Spelled [0xC1, 0x81, 0xC0, 0x80, 0xED, 0xA0, 0xBD, 0xED, 0xB8, 0x80]
      [0x41, 0x00, 0xD83D, 0xDE00] :=
    .cons (.two (by decide) (by decide) (by decide)) <|
      .cons (.two (by decide) (by decide) (by decide)) <|
        .cons (.three (by decide) (by decide) (by decide) (by decide)) <|
          .cons (.three (by decide) (by decide) (by decide) (by decide)) .nil
  exact ⟨hspelled, (lossless.2.2 _ _ hspelled _).mpr (by decide)⟩

end ApiUnion.ModifiedUtf8
