import ManInTheBox.Library.Utf8

/-! # Texts by byte offsets

A text can be taken apart between two characters only, and positions in it are counted in
the bytes of its encoding. A search yields an offset at which the text can be taken apart.
-/

namespace ManInTheBox.Library

/-- The length of the encoding. -/
def byteLength (text : List Char) : ℕ := (text.map Char.utf8Size).sum

/-- The two parts of a text at an offset, if there is no character across it. -/
def splitAtByte : ℕ → List Char → Option (List Char × List Char)
  | 0, text => some ([], text)
  | _ + 1, [] => none
  | n + 1, c :: text =>
    if c.utf8Size ≤ n + 1 then
      (splitAtByte (n + 1 - c.utf8Size) text).map fun parts => (c :: parts.1, parts.2)
    else none

/-- `&text[..index]`, which panics inside a character. -/
def sliceTo (index : ℕ) (text : List Char) : Option (List Char) :=
  (splitAtByte index text).map Prod.fst

/-- `&text[index..]` -/
def sliceFrom (index : ℕ) (text : List Char) : Option (List Char) :=
  (splitAtByte index text).map Prod.snd

/-- `is_char_boundary`, which looks at the byte behind the index. -/
def isCharBoundary (text : List Char) (index : ℕ) : Bool :=
  if index = 0 then true
  else if byteLength text ≤ index then decide (index = byteLength text)
  else (encodeUtf8 text)[index]?.any fun byte => !isContinuationByte byte

/-- The offset of the first character that meets a condition. -/
def findChar (p : Char → Bool) : List Char → Option ℕ
  | [] => none
  | c :: text => if p c then some 0 else (findChar p text).map (c.utf8Size + ·)

/-- The offset of the last character that meets a condition. -/
def rfindChar (p : Char → Bool) : List Char → Option ℕ
  | [] => none
  | c :: text =>
    match rfindChar p text with
    | some n => some (c.utf8Size + n)
    | none => if p c then some 0 else none

/-- The two sides of the first place where the separator stands. -/
def splitOnce (separator : List Char) : List Char → Option (List Char × List Char)
  | [] => if separator = [] then some ([], []) else none
  | c :: text =>
    if separator.isPrefixOf (c :: text) then some ([], (c :: text).drop separator.length)
    else (splitOnce separator text).map fun parts => (c :: parts.1, parts.2)

variable {text before after : List Char} {c : Char} {p : Char → Bool} {n : ℕ}

/-! ## Lengths -/

@[simp] theorem byteLength_nil : byteLength [] = 0 := rfl

@[simp] theorem byteLength_cons (c : Char) (text : List Char) :
    byteLength (c :: text) = c.utf8Size + byteLength text := by
  simp [byteLength]

@[simp] theorem byteLength_append (before after : List Char) :
    byteLength (before ++ after) = byteLength before + byteLength after := by
  simp [byteLength]

theorem byteLength_pos (h : text ≠ []) : 0 < byteLength text := by
  cases text with
  | nil => exact absurd rfl h
  | cons c text =>
    rw [byteLength_cons]
    exact Nat.add_pos_left c.utf8Size_pos _

/-! ## Taking a text apart -/

theorem splitAtByte_append (before after : List Char) :
    splitAtByte (byteLength before) (before ++ after) = some (before, after) := by
  induction before with
  | nil => cases after <;> rfl
  | cons c before ih =>
    have hpos := c.utf8Size_pos
    obtain ⟨n, hn⟩ : ∃ n, byteLength (c :: before) = n + 1 :=
      Nat.exists_eq_succ_of_ne_zero (byteLength_pos (List.cons_ne_nil c before)).ne'
    have hrest : n + 1 - c.utf8Size = byteLength before := by
      rw [← hn, byteLength_cons, Nat.add_sub_cancel_left]
    rw [hn, List.cons_append, splitAtByte, if_pos (by rw [← hn]; simp), hrest, ih]
    rfl

theorem splitAtByte_eq_some_iff :
    splitAtByte n text = some (before, after) ↔ text = before ++ after ∧ byteLength before = n := by
  constructor
  · intro h
    induction text generalizing n before with
    | nil =>
      cases n with
      | zero =>
        obtain ⟨rfl, rfl⟩ := Prod.mk.inj (Option.some.inj h)
        exact ⟨rfl, rfl⟩
      | succ n => cases h
    | cons c text ih =>
      cases n with
      | zero =>
        obtain ⟨rfl, rfl⟩ := Prod.mk.inj (Option.some.inj h)
        exact ⟨rfl, rfl⟩
      | succ n =>
        rw [splitAtByte] at h
        split at h
        · rename_i hsize
          obtain ⟨⟨front, back⟩, hsplit, hparts⟩ := Option.map_eq_some_iff.mp h
          obtain ⟨rfl, rfl⟩ := Prod.mk.inj hparts
          obtain ⟨rfl, hlength⟩ := ih hsplit
          refine ⟨rfl, ?_⟩
          rw [byteLength_cons, hlength]
          omega
        · cases h
  · rintro ⟨rfl, rfl⟩
    exact splitAtByte_append before after

@[simp] theorem sliceTo_append (before after : List Char) :
    sliceTo (byteLength before) (before ++ after) = some before := by
  rw [sliceTo, splitAtByte_append]
  rfl

@[simp] theorem sliceFrom_append (before after : List Char) :
    sliceFrom (byteLength before) (before ++ after) = some after := by
  rw [sliceFrom, splitAtByte_append]
  rfl

theorem sliceTo_eq_some_iff :
    sliceTo n text = some before ↔ before <+: text ∧ byteLength before = n := by
  rw [sliceTo, Option.map_eq_some_iff]
  constructor
  · rintro ⟨⟨front, back⟩, hsplit, rfl⟩
    obtain ⟨rfl, hlength⟩ := splitAtByte_eq_some_iff.mp hsplit
    exact ⟨List.prefix_append _ _, hlength⟩
  · rintro ⟨⟨after, rfl⟩, rfl⟩
    exact ⟨_, splitAtByte_append before after, rfl⟩

/-! ## Boundaries -/

/-- All bytes of a character but the first one go on with it. -/
theorem isContinuationByte_getElem?_encodeChar {i : ℕ} {byte : UInt8}
    (h : (String.utf8EncodeChar c)[i]? = some byte) :
    isContinuationByte byte = true ↔ i ≠ 0 := by
  have hrange : isContinuationByte byte = true ↔ 0x80 ≤ byte.toNat ∧ byte.toNat ≤ 0xbf := by
    simp [isContinuationByte, UInt8.le_iff_toNat_le]
  rw [hrange]
  unfold String.utf8EncodeChar at h
  simp only at h
  split_ifs at h with hone htwo hthree
  · cases i with
    | zero =>
      obtain rfl := Option.some.inj h
      rw [UInt8.toNat_ofNat', Nat.mod_eq_of_lt (by omega)]
      omega
    | succ i => cases h
  · rcases i with _ | _ | i
    all_goals
      first
        | obtain rfl := Option.some.inj h
          rw [toNat_ofNat_add _ _ (by omega)]
          omega
        | cases h
  · rcases i with _ | _ | _ | i
    all_goals
      first
        | obtain rfl := Option.some.inj h
          rw [toNat_ofNat_add _ _ (by omega)]
          omega
        | cases h
  · rcases i with _ | _ | _ | _ | i
    all_goals
      first
        | obtain rfl := Option.some.inj h
          rw [toNat_ofNat_add _ _ (by omega)]
          omega
        | cases h

theorem getElem?_encodeUtf8_cons_of_lt {i : ℕ} (hi : i < c.utf8Size) :
    (encodeUtf8 (c :: text))[i]? = (String.utf8EncodeChar c)[i]? := by
  rw [encodeUtf8_cons, List.getElem?_append_left (by simpa using hi)]

theorem getElem?_encodeUtf8_cons_add (c : Char) (text : List Char) (i : ℕ) :
    (encodeUtf8 (c :: text))[c.utf8Size + i]? = (encodeUtf8 text)[i]? := by
  rw [encodeUtf8_cons, List.getElem?_append_right (by simp)]
  simp

/-- Behind a character, the boundaries are those of what follows. -/
theorem isCharBoundary_cons_add (c : Char) (text : List Char) (n : ℕ) :
    isCharBoundary (c :: text) (c.utf8Size + n) = isCharBoundary text n := by
  have hpos := c.utf8Size_pos
  rw [isCharBoundary, isCharBoundary, if_neg (by omega), byteLength_cons,
    getElem?_encodeUtf8_cons_add]
  by_cases hn : n = 0
  · subst hn
    rw [if_pos rfl]
    cases text with
    | nil => simp
    | cons d text =>
      have hsize := d.utf8Size_pos
      obtain ⟨byte, hbyte⟩ : ∃ byte, (String.utf8EncodeChar d)[0]? = some byte :=
        ⟨_, List.getElem?_eq_getElem (by simpa using hsize)⟩
      rw [if_neg (by simp; omega), getElem?_encodeUtf8_cons_of_lt hsize, hbyte]
      simpa using (isContinuationByte_getElem?_encodeChar hbyte).not.mpr (by simp)
  · rw [if_neg hn]
    simp

theorem isCharBoundary_of_lt (hpos : 0 < n) (hn : n < c.utf8Size) :
    isCharBoundary (c :: text) n = false := by
  obtain ⟨byte, hbyte⟩ : ∃ byte, (String.utf8EncodeChar c)[n]? = some byte :=
    ⟨_, List.getElem?_eq_getElem (by simpa using hn)⟩
  rw [isCharBoundary, if_neg hpos.ne', if_neg (by simp; omega), getElem?_encodeUtf8_cons_of_lt hn,
    hbyte]
  simpa using (isContinuationByte_getElem?_encodeChar hbyte).mpr hpos.ne'

/-- The byte behind an index tells whether the text can be taken apart there. -/
theorem isCharBoundary_iff :
    isCharBoundary text n = true ↔ ∃ before, before <+: text ∧ byteLength before = n := by
  induction text generalizing n with
  | nil =>
    by_cases hn : n = 0
    · simp [isCharBoundary, hn]
    · simp [isCharBoundary, Ne.symm hn, hn]
  | cons c text ih =>
    by_cases hzero : n = 0
    · subst hzero
      exact iff_of_true rfl ⟨[], List.nil_prefix, rfl⟩
    by_cases hlt : n < c.utf8Size
    · refine iff_of_false (by simp [isCharBoundary_of_lt (Nat.pos_of_ne_zero hzero) hlt]) ?_
      rintro ⟨before, hprefix, hlength⟩
      cases before with
      | nil => exact hzero hlength.symm
      | cons d before =>
        obtain rfl := (List.cons_prefix_cons.mp hprefix).1
        rw [byteLength_cons] at hlength
        omega
    · obtain ⟨k, rfl⟩ := Nat.exists_eq_add_of_le (not_lt.mp hlt)
      rw [isCharBoundary_cons_add, ih]
      constructor
      · rintro ⟨before, hprefix, rfl⟩
        exact ⟨c :: before, List.cons_prefix_cons.mpr ⟨rfl, hprefix⟩, rfl⟩
      · rintro ⟨before, hprefix, hlength⟩
        cases before with
        | nil => exact absurd hlength.symm hzero
        | cons d before =>
          obtain ⟨rfl, hrest⟩ := List.cons_prefix_cons.mp hprefix
          rw [byteLength_cons] at hlength
          exact ⟨before, hrest, by omega⟩

/-! ## Searches -/

theorem findChar_append (hbefore : ∀ d ∈ before, p d = false) (hc : p c = true)
    (after : List Char) : findChar p (before ++ c :: after) = some (byteLength before) := by
  induction before with
  | nil => simp [findChar, hc]
  | cons d before ih =>
    have hd : p d = false := hbefore d List.mem_cons_self
    rw [List.cons_append, findChar, hd, ih fun e he => hbefore e (List.mem_cons_of_mem _ he)]
    simp

theorem findChar_eq_none_iff : findChar p text = none ↔ ∀ c ∈ text, p c = false := by
  induction text with
  | nil => simp [findChar]
  | cons c text ih =>
    cases hc : p c with
    | true => simp [findChar, hc]
    | false => simp [findChar, hc, ih]

theorem findChar_eq_some_iff :
    findChar p text = some n ↔ ∃ before c after, text = before ++ c :: after ∧ p c = true ∧
      (∀ d ∈ before, p d = false) ∧ byteLength before = n := by
  constructor
  · intro h
    induction text generalizing n with
    | nil => cases h
    | cons c text ih =>
      cases hc : p c with
      | true =>
        rw [findChar, if_pos hc] at h
        exact ⟨[], c, text, rfl, hc, by simp, Option.some.inj h⟩
      | false =>
        rw [findChar, if_neg (by simp [hc])] at h
        obtain ⟨k, hk, rfl⟩ := Option.map_eq_some_iff.mp h
        obtain ⟨before, d, after, rfl, hd, hbefore, rfl⟩ := ih hk
        refine ⟨c :: before, d, after, rfl, hd, ?_, byteLength_cons c before⟩
        intro e he
        rcases List.mem_cons.mp he with rfl | he
        · exact hc
        · exact hbefore e he
  · rintro ⟨before, c, after, rfl, hc, hbefore, rfl⟩
    exact findChar_append hbefore hc after

theorem rfindChar_eq_none_iff : rfindChar p text = none ↔ ∀ c ∈ text, p c = false := by
  induction text with
  | nil => simp [rfindChar]
  | cons c text ih =>
    rw [rfindChar, List.forall_mem_cons]
    cases hrest : rfindChar p text with
    | some k => simp [← ih, hrest]
    | none =>
      have hall := ih.mp hrest
      cases hc : p c with
      | true => simp
      | false => exact iff_of_true rfl ⟨rfl, hall⟩

theorem rfindChar_append (before : List Char) (hc : p c = true)
    (hafter : ∀ d ∈ after, p d = false) :
    rfindChar p (before ++ c :: after) = some (byteLength before) := by
  induction before with
  | nil =>
    rw [List.nil_append, rfindChar, rfindChar_eq_none_iff.mpr hafter, if_pos hc, byteLength_nil]
  | cons d before ih => rw [List.cons_append, rfindChar, ih, byteLength_cons]

/-- The separator stands between the two parts, and nowhere further to the left. -/
theorem splitOnce_eq_some_iff {separator : List Char} :
    splitOnce separator text = some (before, after) ↔
      text = before ++ separator ++ after ∧
        ∀ front back, text = front ++ separator ++ back → before.length ≤ front.length := by
  induction text generalizing before with
  | nil =>
    rw [splitOnce]
    split
    · rename_i hnil
      subst hnil
      simp only [Option.some.injEq, Prod.mk.injEq, List.append_nil]
      constructor
      · rintro ⟨rfl, rfl⟩
        exact ⟨rfl, fun front back _ => Nat.zero_le _⟩
      · rintro ⟨hparts, -⟩
        obtain ⟨rfl, rfl⟩ := List.append_eq_nil_iff.mp hparts.symm
        exact ⟨rfl, rfl⟩
    · rename_i hne
      refine iff_of_false (by simp) ?_
      rintro ⟨hparts, -⟩
      obtain ⟨hfront, -⟩ := List.append_eq_nil_iff.mp hparts.symm
      exact hne (List.append_eq_nil_iff.mp hfront).2
  | cons c text ih =>
    rw [splitOnce]
    split
    · rename_i hprefix
      obtain ⟨rest, hrest⟩ := List.isPrefixOf_iff_prefix.mp hprefix
      rw [← hrest, List.drop_left]
      constructor
      · intro h
        obtain ⟨rfl, rfl⟩ := Prod.mk.inj (Option.some.inj h)
        exact ⟨rfl, fun front back _ => Nat.zero_le _⟩
      · rintro ⟨hparts, hfirst⟩
        obtain rfl : before = [] := List.length_eq_zero_iff.mp (Nat.le_zero.mp (hfirst [] rest rfl))
        rw [List.nil_append] at hparts
        rw [List.append_cancel_left hparts]
    · rename_i hnot
      have hnone : ∀ front back, c :: text = front ++ separator ++ back → front ≠ [] := by
        rintro front back hparts rfl
        exact hnot (List.isPrefixOf_iff_prefix.mpr ⟨back, hparts.symm⟩)
      constructor
      · intro h
        obtain ⟨⟨front, back⟩, hsplit, hparts⟩ := Option.map_eq_some_iff.mp h
        obtain ⟨rfl, rfl⟩ := Prod.mk.inj hparts
        obtain ⟨rfl, hfirst⟩ := ih.mp hsplit
        refine ⟨rfl, fun front' back' hparts => ?_⟩
        cases front' with
        | nil => exact absurd rfl (hnone _ _ hparts)
        | cons d front' =>
          exact Nat.succ_le_succ (hfirst front' back' (List.cons.inj hparts).2)
      · rintro ⟨hparts, hfirst⟩
        cases before with
        | nil => exact absurd rfl (hnone _ _ hparts)
        | cons d before =>
          obtain ⟨rfl, htext⟩ := List.cons.inj hparts
          have hsplit : splitOnce separator text = some (before, after) := by
            refine ih.mpr ⟨htext, fun front back hback => ?_⟩
            have hle := hfirst (c :: front) back (by rw [hback]; rfl)
            exact Nat.le_of_succ_le_succ hle
          rw [hsplit]
          rfl

end ManInTheBox.Library
