import Std.Data.String.ToNat
import Rebalancer.Route.Text

set_option autoImplicit false

/-! # Routes are read back as they were written

A half is written as its short channel id, a slash and its direction, and a route as its halves with
commas between them. The direction has neither of the two in it, so the last slash ends the id, and
a comma ends a half if no id has one. Then reading undoes writing (`parseHalves_describeHalves`).
What was read from any text has no comma in its ids, so it can be written and read again
(`routes_read_back`).
-/

namespace Rebalancer

namespace Text

/-! ## Cutting -/

theorem splitChars_eq_splitOn (sep : Char) (s : List Char) : splitChars sep s = s.splitOn sep := by
  induction s with
  | nil => rfl
  | cons c rest ih =>
      rw [List.splitOn_cons_eq_if_modifyHead, splitChars]
      by_cases hc : c = sep
      · rw [if_pos hc, if_pos (beq_iff_eq.mpr hc), ih]
      · rw [if_neg hc, if_neg fun h => hc (beq_iff_eq.mp h), ih]
        cases hsplit : rest.splitOn sep with
        | nil => exact absurd hsplit (List.splitOn_ne_nil sep rest)
        | cons piece pieces => rfl

/-- No piece has the separator in it. -/
theorem not_mem_of_mem_splitChars {sep : Char} {s piece : List Char}
    (h : piece ∈ splitChars sep s) : sep ∉ piece := by
  induction s generalizing piece with
  | nil =>
      rw [List.mem_singleton.mp h]
      exact List.not_mem_nil
  | cons c rest ih =>
      rw [splitChars] at h
      by_cases hc : c = sep
      · rw [if_pos hc] at h
        rcases List.mem_cons.mp h with rfl | h
        · exact List.not_mem_nil
        · exact ih h
      · rw [if_neg hc] at h
        -- The character joins the first of the pieces that follow.
        cases hrest : splitChars sep rest with
        | nil =>
            rw [hrest] at h
            rw [List.mem_singleton.mp h, List.mem_singleton]
            exact fun heq => hc heq.symm
        | cons first pieces =>
            rw [hrest] at h ih
            rcases List.mem_cons.mp h with rfl | h
            · rw [List.mem_cons, not_or]
              exact ⟨fun heq => hc heq.symm, ih List.mem_cons_self⟩
            · exact ih (List.mem_cons_of_mem first h)

theorem splitLast_eq_none {sep : Char} {s : List Char} (h : sep ∉ s) : splitLast sep s = none := by
  induction s with
  | nil => rfl
  | cons c rest ih =>
      rw [List.mem_cons, not_or] at h
      obtain ⟨hc, hrest⟩ := h
      rw [splitLast, ih hrest]
      exact if_neg fun heq => hc heq.symm

/-- A separator is the last one if none comes after it. -/
theorem splitLast_append {sep : Char} (before : List Char) {after : List Char} (h : sep ∉ after) :
    splitLast sep (before ++ sep :: after) = some (before, after) := by
  induction before with
  | nil =>
      rw [List.nil_append, splitLast, splitLast_eq_none h]
      exact if_pos rfl
  | cons c rest ih => rw [List.cons_append, splitLast, ih]

/-- What stands before and after the last separator is all of the text but the separator. -/
theorem eq_append_of_splitLast {sep : Char} {s before after : List Char}
    (h : splitLast sep s = some (before, after)) : s = before ++ sep :: after := by
  induction s generalizing before with
  | nil => cases h
  | cons c rest ih =>
      rw [splitLast] at h
      cases hrest : splitLast sep rest with
      | some parts =>
          rw [hrest] at h
          cases h
          rw [ih hrest, List.cons_append]
      | none =>
          rw [hrest] at h
          dsimp only at h
          split at h
          · rename_i hc
            cases h
            rw [hc, List.nil_append]
          · cases h

/-! ## Numerals -/

theorem not_mem_toDigits {c : Char} (h : c.isDigit = false) (n : Nat) : c ∉ Nat.toDigits 10 n := by
  intro hmem
  rw [Nat.isDigit_of_mem_toDigits (by decide) (by decide) hmem] at h
  cases h

/-- A number is read back from its digits. -/
theorem readNat?_toDigits {limit n : Nat} (h : n ≤ limit) :
    readNat? limit (Nat.toDigits 10 n) = some n := by
  have hdigits : (Nat.toDigits 10 n).all isDigit = true := by
    rw [List.all_eq_true]
    exact fun c hc => Nat.isDigit_of_mem_toDigits (by decide) (by decide) hc
  have hvalue : decimalValue (Nat.toDigits 10 n) = n :=
    Nat.ofDigitChars_eq_foldl.symm.trans Nat.ofDigitChars_ten_toDigits
  have hread : readDigits? (Nat.toDigits 10 n) = some n := by
    rw [readDigits?, if_neg (by simp [hdigits, Nat.toDigits_ne_nil]), hvalue]
  unfold readNat?
  dsimp only
  split
  · rename_i rest hplus
    exact absurd (hplus ▸ List.mem_cons_self) (not_mem_toDigits (c := '+') rfl n)
  · rw [hread, Option.filter_some, if_pos (decide_eq_true h)]

end Text

/-! ## Halves -/

theorem HalfId.toList_text (id : HalfId) :
    id.text.toList = id.scid.toList ++ '/' :: Nat.toDigits 10 id.direction.toNat := by
  rw [text, String.toList_append, String.toList_append, List.append_assoc]
  show _ ++ ('/' :: (Nat.repr _).toList) = _
  rw [Nat.toList_repr]

theorem HalfId.ofChars?_text (id : HalfId) : HalfId.ofChars? id.text.toList = some id := by
  have hslash : '/' ∉ Nat.toDigits 10 id.direction.toNat := Text.not_mem_toDigits rfl _
  have hlimit : id.direction.toNat ≤ 255 := Nat.le_of_lt_succ id.direction.toNat_lt
  rw [ofChars?, toList_text, Text.splitLast_append _ hslash]
  dsimp only
  rw [Text.readNat?_toDigits hlimit, Option.map_some, String.ofList_toList, UInt8.ofNat_toNat]

theorem HalfId.comma_not_mem_text {id : HalfId} (h : ',' ∉ id.scid.toList) :
    ',' ∉ id.text.toList := by
  rw [toList_text, List.mem_append, List.mem_cons]
  rintro (hscid | hslash | hdigit)
  · exact h hscid
  · cases hslash
  · exact Text.not_mem_toDigits rfl _ hdigit

/-- The id of a half has no character that the text does not have. -/
theorem HalfId.comma_not_mem_of_ofChars? {s : List Char} {id : HalfId}
    (h : HalfId.ofChars? s = some id) (hs : ',' ∉ s) : ',' ∉ id.scid.toList := by
  unfold ofChars? at h
  split at h
  · cases h
  · rename_i scid direction hcut
    obtain ⟨n, -, rfl⟩ := Option.map_eq_some_iff.mp h
    rw [Text.eq_append_of_splitLast hcut] at hs
    rw [String.toList_ofList]
    exact fun hmem => hs (List.mem_append_left _ hmem)

/-! ## Routes -/

/-- No short channel id of the halves has a comma in it. -/
def CommaFree (ids : List HalfId) : Prop := ∀ id ∈ ids, ',' ∉ id.scid.toList

instance : DecidablePred CommaFree := fun ids =>
  inferInstanceAs (Decidable (∀ id ∈ ids, ',' ∉ id.scid.toList))

theorem parseHalves_describeHalves {ids : List HalfId} (h : CommaFree ids) :
    parseHalves (describeHalves ids) = ids := by
  cases ids with
  | nil => rfl
  | cons id rest =>
      have hpieces : ∀ piece ∈ ((id :: rest).map HalfId.text).map String.toList, ',' ∉ piece := by
        simp only [List.mem_map]
        rintro _ ⟨_, ⟨id', hid', rfl⟩, rfl⟩
        exact HalfId.comma_not_mem_text (h id' hid')
      have hcut : Text.splitChars ',' (describeHalves (id :: rest)).toList =
          ((id :: rest).map HalfId.text).map String.toList := by
        rw [Text.splitChars_eq_splitOn, describeHalves, String.toList_intercalate]
        exact List.splitOn_intercalate ',' hpieces (by simp)
      have hread : HalfId.ofChars? ∘ String.toList ∘ HalfId.text = some :=
        funext HalfId.ofChars?_text
      rw [parseHalves, hcut, List.map_map, List.filterMap_map, hread, List.filterMap_some]

theorem commaFree_parseHalves (s : String) : CommaFree (parseHalves s) := by
  intro id hid
  obtain ⟨piece, hpiece, hread⟩ := List.mem_filterMap.mp hid
  exact HalfId.comma_not_mem_of_ofChars? hread (Text.not_mem_of_mem_splitChars hpiece)

/-- A list of halves is read back from its written form just if no id has a comma in it. This form
is that of a route over the halves. Whatever was read from some text is read back from its own
written form, though that may be another text. -/
theorem routes_read_back :
    (∀ ids, parseHalves (describeHalves ids) = ids ↔ CommaFree ids) ∧
      (∀ route : Route, route.describe = describeHalves route.halfIds) ∧
      ∀ s, parseHalves (describeHalves (parseHalves s)) = parseHalves s := by
  refine ⟨fun ids => ⟨fun h => ?_, parseHalves_describeHalves⟩, fun route => ?_, fun s => ?_⟩
  · rw [← h]
    exact commaFree_parseHalves _
  · rw [Route.describe, describeHalves, Route.halfIds, List.map_map]
    rfl
  · exact parseHalves_describeHalves (commaFree_parseHalves s)

/-- Slashes and blanks belong to the id, the direction may have a sign and zeros in front, and a
part without direction, or with one that is too large, is dropped. -/
example : parseHalves "1/x y/1,/255,5,a/+007,b/256" = [⟨"1/x y", 1⟩, ⟨"", 255⟩, ⟨"a", 7⟩] := by
  decide +kernel

end Rebalancer
