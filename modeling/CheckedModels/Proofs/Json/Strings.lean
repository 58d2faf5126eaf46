import CheckedModels.Json.Reader
import CheckedModels.Json.Writer
import Mathlib.Data.Nat.Digits.Lemmas
import Mathlib.Tactic.SplitIfs

/-! Strings that are written into a document are read back from it. -/
namespace CheckedModels

namespace Text

theorem hexDigit?_digitChar : ∀ d < 16, hexDigit? (Nat.digitChar d) = some d := by decide

theorem hexValue?_append_singleton (cs : List Char) (c : Char) :
    hexValue? (cs ++ [c]) = (hexValue? cs).bind fun n => (hexDigit? c).map (16 * n + ·) := by
  simp only [hexValue?, List.foldlM_append, List.foldlM_cons, List.foldlM_nil, bind_pure]
  rfl

theorem hexValue?_toDigits (n : Nat) : hexValue? (Nat.toDigits 16 n) = some n := by
  induction n using Nat.strongRecOn with
  | ind n ih =>
    by_cases h : n < 16
    · rw [Nat.toDigits_of_lt_base h]
      simp [hexValue?, hexDigit?_digitChar n h]
    · have hdigit := hexDigit?_digitChar (n % 16) (Nat.mod_lt n (by decide))
      have hrest := ih (n / 16) (by omega)
      rw [Nat.toDigits_of_base_le (by decide) (by omega), hexValue?_append_singleton, hrest, hdigit]
      simp only [Option.bind_some, Option.map_some, Nat.div_add_mod]

theorem hexValue?_zeros (k : Nat) (cs : List Char) :
    hexValue? (List.replicate k '0' ++ cs) = hexValue? cs := by
  induction k with
  | zero => rfl
  | succ k ih =>
    rw [List.replicate_succ, List.cons_append, ← ih]
    rfl

theorem hexValue?_hexPadded (width n : Nat) : hexValue? (hexPadded width n).toList = some n := by
  simp [hexPadded, hexValue?_zeros, hexValue?_toDigits]

theorem length_hexPadded {width n : Nat} (hw : 0 < width) (h : n < 16 ^ width) :
    (hexPadded width n).toList.length = width := by
  have hdigits := Nat.toDigits_length 16 n width hw h
  simp [hexPadded]
  omega

theorem hexFour?_hexPadded {n : Nat} (h : n < 0x10000) (s : List Char) :
    hexFour? ((hexPadded 4 n).toList ++ s) = some n := by
  have hlength : (hexPadded 4 n).toList.length = 4 := length_hexPadded (by decide) h
  have htake : ((hexPadded 4 n).toList ++ s).take 4 = (hexPadded 4 n).toList := by
    exact List.take_left' hlength
  rw [hexFour?, htake, List.length_append, hlength, if_pos (by omega), hexValue?_hexPadded]

end Text

namespace Json

namespace Reader

variable {α β : Type} (c : Cursor)

@[simp] theorem run_bind (x : Reader α) (f : α → Reader β) :
    (x >>= f).run c = (x.run c).bind fun p => (f p.1).run p.2 := rfl

@[simp] theorem run_pure (a : α) : (pure a : Reader α).run c = .ok (a, c) := rfl

@[simp] theorem run_get : (get : Reader Cursor).run c = .ok (c, c) := rfl

@[simp] theorem run_peek? : peek?.run c = .ok (c.rest.head?, c) := rfl

@[simp] theorem run_offset : offset.run c = .ok (c.offset, c) := rfl

@[simp] theorem run_skip (n : Nat) : (skip n).run c = .ok ((), ⟨c.offset + n, c.rest.drop n⟩) := rfl

@[simp] theorem ok_bind (a : α) (f : α → Except ReadError β) : (Except.ok a).bind f = f a := rfl

end Reader

open Reader

theorem run_unicodeEscape {n : Nat} (h : n < 0x10000) (start k : Nat) {s : List Char} (hs : s ≠ []) :
    (unicodeEscape start).run ⟨k, (Text.hexPadded 4 n).toList ++ s⟩ = .ok (n, ⟨k + 4, s⟩) := by
  have hlength : (Text.hexPadded 4 n).toList.length = 4 := Text.length_hexPadded (by decide) h
  have hpos := List.length_pos_of_ne_nil hs
  have hlong : ¬ ((Text.hexPadded 4 n).toList ++ s).length ≤ 4 := by
    rw [List.length_append, hlength]
    omega
  have hdrop : ((Text.hexPadded 4 n).toList ++ s).drop 4 = s := List.drop_left' hlength
  simp only [unicodeEscape, run_bind, run_get, ok_bind, Text.hexFour?_hexPadded h, hlong, if_false, run_skip,
    run_pure, hdrop]

theorem run_escape_simple {c d : Char} (h : Text.simpleEscape? c = some d) (start k : Nat) (s : List Char) :
    (escape start).run ⟨k, c :: s⟩ = .ok (d.toNat, ⟨k + 1, s⟩) := by
  have hc : c ≠ 'u' := by
    rintro rfl
    cases h
  simp only [escape, run_bind, run_peek?, ok_bind, List.head?_cons, h, run_skip, run_pure,
    List.drop_succ_cons, List.drop_zero]

/-- A number that is no first half of a surrogate pair stands for itself. -/
theorem run_escape_unit {n : Nat} (h : n < 0x10000) (hn : Text.isHighSurrogate n = false) (start k : Nat)
    {s : List Char} (hs : s ≠ []) :
    ∃ k', (escape start).run ⟨k, 'u' :: (Text.hexPadded 4 n).toList ++ s⟩ = .ok (n, ⟨k', s⟩) := by
  refine ⟨k + 1 + 4, ?_⟩
  simp only [escape, run_bind, run_peek?, ok_bind, List.cons_append, List.head?_cons, run_skip,
    List.drop_succ_cons, List.drop_zero, run_unicodeEscape h _ _ hs, run_get, hn, Bool.false_and,
    Bool.false_eq_true, if_false, run_pure]

theorem run_escape_pair {high low : Nat} (hh : Text.isHighSurrogate high = true)
    (hl : Text.isLowSurrogate low = true) (start k : Nat) {s : List Char} (hs : s ≠ []) :
    ∃ k', (escape start).run ⟨k, 'u' :: (Text.hexPadded 4 high).toList ++
      ('\\' :: 'u' :: (Text.hexPadded 4 low).toList ++ s)⟩ =
      .ok ((Text.joinSurrogates high low).toNat, ⟨k', s⟩) := by
  have hhigh : high < 0x10000 := by
    simp [Text.isHighSurrogate] at hh
    omega
  have hlow : low < 0x10000 := by
    simp [Text.isLowSurrogate] at hl
    omega
  have hlength : (Text.hexPadded 4 low).toList.length = 4 := Text.length_hexPadded (by decide) hlow
  have hpos := List.length_pos_of_ne_nil hs
  have hlong : 6 < ('\\' :: 'u' :: (Text.hexPadded 4 low).toList ++ s).length := by
    simp only [List.cons_append, List.length_cons, List.length_append, hlength]
    omega
  have hdrop : ((Text.hexPadded 4 low).toList ++ s).drop 4 = s := List.drop_left' hlength
  have hprefix : "\\u".toList.isPrefixOf ('\\' :: 'u' :: ((Text.hexPadded 4 low).toList ++ s)) = true := by
    simp [List.isPrefixOf]
  have hlow' := Text.hexFour?_hexPadded hlow s
  refine ⟨k + 1 + 4 + 6, ?_⟩
  simp only [escape, run_bind, run_peek?, ok_bind, List.cons_append, List.head?_cons, run_skip,
    List.drop_succ_cons, List.drop_zero, run_unicodeEscape hhigh _ _ (List.cons_ne_nil _ _), run_get]
  simp only [List.cons_append] at hlong
  simp only [hh, hprefix, hlong, decide_true, Bool.and_self, if_true, hlow', hl, run_bind, run_skip, ok_bind,
    run_pure, List.drop_succ_cons, hdrop]

section Body

variable (start fuel k : Nat) (done : List Nat) {s : List Char}

theorem run_stringBody_backslash {n k' : Nat} {cs : List Char} (hcs : cs ≠ [])
    (h : (escape k).run ⟨k + 1, cs⟩ = .ok (n, ⟨k', s⟩)) :
    (stringBody start (fuel + 1) done).run ⟨k, '\\' :: cs⟩ =
      (stringBody start fuel (n :: done)).run ⟨k', s⟩ := by
  obtain ⟨c, rest, rfl⟩ := List.exists_cons_of_ne_nil hcs
  simp only [stringBody, run_bind, run_offset, run_peek?, ok_bind, List.head?_cons, run_skip,
    List.drop_succ_cons, List.drop_zero, Option.isNone_some, Bool.false_eq_true, if_false, h]

theorem run_stringBody_plain {c : Char} (hq : c ≠ '"') (hb : c ≠ '\\') (hc : 0x20 ≤ c.toNat) :
    (stringBody start (fuel + 1) done).run ⟨k, c :: s⟩ =
      (stringBody start fuel (c.toNat :: done)).run ⟨k + 1, s⟩ := by
  have hcontrol : ¬ c.toNat < 0x20 := by omega
  simp only [stringBody, run_bind, run_offset, run_peek?, ok_bind, List.head?_cons, run_skip,
    List.drop_succ_cons, List.drop_zero, hcontrol, if_false]

theorem run_stringBody_quote : (stringBody start (fuel + 1) done).run ⟨k, '"' :: s⟩ =
    .ok (Text.ofCodes done.reverse, ⟨k + 1, s⟩) := by
  simp only [stringBody, run_bind, run_offset, run_peek?, ok_bind, List.head?_cons, run_skip,
    List.drop_succ_cons, List.drop_zero, run_pure]

inductive Escaped (c : Char) : List Char → Prop where
  | simple {e : Char} (h : Text.simpleEscape? e = some c) : Escaped c ['\\', e]
  | plain (hq : c ≠ '"') (hb : c ≠ '\\') (hc : 0x20 ≤ c.toNat) : Escaped c [c]
  | unit (h : c.toNat < 0x10000) : Escaped c ('\\' :: 'u' :: (Text.hexPadded 4 c.toNat).toList)
  | pair {high low : Nat} (hh : Text.isHighSurrogate high = true) (hl : Text.isLowSurrogate low = true)
    (h : Text.joinSurrogates high low = c) : Escaped c ('\\' :: 'u' :: (Text.hexPadded 4 high).toList ++
      '\\' :: 'u' :: (Text.hexPadded 4 low).toList)

theorem toNat_valid (c : Char) : c.toNat < 0xD800 ∨ 0xDFFF < c.toNat ∧ c.toNat < 0x110000 := c.valid

theorem isSurrogate_toNat (c : Char) : Text.isSurrogate c.toNat = false := by
  have hvalid := toNat_valid c
  refine Bool.eq_false_iff.mpr fun h => ?_
  have hrange := (Text.isSurrogate_iff _).mp h
  omega

theorem toList_unitText (n : Nat) :
    (unitText n).toList = '\\' :: 'u' :: (Text.hexPadded 4 n).toList := by
  simp [unitText, String.toList_append]

theorem joinSurrogates_split {c : Char} (h : 0x10000 ≤ c.toNat) :
    Text.isHighSurrogate (0xD800 + (c.toNat - 0x10000) / 0x400) = true ∧
      Text.isLowSurrogate (0xDC00 + (c.toNat - 0x10000) % 0x400) = true ∧
      Text.joinSurrogates (0xD800 + (c.toNat - 0x10000) / 0x400)
        (0xDC00 + (c.toNat - 0x10000) % 0x400) = c := by
  have hvalid := toNat_valid c
  refine ⟨?_, ?_, ?_⟩
  · simp only [Text.isHighSurrogate, Bool.and_eq_true, decide_eq_true_eq]
    omega
  · simp only [Text.isLowSurrogate, Bool.and_eq_true, decide_eq_true_eq]
    omega
  · have hcode : 0x10000 + (0xD800 + (c.toNat - 0x10000) / 0x400 - 0xD800) * 0x400 +
        (0xDC00 + (c.toNat - 0x10000) % 0x400 - 0xDC00) = c.toNat := by omega
    rw [Text.joinSurrogates, hcode, Char.ofNat_toNat]

theorem escaped_escapedCode (c : Char) : Escaped c (escapedCode c.toNat).toList := by
  have hsimple {d e : Char} (hc : c.toNat = d.toNat) (hd : Text.simpleEscape? e = some d) :
      Escaped c ['\\', e] := by
    obtain rfl : c = d := Char.toNat_inj.mp hc
    exact .simple hd
  unfold escapedCode
  split_ifs with hquote hbackslash hn hr ht hb hf hplain hunit
  · exact hsimple hquote rfl
  · exact hsimple hbackslash rfl
  · exact hsimple hn rfl
  · exact hsimple hr rfl
  · exact hsimple ht rfl
  · exact hsimple (d := '\x08') hb rfl
  · exact hsimple (d := '\x0c') hf rfl
  · have hlist : c.toString.toList = [c] := by simp
    rw [Char.ofNat_toNat, hlist]
    simp only [Bool.and_eq_true, decide_eq_true_eq] at hplain
    refine .plain ?_ ?_ hplain.1
    · rintro rfl
      exact hquote rfl
    · rintro rfl
      exact hbackslash rfl
  · rw [toList_unitText]
    exact .unit hunit
  · obtain ⟨hh, hl, hjoin⟩ := joinSurrogates_split (c := c) (by omega)
    rw [String.toList_append, toList_unitText, toList_unitText]
    exact .pair hh hl hjoin

/-- What is written for a character is read as that character. -/
theorem Escaped.run_stringBody {c : Char} {cs : List Char} (h : Escaped c cs) (hs : s ≠ []) :
    ∃ k', (stringBody start (fuel + 1) done).run ⟨k, cs ++ s⟩ =
      (stringBody start fuel (c.toNat :: done)).run ⟨k', s⟩ := by
  cases h with
  | simple h =>
    have hescape := run_escape_simple h k (k + 1) s
    exact ⟨_, run_stringBody_backslash _ _ _ _ (List.cons_ne_nil _ _) hescape⟩
  | plain hq hb hc => exact ⟨_, run_stringBody_plain _ _ _ _ hq hb hc⟩
  | unit h =>
    have hhigh : Text.isHighSurrogate c.toNat = false := (Bool.or_eq_false_iff.mp (isSurrogate_toNat c)).1
    obtain ⟨k', hescape⟩ := run_escape_unit h hhigh k (k + 1) hs
    exact ⟨k', run_stringBody_backslash _ _ _ _ (List.cons_ne_nil _ _) hescape⟩
  | pair hh hl h =>
    obtain ⟨k', hescape⟩ := run_escape_pair hh hl k (k + 1) hs
    refine ⟨k', ?_⟩
    rw [← h, List.append_assoc]
    exact run_stringBody_backslash _ _ _ _ (List.cons_ne_nil _ _) hescape

theorem run_stringBody (cs : List Char) (hfuel : cs.length < fuel) : ∃ k',
    (stringBody start fuel done).run
      ⟨k, (cs.flatMap fun c => (escapedCode c.toNat).toList) ++ '"' :: s⟩ =
      .ok (Text.ofCodes (done.reverse ++ cs.map Char.toNat), ⟨k', s⟩) := by
  induction cs generalizing fuel k done with
  | nil =>
    obtain ⟨n, rfl⟩ := Nat.exists_eq_add_one.mpr hfuel
    refine ⟨k + 1, ?_⟩
    simpa using run_stringBody_quote start n k done
  | cons c rest ih =>
    obtain ⟨n, rfl⟩ := Nat.exists_eq_add_one.mpr (Nat.zero_lt_of_lt hfuel)
    let tail := (rest.flatMap fun c => (escapedCode c.toNat).toList) ++ '"' :: s
    have htail : tail ≠ [] := by simp [tail]
    obtain ⟨k₁, hhead⟩ := (escaped_escapedCode c).run_stringBody start n k done htail
    obtain ⟨k₂, hrest⟩ := ih n k₁ (c.toNat :: done) (by simpa using hfuel)
    refine ⟨k₂, ?_⟩
    rw [List.flatMap_cons, List.append_assoc, hhead, hrest]
    simp

end Body

theorem ofCodes_toNat (t : String) : Text.ofCodes (t.toList.map Char.toNat) = .whole t := by
  have hany : (t.toList.map Char.toNat).any Text.isSurrogate = false := by
    simp [List.any_map, isSurrogate_toNat]
  have hmap : (t.toList.map Char.toNat).map Char.ofNat = t.toList := by
    simp [List.map_map, Function.comp_def, Char.ofNat_toNat]
  rw [Text.ofCodes, dif_neg (by simp [hany]), hmap, String.ofList_toList]

theorem toList_stringText (t : String) : (stringText (.whole t)).toList =
    '"' :: ((t.toList.flatMap fun c => (escapedCode c.toNat).toList) ++ ['"']) := by
  simp [stringText, Text.codes, String.toList_append, String.toList_join, List.flatMap_map]

theorem length_le_escaped (cs : List Char) :
    cs.length ≤ (cs.flatMap fun c => (escapedCode c.toNat).toList).length := by
  induction cs with
  | nil => exact Nat.le_refl 0
  | cons c rest ih =>
    have hpos : 0 < (escapedCode c.toNat).toList.length := by
      have hescaped := escaped_escapedCode c
      generalize (escapedCode c.toNat).toList = text at hescaped
      cases hescaped <;> simp
    rw [List.flatMap_cons, List.length_append, List.length_cons]
    omega

/-- A string that is written is read back, whatever follows. -/
theorem run_string (t : String) (k : Nat) (s : List Char) :
    ∃ k', string.run ⟨k, (stringText (.whole t)).toList ++ s⟩ = .ok (.whole t, ⟨k', s⟩) := by
  let body := t.toList.flatMap fun c => (escapedCode c.toNat).toList
  have hfuel : t.toList.length < (body ++ '"' :: s).length + 1 := by
    have hle : t.toList.length ≤ body.length := length_le_escaped t.toList
    rw [List.length_append]
    omega
  obtain ⟨k', hbody⟩ := run_stringBody k _ (k + 1) [] t.toList hfuel (s := s)
  refine ⟨k', ?_⟩
  rw [toList_stringText]
  simp only [string, run_bind, run_offset, ok_bind, run_skip, run_get, List.cons_append, List.drop_succ_cons,
    List.drop_zero, List.append_assoc, List.nil_append]
  rw [hbody, List.reverse_nil, List.nil_append, ofCodes_toNat]

/-- What comes after a string can be told from the string. -/
theorem stringText_append_inj {t u : String} {s s' : List Char}
    (h : (stringText (.whole t)).toList ++ s = (stringText (.whole u)).toList ++ s') : t = u ∧ s = s' := by
  obtain ⟨k, ht⟩ := run_string t 0 s
  obtain ⟨l, hu⟩ := run_string u 0 s'
  rw [h, hu] at ht
  simp only [Except.ok.injEq, Prod.mk.injEq, Text.whole.injEq, Cursor.mk.injEq] at ht
  exact ⟨ht.1.symm, ht.2.2.symm⟩

end Json

end CheckedModels
