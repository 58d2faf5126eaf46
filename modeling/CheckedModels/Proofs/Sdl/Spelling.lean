import CheckedModels.Sdl.Lexer

/-! How the tokens of a schema text are spelled, and that the lexer reads every spelling. -/
namespace CheckedModels.Sdl

/-- What no digit, name or point of a longer number may follow. -/
def isNumberPart (c : Char) : Bool := c.isDigit || c == '.' || isNameStart c

/-- The digits before the point. A zero stands alone. -/
inductive Whole : List Char → Prop where
  | zero : Whole ['0']
  | other {c : Char} {cs : List Char} (hc : c.isDigit = true) (hz : c ≠ '0')
    (hcs : ∀ d ∈ cs, d.isDigit = true) : Whole (c :: cs)

inductive Fraction : List Char → Prop where
  | none : Fraction []
  | digits {cs : List Char} (hne : cs ≠ []) (hcs : ∀ d ∈ cs, d.isDigit = true) : Fraction ('.' :: cs)

inductive Power : List Char → Prop where
  | none : Power []
  | digits {mark : Char} {sign cs : List Char} (hmark : mark = 'e' ∨ mark = 'E')
    (hsign : sign = [] ∨ sign = ['+'] ∨ sign = ['-']) (hne : cs ≠ [])
    (hcs : ∀ d ∈ cs, d.isDigit = true) : Power (mark :: sign ++ cs)

/-- An escape and the character that it stands for. -/
inductive Escaped : List Char → Char → Prop where
  | simple {c plain : Char} (h : Text.simpleEscape? c = some plain) : Escaped ['\\', c] plain
  | fixed {digits : List Char} {n : Nat} (hlen : digits.length = 4)
    (h : Text.hexValue? digits = some n) (hv : n.isValidChar) :
    Escaped ('\\' :: 'u' :: digits) (Char.ofNat n)
  | pair {digits more : List Char} {high low : Nat} (hlen : digits.length = 4)
    (hmore : more.length = 4) (h : Text.hexValue? digits = some high)
    (hhigh : Text.isHighSurrogate high = true) (hl : Text.hexValue? more = some low)
    (hlow : Text.isLowSurrogate low = true) :
    Escaped ('\\' :: 'u' :: digits ++ '\\' :: 'u' :: more) (Text.joinSurrogates high low)
  | braced {digits : List Char} {n : Nat} (hne : digits ≠ []) (hlen : digits.length ≤ 8)
    (h : Text.hexValue? digits = some n) (hv : n.isValidChar) :
    Escaped ('\\' :: 'u' :: '\x7b' :: digits ++ ['\x7d']) (Char.ofNat n)

/-- The characters of a string with its closing quote, and its value. -/
inductive Quoted : List Char → List Char → Prop where
  | close : Quoted ['"'] []
  | escape {e source value : List Char} {c : Char} (he : Escaped e c) (h : Quoted source value) :
    Quoted (e ++ source) (c :: value)
  | plain {c : Char} {source value : List Char} (hq : c ≠ '"') (hb : c ≠ '\\')
    (hl : isLineEnd c = false) (h : Quoted source value) : Quoted (c :: source) (c :: value)

/-- The characters of a block string with its closing quotes, and its value before it is dedented. -/
inductive Blocked : List Char → List Char → Prop where
  | close : Blocked ['"', '"', '"'] []
  | quotes {source value : List Char} (h : Blocked source value) :
    Blocked ('\\' :: '"' :: '"' :: '"' :: source) ('"' :: '"' :: '"' :: value)
  | lineEnd {source value : List Char} (h : Blocked source value) :
    Blocked ('\r' :: '\n' :: source) ('\n' :: value)
  | char {c : Char} {source value : List Char} (hq : ¬ ['"', '"', '"'] <+: c :: source)
    (hb : ¬ ['\\', '"', '"', '"'] <+: c :: source) (hl : ¬ ['\r', '\n'] <+: c :: source)
    (h : Blocked source value) : Blocked (c :: source) ((if c == '\r' then '\n' else c) :: value)

/-- The characters that a token may be spelled with. -/
inductive Lexeme.Spelled : Lexeme → List Char → Prop where
  | punctuator (p : Punctuator) : Spelled (.punctuator p) p.text.toList
  | name {c : Char} {tail : List Char} (hc : isNameStart c = true)
    (ht : ∀ d ∈ tail, isNamePart d = true) : Spelled (.name (String.ofList (c :: tail))) (c :: tail)
  | int {sign whole : List Char} (hs : sign = [] ∨ sign = ['-']) (hw : Whole whole) :
    Spelled (.int (String.ofList (sign ++ whole))) (sign ++ whole)
  | float {sign whole fraction power : List Char} (hs : sign = [] ∨ sign = ['-']) (hw : Whole whole)
    (hf : Fraction fraction) (hp : Power power) (hne : fraction ++ power ≠ []) :
    Spelled (.float (String.ofList (sign ++ (whole ++ (fraction ++ power)))))
      (sign ++ (whole ++ (fraction ++ power)))
  | string {source value : List Char} (h : Quoted source value) :
    Spelled (.string (String.ofList value)) ('"' :: source)
  | blockString {source value : List Char} (h : Blocked source value) :
    Spelled (.blockString (dedent value)) ('"' :: '"' :: '"' :: source)

/-- A token that could go on with what follows is not at its end. -/
def Lexeme.EndsBefore (l : Lexeme) (next : List Char) : Prop :=
  ∀ c ∈ next.head?, match l with
    | .punctuator _ | .blockString _ => True
    | .name _ => isNamePart c = false
    | .int _ | .float _ => isNumberPart c = false
    | .string value => value = "" → c ≠ '"'

/-- The tokens that a text consists of, with blanks and comments between them. -/
inductive Spells : List Char → List Lexeme → Prop where
  | done : Spells [] []
  | blank {c : Char} {cs : List Char} {ls : List Lexeme} (h : isIgnored c = true) (hs : Spells cs ls) :
    Spells (c :: cs) ls
  | comment {text cs : List Char} {ls : List Lexeme} (h : ∀ c ∈ text, isLineEnd c = false)
    (hend : ∀ c ∈ cs.head?, isLineEnd c = true) (hs : Spells cs ls) : Spells ('#' :: text ++ cs) ls
  | token {l : Lexeme} {source cs : List Char} {ls : List Lexeme} (h : l.Spelled source)
    (hend : l.EndsBefore cs) (hs : Spells cs ls) : Spells (source ++ cs) (l :: ls)

theorem takeWhile_append {p : Char → Bool} {cs rest : List Char} (h : ∀ c ∈ cs, p c = true)
    (hrest : ∀ c ∈ rest.head?, p c = false) : (cs ++ rest).takeWhile p = cs := by
  rw [List.takeWhile_append_of_pos h]
  cases rest with
  | nil => simp
  | cons c more => simp [hrest c rfl]

theorem digits_append {cs rest : List Char} (hne : cs ≠ []) (h : ∀ c ∈ cs, c.isDigit = true)
    (hrest : ∀ c ∈ rest.head?, c.isDigit = false) (offset : Nat) :
    digits offset (cs ++ rest) = .ok cs.length := by
  have hlen : cs.length ≠ 0 := by simpa using hne
  rw [digits, takeWhile_append h hrest]
  exact if_neg hlen

theorem wholePart_append {cs rest : List Char} (h : Whole cs)
    (hrest : ∀ c ∈ rest.head?, c.isDigit = false) (offset : Nat) :
    wholePart offset (cs ++ rest) = .ok cs.length := by
  cases h with
  | zero =>
    cases rest with
    | nil => rfl
    | cons c more => simp [wholePart, hrest c rfl]
  | @other c cs hc hz hcs =>
    have hdigits := digits_append (List.cons_ne_nil c cs) (List.forall_mem_cons.mpr ⟨hc, hcs⟩) hrest offset
    rw [wholePart]
    · exact hdigits
    · rintro d more heq
      exact hz (List.cons.inj heq).1

theorem fractionPart_append {cs rest : List Char} (h : Fraction cs)
    (hrest : ∀ c ∈ rest.head?, c.isDigit = false ∧ c ≠ '.') (offset : Nat) :
    fractionPart offset (cs ++ rest) = .ok cs.length := by
  cases h with
  | none =>
    rw [List.nil_append, fractionPart]
    · rfl
    · rintro more rfl
      exact (hrest '.' rfl).2 rfl
  | @digits cs hne hcs =>
    have hdigits := digits_append hne hcs (fun c hc => (hrest c hc).1) (offset + 1)
    simp only [List.cons_append, fractionPart, hdigits]
    rfl

theorem isNumberPart_of_mark {c : Char} (h : c = 'e' ∨ c = 'E') : isNumberPart c = true := by
  rcases h with rfl | rfl <;> decide

theorem isDigit_eq_false {c : Char} (h : isNumberPart c = false) : c.isDigit = false := by
  simp only [isNumberPart, Bool.or_eq_false_iff] at h
  exact h.1.1

theorem exponentPart_append {cs rest : List Char} (h : Power cs)
    (hrest : ∀ c ∈ rest.head?, isNumberPart c = false) (offset : Nat) :
    exponentPart offset (cs ++ rest) = .ok cs.length := by
  cases h with
  | none =>
    cases rest with
    | nil => rfl
    | cons c more =>
      have hc := hrest c rfl
      have hmark : ¬ (c = 'e' ∨ c = 'E') := fun hmark => by simp [isNumberPart_of_mark hmark] at hc
      simp [exponentPart, hmark]
  | @digits mark sign cs hmark hsign hne hcs =>
    have hdigit : ∀ c ∈ rest.head?, c.isDigit = false := fun c hc => isDigit_eq_false (hrest c hc)
    have hdigits := digits_append hne hcs hdigit (offset + 1 + sign.length)
    have hsigns : ((sign ++ (cs ++ rest)).head?.filter fun c => c == '+' || c == '-').toList.length =
        sign.length := by
      rcases hsign with rfl | rfl | rfl
      · obtain ⟨d, more, rfl⟩ := List.exists_cons_of_ne_nil hne
        have hd : d ≠ '+' ∧ d ≠ '-' := by
          have hdigit := hcs d List.mem_cons_self
          constructor <;> rintro rfl <;> exact absurd hdigit (by decide)
        simp [hd]
      · rfl
      · rfl
    simp only [List.cons_append, List.append_assoc, exponentPart, hsigns, List.drop_left', hdigits]
    have hlen : (mark :: (sign ++ cs)).length = cs.length + 1 + sign.length := by simp; omega
    rw [if_pos (by simpa using hmark), hlen]
    rfl

/-- Neither a digit nor a point comes after the digits before an exponent. -/
theorem head?_power_append {power rest : List Char} (hp : Power power)
    (hrest : ∀ c ∈ rest.head?, isNumberPart c = false) :
    ∀ c ∈ (power ++ rest).head?, c.isDigit = false ∧ c ≠ '.' := by
  intro c hc
  cases hp with
  | none =>
    have hpart := hrest c hc
    refine ⟨isDigit_eq_false hpart, ?_⟩
    rintro rfl
    simp [isNumberPart] at hpart
  | digits hmark =>
    obtain rfl := Option.some.inj hc
    rcases hmark with rfl | rfl <;> decide

theorem head?_fraction_append {fraction rest : List Char} (hf : Fraction fraction)
    (hrest : ∀ c ∈ rest.head?, c.isDigit = false) :
    ∀ c ∈ (fraction ++ rest).head?, c.isDigit = false := by
  cases hf with
  | none => exact hrest
  | digits =>
    intro c hc
    obtain rfl := Option.some.inj hc
    decide

theorem Whole.head?_ne {whole : List Char} (h : Whole whole) : whole.head? ≠ some '-' := by
  cases h with
  | zero => decide
  | other hc =>
    rintro heq
    rw [Option.some.inj heq] at hc
    exact absurd hc (by decide)

theorem Whole.ne_nil {whole : List Char} (h : Whole whole) : whole ≠ [] := by
  cases h <;> simp

theorem number_append {sign whole fraction power rest : List Char} (hs : sign = [] ∨ sign = ['-'])
    (hw : Whole whole) (hf : Fraction fraction) (hp : Power power)
    (hrest : ∀ c ∈ rest.head?, isNumberPart c = false) (offset : Nat) :
    number offset (sign ++ (whole ++ (fraction ++ (power ++ rest)))) =
      .ok (if fraction ++ power = [] then
          .int (String.ofList (sign ++ (whole ++ (fraction ++ power))))
        else .float (String.ofList (sign ++ (whole ++ (fraction ++ power)))),
        (sign ++ (whole ++ (fraction ++ power))).length) := by
  have hpower := head?_power_append hp hrest
  have hfraction := head?_fraction_append hf fun c hc => (hpower c hc).1
  have hsign : (if (sign ++ (whole ++ (fraction ++ (power ++ rest)))).head? = some '-' then 1 else 0) =
      sign.length := by
    rcases hs with rfl | rfl
    · obtain ⟨c, more, hcons⟩ := List.exists_cons_of_ne_nil hw.ne_nil
      have hne := hw.head?_ne
      rw [hcons] at hne ⊢
      exact if_neg hne
    · rfl
  have hdrop₁ : (sign ++ (whole ++ (fraction ++ (power ++ rest)))).drop sign.length =
      whole ++ (fraction ++ (power ++ rest)) := List.drop_left
  have hdrop₂ : (sign ++ (whole ++ (fraction ++ (power ++ rest)))).drop (sign.length + whole.length) =
      fraction ++ (power ++ rest) := by
    rw [← List.append_assoc, List.drop_left' (by simp)]
  have hdrop₃ : (sign ++ (whole ++ (fraction ++ (power ++ rest)))).drop
      (sign.length + whole.length + fraction.length) = power ++ rest := by
    rw [← List.append_assoc, ← List.append_assoc, List.drop_left' (by simp; omega)]
  have hdrop₄ : (sign ++ (whole ++ (fraction ++ (power ++ rest)))).drop
      (sign.length + whole.length + fraction.length + power.length) = rest := by
    rw [← List.append_assoc, ← List.append_assoc, ← List.append_assoc, List.drop_left' (by simp; omega)]
  have htake : (sign ++ (whole ++ (fraction ++ (power ++ rest)))).take
      (sign.length + whole.length + fraction.length + power.length) =
      sign ++ (whole ++ (fraction ++ power)) := by
    have hassoc : sign ++ (whole ++ (fraction ++ (power ++ rest))) =
        (sign ++ (whole ++ (fraction ++ power))) ++ rest := by simp
    rw [hassoc, List.take_left' (by simp; omega)]
  unfold number
  simp only [hsign, hdrop₁, wholePart_append hw hfraction, hdrop₂, fractionPart_append hf hpower,
    hdrop₃, exponentPart_append hp hrest, hdrop₄, htake, bind, Except.bind]
  have hlen : (sign ++ (whole ++ (fraction ++ power))).length =
      sign.length + whole.length + fraction.length + power.length := by simp; omega
  have hparts : (fraction.length + power.length = 0) = (fraction ++ power = []) := by simp
  rw [hlen]
  simp only [hparts]
  cases rest with
  | nil => rfl
  | cons c more =>
    have hstop : (c == '.' || isNameStart c) = false := by
      have hpart := hrest c rfl
      simp only [isNumberPart, Bool.or_eq_false_iff] at hpart ⊢
      exact ⟨hpart.1.2, hpart.2⟩
    simp only [hstop]
    rfl

theorem hexDigit?_brace : Text.hexDigit? '\x7b' = none ∧ Text.hexDigit? '\x7d' = none := by decide

theorem hexFour?_append {digits : List Char} (hlen : digits.length = 4) (rest : List Char) :
    Text.hexFour? (digits ++ rest) = Text.hexValue? digits := by
  rw [Text.hexFour?, if_pos (by simp [hlen]), List.take_left' hlen]

/-- The digits of an escape in braces are read one after the other. -/
theorem bracedEscape_append {digits : List Char} {point n : Nat}
    (h : digits.foldlM (fun n c => (Text.hexDigit? c).map (16 * n + ·)) point = some n)
    (size : Nat) {left : Nat} (hleft : digits.length < left) (rest : List Char) :
    bracedEscape point size left (digits ++ '\x7d' :: rest) =
      (if 5 ≤ size + digits.length + 1 && n.isValidChar then some (Char.ofNat n) else none,
        size + digits.length + 1) := by
  induction digits generalizing point size left with
  | nil =>
    obtain ⟨left, rfl⟩ := Nat.exists_eq_succ_of_ne_zero (Nat.ne_of_gt hleft)
    obtain rfl : point = n := Option.some.inj h
    rfl
  | cons c digits ih =>
    obtain ⟨left, rfl⟩ := Nat.exists_eq_succ_of_ne_zero (Nat.ne_of_gt (Nat.zero_lt_of_lt hleft))
    rw [List.foldlM_cons] at h
    obtain ⟨next, hnext, h⟩ := Option.bind_eq_some_iff.mp h
    obtain ⟨d, hd, rfl⟩ := Option.map_eq_some_iff.mp hnext
    have hne : (c == '\x7d') = false := by
      refine beq_false_of_ne fun heq => ?_
      simp [heq, hexDigit?_brace.2] at hd
    have hstep := ih h (size + 1) (by simpa using hleft)
    simp only [List.cons_append, bracedEscape, hne, hd, hstep, List.length_cons, Bool.false_eq_true,
      if_false]
    have hlen : size + 1 + digits.length + 1 = size + (digits.length + 1) + 1 := by omega
    rw [hlen]

theorem not_isValidChar_of_isHighSurrogate {n : Nat} (h : Text.isHighSurrogate n = true) :
    ¬ n.isValidChar := by
  simp only [Text.isHighSurrogate, Bool.and_eq_true, decide_eq_true_eq] at h
  simp only [Nat.isValidChar]
  omega

/-- Hexadecimal digits do not begin with a brace. -/
theorem ne_brace_of_hexValue? {digits rest more : List Char} {n : Nat} (hlen : digits.length = 4)
    (h : Text.hexValue? digits = some n) : digits ++ rest ≠ '\x7b' :: more := by
  intro heq
  obtain ⟨c, tail, rfl⟩ := List.exists_cons_of_length_eq_add_one hlen
  obtain rfl : c = '\x7b' := (List.cons.inj heq).1
  simp [Text.hexValue?, List.foldlM_cons, hexDigit?_brace.1] at h

theorem escape_of_fixed {digits rest : List Char} {n : Nat} (hlen : digits.length = 4)
    (h : Text.hexValue? digits = some n) {found : Char × Nat}
    (hfound : fixedEscape ('\\' :: 'u' :: (digits ++ rest)) = some found) (offset : Nat) :
    escape offset ('\\' :: 'u' :: (digits ++ rest)) = .ok found := by
  rw [escape, hfound]
  rintro more heq
  exact ne_brace_of_hexValue? hlen h heq

theorem escape_append {e : List Char} {c : Char} (h : Escaped e c) (offset : Nat) (rest : List Char) :
    escape offset (e ++ rest) = .ok (c, e.length) := by
  cases h with
  | @simple c plain h =>
    have hu : c ≠ 'u' := by
      rintro rfl
      simp [Text.simpleEscape?] at h
    simp [escape, hu, h]
  | @fixed digits n hlen h hv =>
    have hfound : fixedEscape ('\\' :: 'u' :: (digits ++ rest)) = some (Char.ofNat n, 6) := by
      simp [fixedEscape, hexFour?_append hlen, h, hv]
    simpa [hlen] using escape_of_fixed hlen h hfound offset
  | @pair digits more high low hlen hmore h hhigh hl hlow =>
    have hdrop : (digits ++ '\\' :: 'u' :: (more ++ rest)).drop 4 = '\\' :: 'u' :: (more ++ rest) :=
      List.drop_left' hlen
    have hdrop' : (digits ++ '\\' :: 'u' :: (more ++ rest)).drop 6 = more ++ rest := by
      rw [← List.drop_drop (i := 2) (j := 4), hdrop]
      rfl
    have hfound : fixedEscape ('\\' :: 'u' :: (digits ++ '\\' :: 'u' :: (more ++ rest))) =
        some (Text.joinSurrogates high low, 12) := by
      simp [fixedEscape, hexFour?_append hlen, h, not_isValidChar_of_isHighSurrogate hhigh, hhigh,
        hdrop, hdrop', hexFour?_append hmore, hl, hlow]
    simpa [hlen, hmore] using escape_of_fixed hlen h hfound offset
  | @braced digits n hne hlen h hv =>
    have hpos : digits.length ≠ 0 := by simpa using hne
    have hleft : digits.length < min 12 ('\\' :: 'u' :: '\x7b' :: (digits ++ '\x7d' :: rest)).length - 3 := by
      simp only [List.length_cons, List.length_append]
      omega
    have hread := bracedEscape_append h 3 hleft rest
    have hlong : (5 ≤ 3 + digits.length + 1) := by omega
    simp only [hlong, hv, decide_true, Bool.and_self, if_true] at hread
    have hassoc : '\\' :: 'u' :: '\x7b' :: digits ++ ['\x7d'] ++ rest =
        '\\' :: 'u' :: '\x7b' :: (digits ++ '\x7d' :: rest) := by simp
    have hsize : ('\\' :: 'u' :: '\x7b' :: digits ++ ['\x7d']).length = 3 + digits.length + 1 := by
      simp only [List.length_append, List.length_cons, List.length_nil]
      omega
    rw [hassoc, escape, hread, hsize]

theorem Escaped.exists_cons {e : List Char} {c : Char} (h : Escaped e c) : ∃ tail, e = '\\' :: tail := by
  cases h <;> exact ⟨_, rfl⟩

theorem stringBody_append {source value : List Char} (h : Quoted source value) (offset : Nat)
    (rest : List Char) : stringBody offset (source ++ rest) = .ok (value, source.length) := by
  induction h generalizing offset with
  | close => rw [List.cons_append, stringBody]; rfl
  | @escape e source value c he h ih =>
    have hread := escape_append he offset (source ++ rest)
    obtain ⟨tail, rfl⟩ := he.exists_cons
    have hdrop : (tail ++ (source ++ rest)).drop (tail.length + 1 - 1) = source ++ rest := List.drop_left
    rw [List.cons_append] at hread
    rw [List.append_assoc, List.cons_append, stringBody, hread]
    simp only [List.length_cons, bind, Except.bind, hdrop, ih]
    rw [List.length_append]
    rfl
  | @plain c source value hq hb hl h ih =>
    rw [List.cons_append, stringBody, ih]
    simp only [beq_false_of_ne hq, beq_false_of_ne hb, hl]
    rfl

theorem Blocked.length_le {source value : List Char} (h : Blocked source value) :
    3 ≤ source.length := by
  induction h with
  | close => decide
  | quotes _ ih | lineEnd _ ih | char _ _ _ _ ih =>
    simp only [List.length_cons]
    omega

/-- Only an empty string may be taken for the start of a block string. -/
theorem Quoted.take_two_append {source value : List Char} (h : Quoted source value)
    {next : List Char} (hnext : value = [] → ∀ c ∈ next.head?, c ≠ '"') :
    ((source ++ next).take 2 == ['"', '"']) = false := by
  cases h with
  | close =>
    cases next with
    | nil => rfl
    | cons c more => simpa using hnext rfl c rfl
  | escape he =>
    obtain ⟨tail, rfl⟩ := he.exists_cons
    simp
  | plain hq => simp [hq]

theorem blockBody_append {source value : List Char} (h : Blocked source value) (offset : Nat)
    (rest : List Char) : blockBody offset (source ++ rest) = .ok (value, source.length) := by
  induction h generalizing offset with
  | close => rfl
  | quotes h ih =>
    simp only [List.cons_append, blockBody, ih]
    rfl
  | lineEnd h ih =>
    simp only [List.cons_append, blockBody, ih]
    rfl
  | @char c source value hq hb hl h ih =>
    have hlen := h.length_le
    have hbegins : ∀ start : List Char, start.length ≤ 4 → start <+: c :: (source ++ rest) →
        start <+: c :: source := fun start hstart hp =>
      List.prefix_of_prefix_length_le hp (List.prefix_append (c :: source) rest) (by simp; omega)
    rw [List.cons_append, blockBody]
    · simp only [ih]
      rfl
    · rintro more rfl heq
      exact hq (hbegins _ (by decide) ⟨more, by rw [heq]; rfl⟩)
    · rintro more rfl heq
      exact hb (hbegins _ (by decide) ⟨more, by rw [heq]; rfl⟩)
    · rintro more rfl heq
      exact hl (hbegins _ (by decide) ⟨more, by rw [heq]; rfl⟩)

/-- Only a character that begins no other token is a punctuator. -/
theorem ofChar?_eq_none {c : Char}
    (h : isNameStart c = true ∨ c.isDigit = true ∨ c = '-' ∨ c = '"') : Punctuator.ofChar? c = none := by
  unfold Punctuator.ofChar?
  split <;> first | rfl | exact absurd h (by decide)

theorem not_isIgnored {c : Char} (h : isNameStart c = true ∨ c.isDigit = true ∨ c = '-' ∨ c = '"') :
    isIgnored c = false ∧ c ≠ '#' := by
  constructor
  · refine Bool.eq_false_iff.mpr fun hc => ?_
    simp only [isIgnored, Bool.or_eq_true, beq_iff_eq] at hc
    rcases hc with ((((rfl | rfl) | rfl) | rfl) | rfl) | rfl <;> exact absurd h (by decide)
  · rintro rfl
    exact absurd h (by decide)

theorem isNameStart_eq_false_of_isDigit {c : Char} (h : c.isDigit = true) : isNameStart c = false := by
  refine Bool.eq_false_iff.mpr fun hn => ?_
  simp only [Char.isDigit, Bool.and_eq_true, decide_eq_true_eq, ge_iff_le,
    UInt32.le_iff_toNat_le] at h
  rcases Bool.or_eq_true_iff.mp hn with hn | hn
  · rcases Bool.or_eq_true_iff.mp hn with hn | hn
    · have hupper : 'A'.val ≤ c.val := (of_decide_eq_true hn).1
      have hlt : '9'.val.toNat < 'A'.val.toNat := by decide
      rw [UInt32.le_iff_toNat_le] at hupper
      omega
    · have hlower : 'a'.val ≤ c.val := of_decide_eq_true (Bool.and_eq_true_iff.mp hn).1
      have hlt : '9'.val.toNat < 'a'.val.toNat := by decide
      rw [UInt32.le_iff_toNat_le] at hlower
      omega
  · obtain rfl := eq_of_beq hn
    exact absurd h (by decide)

theorem scan_number {c : Char} (h : c.isDigit = true ∨ c = '-') (offset : Nat) (rest : List Char) :
    Lexeme.scan offset c rest = number offset (c :: rest) := by
  have hname : isNameStart c = false := by
    rcases h with h | rfl
    · exact isNameStart_eq_false_of_isDigit h
    · decide
  have hnumber : (c.isDigit || c == '-') = true := by simpa using h
  have hnone : Punctuator.ofChar? c = none := ofChar?_eq_none (.inr (h.imp_right .inl))
  simp [Lexeme.scan, hnone, hname, hnumber]

/-- A number begins with a digit or a sign, and is read up to its end. -/
theorem scan_number_append {sign whole fraction power : List Char} (hs : sign = [] ∨ sign = ['-'])
    (hw : Whole whole) (hf : Fraction fraction) (hp : Power power) {next : List Char}
    (hend : ∀ c ∈ next.head?, isNumberPart c = false) :
    ∃ c tail, sign ++ (whole ++ (fraction ++ power)) = c :: tail ∧ (c.isDigit = true ∨ c = '-') ∧
      ∀ offset, Lexeme.scan offset c (tail ++ next) =
        .ok (if fraction ++ power = [] then .int (String.ofList (c :: tail))
          else .float (String.ofList (c :: tail)), (c :: tail).length) := by
  obtain ⟨c, tail, hcons, hc⟩ : ∃ c tail, sign ++ (whole ++ (fraction ++ power)) = c :: tail ∧
      (c.isDigit = true ∨ c = '-') := by
    rcases hs with rfl | rfl
    · cases hw with
      | zero => exact ⟨_, _, rfl, .inl (by decide)⟩
      | other hc => exact ⟨_, _, rfl, .inl hc⟩
    · exact ⟨_, _, rfl, .inr rfl⟩
  refine ⟨c, tail, hcons, hc, fun offset => ?_⟩
  have hread := number_append hs hw hf hp hend offset
  have hassoc : sign ++ (whole ++ (fraction ++ (power ++ next))) = c :: (tail ++ next) := by
    rw [← List.cons_append, ← hcons]
    simp
  rw [hassoc, hcons] at hread
  rw [scan_number hc, hread]

/-- A token is read up to its end, if it is at its end. -/
theorem Lexeme.Spelled.scan_append {l : Lexeme} {source : List Char} (h : l.Spelled source)
    {next : List Char} (hend : l.EndsBefore next) : ∃ c tail, source = c :: tail ∧
      isIgnored c = false ∧ c ≠ '#' ∧
      ∀ offset, Lexeme.scan offset c (tail ++ next) = .ok (l, source.length) := by
  cases h with
  | punctuator p => cases p <;> exact ⟨_, _, rfl, by decide, by decide, fun _ => rfl⟩
  | @name c tail hc ht =>
    obtain ⟨hignored, hcomment⟩ := not_isIgnored (.inl hc)
    refine ⟨c, tail, rfl, hignored, hcomment, fun offset => ?_⟩
    simp [Lexeme.scan, ofChar?_eq_none (.inl hc), hc, takeWhile_append ht hend]
  | @int sign whole hs hw =>
    obtain ⟨c, tail, hcons, hc, hread⟩ := scan_number_append hs hw .none .none hend
    obtain ⟨hignored, hcomment⟩ := not_isIgnored (.inr (hc.imp_right .inl))
    simp only [List.append_nil, if_true] at hcons hread
    refine ⟨c, tail, hcons, hignored, hcomment, fun offset => ?_⟩
    rw [hread, hcons]
  | @float sign whole fraction power hs hw hf hp hne =>
    obtain ⟨c, tail, hcons, hc, hread⟩ := scan_number_append hs hw hf hp hend
    obtain ⟨hignored, hcomment⟩ := not_isIgnored (.inr (hc.imp_right .inl))
    refine ⟨c, tail, hcons, hignored, hcomment, fun offset => ?_⟩
    rw [hread, if_neg hne, hcons]
  | @string source value h =>
    refine ⟨'"', source, rfl, by decide, by decide, fun offset => ?_⟩
    have hread := stringBody_append h (offset + 1) next
    have hquotes : ((source ++ next).take 2 == ['"', '"']) = false :=
      h.take_two_append fun hvalue => by
        subst hvalue
        exact fun c hc => hend c hc rfl
    simp only [Lexeme.scan, Punctuator.ofChar?, hquotes, hread]
    rfl
  | @blockString source value h =>
    refine ⟨'"', '"' :: '"' :: source, rfl, by decide, by decide, fun offset => ?_⟩
    have hread := blockBody_append h (offset + 3) next
    simp only [Lexeme.scan, Punctuator.ofChar?, List.cons_append, List.take_succ_cons, List.take_zero,
      List.drop_succ_cons, List.drop_zero, hread]
    rfl

/-- The tokens begin with these lexemes and go on with the rest. -/
inductive Tokens.Begins : List Lexeme → Tokens → Tokens → Prop where
  | nil (rest : Tokens) : Begins [] rest rest
  | cons {l : Lexeme} {ls : List Lexeme} {start : Nat} {ts rest : Tokens} (h : Begins ls ts rest) :
    Begins (l :: ls) (.next ⟨start, l⟩ ts) rest

/-- The lexer finds the tokens that a text consists of. -/
theorem Spells.begins_scan {cs : List Char} {ls : List Lexeme} (h : Spells cs ls) (offset : Nat) :
    ∃ finish, Tokens.Begins ls (Tokens.scan offset cs) (.done finish) := by
  induction h generalizing offset with
  | done =>
    rw [Tokens.scan]
    exact ⟨offset, .nil _⟩
  | blank hc _ ih =>
    rw [Tokens.scan, if_pos hc]
    exact ih (offset + 1)
  | @comment text cs ls htext hend _ ih =>
    have hlength : ((text ++ cs).takeWhile fun c => !isLineEnd c) = text :=
      takeWhile_append (fun c hc => by simp [htext c hc]) fun c hc => by simp [hend c hc]
    rw [List.cons_append, Tokens.scan, if_neg (by decide), if_pos (by decide)]
    simp only [hlength, List.drop_left]
    exact ih _
  | @token l source cs ls hl hend _ ih =>
    obtain ⟨c, tail, rfl, hignored, hcomment, hread⟩ := hl.scan_append hend
    have hdrop : (tail ++ cs).drop ((c :: tail).length - 1) = cs := List.drop_left
    rw [List.cons_append, Tokens.scan, if_neg (by simp [hignored]), if_neg (by simpa using hcomment)]
    simp only [hread, hdrop]
    obtain ⟨finish, hbegins⟩ := ih (offset + (c :: tail).length)
    exact ⟨finish, .cons hbegins⟩

end CheckedModels.Sdl
