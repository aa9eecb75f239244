import Migration.Statement.Default
import Migration.Proofs.QuotedTokens
import Migration.Proofs.Spellings

/-
  What the default of a column can become.

  The text of a default goes into a statement of the target, so that only texts of a closed set
  may come out of the translation. This file

  1. writes down the grammar of numbers for digits of any class (`IsNumber`) and proves that the
     test for numbers accepts it with the decimal digits of every script (`isNumeric_iff`);
  2. tells these numbers from those in ASCII digits (`isNumber_isDigit_iff`);
  3. writes down what a column may get (`Closed`), proves that nothing else comes out
     (`closed_of_expression?`), and that words, calls and literals are no numbers
     (`Closed.number_cases`);
  4. concludes for which defaults what comes out is written in ASCII (`default_closed_iff`);
     a digit of another script gets through (`foreign_digit_unquoted`). -/

namespace Migration

namespace Default

/-! ## Numbers -/

inductive IsSign : List Char → Prop where
  | none : IsSign []
  | plus : IsSign ['+']
  | minus : IsSign ['-']

/-- A point with digits behind it, or nothing. -/
inductive IsFraction (isDigit : Char → Bool) : List Char → Prop where
  | none : IsFraction isDigit []
  | point {digits : List Char} (all : ∀ c ∈ digits, isDigit c = true) :
      IsFraction isDigit ('.' :: digits)

/-- A letter with an exponent behind it, or nothing. -/
inductive IsExponent (isDigit : Char → Bool) : List Char → Prop where
  | none : IsExponent isDigit []
  | power {letter : Char} {sign digits : List Char} (marks : letter = 'e' ∨ letter = 'E')
      (signed : IsSign sign) (all : ∀ c ∈ digits, isDigit c = true) (nonempty : digits ≠ []) :
      IsExponent isDigit (letter :: (sign ++ digits))

/-- A number with digits of some class: a sign or none, at least one digit with at most one point
among or around the digits, and an exponent or none. -/
inductive IsNumber (isDigit : Char → Bool) : List Char → Prop where
  | mk {sign whole fraction exponent : List Char} (signed : IsSign sign)
      (all : ∀ c ∈ whole, isDigit c = true) (pointed : IsFraction isDigit fraction)
      (raised : IsExponent isDigit exponent) (some_digit : whole ≠ [] ∨ 1 < fraction.length) :
      IsNumber isDigit (sign ++ (whole ++ (fraction ++ exponent)))

theorem afterSign_cases (cs : List Char) : ∃ sign, IsSign sign ∧ cs = sign ++ afterSign cs := by
  cases cs with
  | nil => exact ⟨[], .none, rfl⟩
  | cons c rest =>
    rw [afterSign]
    split
    · rename_i hsign
      rcases hsign with rfl | rfl
      · exact ⟨['+'], .plus, rfl⟩
      · exact ⟨['-'], .minus, rfl⟩
    · exact ⟨[], .none, rfl⟩

theorem afterSign_append {sign rest : List Char} (signed : IsSign sign)
    (h : ∀ c ∈ rest.head?, ¬ (c = '+' ∨ c = '-')) : afterSign (sign ++ rest) = rest := by
  cases signed with
  | none =>
    cases rest with
    | nil => rfl
    | cons c rest => exact if_neg (h c rfl)
  | plus => rfl
  | minus => rfl

theorem not_sign_of_digit {c : Char} (h : Text.isDecimalDigit c = true) :
    ¬ (c = '+' ∨ c = '-') := by
  rintro (rfl | rfl)
  · exact absurd h (by decide)
  · exact absurd h (by decide)

theorem isExponentOrEmpty_iff {cs : List Char} :
    isExponentOrEmpty cs = true ↔ IsExponent Text.isDecimalDigit cs := by
  cases cs with
  | nil => exact iff_of_true rfl .none
  | cons letter rest =>
    simp only [isExponentOrEmpty, Bool.and_eq_true, Bool.or_eq_true, beq_iff_eq,
      Bool.not_eq_true', List.isEmpty_eq_false_iff, List.all_eq_true]
    constructor
    · rintro ⟨marks, nonempty, all⟩
      obtain ⟨sign, signed, hrest⟩ := afterSign_cases rest
      rw [hrest]
      exact .power marks signed all nonempty
    · intro h
      cases h with
      | @power _ sign digits marks signed all nonempty =>
        have hafter : afterSign (sign ++ digits) = digits :=
          afterSign_append signed fun c hc => not_sign_of_digit (all c (List.mem_of_mem_head? hc))
        rw [hafter]
        exact ⟨marks, nonempty, all⟩

section Digits

variable {p : Char → Bool} {digits rest : List Char}

theorem takeWhile_run (all : ∀ c ∈ digits, p c = true) (hrest : goesOn p rest = false) :
    (digits ++ rest).takeWhile p = digits := by
  rw [List.takeWhile_append_of_pos all, takeWhile_eq_nil_of_not_goesOn hrest, List.append_nil]

theorem dropWhile_run (all : ∀ c ∈ digits, p c = true) (hrest : goesOn p rest = false) :
    (digits ++ rest).dropWhile p = rest := by
  have hsplit := List.takeWhile_append_dropWhile (p := p) (l := digits ++ rest)
  rw [takeWhile_run all hrest] at hsplit
  exact List.append_cancel_left hsplit

end Digits

/-- Neither a fraction nor an exponent begins with a digit. -/
theorem not_goesOn_behind {fraction exponent : List Char}
    (pointed : IsFraction Text.isDecimalDigit fraction)
    (raised : IsExponent Text.isDecimalDigit exponent) :
    goesOn Text.isDecimalDigit (fraction ++ exponent) = false := by
  have hpoint : Text.isDecimalDigit '.' = false := by decide
  have hletters : Text.isDecimalDigit 'e' = false ∧ Text.isDecimalDigit 'E' = false := by decide
  cases pointed with
  | point all => exact hpoint
  | none =>
    cases raised with
    | none => rfl
    | power marks =>
      rcases marks with rfl | rfl
      · exact hletters.1
      · exact hletters.2

theorem isNumber_of_isNumeric {cs : List Char} (h : isNumeric cs = true) :
    IsNumber Text.isDecimalDigit cs := by
  obtain ⟨sign, signed, hcs⟩ := afterSign_cases cs
  have run (l : List Char) : ∀ c ∈ l.takeWhile Text.isDecimalDigit, Text.isDecimalDigit c = true :=
    fun c hc => List.all_eq_true.mp List.all_takeWhile c hc
  have hsplit := List.takeWhile_append_dropWhile (p := Text.isDecimalDigit) (l := afterSign cs)
  simp only [isNumeric] at h
  split at h
  · rename_i rest hrest
    obtain ⟨hdigit, hexponent⟩ := Bool.and_eq_true_iff.mp h
    have hfraction := List.takeWhile_append_dropWhile (p := Text.isDecimalDigit) (l := rest)
    rw [hcs, ← hsplit, hrest, ← hfraction, ← List.cons_append]
    refine .mk signed (run _) (.point (run _)) (isExponentOrEmpty_iff.mp hexponent) ?_
    rcases Bool.or_eq_true_iff.mp hdigit with hwhole | hpoint
    · exact .inl (by simpa using hwhole)
    · refine .inr ?_
      have hpos : 0 < (rest.takeWhile Text.isDecimalDigit).length :=
        List.length_pos_iff.mpr (by simpa using hpoint)
      rw [List.length_cons]
      omega
  · rename_i rest
    obtain ⟨hwhole, hexponent⟩ := Bool.and_eq_true_iff.mp h
    have hnone : IsFraction Text.isDecimalDigit [] := .none
    rw [hcs, ← hsplit]
    exact .mk signed (run _) hnone (isExponentOrEmpty_iff.mp hexponent)
      (.inl (by simpa using hwhole))

theorem exists_head_unsigned {p : Char → Bool} {whole fraction : List Char} (exponent : List Char)
    (all : ∀ c ∈ whole, p c = true) (pointed : IsFraction p fraction)
    (some_digit : whole ≠ [] ∨ 1 < fraction.length) :
    ∃ c rest, whole ++ (fraction ++ exponent) = c :: rest ∧ (p c = true ∨ c = '.') := by
  cases whole with
  | cons c rest => exact ⟨c, _, rfl, .inl (all c List.mem_cons_self)⟩
  | nil =>
    cases pointed with
    | none => exact absurd some_digit (by simp)
    | point => exact ⟨'.', _, rfl, .inr rfl⟩

theorem isNumeric_of_isNumber {cs : List Char} (h : IsNumber Text.isDecimalDigit cs) :
    isNumeric cs = true := by
  cases h with
  | @mk sign whole fraction exponent signed all pointed raised some_digit =>
    have hafter : afterSign (sign ++ (whole ++ (fraction ++ exponent))) =
        whole ++ (fraction ++ exponent) := by
      obtain ⟨c, rest, hhead, hc⟩ := exists_head_unsigned exponent all pointed some_digit
      rw [hhead]
      refine afterSign_append signed fun d hd => ?_
      obtain rfl := Option.some.inj hd
      rcases hc with hc | rfl
      · exact not_sign_of_digit hc
      · decide
    have hbehind := not_goesOn_behind pointed raised
    have hexponent := isExponentOrEmpty_iff.mpr raised
    simp only [isNumeric, hafter, takeWhile_run all hbehind, dropWhile_run all hbehind]
    cases pointed with
    | @point digits hdigits =>
      have hnext := not_goesOn_behind .none raised
      rw [List.nil_append] at hnext
      rw [List.cons_append]
      simp only [takeWhile_run hdigits hnext, dropWhile_run hdigits hnext, hexponent, Bool.and_true]
      simpa [List.length_pos_iff] using some_digit
    | none =>
      have hwhole : (!whole.isEmpty) = true := by simpa using some_digit
      cases raised with
      | none => rw [hwhole]; rfl
      | power marks =>
        rcases marks with rfl | rfl
        · exact Bool.and_eq_true_iff.mpr ⟨hwhole, hexponent⟩
        · exact Bool.and_eq_true_iff.mpr ⟨hwhole, hexponent⟩

theorem isNumeric_iff {cs : List Char} :
    isNumeric cs = true ↔ IsNumber Text.isDecimalDigit cs :=
  ⟨isNumber_of_isNumeric, isNumeric_of_isNumber⟩

/-! ## Digits of one class -/

namespace IsNumber

variable {p q : Char → Bool} {cs : List Char}

theorem exists_head (h : IsNumber p cs) :
    ∃ c rest, cs = c :: rest ∧ (p c = true ∨ c ∈ ['.', '+', '-']) := by
  cases h with
  | mk signed all pointed raised some_digit =>
    cases signed with
    | none =>
      obtain ⟨c, rest, hcs, hc⟩ := exists_head_unsigned _ all pointed some_digit
      refine ⟨c, rest, hcs, hc.imp_right ?_⟩
      rintro rfl
      decide
    | plus => exact ⟨'+', _, rfl, .inr (by decide)⟩
    | minus => exact ⟨'-', _, rfl, .inr (by decide)⟩

theorem mem_cases (h : IsNumber p cs) : ∀ c ∈ cs, p c = true ∨ c ∈ ['+', '-', '.', 'e', 'E'] := by
  have hsign {sign : List Char} (signed : IsSign sign) :
      ∀ c ∈ sign, c ∈ ['+', '-', '.', 'e', 'E'] := by
    cases signed <;> simp
  cases h with
  | mk signed all pointed raised =>
    intro c hc
    rcases List.mem_append.mp hc with hc | hc
    · exact .inr (hsign signed c hc)
    rcases List.mem_append.mp hc with hc | hc
    · exact .inl (all c hc)
    rcases List.mem_append.mp hc with hc | hc
    · cases pointed with
      | none => cases hc
      | point hdigits =>
        rcases List.mem_cons.mp hc with rfl | hc
        · exact .inr (by decide)
        · exact .inl (hdigits c hc)
    · cases raised with
      | none => cases hc
      | power marks hsigned hdigits =>
        rcases List.mem_cons.mp hc with rfl | hc
        · exact .inr (by rcases marks with rfl | rfl <;> decide)
        · rcases List.mem_append.mp hc with hc | hc
          · exact .inr (hsign hsigned c hc)
          · exact .inl (hdigits c hc)

/-- A number whose digits are of another class too is a number with digits of that class. -/
theorem mono (h : IsNumber p cs) (digits : ∀ c ∈ cs, p c = true → q c = true) : IsNumber q cs := by
  cases h with
  | mk signed all pointed raised some_digit =>
    refine .mk signed (fun c hc => digits c ?_ (all c hc)) ?_ ?_ some_digit
    · simp [hc]
    · cases pointed with
      | none => exact .none
      | point hdigits => exact .point fun c hc => digits c (by simp [hc]) (hdigits c hc)
    · cases raised with
      | none => exact .none
      | power marks hsigned hdigits nonempty =>
        exact .power marks hsigned (fun c hc => digits c (by simp [hc]) (hdigits c hc)) nonempty

end IsNumber

theorem isDecimalDigit_of_isDigit {c : Char} (h : c.isDigit = true) :
    Text.isDecimalDigit c = true := by
  have ascii : ∀ n ∈ List.range' 48 10, Text.inRanges Text.decimalDigitRanges n = true := by decide
  obtain ⟨hlow, hhigh⟩ := Bool.and_eq_true_iff.mp h
  have hlow : 48 ≤ c.toNat := UInt32.le_iff_toNat_le.mp (of_decide_eq_true hlow)
  have hhigh : c.toNat ≤ 57 := UInt32.le_iff_toNat_le.mp (of_decide_eq_true hhigh)
  exact ascii c.toNat (List.mem_range'_1.mpr (by omega))

/-- A number with a digit that is not one of ASCII. -/
def IsForeignNumber (cs : List Char) : Prop :=
  IsNumber Text.isDecimalDigit cs ∧ ∃ c ∈ cs, Text.isDecimalDigit c = true ∧ c.isDigit = false

/-- A number has ASCII digits alone unless it has a digit of another script. -/
theorem isNumber_isDigit_iff {cs : List Char} :
    IsNumber Char.isDigit cs ↔ IsNumber Text.isDecimalDigit cs ∧ ¬ IsForeignNumber cs := by
  constructor
  · intro h
    refine ⟨h.mono fun c _ => isDecimalDigit_of_isDigit, ?_⟩
    rintro ⟨-, c, hc, hdigit, hforeign⟩
    rcases h.mem_cases c hc with hascii | hmark
    · rw [hascii] at hforeign
      cases hforeign
    · have hnone :
          ['+', '-', '.', 'e', 'E'].all (fun mark => !Text.isDecimalDigit mark) = true := by
        decide
      have hnot := List.all_eq_true.mp hnone c hmark
      rw [hdigit] at hnot
      cases hnot
  · rintro ⟨h, hascii⟩
    refine h.mono fun c hc hdigit => ?_
    by_contra hforeign
    exact hascii ⟨h, c, hc, hdigit, eq_false_of_ne_true hforeign⟩

def beginsNumber (c : Char) : Bool := Text.isDecimalDigit c || ['.', '+', '-'].contains c

theorem IsNumber.begins {cs : List Char} (h : IsNumber Text.isDecimalDigit cs) :
    cs.head?.any beginsNumber = true := by
  obtain ⟨c, rest, rfl, hc | hc⟩ := h.exists_head
  · exact Bool.or_eq_true_iff.mpr (.inl hc)
  · exact Bool.or_eq_true_iff.mpr (.inr (List.contains_iff_mem.mpr hc))

/-! ## What a default becomes -/

/-- The text of a default without blanks and parentheses around it. -/
def innerOf (definition : String) : List Char := stripped (Text.trimmed definition.toList)

def truthWords : List String := ["true", "false"]

/-- The calls that a default may become. -/
def targetCalls : List String := ["now()", "(now() at time zone 'utc')", "gen_random_uuid()"]

/-- What a column may get as its default, its numbers written with digits of some class. -/
inductive Closed (isDigit : Char → Bool) (inner : String) (valueType : Option ColumnType) :
    String → Prop where
  | null : Closed isDigit inner valueType "NULL"
  | truth {text : String} (boolean : valueType = some .boolean) (word : text ∈ truthWords) :
      Closed isDigit inner valueType text
  | call {text : String} (known : text ∈ targetCalls) : Closed isDigit inner valueType text
  | number (other : valueType ≠ some .boolean) (digits : IsNumber isDigit inner.toList) :
      Closed isDigit inner valueType inner
  /-- The literal reads as one token, which has the value of the only one that counts in the
  default. -/
  | literal {text : String} {tokens : List Token} {token written : Token}
      (read : tokenize inner = .ok tokens) (only : tokens.filter (fun t => !t.isTrivia) = [token])
      (kind : token.kind = .stringLiteral) (quoted : text.toList.head? = some '\'')
      (one : tokenize text = .ok [written]) (same_kind : written.kind = .stringLiteral)
      (same : written.stringValue = token.stringValue) : Closed isDigit inner valueType text

section Closed

variable {inner : List Char} {valueType : Option ColumnType} {text : String}

theorem stringLiteral?_some {expression : String} (h : stringLiteral? expression = some text) :
    ∃ tokens token, tokenize expression = .ok tokens ∧
      tokens.filter (fun t => !t.isTrivia) = [token] ∧ token.kind = .stringLiteral ∧
      text = quotePgLiteral token.stringValue := by
  unfold stringLiteral? at h
  split at h
  · cases h
  · rename_i tokens hread
    split at h
    · rename_i token honly
      split at h
      · rename_i hkind
        exact ⟨tokens, token, hread, honly, hkind, (Option.some.inj h).symm⟩
      · cases h
    · cases h

theorem call?_mem {call : String} (h : call? call = some text) : text ∈ targetCalls := by
  unfold call? at h
  split at h
  all_goals cases h
  all_goals decide

theorem closed_of_expression? (h : expression? inner valueType = some text) :
    Closed Text.isDecimalDigit (String.ofList inner) valueType text := by
  simp only [expression?] at h
  split at h
  · cases h
  split at h
  · obtain rfl := Option.some.inj h
    exact .null
  split at h
  · rename_i hnumeric
    split at h
    · rename_i hboolean
      split at h
      · exact .truth hboolean (by rw [← Option.some.inj h]; decide)
      · exact .truth hboolean (by rw [← Option.some.inj h]; decide)
      · cases h
    · rename_i hother
      obtain rfl := Option.some.inj h
      exact .number hother (by rw [String.toList_ofList]; exact isNumeric_iff.mp hnumeric)
  · split at h
    · rename_i literal hliteral
      obtain rfl := Option.some.inj h
      obtain ⟨tokens, token, hread, honly, hkind, rfl⟩ := stringLiteral?_some hliteral
      have hvalue := stringValue_literal (.inl rfl) token.stringValue 0
      rw [String.empty_append] at hvalue
      refine .literal hread honly hkind ?_ (tokenize_enclosed .single nofun) rfl hvalue
      rw [quotePgLiteral, toList_enclosed]
      rfl
    · exact .call (call?_mem h)

theorem Closed.number_cases {isDigit : Char → Bool} {inner : String}
    (h : Closed isDigit inner valueType text) (hnumber : IsNumber Text.isDecimalDigit text.toList) :
    valueType ≠ some .boolean ∧ text = inner ∧ IsNumber isDigit inner.toList := by
  have hbegins := hnumber.begins
  cases h with
  | null => exact absurd hbegins (by decide)
  | truth _ word =>
    have hnone : ∀ word ∈ truthWords, ¬ word.toList.head?.any beginsNumber = true := by decide
    exact absurd hbegins (hnone text word)
  | call known =>
    have hnone : ∀ call ∈ targetCalls, ¬ call.toList.head?.any beginsNumber = true := by decide
    exact absurd hbegins (hnone text known)
  | number other digits => exact ⟨other, rfl, digits⟩
  | literal _ _ _ quoted =>
    rw [quoted] at hbegins
    exact absurd hbegins (by decide)

theorem Closed.boolean_of_word {inner : String}
    (h : Closed Text.isDecimalDigit inner valueType text) (word : text ∈ truthWords) :
    valueType = some .boolean := by
  have hheads : ∀ word ∈ truthWords, ¬ word.toList.head?.any beginsNumber = true ∧
      word.toList.head? ≠ some '\'' := by decide
  cases h with
  | null => exact absurd word (by decide)
  | truth boolean => exact boolean
  | call known =>
    have hapart : ∀ call ∈ targetCalls, call ∉ truthWords := by decide
    exact absurd word (hapart text known)
  | number _ digits => exact absurd digits.begins (hheads text word).1
  | literal _ _ _ quoted => exact absurd quoted (hheads text word).2

/-- What a column may get is also closed up to another class of digits, if it is no number or its
number is written with these too. -/
theorem Closed.mono {p q : Char → Bool} {inner : String} (h : Closed p inner valueType text)
    (digits : text = inner → IsNumber p inner.toList → IsNumber q inner.toList) :
    Closed q inner valueType text := by
  cases h with
  | null => exact .null
  | truth boolean word => exact .truth boolean word
  | call known => exact .call known
  | number other number => exact .number other (digits rfl number)
  | literal read only kind quoted one same_kind same =>
    exact .literal read only kind quoted one same_kind same

/-- What a column may get has ASCII digits alone unless it is a number with a digit of another
script. -/
theorem Closed.isDigit_iff {inner : String} : Closed Char.isDigit inner valueType text ↔
    Closed Text.isDecimalDigit inner valueType text ∧ ¬ IsForeignNumber text.toList := by
  constructor
  · intro h
    refine ⟨h.mono fun _ number => (isNumber_isDigit_iff.mp number).1, fun hforeign => ?_⟩
    obtain ⟨-, rfl, hdigits⟩ := h.number_cases hforeign.1
    exact (isNumber_isDigit_iff.mp hdigits).2 hforeign
  · rintro ⟨h, hascii⟩
    refine h.mono ?_
    rintro rfl number
    exact isNumber_isDigit_iff.mpr ⟨number, hascii⟩

theorem expression?_of_isNumber (h : IsNumber Text.isDecimalDigit inner)
    (other : valueType ≠ some .boolean) :
    expression? inner valueType = some (String.ofList inner) := by
  obtain ⟨c, rest, rfl, -⟩ := h.exists_head
  have hnull : ¬ Text.sameIgnoringAsciiCase (String.ofList (c :: rest)) "null" = true := by
    intro hsame
    rw [Text.sameIgnoringAsciiCase, String.toList_ofList, List.map_cons, beq_iff_eq] at hsame
    -- no number begins with the letter N, whatever its case
    have hcase : beginsNumber c.toLower = beginsNumber c :=
      map_toLower_invariant (by decide) c
    rw [(List.cons.inj hsame).1] at hcase
    have hbegins : beginsNumber c = true := h.begins
    rw [hbegins] at hcase
    exact absurd hcase (by decide)
  simp only [expression?]
  rw [if_neg (by simp), if_neg hnull, if_pos (isNumeric_iff.mpr h), if_neg other]

theorem isForeignNumber_iff (h : expression? inner valueType = some text) :
    IsForeignNumber text.toList ↔ valueType ≠ some .boolean ∧ IsForeignNumber inner := by
  constructor
  · intro hforeign
    obtain ⟨hother, rfl, -⟩ := (closed_of_expression? h).number_cases hforeign.1
    rw [String.toList_ofList] at hforeign
    exact ⟨hother, hforeign⟩
  · rintro ⟨hother, hforeign⟩
    rw [expression?_of_isNumber hforeign.1 hother] at h
    obtain rfl := Option.some.inj h
    rwa [String.toList_ofList]

end Closed

theorem targetDefault_ok_iff {definition text : String} {valueType : Option ColumnType} :
    targetDefault definition valueType = .ok text ↔
      expression? (innerOf definition) valueType = some text := by
  rw [targetDefault, innerOf]
  cases expression? (stripped (Text.trimmed definition.toList)) valueType with
  | none => exact iff_of_false nofun nofun
  | some expression => rw [Except.ok.injEq, Option.some.injEq]

/-- A default is refused with its own text, or becomes one of a closed set of forms: null, a truth
value for a column of truth values, a call, a number for any other column, or a literal that reads
back as the only token of the default. Its digits are those of any script, and so they are ASCII
digits alone except where the default of a column without truth values is a number with another
digit, which it becomes as it stands. -/
theorem default_closed_iff (definition : String) (valueType : Option ColumnType) :
    (∀ e, targetDefault definition valueType = .error e → e = .unsupportedDefault definition) ∧
    (∀ text, targetDefault definition valueType = .ok text →
      Closed Text.isDecimalDigit (String.ofList (innerOf definition)) valueType text ∧
      (Closed Char.isDigit (String.ofList (innerOf definition)) valueType text ↔
        valueType = some .boolean ∨ ¬ IsForeignNumber (innerOf definition)) ∧
      (text ∈ truthWords → valueType = some .boolean) ∧
      (valueType = some .boolean → ¬ IsNumber Text.isDecimalDigit text.toList)) ∧
    (valueType ≠ some .boolean → IsForeignNumber (innerOf definition) →
      targetDefault definition valueType = .ok (String.ofList (innerOf definition))) := by
  refine ⟨fun e h => ?_, fun text h => ?_, fun hother hforeign => ?_⟩
  · unfold targetDefault at h
    split at h
    · cases h
    · exact (Except.error.inj h).symm
  · have hinner := targetDefault_ok_iff.mp h
    have hclosed := closed_of_expression? hinner
    refine ⟨hclosed, ?_, hclosed.boolean_of_word, fun hboolean hnumber => ?_⟩
    · rw [Closed.isDigit_iff, isForeignNumber_iff hinner, and_iff_right hclosed, not_and_or,
        not_not]
    · exact (hclosed.number_cases hnumber).1 hboolean
  · exact targetDefault_ok_iff.mpr (expression?_of_isNumber hforeign.1 hother)

theorem innerOf_twice {definition : String} {once twice : List Char}
    (hwrapped : isWrapped (Text.trimmed definition.toList) = true)
    (honce : Text.trimmed (Text.trimmed definition.toList).tail.dropLast = once)
    (hagain : isWrapped once = true) (htwice : Text.trimmed once.tail.dropLast = twice)
    (hbare : isWrapped twice = false) : innerOf definition = twice := by
  rw [innerOf, stripped, dif_pos hwrapped, honce, stripped, dif_pos hagain, htwice, stripped,
    dif_neg (by rw [hbare]; exact Bool.false_ne_true)]

theorem innerOf_arabic : innerOf "((٣))" = ['٣'] :=
  innerOf_twice rfl rfl rfl rfl rfl

theorem isForeignNumber_arabic : IsForeignNumber (innerOf "((٣))") := by
  rw [innerOf_arabic]
  exact ⟨isNumeric_iff.mp (by decide), '٣', List.mem_cons_self, by decide, by decide⟩

/-- A literal comes out closed, and so does a truth value; a number in other digits stays what it
is. -/
theorem quoted_default_closed :
    targetDefault "( (N'it''s') )" none = .ok "'it''s'" ∧
    Closed Char.isDigit (String.ofList (innerOf "( (N'it''s') )")) none "'it''s'" ∧
    targetDefault "((1))" (some .boolean) = .ok "true" ∧
    Closed Char.isDigit (String.ofList (innerOf "((1))")) (some .boolean) "true" ∧
    targetDefault "((٣))" (some .int32) = .ok (String.ofList (innerOf "((٣))")) := by
  have hinner : innerOf "( (N'it''s') )" = "N'it''s'".toList := innerOf_twice rfl rfl rfl rfl rfl
  have hone : innerOf "((1))" = ['1'] := innerOf_twice rfl rfl rfl rfl rfl
  have hliteral : targetDefault "( (N'it''s') )" none = .ok "'it''s'" :=
    targetDefault_ok_iff.mpr (by rw [hinner]; rfl)
  have htruth : targetDefault "((1))" (some .boolean) = .ok "true" :=
    targetDefault_ok_iff.mpr (by rw [hone]; rfl)
  have hplain : ¬ IsForeignNumber (innerOf "( (N'it''s') )") := by
    rw [hinner]
    exact fun hforeign => absurd hforeign.1.begins (by decide)
  obtain ⟨-, hclosed, -⟩ := default_closed_iff "( (N'it''s') )" none
  obtain ⟨-, hboolean, -⟩ := default_closed_iff "((1))" (some .boolean)
  obtain ⟨-, -, hkept⟩ := default_closed_iff "((٣))" (some .int32)
  exact ⟨hliteral, (hclosed _ hliteral).2.1.mpr (.inr hplain), htruth,
    (hboolean _ htruth).2.1.mpr (.inl rfl), hkept nofun isForeignNumber_arabic⟩

/-- A digit of another script goes into the statement without quotes. -/
theorem foreign_digit_unquoted :
    targetDefault "((٣))" none = .ok "٣" ∧
    ¬ Closed Char.isDigit (String.ofList (innerOf "((٣))")) none "٣" := by
  refine ⟨targetDefault_ok_iff.mpr (by rw [innerOf_arabic]; rfl), fun hclosed => ?_⟩
  have hforeign := isForeignNumber_arabic
  rw [innerOf_arabic] at hforeign
  exact (Closed.isDigit_iff.mp hclosed).2 hforeign

end Default

end Migration
