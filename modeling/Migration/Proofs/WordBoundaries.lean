import Mathlib.Data.List.TakeWhile
import Migration.Naming.Canonical

/-
  Where words begin in a name.

  The canonical form is made by passes over the text, one behind the other. Each pass goes
  from the left: at the first place where a text of its shape begins it takes the longest
  one, rewrites it and goes on behind it. The first pass sets apart capitalized words, but
  the character before such a word is taken with it, so it passes over words that follow one
  another at once; the second pass finds these by the small letter before the capital. This
  file

  1. defines what a pass may make of a text (`Rewrites`), proves that it is one thing
     (`Rewrites.unique`), and that the steps of the canonical form are such passes
     (`rewrites_splitCapitalized`, `rewrites_splitLowerUpper`, `rewrites_collapse`);
  2. defines rules that look at each character between its neighbours (`eachBetween`), for
     the beginnings of words and for repeated underscores;
  3. proves that the two passes together put an underscore where the rule says that a word
     begins and nowhere else (`twoPasses_iff`), and concludes what a name becomes and when
     it is refused (`canonicalize_by_boundaries`). -/

namespace Migration.Naming

/-! ## Passes -/

/-- What one pass makes of a text: the first text of the shape is taken as long as it goes, edited,
and the pass goes on behind it. -/
inductive Rewrites (Shape : List Char → Prop) (edit : List Char → List Char) :
    List Char → List Char → Prop where
  | done : Rewrites Shape edit [] []
  | hit {found rest out : List Char} (shape : Shape found)
      (longest : ∀ other, other <+: found ++ rest → Shape other → other.length ≤ found.length)
      (behind : Rewrites Shape edit rest out) :
      Rewrites Shape edit (found ++ rest) (edit found ++ out)
  | skip {c : Char} {rest out : List Char} (none : ∀ found, found <+: c :: rest → ¬ Shape found)
      (behind : Rewrites Shape edit rest out) : Rewrites Shape edit (c :: rest) (c :: out)

def CapitalizedWord (found : List Char) : Prop :=
  ∃ c u word, found = c :: u :: word ∧ c ≠ '\n' ∧ u.isUpper = true ∧ word ≠ [] ∧
    ∀ l ∈ word, l.isLower = true

def LowerUpper (found : List Char) : Prop :=
  ∃ c u, found = [c, u] ∧ (c.isLower = true ∨ c.isDigit = true) ∧ u.isUpper = true

def RepeatedUnderscore (found : List Char) : Prop :=
  2 ≤ found.length ∧ ∀ c ∈ found, c = '_'

/-- Puts an underscore behind the first character. -/
def setApart : List Char → List Char
  | [] => []
  | c :: word => c :: '_' :: word

section Unique

variable {Shape : List Char → Prop} {edit : List Char → List Char} {cs out out' : List Char}

theorem eq_of_longest {found found' rest rest' : List Char} (heq : found ++ rest = found' ++ rest')
    (hshape : Shape found) (hshape' : Shape found')
    (hlongest : ∀ other, other <+: found ++ rest → Shape other → other.length ≤ found.length)
    (hlongest' : ∀ other, other <+: found' ++ rest' → Shape other → other.length ≤ found'.length) :
    found = found' ∧ rest = rest' := by
  have hle : found'.length ≤ found.length := by
    apply hlongest _ _ hshape'
    rw [heq]
    exact List.prefix_append _ _
  have hge : found.length ≤ found'.length := by
    apply hlongest' _ _ hshape
    rw [← heq]
    exact List.prefix_append _ _
  exact List.append_inj heq (by omega)

/-- A pass makes one thing of a text. -/
theorem Rewrites.unique (hne : ¬ Shape []) (h : Rewrites Shape edit cs out)
    (h' : Rewrites Shape edit cs out') : out = out' := by
  induction h generalizing out' with
  | done =>
    generalize hnil : ([] : List Char) = cs at h'
    cases h' with
    | done => rfl
    | hit shape longest behind =>
      obtain ⟨rfl, -⟩ := List.append_eq_nil_iff.mp hnil.symm
      exact absurd shape hne
    | skip none behind => cases hnil
  | @hit found rest out shape longest behind ih =>
    generalize hcs : found ++ rest = cs at h'
    cases h' with
    | done =>
      obtain ⟨rfl, -⟩ := List.append_eq_nil_iff.mp hcs
      exact absurd shape hne
    | hit shape' longest' behind' =>
      obtain ⟨rfl, rfl⟩ := eq_of_longest hcs shape shape' longest longest'
      rw [ih behind']
    | skip none' behind' =>
      refine absurd shape (none' found ?_)
      rw [← hcs]
      exact List.prefix_append _ _
  | @skip c rest out none behind ih =>
    generalize hcs : c :: rest = cs at h'
    cases h' with
    | done => cases hcs
    | hit shape' longest' behind' =>
      refine absurd shape' (none _ ?_)
      rw [hcs]
      exact List.prefix_append _ _
    | skip none' behind' =>
      obtain ⟨rfl, rfl⟩ := List.cons.inj hcs
      rw [ih behind']

end Unique

/-! ## The passes of the canonical form -/

theorem isUpper_iff {c : Char} : c.isUpper = true ↔ 65 ≤ c.toNat ∧ c.toNat ≤ 90 := by
  change decide (65 ≤ c.val ∧ c.val ≤ 90) = true ↔ _
  rw [decide_eq_true_eq, UInt32.le_iff_toNat_le, UInt32.le_iff_toNat_le]
  exact Iff.rfl

theorem le_toNat_of_isLower {c : Char} (h : c.isLower = true) : 97 ≤ c.toNat := by
  change (decide (97 ≤ c.val) && decide (c.val ≤ 122)) = true at h
  rw [Bool.and_eq_true, decide_eq_true_eq, UInt32.le_iff_toNat_le] at h
  exact h.1

theorem not_isLower_of_isUpper {c : Char} (h : c.isUpper = true) :
    c.isLower = false ∧ c.isDigit = false := by
  rw [isUpper_iff] at h
  constructor
  · rw [Bool.eq_false_iff]
    intro hlower
    have hge := le_toNat_of_isLower hlower
    omega
  · rw [Bool.eq_false_iff]
    intro hdigit
    have hle : c.toNat ≤ 57 := (Char.isDigit_iff_toNat.mp hdigit).2
    omega

theorem length_le_takeWhile {p : Char → Bool} {found cs : List Char} (h : found <+: cs)
    (hall : ∀ c ∈ found, p c = true) : found.length ≤ (cs.takeWhile p).length := by
  obtain ⟨rest, rfl⟩ := h
  rw [List.takeWhile_append_of_pos hall, List.length_append]
  omega

/-- A capitalized word begins behind the character. -/
def WordBehind (c : Char) (rest : List Char) : Prop :=
  c ≠ '\n' ∧ ∃ u l tail, rest = u :: l :: tail ∧ u.isUpper = true ∧ l.isLower = true

section Capitalized

variable {c u l : Char} {rest : List Char}

theorem wordBehind_of_capitalizedWord {found : List Char} (h : CapitalizedWord found)
    (hfound : found <+: c :: rest) : WordBehind c rest := by
  obtain ⟨c', u, word, rfl, hc, hu, hne, hword⟩ := h
  obtain ⟨l, word, rfl⟩ := List.exists_cons_of_ne_nil hne
  obtain ⟨tail, htail⟩ := hfound
  obtain ⟨rfl, rfl⟩ := List.cons.inj htail
  exact ⟨hc, u, l, word ++ tail, rfl, hu, hword l List.mem_cons_self⟩

theorem splitCapitalized_word (hc : c ≠ '\n') (hu : u.isUpper = true) (hl : l.isLower = true) :
    splitCapitalized false (c :: u :: l :: rest) =
      c :: '_' :: u :: splitCapitalized true (l :: rest) := by
  rw [splitCapitalized, if_neg (by simp), if_pos ⟨hc, hu, hl⟩]

theorem splitCapitalized_other (h : ¬ WordBehind c rest) :
    splitCapitalized false (c :: rest) = c :: splitCapitalized false rest := by
  match rest, h with
  | [], _ => rfl
  | [_], _ => rfl
  | u :: l :: tail, h =>
    rw [splitCapitalized, if_neg (by simp), if_neg]
    rintro ⟨hc, hu, hl⟩
    exact h ⟨hc, u, l, tail, rfl, hu, hl⟩

/-- Within a word the pass goes on to its end. -/
theorem splitCapitalized_inWord (cs : List Char) : splitCapitalized true cs =
    cs.takeWhile Char.isLower ++ splitCapitalized false (cs.dropWhile Char.isLower) := by
  induction cs with
  | nil => rfl
  | cons c rest ih =>
    by_cases hc : c.isLower = true
    · rw [List.takeWhile_cons_of_pos hc, List.dropWhile_cons_of_pos hc, List.cons_append, ← ih]
      match rest with
      | [] => rfl
      | [_] => rfl
      | u :: l :: tail => rw [splitCapitalized, if_pos (by simpa using hc)]
    · rw [List.takeWhile_cons_of_neg hc, List.dropWhile_cons_of_neg hc, List.nil_append]
      match rest with
      | [] => rfl
      | [_] => rfl
      | u :: l :: tail =>
        simp [splitCapitalized, hc]

theorem rewrites_splitCapitalized (cs : List Char) :
    Rewrites CapitalizedWord setApart cs (splitCapitalized false cs) := by
  induction hlength : cs.length using Nat.strong_induction_on generalizing cs with
  | _ n ih =>
    subst hlength
    match cs with
    | [] => exact .done
    | c :: rest =>
      by_cases hword : WordBehind c rest
      · obtain ⟨hc, u, l, tail, rfl, hu, hl⟩ := hword
        have hcut : c :: u :: l :: tail = (c :: u :: (l :: tail).takeWhile Char.isLower) ++
            (l :: tail).dropWhile Char.isLower := by
          rw [List.cons_append, List.cons_append, List.takeWhile_append_dropWhile]
        rw [splitCapitalized_word hc hu hl, splitCapitalized_inWord, hcut]
        refine @Rewrites.hit _ setApart _ _ _ ⟨c, u, _, rfl, hc, hu, ?_, ?_⟩ ?_ (ih _ ?_ _ rfl)
        · simp [hl]
        · exact fun d hd => List.mem_takeWhile_imp hd
        · -- another word here ends where the small letters end
          rintro _ hother ⟨c', u', word, rfl, -, -, -, hsmall⟩
          rw [← hcut] at hother
          obtain ⟨behind, hbehind⟩ := hother
          simp only [List.cons_append, List.cons.injEq] at hbehind
          have hle := length_le_takeWhile ⟨behind, hbehind.2.2⟩ hsmall
          simp only [List.length_cons]
          omega
        · have hle := (List.dropWhile_suffix Char.isLower (l := l :: tail)).length_le
          simp only [List.length_cons] at *
          omega
      · rw [splitCapitalized_other hword]
        exact .skip (fun found hfound hshape => hword (wordBehind_of_capitalizedWord hshape hfound))
          (ih _ (by simp) rest rfl)

end Capitalized

section LowerUpper

variable {u : Char}

theorem splitLowerUpper_cons (c : Char) (rest : List Char) : splitLowerUpper (c :: rest) =
    if (c.isLower = true ∨ c.isDigit = true) ∧ rest.head?.any Char.isUpper = true then
      c :: '_' :: splitLowerUpper rest
    else c :: splitLowerUpper rest := by
  cases rest with
  | nil => simp [splitLowerUpper]
  | cons u tail =>
    rw [splitLowerUpper]
    exact if_congr (and_congr_left' Bool.or_eq_true_iff) rfl rfl

theorem splitLowerUpper_upper (hu : u.isUpper = true) (rest : List Char) :
    splitLowerUpper (u :: rest) = u :: splitLowerUpper rest := by
  obtain ⟨hlower, hdigit⟩ := not_isLower_of_isUpper hu
  rw [splitLowerUpper_cons, if_neg (by simp [hlower, hdigit])]

theorem rewrites_splitLowerUpper (cs : List Char) :
    Rewrites LowerUpper setApart cs (splitLowerUpper cs) := by
  induction hlength : cs.length using Nat.strong_induction_on generalizing cs with
  | _ n ih =>
    subst hlength
    match cs with
    | [] => exact .done
    | c :: rest =>
      rw [splitLowerUpper_cons]
      split
      · rename_i hword
        obtain ⟨hc, hcapital⟩ := hword
        obtain ⟨u, hhead, hu⟩ := (Option.any_eq_true _ _).mp hcapital
        obtain ⟨tail, rfl⟩ := List.head?_eq_some_iff.mp hhead
        rw [splitLowerUpper_upper hu]
        refine @Rewrites.hit _ setApart [c, u] _ _ ⟨c, u, rfl, hc, hu⟩ ?_ (ih _ ?_ tail rfl)
        · rintro _ - ⟨c', u', rfl, -, -⟩
          exact Nat.le_refl _
        · simp only [List.length_cons]
          omega
      · rename_i hword
        refine .skip ?_ (ih _ (by simp) rest rfl)
        rintro _ ⟨behind, hbehind⟩ ⟨c', u, rfl, hc, hu⟩
        obtain ⟨rfl, rfl⟩ := List.cons.inj hbehind
        exact hword ⟨hc, hu⟩

end LowerUpper

section Underscores

theorem collapse_underscore (rest : List Char) :
    collapse ('_' :: rest) = '_' :: collapse (rest.dropWhile (· == '_')) := by
  induction rest with
  | nil => rfl
  | cons d tail ih =>
    by_cases hd : d = '_'
    · subst hd
      rw [collapse, if_pos ⟨rfl, rfl⟩, ih, List.dropWhile_cons_of_pos (by simp)]
    · rw [collapse, if_neg (by simp [hd]), List.dropWhile_cons_of_neg (by simpa using hd)]

theorem collapse_cons_of_ne {c : Char} {rest : List Char}
    (h : ¬ (c = '_' ∧ ∃ tail, rest = '_' :: tail)) : collapse (c :: rest) = c :: collapse rest := by
  cases rest with
  | nil => rfl
  | cons d tail =>
    rw [collapse, if_neg]
    rintro ⟨hc, rfl⟩
    exact h ⟨hc, tail, rfl⟩

theorem rewrites_collapse (cs : List Char) :
    Rewrites RepeatedUnderscore (fun _ => ['_']) cs (collapse cs) := by
  induction hlength : cs.length using Nat.strong_induction_on generalizing cs with
  | _ n ih =>
    subst hlength
    match cs with
    | [] => exact .done
    | c :: rest =>
      by_cases hrun : c = '_' ∧ ∃ tail, rest = '_' :: tail
      · obtain ⟨rfl, tail, rfl⟩ := hrun
        have hcut : '_' :: '_' :: tail = ('_' :: '_' :: tail).takeWhile (· == '_') ++
            tail.dropWhile (· == '_') := by
          rw [List.takeWhile_cons_of_pos (by simp), List.takeWhile_cons_of_pos (by simp),
            List.cons_append, List.cons_append, List.takeWhile_append_dropWhile]
        rw [collapse_underscore, List.dropWhile_cons_of_pos (by simp), hcut]
        refine @Rewrites.hit _ (fun _ => ['_']) _ _ _ ⟨?_, ?_⟩ ?_ (ih _ ?_ _ rfl)
        · simp
        · intro d hd
          simpa using List.mem_takeWhile_imp hd
        · rintro other hother ⟨-, hall⟩
          rw [← hcut] at hother
          apply length_le_takeWhile hother
          intro d hd
          simp [hall d hd]
        · have hle := (List.dropWhile_suffix (· == '_') (l := tail)).length_le
          simp only [List.length_cons]
          omega
      · rw [collapse_cons_of_ne hrun]
        refine .skip ?_ (ih _ (by simp) rest rfl)
        rintro found hfound ⟨htwo, hall⟩
        match found, htwo with
        | d :: e :: more, _ =>
          obtain ⟨behind, hbehind⟩ := hfound
          simp only [List.cons_append, List.cons.injEq] at hbehind
          obtain ⟨rfl, rfl⟩ := hbehind
          have hd := hall d (by simp)
          have he := hall e (by simp)
          exact hrun ⟨hd, more ++ behind, by rw [he]⟩

end Underscores

/-! ## Rules for each character -/

/-- What a rule makes of each character of a text between its neighbours. -/
def eachBetween (rule : Option Char → Char → Option Char → List Char) (cs : List Char) :
    List Char :=
  cs.zipIdx.flatMap fun (c, i) => rule (if i = 0 then none else cs[i - 1]?) c cs[i + 1]?

/-- The same from the left, the character before being known. -/
def eachAfter (rule : Option Char → Char → Option Char → List Char) :
    Option Char → List Char → List Char
  | _, [] => []
  | before, c :: rest => rule before c rest.head? ++ eachAfter rule (some c) rest

/-- A word begins at a capital that follows a small letter or digit, and at one that follows any
character but a line break and that a small letter follows. -/
def BeginsWord (before : Option Char) (c : Char) (after : Option Char) : Prop :=
  c.isUpper = true ∧ ∃ b ∈ before,
    (b ≠ '\n' ∧ ∃ a ∈ after, a.isLower = true) ∨ b.isLower = true ∨ b.isDigit = true

instance (before : Option Char) (c : Char) (after : Option Char) :
    Decidable (BeginsWord before c after) :=
  -- not left to instance search, which may go through all characters for each neighbour
  decidable_of_iff (c.isUpper = true ∧ before.any (fun b =>
      (b ≠ '\n' ∧ after.any Char.isLower = true) ∨ b.isLower = true ∨ b.isDigit = true) = true)
    (by simp only [BeginsWord, Option.any_eq_true, decide_eq_true_eq, Option.mem_def])

/-- An underscore before each capital at which a word begins. -/
def wordRule (before : Option Char) (c : Char) (after : Option Char) : List Char :=
  if BeginsWord before c after then ['_', c] else [c]

/-- No underscore that follows an underscore. -/
def underscoreRule (before : Option Char) (c : Char) (_after : Option Char) : List Char :=
  if c = '_' ∧ before = some '_' then [] else [c]

/-- The text with an underscore wherever a word begins within it. -/
def markWords (cs : List Char) : List Char := eachBetween wordRule cs

/-- The text with every run of underscores taken as one. -/
def singleUnderscores (cs : List Char) : List Char := eachBetween underscoreRule cs

/-- The name with its words set apart by single underscores, in small letters. -/
def boundaryForm (raw : String) : String :=
  String.ofList (singleUnderscores (Text.lowered (markWords raw.toList)))

section Rules

variable {rule : Option Char → Char → Option Char → List Char}

/-- Both readings of a rule agree, also behind the beginning of a text. -/
theorem eachBetween_eq_eachAfter (cs : List Char) :
    eachBetween rule cs = eachAfter rule none cs := by
  have behind : ∀ start rest : List Char,
      (rest.zipIdx start.length).flatMap (fun (c, i) => rule
        (if i = 0 then none else (start ++ rest)[i - 1]?) c (start ++ rest)[i + 1]?) =
      eachAfter rule start.getLast? rest := by
    intro start rest
    induction rest generalizing start with
    | nil => rfl
    | cons c tail ih =>
      have hbefore : (if start.length = 0 then none else (start ++ c :: tail)[start.length - 1]?) =
          start.getLast? := by
        cases start with
        | nil => rfl
        | cons d more =>
          rw [if_neg (by simp), List.getElem?_append_left (by simp), List.getLast?_eq_getElem?]
      have hafter : (start ++ c :: tail)[start.length + 1]? = tail.head? := by
        rw [List.getElem?_append_right (by omega), List.head?_eq_getElem?]
        simp
      have hnext := ih (start ++ [c])
      rw [List.length_append, List.length_singleton, List.append_assoc, List.singleton_append,
        List.getLast?_concat] at hnext
      rw [List.zipIdx_cons, List.flatMap_cons, hnext, eachAfter, ← hbefore, ← hafter]
  exact behind [] cs

end Rules

/-- An underscore is written once where the rule passes over those that follow it. -/
theorem collapse_eq (cs : List Char) : collapse cs = singleUnderscores cs := by
  rw [singleUnderscores, eachBetween_eq_eachAfter]
  cases cs with
  | nil => rfl
  | cons c rest =>
    rw [eachAfter, underscoreRule, if_neg (by simp), List.singleton_append]
    induction rest generalizing c with
    | nil => rfl
    | cons d tail ih =>
      rw [collapse, eachAfter, underscoreRule, ih d]
      by_cases hboth : c = '_' ∧ d = '_'
      · obtain ⟨rfl, rfl⟩ := hboth
        rw [if_pos ⟨rfl, rfl⟩, if_pos ⟨rfl, rfl⟩, List.nil_append]
      · rw [if_neg hboth, if_neg (by simpa [and_comm] using hboth), List.singleton_append]

section Words

variable {before : Option Char} {c : Char} {rest cs : List Char}

theorem eachAfter_of_not_isUpper (hc : c.isUpper = false) (rest : List Char) :
    eachAfter wordRule before (c :: rest) = c :: eachAfter wordRule (some c) rest := by
  rw [eachAfter, wordRule, if_neg, List.singleton_append]
  rintro ⟨hupper, -⟩
  rw [hc] at hupper
  cases hupper

theorem eachAfter_none (c : Char) (rest : List Char) :
    eachAfter wordRule none (c :: rest) = c :: eachAfter wordRule (some c) rest := by
  rw [eachAfter, wordRule, if_neg (by simp [BeginsWord]), List.singleton_append]

/-- Where no capitalized word begins behind the character, the second pass sees what the rule
sees. -/
theorem splitLowerUpper_eq (hsplit : splitLowerUpper cs = eachAfter wordRule none rest)
    (hhead : cs.head? = rest.head?)
    (hword : ¬ WordBehind c rest ∨ c.isLower = true) :
    splitLowerUpper (c :: cs) = c :: eachAfter wordRule (some c) rest := by
  rw [splitLowerUpper_cons, hsplit, hhead]
  cases rest with
  | nil => simp [eachAfter]
  | cons u tail =>
    rw [eachAfter_none, eachAfter]
    have hiff : BeginsWord (some c) u tail.head? ↔
        (c.isLower = true ∨ c.isDigit = true) ∧ (u :: tail).head?.any Char.isUpper = true := by
      constructor
      · rintro ⟨hu, b, hb, h⟩
        obtain rfl := Option.some.inj hb
        rcases h with ⟨hc, a, ha, hlower⟩ | hboundary
        · obtain ⟨more, rfl⟩ := List.head?_eq_some_iff.mp ha
          have hc' := hword.resolve_left (not_not_intro ⟨hc, u, a, more, rfl, hu, hlower⟩)
          exact ⟨.inl hc', hu⟩
        · exact ⟨hboundary, hu⟩
      · rintro ⟨hboundary, hu⟩
        exact ⟨hu, c, rfl, .inr hboundary⟩
    by_cases h : BeginsWord (some c) u tail.head?
    · rw [if_pos (hiff.mp h), wordRule, if_pos h]
      rfl
    · rw [if_neg (fun h' => h (hiff.mpr h')), wordRule, if_neg h]
      rfl

theorem head?_splitCapitalized (inWord : Bool) (cs : List Char) :
    (splitCapitalized inWord cs).head? = cs.head? := by
  fun_cases splitCapitalized inWord cs <;> rfl

theorem splitLowerUpper_underscore (c : Char) (rest : List Char) :
    splitLowerUpper (c :: '_' :: rest) = c :: '_' :: splitLowerUpper rest := by
  rw [splitLowerUpper_cons, if_neg (by simp), splitLowerUpper_cons, if_neg (by simp)]

theorem not_wordBehind_of_short {c : Char} (h : rest.length < 2) : ¬ WordBehind c rest := by
  rintro ⟨-, u, l, tail, rfl, -, -⟩
  simp only [List.length_cons] at h
  omega

/-- The two passes together do what the rule says, whether the first begins within a word or not. -/
theorem splitLowerUpper_splitCapitalized (inWord : Bool) (cs : List Char) :
    splitLowerUpper (splitCapitalized inWord cs) = eachAfter wordRule none cs := by
  fun_induction splitCapitalized inWord cs with
  | case1 inWord c u l rest hlower ih =>
    rw [eachAfter_none]
    rw [Bool.and_eq_true] at hlower
    exact splitLowerUpper_eq ih (head?_splitCapitalized _ _) (.inr hlower.2)
  | case2 inWord c u l rest _ hword ih =>
    obtain ⟨hc, hu, hl⟩ := hword
    have hbegins : BeginsWord (some c) u (some l) := ⟨hu, c, rfl, .inl ⟨hc, l, rfl, hl⟩⟩
    have hl' : l.isUpper = false := by
      rw [Bool.eq_false_iff]
      intro hupper
      rw [(not_isLower_of_isUpper hupper).1] at hl
      cases hl
    have hstep : eachAfter wordRule (some c) (u :: l :: rest) =
        '_' :: u :: eachAfter wordRule (some u) (l :: rest) := by
      rw [eachAfter, List.head?_cons, wordRule, if_pos hbegins]
      rfl
    calc splitLowerUpper (c :: '_' :: u :: splitCapitalized true (l :: rest))
        = c :: '_' :: u :: eachAfter wordRule none (l :: rest) := by
          rw [splitLowerUpper_underscore, splitLowerUpper_upper hu, ih]
      _ = c :: '_' :: u :: eachAfter wordRule (some u) (l :: rest) := by
          rw [eachAfter_none, eachAfter_of_not_isUpper hl']
      _ = eachAfter wordRule none (c :: u :: l :: rest) := by
          rw [eachAfter_none, hstep]
  | case3 inWord c u l rest _ hnone ih =>
    rw [eachAfter_none]
    refine splitLowerUpper_eq ih (head?_splitCapitalized _ _) (.inl ?_)
    rintro ⟨hc, u', l', tail, hrest, hu, hl⟩
    simp only [List.cons.injEq] at hrest
    obtain ⟨rfl, rfl, -⟩ := hrest
    exact hnone ⟨hc, hu, hl⟩
  | case4 inWord cs hshort =>
    -- a text of at most two characters holds no capitalized word behind another character
    match cs, hshort with
    | [], _ => rfl
    | [c], _ => rw [eachAfter_none]; rfl
    | [c, u], _ =>
      have hlast : splitLowerUpper [u] = eachAfter wordRule none [u] := by
        rw [eachAfter_none]
        rfl
      rw [eachAfter_none]
      exact splitLowerUpper_eq hlast rfl (.inl (not_wordBehind_of_short (by simp)))
    | c :: u :: l :: rest, hshort => exact (hshort c u l rest rfl).elim

end Words

/-! ## The canonical form by its rules -/

/-- Both passes over capitals, one behind the other. -/
def TwoPasses (cs out : List Char) : Prop :=
  ∃ first, Rewrites CapitalizedWord setApart cs first ∧ Rewrites LowerUpper setApart first out

theorem markWords_eq (cs : List Char) :
    splitLowerUpper (splitCapitalized false cs) = markWords cs := by
  rw [splitLowerUpper_splitCapitalized, markWords, eachBetween_eq_eachAfter]

theorem twoPasses_iff {cs out : List Char} : TwoPasses cs out ↔ out = markWords cs := by
  have hne : ¬ CapitalizedWord [] := by simp [CapitalizedWord]
  have hne' : ¬ LowerUpper [] := by simp [LowerUpper]
  rw [← markWords_eq]
  constructor
  · rintro ⟨first, hfirst, hsecond⟩
    obtain rfl := hfirst.unique hne (rewrites_splitCapitalized cs)
    exact hsecond.unique hne' (rewrites_splitLowerUpper _)
  · rintro rfl
    exact ⟨_, rewrites_splitCapitalized cs, rewrites_splitLowerUpper _⟩

theorem onePass_iff {cs out : List Char} :
    Rewrites RepeatedUnderscore (fun _ => ['_']) cs out ↔ out = singleUnderscores cs := by
  have hne : ¬ RepeatedUnderscore [] := by simp [RepeatedUnderscore]
  rw [← collapse_eq]
  constructor
  · intro h
    exact h.unique hne (rewrites_collapse cs)
  · rintro rfl
    exact rewrites_collapse cs

theorem canonicalForm_eq (raw : String) : canonicalForm raw = boundaryForm raw := by
  rw [canonicalForm, boundaryForm, markWords_eq, collapse_eq]

/-- The two passes over capitals put an underscore where the rule says that a word begins and
nowhere else, and the third takes each run of underscores as one. So a name becomes its words in
small letters, set apart by single underscores, marked as normalized where that is more than its
small letters; it is refused just where that has more characters than a name may have, with the
numbers of characters of both. -/
theorem canonicalize_by_boundaries (raw : String) :
    (∀ out, TwoPasses raw.toList out ↔ out = markWords raw.toList) ∧
    (∀ cs out, Rewrites RepeatedUnderscore (fun _ => ['_']) cs out ↔ out = singleUnderscores cs) ∧
    (∀ target, canonicalize raw = .ok target ↔
      (boundaryForm raw).length ≤ maxNameLength ∧ target.name = boundaryForm raw ∧
        (target.normalized = true ↔ boundaryForm raw ≠ Text.lowercase raw)) ∧
    (∀ e, canonicalize raw = .error e ↔
      maxNameLength < (boundaryForm raw).length ∧
        e = .normalizationFailure raw raw.length (boundaryForm raw) (boundaryForm raw).length
          maxNameLength) := by
  refine ⟨fun _ => twoPasses_iff, fun _ _ => onePass_iff, ?_, ?_⟩
  · intro target
    rw [canonicalize, canonicalForm_eq]
    by_cases hlong : maxNameLength < (boundaryForm raw).length
    · rw [if_pos hlong]
      refine iff_of_false nofun ?_
      rintro ⟨hfits, -⟩
      omega
    · rw [if_neg hlong]
      obtain ⟨name, normalized⟩ := target
      simp only [Except.ok.injEq, TargetName.mk.injEq]
      constructor
      · rintro ⟨rfl, rfl⟩
        exact ⟨by omega, rfl, by simp⟩
      · rintro ⟨-, rfl, hnormalized⟩
        exact ⟨rfl, by rw [Bool.eq_iff_iff, hnormalized]; simp⟩
  · intro e
    rw [canonicalize, canonicalForm_eq]
    by_cases hlong : maxNameLength < (boundaryForm raw).length
    · rw [if_pos hlong]
      constructor
      · intro h
        exact ⟨hlong, (Except.error.inj h).symm⟩
      · rintro ⟨-, rfl⟩
        rfl
    · rw [if_neg hlong]
      refine iff_of_false nofun ?_
      rintro ⟨hlong', -⟩
      exact hlong hlong'

/-- Capitals before a word, a digit before a capital, and two underscores. -/
example : boundaryForm "HTMLParser2Go__Old" = "html_parser2_go_old" := by decide +kernel

end Migration.Naming
