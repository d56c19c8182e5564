import Formula.Item

/-!
# How tokens are spelled

The spellings of tokens are given by rules, and a lexeme is cut off a text where the text does not
go on with it. Both are said without the function that cuts.

* `IsNumber`, `Token.Spelled`: the texts that spell a number, and a token.
* `Token.GoesOn`: a character goes on with a spelling. `Stray`: text that is no token.
* `Lexeme.EndsBefore`: a lexeme ends in front of a text.
* **`Lexeme.endsBefore_first`**, **`Lexeme.first_of_endsBefore`**: the first lexeme of a text is the
  one that ends where it is cut.
-/

namespace Formula

/-! ## Characters -/

section Characters

variable {c : Char}

theorem toNat_of_isAlpha (h : c.isAlpha) : 65 ≤ c.toNat ∧ c.toNat ≤ 122 := by
  have hval : (decide (c.val ≥ 65 ∧ c.val ≤ 90) || (c.val ≥ 97 && c.val ≤ 122)) = true := h
  simp only [Bool.or_eq_true, Bool.and_eq_true, decide_eq_true_eq, ge_iff_le,
    UInt32.le_iff_toNat_le] at hval
  rcases hval with ⟨h1, h2⟩ | ⟨h1, h2⟩
  · exact ⟨h1, Nat.le_trans h2 (by decide)⟩
  · exact ⟨Nat.le_trans (by decide) h1, h2⟩

theorem toNat_of_isDigit (h : c.isDigit) : 48 ≤ c.toNat ∧ c.toNat ≤ 57 := by
  have hval : (c.val ≥ 48 && c.val ≤ 57) = true := h
  simp only [Bool.and_eq_true, decide_eq_true_eq, ge_iff_le, UInt32.le_iff_toNat_le] at hval
  exact hval

theorem toNat_of_isNameRest (h : isNameRest c) : 48 ≤ c.toNat ∧ c.toNat ≤ 122 := by
  rw [isNameRest, Char.isAlphanum, Bool.or_eq_true, Bool.or_eq_true, beq_iff_eq] at h
  rcases h with (h | h) | rfl
  · have := toNat_of_isAlpha h
    omega
  · have := toNat_of_isDigit h
    omega
  · decide

theorem not_isBlank_of_isNameRest (h : isNameRest c) : ¬ isBlank c := by
  obtain ⟨h1, h2⟩ := toNat_of_isNameRest h
  simp only [isBlank, blankRanges, List.any_cons, List.any_nil, Bool.or_eq_true, Bool.and_eq_true,
    decide_eq_true_eq, Bool.false_eq_true, or_false]
  omega

theorem isNameRest_of_isDigit (h : c.isDigit) : isNameRest c := by
  simp [isNameRest, Char.isAlphanum, h]

theorem not_isNameStart_of_isDigit (h : c.isDigit) : ¬ isNameStart c := by
  have hdigit := toNat_of_isDigit h
  rw [isNameStart, Bool.or_eq_true, beq_iff_eq]
  rintro (halpha | rfl)
  · have := toNat_of_isAlpha halpha
    omega
  · exact absurd hdigit (by decide)

theorem not_isDigit_point : ¬ '.'.isDigit := by decide

theorem not_isNameStart_of_number (h : c.isDigit ∨ c = '.') : ¬ isNameStart c := by
  rcases h with h | rfl
  · exact not_isNameStart_of_isDigit h
  · decide

theorem not_isBlank_of_number (h : c.isDigit ∨ c = '.') : ¬ isBlank c := by
  rcases h with h | rfl
  · exact not_isBlank_of_isNameRest (isNameRest_of_isDigit h)
  · decide

theorem toLower_of_isDigit (h : c.isDigit) : c.toLower = c := by
  have hdigit := toNat_of_isDigit h
  unfold Char.toLower
  rw [dif_neg]
  rintro ⟨hle, -⟩
  have : 65 ≤ c.toNat := hle
  omega

end Characters

theorem takeWhile_append_of_head {p : Char → Bool} {cs tail : List Char} (hcs : cs.all p)
    (ht : ∀ c ∈ tail.head?, p c = false) :
    (cs ++ tail).takeWhile p = cs ∧ (cs ++ tail).dropWhile p = tail := by
  have htail : tail.takeWhile p = [] ∧ tail.dropWhile p = tail := by
    cases tail with
    | nil => exact ⟨rfl, rfl⟩
    | cons c tail => simp [ht c rfl]
  rw [List.all_eq_true] at hcs
  rw [List.takeWhile_append_of_pos hcs, List.dropWhile_append_of_pos hcs, htail.1, List.append_nil]
  exact ⟨rfl, htail.2⟩

theorem eq_false_of_head?_dropWhile {p : Char → Bool} {cs : List Char} {c : Char}
    (h : c ∈ (cs.dropWhile p).head?) : p c = false := by
  have hstop := List.head?_dropWhile_not p cs
  rwa [Option.mem_def.1 h] at hstop

/-! ## Numbers -/

/-- Digits with at most one point among them, and at least one digit. -/
structure IsNumber (cs : List Char) : Prop where
  chars : ∀ c ∈ cs, c.isDigit ∨ c = '.'
  points : cs.count '.' ≤ 1
  digit : ∃ c ∈ cs, c.isDigit

namespace Numeral

/-- Whole part and fraction are digits. -/
structure OfDigits (n : Numeral) : Prop where
  whole : n.whole.all Char.isDigit
  fraction : (n.fraction.getD []).all Char.isDigit

/-- What stands behind the numeral does not go on with it. -/
def EndsBefore (n : Numeral) (tail : List Char) : Prop :=
  ∀ c ∈ tail.head?, ¬ c.isDigit ∧ (n.fraction = none → c ≠ '.')

variable {n : Numeral} {c : Char} {cs tail : List Char}

theorem ofDigits_ofChars (cs : List Char) : (ofChars cs).1.OfDigits := by
  unfold ofChars
  split
  · exact ⟨List.all_takeWhile, List.all_takeWhile⟩
  · exact ⟨List.all_takeWhile, rfl⟩

theorem endsBefore_ofChars (cs : List Char) : (ofChars cs).1.EndsBefore (ofChars cs).2 := by
  unfold ofChars
  split
  next rest h => exact fun c hc => ⟨by simp [eq_false_of_head?_dropWhile hc], nofun⟩
  next rest h =>
    refine fun c hc => ⟨by simp [eq_false_of_head?_dropWhile hc], ?_⟩
    rintro - rfl
    obtain ⟨tail, ht⟩ := List.head?_eq_some_iff.1 hc
    exact h tail ht

theorem ofChars_append (hn : n.OfDigits) (ht : n.EndsBefore tail) :
    ofChars (n.spelling ++ tail) = (n, tail) := by
  obtain ⟨whole, fraction⟩ := n
  obtain ⟨hwhole, hfraction⟩ := hn
  have hdigit : ∀ c ∈ tail.head?, c.isDigit = false :=
    fun c hc => Bool.eq_false_iff.2 (ht c hc).1
  cases fraction with
  | none =>
    obtain ⟨htake, hdrop⟩ := takeWhile_append_of_head hwhole hdigit
    rw [spelling, ofChars, htake, hdrop]
    split
    next rest => exact absurd rfl ((ht '.' rfl).2 rfl)
    next => rfl
  | some fraction =>
    have hpoint : ∀ c ∈ ('.' :: (fraction ++ tail)).head?, c.isDigit = false := by
      rintro c ⟨⟩
      rfl
    obtain ⟨htake, hdrop⟩ := takeWhile_append_of_head hwhole hpoint
    obtain ⟨htake', hdrop'⟩ := takeWhile_append_of_head hfraction hdigit
    rw [spelling, List.append_assoc, List.cons_append, ofChars, htake, hdrop]
    rw [Option.getD_some] at htake' hdrop'
    simp only [htake', hdrop']

theorem mem_spelling : c ∈ n.spelling ↔
    c ∈ n.whole ∨ (c = '.' ∧ n.fraction ≠ none) ∨ c ∈ n.fraction.getD [] := by
  obtain ⟨whole, fraction⟩ := n
  cases fraction <;> simp [spelling]

theorem isDigit_or_of_mem_spelling (hn : n.OfDigits) (hc : c ∈ n.spelling) :
    c.isDigit ∨ (c = '.' ∧ n.fraction ≠ none) := by
  rcases mem_spelling.1 hc with h | h | h
  · exact .inl (List.all_eq_true.1 hn.whole c h)
  · exact .inr h
  · exact .inl (List.all_eq_true.1 hn.fraction c h)

theorem point_mem_spelling (hn : n.OfDigits) : '.' ∈ n.spelling ↔ n.fraction ≠ none := by
  constructor
  · intro h
    exact ((isDigit_or_of_mem_spelling hn h).resolve_left not_isDigit_point).2
  · exact fun h => mem_spelling.2 (.inr (.inl ⟨rfl, h⟩))

theorem hasDigit_iff (hn : n.OfDigits) : n.hasDigit ↔ ∃ c ∈ n.spelling, c.isDigit := by
  rw [hasDigit, Bool.not_eq_true', List.isEmpty_eq_false_iff_exists_mem]
  constructor
  · rintro ⟨c, hc⟩
    rcases List.mem_append.1 hc with h | h
    · exact ⟨c, mem_spelling.2 (.inl h), List.all_eq_true.1 hn.whole c h⟩
    · exact ⟨c, mem_spelling.2 (.inr (.inr h)), List.all_eq_true.1 hn.fraction c h⟩
  · rintro ⟨c, hc, hd⟩
    refine ⟨c, List.mem_append.2 ?_⟩
    rcases mem_spelling.1 hc with h | ⟨rfl, -⟩ | h
    · exact .inl h
    · exact absurd hd not_isDigit_point
    · exact .inr h

theorem count_point {cs : List Char} (h : cs.all Char.isDigit) : cs.count '.' = 0 := by
  rw [List.count_eq_zero]
  exact fun hp => not_isDigit_point (List.all_eq_true.1 h '.' hp)

theorem isNumber_spelling (hn : n.OfDigits) (hd : n.hasDigit) : IsNumber n.spelling := by
  refine ⟨fun c hc => (isDigit_or_of_mem_spelling hn hc).imp_right And.left, ?_,
    (hasDigit_iff hn).1 hd⟩
  obtain ⟨whole, fraction⟩ := n
  have hwhole := count_point hn.whole
  have hfraction := count_point hn.fraction
  cases fraction with
  | none => simp [spelling, hwhole]
  | some fraction =>
    rw [Option.getD_some] at hfraction
    simp [spelling, hwhole, hfraction]

theorem exists_of_isNumber (h : IsNumber cs) :
    ∃ n : Numeral, n.OfDigits ∧ n.hasDigit ∧ n.spelling = cs := by
  have hdigits : ∀ ds : List Char, '.' ∉ ds → (∀ c ∈ ds, c ∈ cs) → ds.all Char.isDigit := by
    intro ds hp hds
    refine List.all_eq_true.2 fun c hc => (h.chars c (hds c hc)).resolve_right ?_
    rintro rfl
    exact hp hc
  by_cases hp : '.' ∈ cs
  · obtain ⟨whole, fraction, rfl, hwhole⟩ := List.eq_append_cons_of_mem hp
    have hcount := h.points
    rw [List.count_append, List.count_cons_self] at hcount
    have hfraction : '.' ∉ fraction := by
      rw [← List.count_eq_zero]
      omega
    have hn : OfDigits ⟨whole, some fraction⟩ :=
      ⟨hdigits whole hwhole fun c hc => by simp [hc],
        hdigits fraction hfraction fun c hc => by simp [hc]⟩
    exact ⟨_, hn, (hasDigit_iff hn).2 h.digit, rfl⟩
  · have hn : OfDigits ⟨cs, none⟩ := ⟨hdigits cs hp fun c hc => hc, rfl⟩
    exact ⟨_, hn, (hasDigit_iff hn).2 h.digit, rfl⟩

end Numeral

namespace Double

variable {n : Numeral}

/-- Without an exponent a numeral is the number that it writes. -/
theorem scaled_zero (n : Numeral) : scaled n 0 = n.decimal := by
  have hmin : max (-((n.size : Int) + 400)) (min (n.decimal.exponent + 0) 400) =
      n.decimal.exponent := by
    have : n.decimal.exponent = -((n.fraction.getD []).length : Int) := rfl
    have : n.size = n.whole.length + (n.fraction.getD []).length := rfl
    omega
  rw [scaled, hmin]

theorem readMagnitude?_spelling (hn : n.OfDigits) (hd : n.hasDigit) :
    readMagnitude? n.spelling = some n.decimal.toFloat := by
  have hend : n.EndsBefore [] := nofun
  have hread := Numeral.ofChars_append hn hend
  rw [List.append_nil] at hread
  have hchars : ∀ c ∈ n.spelling.map Char.toLower, c.isDigit ∨ c = '.' := by
    intro c hc
    obtain ⟨d, hd, rfl⟩ := List.mem_map.1 hc
    rcases Numeral.isDigit_or_of_mem_spelling hn hd with h | ⟨rfl, -⟩
    · rw [toLower_of_isDigit h]
      exact .inl h
    · exact .inr rfl
  -- a numeral is none of the words
  have hinf : ∀ cs, n.spelling.map Char.toLower ≠ 'i' :: cs := by
    intro cs h
    exact absurd (hchars 'i' (by simp [h])) (by decide)
  have hnan : ∀ cs, n.spelling.map Char.toLower ≠ 'n' :: cs := by
    intro cs h
    exact absurd (hchars 'n' (by simp [h])) (by decide)
  simp [readMagnitude?, hinf, hnan, hread, hd, exponent?, scaled_zero]

/-- A number in a formula is read as one in a binding. -/
theorem read_spelling (hn : n.OfDigits) (hd : n.hasDigit) :
    read n.spelling = .ok n.decimal.toFloat := by
  have hchars := (Numeral.isNumber_spelling hn hd).chars
  have hmagnitude := readMagnitude?_spelling hn hd
  unfold read
  split
  next rest h => exact absurd (hchars '-' (by simp [h])) (by decide)
  next rest h => exact absurd (hchars '+' (by simp [h])) (by decide)
  next => rw [hmagnitude]

end Double

/-! ## Tokens -/

namespace Token

/-- The texts that spell a token. -/
inductive Spelled : Token → List Char → Prop
  | number {value : Float} {cs : List Char} :
    IsNumber cs → Double.read cs = .ok value → Spelled (.number value) cs
  | name {cs : List Char} : Formula.isName cs → Spelled (.name (String.ofList cs)) cs
  | plus : Spelled .plus ['+']
  | minus : Spelled .minus ['-']
  | star : Spelled .star ['*']
  | slash : Spelled .slash ['/']
  | openParen : Spelled .openParen ['(']
  | closeParen : Spelled .closeParen [')']
  | comma : Spelled .comma [',']

/-- The character behind the spelling `cs` of a token goes on with it. -/
def GoesOn (t : Token) (cs : List Char) (c : Char) : Prop :=
  match t with
  | number _ => c.isDigit ∨ (c = '.' ∧ '.' ∉ cs)
  | name _ => isNameRest c
  | _ => False

variable {t : Token} {c : Char} {cs : List Char}

theorem spelled_of_symbol? (h : symbol? c = some t) : t.Spelled [c] := by
  unfold symbol? at h
  split at h
  case h_8 => cases h
  all_goals
    cases h
    constructor

theorem not_goesOn_of_symbol? (h : symbol? c = some t) {d : Char} : ¬ t.GoesOn cs d := by
  unfold symbol? at h
  split at h <;> cases h <;> exact id

/-- The first character says what is spelled. -/
theorem Spelled.head (h : t.Spelled (c :: cs)) :
    (c.isDigit ∨ c = '.') ∨ isNameStart c ∨ (symbol? c).isSome := by
  cases h with
  | number h _ => exact .inl (h.chars c (.head _))
  | name h =>
    rw [Formula.isName, Bool.and_eq_true] at h
    exact .inr (.inl h.1)
  | _ => exact .inr (.inr rfl)

theorem Spelled.ne_nil (h : t.Spelled cs) : cs ≠ [] := by
  cases h with
  | number h _ =>
    obtain ⟨c, hc, -⟩ := h.digit
    exact List.ne_nil_of_mem hc
  | name h =>
    rintro rfl
    cases h
  | _ => exact List.cons_ne_nil _ _

end Token

/-- Text that is no token, in front of `rest`: a point that no digit follows, or a character that is
no blank and begins no token. -/
inductive Stray : List Char → List Char → Prop
  | point {rest : List Char} : (∀ c ∈ rest.head?, ¬ c.isDigit) → Stray ['.'] rest
  | char {c : Char} (rest : List Char) :
    ¬ isBlank c → (∀ (t : Token) (cs : List Char), ¬ t.Spelled (c :: cs)) → Stray [c] rest

/-! ## Lexemes -/

namespace Lexeme

/-- The lexeme ends in front of `rest`: it is a token that `rest` does not go on with, or it is
stray. -/
inductive EndsBefore : Lexeme → List Char → Prop
  | token {t : Token} {cs rest : List Char} :
    t.Spelled cs → (∀ c ∈ rest.head?, ¬ t.GoesOn cs c) → EndsBefore ⟨.token t, cs⟩ rest
  | bad {cs rest : List Char} : Stray cs rest → EndsBefore ⟨.bad (String.ofList cs), cs⟩ rest

variable {c : Char} {cs rest : List Char}

/-! ### The first lexeme by its first character -/

theorem first_name (h : isNameStart c) (cs : List Char) :
    first c cs = (⟨.token (.name (String.ofList (c :: cs.takeWhile isNameRest))),
      c :: cs.takeWhile isNameRest⟩, cs.dropWhile isNameRest) := by
  rw [first, if_pos h]

theorem first_number (h : c.isDigit ∨ c = '.') (cs : List Char) :
    first c cs =
      (⟨if (Numeral.ofChars (c :: cs)).1.hasDigit then
          .token (.number (Numeral.ofChars (c :: cs)).1.decimal.toFloat)
        else .bad (String.ofList (Numeral.ofChars (c :: cs)).1.spelling),
        (Numeral.ofChars (c :: cs)).1.spelling⟩, (Numeral.ofChars (c :: cs)).2) := by
  rw [first, if_neg (not_isNameStart_of_number h), if_pos (by simpa using h)]

theorem first_symbol {t : Token} (h : Token.symbol? c = some t) (cs : List Char) :
    first c cs = (⟨.token t, [c]⟩, cs) := by
  unfold Token.symbol? at h
  split at h
  case h_8 => cases h
  all_goals
    cases h
    rfl

theorem first_stray (hname : ¬ isNameStart c) (hnumber : ¬ (c.isDigit ∨ c = '.'))
    (hsymbol : Token.symbol? c = none) (cs : List Char) :
    first c cs = (⟨.bad c.toString, [c]⟩, cs) := by
  rw [first, if_neg hname, if_neg (by simpa using hnumber), hsymbol]

/-! ### The first lexeme ends where it is cut -/

theorem endsBefore_name (h : isNameStart c) (cs : List Char) :
    EndsBefore ⟨.token (.name (String.ofList (c :: cs.takeWhile isNameRest))),
      c :: cs.takeWhile isNameRest⟩ (cs.dropWhile isNameRest) := by
  refine .token (.name ?_) fun d hd hrest => ?_
  · simp [isName, h, List.all_takeWhile]
  · exact Bool.false_ne_true ((eq_false_of_head?_dropWhile hd).symm.trans hrest)

theorem endsBefore_number {n : Numeral} (hn : n.OfDigits) (hd : n.hasDigit)
    (hrest : n.EndsBefore rest) :
    EndsBefore ⟨.token (.number n.decimal.toFloat), n.spelling⟩ rest := by
  refine .token (.number (Numeral.isNumber_spelling hn hd) (Double.read_spelling hn hd)) ?_
  rintro c hc (h | ⟨rfl, hp⟩)
  · exact (hrest c hc).1 h
  · rw [Numeral.point_mem_spelling hn, ne_eq, Decidable.not_not] at hp
    exact (hrest '.' hc).2 hp rfl

theorem endsBefore_point {n : Numeral} (hd : ¬ n.hasDigit) (hn : n.spelling ≠ [])
    (hrest : n.EndsBefore rest) :
    EndsBefore ⟨.bad (String.ofList n.spelling), n.spelling⟩ rest := by
  have hpoint : n.spelling = ['.'] := by
    obtain ⟨whole, fraction⟩ := n
    simp only [Numeral.hasDigit, Bool.not_eq_true, Bool.not_eq_false', List.isEmpty_iff,
      List.append_eq_nil_iff] at hd
    obtain ⟨rfl, hfraction⟩ := hd
    cases fraction with
    | none => exact (hn rfl).elim
    | some fraction =>
      cases hfraction
      rfl
  rw [hpoint]
  exact .bad (.point fun c hc => (hrest c hc).1)

/-- **The first lexeme of a text ends where it is cut.** -/
theorem endsBefore_first (hc : ¬ isBlank c) (cs : List Char) :
    (first c cs).1.EndsBefore (first c cs).2 := by
  by_cases hname : isNameStart c
  · rw [first_name hname]
    exact endsBefore_name hname cs
  by_cases hnumber : c.isDigit ∨ c = '.'
  · have hends := Numeral.endsBefore_ofChars (c :: cs)
    rw [first_number hnumber]
    by_cases hdigit : (Numeral.ofChars (c :: cs)).1.hasDigit
    · rw [if_pos hdigit]
      exact endsBefore_number (Numeral.ofDigits_ofChars _) hdigit hends
    · rw [if_neg hdigit]
      exact endsBefore_point hdigit (Numeral.spelling_ofChars_ne_nil hnumber cs) hends
  cases hsymbol : Token.symbol? c with
  | some t =>
    rw [first_symbol hsymbol]
    exact .token (Token.spelled_of_symbol? hsymbol) fun d _ => Token.not_goesOn_of_symbol? hsymbol
  | none =>
    rw [first_stray hname hnumber hsymbol]
    refine .bad (.char cs hc fun t ds h => ?_)
    rcases h.head with h | h | h
    · exact hnumber h
    · exact hname h
    · simp [hsymbol] at h

/-! ### What ends where it is cut is the first lexeme -/

theorem first_of_numeral {n : Numeral} (hn : n.OfDigits) (hs : n.spelling = c :: cs)
    (hrest : n.EndsBefore rest) :
    first c (cs ++ rest) =
      (⟨if n.hasDigit then .token (.number n.decimal.toFloat) else .bad (String.ofList n.spelling),
        n.spelling⟩, rest) := by
  have hread := Numeral.ofChars_append hn hrest
  rw [hs, List.cons_append] at hread
  have hmem : c ∈ n.spelling := hs ▸ List.mem_cons_self
  rw [first_number ((Numeral.isDigit_or_of_mem_spelling hn hmem).imp_right And.left), hread]

theorem first_of_spelled {t : Token} (ht : t.Spelled (c :: cs))
    (hrest : ∀ d ∈ rest.head?, ¬ t.GoesOn (c :: cs) d) :
    ¬ isBlank c ∧ first c (cs ++ rest) = (⟨.token t, c :: cs⟩, rest) := by
  cases ht with
  | @number value _ hnumber hread =>
    refine ⟨not_isBlank_of_number (hnumber.chars c (.head _)), ?_⟩
    obtain ⟨n, hn, hd, hs⟩ := Numeral.exists_of_isNumber hnumber
    have hvalue : n.decimal.toFloat = value := by
      rw [← hs, Double.read_spelling hn hd] at hread
      exact Except.ok.inj hread
    have hends : n.EndsBefore rest := by
      refine fun d hd => ⟨fun h => hrest d hd (.inl h), ?_⟩
      rintro hf rfl
      refine hrest '.' hd (.inr ⟨rfl, ?_⟩)
      rw [← hs, Numeral.point_mem_spelling hn]
      exact fun h => h hf
    rw [first_of_numeral hn hs hends, if_pos hd, hvalue, hs]
  | name h =>
    rw [isName, Bool.and_eq_true] at h
    obtain ⟨htake, hdrop⟩ :=
      takeWhile_append_of_head h.2 fun d hd => Bool.eq_false_iff.2 (hrest d hd)
    refine ⟨not_isBlank_of_isNameRest (isNameRest_of_isNameStart h.1), ?_⟩
    rw [first_name h.1, htake, hdrop]
  | _ => exact ⟨by decide, first_symbol rfl _⟩

theorem first_of_stray (h : Stray (c :: cs) rest) :
    ¬ isBlank c ∧ first c (cs ++ rest) = (⟨.bad (String.ofList (c :: cs)), c :: cs⟩, rest) := by
  cases h with
  | point hrest =>
    refine ⟨by decide, ?_⟩
    exact first_of_numeral (n := ⟨[], some []⟩) ⟨rfl, rfl⟩ rfl fun d hd => ⟨hrest d hd, nofun⟩
  | char _ hblank hno =>
    refine ⟨hblank, first_stray (fun h => ?_) (fun h => ?_) ?_ rest⟩
    · exact hno _ [] (.name (by simp [isName, h]))
    · -- with one more digit it would be a number
      have hnumber : IsNumber [c, '0'] := by
        refine ⟨?_, ?_, '0', by simp, by decide⟩
        · rintro d (_ | ⟨_, _ | ⟨_, ⟨⟩⟩⟩)
          · exact h
          · exact .inl (by decide)
        · rw [List.count_cons]
          split <;> decide
      obtain ⟨n, hn, hd, hs⟩ := Numeral.exists_of_isNumber hnumber
      exact hno _ ['0'] (.number hnumber (hs ▸ Double.read_spelling hn hd))
    · rw [Option.eq_none_iff_forall_ne_some]
      exact fun t ht => hno t [] (Token.spelled_of_symbol? ht)

/-- **What ends where it is cut is the first lexeme of the text.** -/
theorem first_of_endsBefore {l : Lexeme} (h : l.EndsBefore rest) :
    ∃ c cs, l.spelling = c :: cs ∧ ¬ isBlank c ∧ first c (cs ++ rest) = (l, rest) := by
  cases h with
  | @token t cs _ ht hrest =>
    obtain ⟨c, cs, rfl⟩ := List.exists_cons_of_ne_nil ht.ne_nil
    exact ⟨c, cs, rfl, first_of_spelled ht hrest⟩
  | @bad cs _ h =>
    cases h with
    | point hrest => exact ⟨'.', [], rfl, first_of_stray (.point hrest)⟩
    | char _ hblank hno => exact ⟨_, [], rfl, first_of_stray (.char rest hblank hno)⟩

end Lexeme

end Formula
