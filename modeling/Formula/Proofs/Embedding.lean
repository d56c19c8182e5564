import Mathlib
import Formula.Proofs.RoundTrip

/-!
# Formulas made of texts of formulas

The text of a formula keeps its meaning inside the text of a larger one: in a group, behind a sign,
beside an operator and among the arguments of a call. The limits grow by what is put around it.

* `ReadAs`: a text is read as a phrase within a limit on nesting; `parse_eq_ok_iff_readAs`.
* `ReadAs.group`, `ReadAs.neg`, `ReadAs.binary`, `ReadAs.arguments`, `ReadAs.call`: what is put
  around texts.
* **`parse_embedded`**: sources inside of sources.
-/

namespace Formula

/-- The text `cs` is read as a phrase and nests at most `depth` deep. -/
def ReadAs (depth : Nat) (cs : List Char) (ph : Phrase) : Prop :=
  ∃ ts n, pieces cs = ts.map .token ∧ ph.Spelled ts n ∧ n ≤ depth

theorem parse_eq_ok_iff_readAs {source : String} {limits : Limits} {e : Expr} :
    parse source limits = .ok e ↔
      ReadAs limits.depth source.toList (.tree .sum e) ∧ e.height ≤ limits.height := by
  constructor
  · intro h
    obtain ⟨ts, n, hts, hn, hdepth, hheight⟩ := spelled_of_parse h
    exact ⟨⟨ts, n, tokenize_eq_ok_iff.1 hts, hn, hdepth⟩, hheight⟩
  · rintro ⟨⟨ts, n, hts, hn, hdepth⟩, hheight⟩
    exact parse_of_admits (tokenize_eq_ok_iff.2 hts) hn ⟨hdepth, hheight⟩

theorem pieces_enclosed {cs : List Char} {ts : List Token} (h : pieces cs = ts.map .token) :
    pieces ('(' :: (cs ++ [')'])) = (.openParen :: (ts ++ [.closeParen])).map .token := by
  rw [pieces_symbol (t := .openParen) rfl, pieces_append (delimited_cons (by decide) []), h,
    pieces_symbol (t := .closeParen) rfl, pieces_nil, List.map_cons, List.map_append]
  rfl

theorem delimited_symbol (o : Operator) (cs : List Char) : Delimited (o.symbol :: cs) :=
  delimited_cons (by cases o <;> decide) cs

namespace ReadAs

variable {depth : Nat} {cs ds name : List Char} {e f : Expr} {es : List Expr}
  {texts : List (List Char)}

theorem of_operand (h : ReadAs depth cs (.tree .operand e)) (l : Level) :
    ReadAs depth cs (.tree l e) := by
  obtain ⟨ts, n, hts, hn, hdepth⟩ := h
  exact ⟨ts, n, hts, spelled_of_operand hn l, hdepth⟩

theorem group (h : ReadAs depth cs (.tree .sum e)) :
    ReadAs (depth + 1) ('(' :: (cs ++ [')'])) (.tree .operand e) := by
  obtain ⟨ts, n, hts, hn, hdepth⟩ := h
  exact ⟨_, n + 1, pieces_enclosed hts, .group hn, Nat.succ_le_succ hdepth⟩

theorem neg (h : ReadAs depth cs (.tree .operand e)) :
    ReadAs (depth + 1) ('-' :: cs) (.tree .operand (.neg e)) := by
  obtain ⟨ts, n, hts, hn, hdepth⟩ := h
  refine ⟨.minus :: ts, n + 1, ?_, .minus hn, Nat.succ_le_succ hdepth⟩
  rw [pieces_symbol (t := .minus) rfl, hts, List.map_cons]

theorem binary (o : Operator) (h : ReadAs depth cs (.tree .operand e))
    (h' : ReadAs depth ds (.tree .operand f)) :
    ReadAs depth (cs ++ o.symbol :: ds) (.tree .sum (.binary o e f)) := by
  obtain ⟨ts, m, hts, hm, hdepth⟩ := h
  obtain ⟨us, n, hus, hn, hdepth'⟩ := h'
  refine ⟨ts ++ o.token :: us, max m n, ?_, ?_, Nat.max_le.2 ⟨hdepth, hdepth'⟩⟩
  · rw [pieces_append (delimited_symbol o ds), pieces_symbol (Expr.symbol?_symbol o), hts, hus,
      List.map_append, List.map_cons]
  · have hbinary := Phrase.Spelled.binary o (spelled_of_operand hm o.level)
      (spelled_of_operand hn o.level.below)
    cases o with
    | add | sub => exact hbinary
    | mul | div => exact .sum hbinary

theorem call (hname : isName name) (h : ReadAs depth cs (.arguments es)) :
    ReadAs (depth + 1) (name ++ '(' :: (cs ++ [')']))
      (.tree .operand (.call (String.ofList name) es)) := by
  obtain ⟨ts, n, hts, hn, hdepth⟩ := h
  refine ⟨_, n + 1, ?_, .call (String.ofList name) hn, Nat.succ_le_succ hdepth⟩
  rw [pieces_name hname (delimited_cons (by decide) _), pieces_enclosed hts]
  rfl

theorem more (h : ReadAs depth cs (.tree .sum e)) (h' : ReadAs depth ds (.someArguments es)) :
    ReadAs depth (cs ++ ',' :: ds) (.someArguments (e :: es)) := by
  obtain ⟨ts, m, hts, hm, hdepth⟩ := h
  obtain ⟨us, n, hus, hn, hdepth'⟩ := h'
  refine ⟨ts ++ .comma :: us, max m n, ?_, .more hm hn, Nat.max_le.2 ⟨hdepth, hdepth'⟩⟩
  rw [pieces_append (delimited_cons (by decide) ds), pieces_symbol (t := .comma) rfl, hts, hus,
    List.map_append, List.map_cons]

theorem someArguments (h : List.Forall₂ (fun cs e => ReadAs depth cs (.tree .sum e)) texts es)
    (hne : texts ≠ []) : ReadAs depth ([','].intercalate texts) (.someArguments es) := by
  induction h with
  | nil => exact (hne rfl).elim
  | @cons cs e texts es hcs hrest ih =>
    cases hrest with
    | nil =>
      obtain ⟨ts, n, hts, hn, hdepth⟩ := hcs
      rw [List.intercalate_singleton]
      exact ⟨ts, n, hts, .last hn, hdepth⟩
    | cons =>
      rw [List.intercalate_cons_cons, List.append_assoc]
      exact more hcs (ih (List.cons_ne_nil _ _))

/-- **Texts with commas between them are read as arguments**, however many there are. -/
theorem arguments (h : List.Forall₂ (fun cs e => ReadAs depth cs (.tree .sum e)) texts es) :
    ReadAs depth ([','].intercalate texts) (.arguments es) := by
  cases h with
  | nil => exact ⟨[], 0, pieces_nil, .none, Nat.zero_le depth⟩
  | cons hcs hrest =>
    obtain ⟨ts, n, hts, hn, hdepth⟩ := someArguments (.cons hcs hrest) (List.cons_ne_nil _ _)
    exact ⟨ts, n, hts, .some hn, hdepth⟩

end ReadAs

/-! ## Sources -/

section Sources

variable {source left right name : String} {sources : List String} {limits : Limits} {e f : Expr}
  {es : List Expr}

theorem parse_group (h : parse source limits = .ok e) :
    parse ("(" ++ source ++ ")") ⟨limits.depth + 1, limits.height⟩ = .ok e := by
  obtain ⟨hread, hheight⟩ := parse_eq_ok_iff_readAs.1 h
  refine parse_eq_ok_iff_readAs.2 ⟨?_, hheight⟩
  simpa using hread.group.of_operand .sum

theorem parse_neg_group (h : parse source limits = .ok e) :
    parse ("-(" ++ source ++ ")") ⟨limits.depth + 2, limits.height + 1⟩ = .ok (.neg e) := by
  obtain ⟨hread, hheight⟩ := parse_eq_ok_iff_readAs.1 h
  refine parse_eq_ok_iff_readAs.2 ⟨?_, ?_⟩
  · simpa using hread.group.neg.of_operand .sum
  · rw [Expr.height]
    exact Nat.succ_le_succ hheight

theorem parse_binary (o : Operator) (h : parse left limits = .ok e)
    (h' : parse right limits = .ok f) :
    parse ("(" ++ left ++ ")" ++ o.symbol.toString ++ "(" ++ right ++ ")")
      ⟨limits.depth + 1, limits.height + 1⟩ = .ok (.binary o e f) := by
  obtain ⟨hleft, hheight⟩ := parse_eq_ok_iff_readAs.1 h
  obtain ⟨hright, hheight'⟩ := parse_eq_ok_iff_readAs.1 h'
  refine parse_eq_ok_iff_readAs.2 ⟨?_, ?_⟩
  · simpa using ReadAs.binary o hleft.group hright.group
  · rw [Expr.height]
    exact Nat.succ_le_succ (Nat.max_le.2 ⟨hheight, hheight'⟩)

theorem heights_le_of_parse
    (h : List.Forall₂ (fun source e => parse source limits = .ok e) sources es) :
    Expr.heights es ≤ limits.height := by
  induction h with
  | nil =>
    rw [Expr.heights]
    exact Nat.zero_le _
  | cons hparse _ ih =>
    rw [Expr.heights]
    exact Nat.max_le.2 ⟨(parse_eq_ok_iff_readAs.1 hparse).2, ih⟩

theorem parse_call (hname : isName name.toList)
    (h : List.Forall₂ (fun source e => parse source limits = .ok e) sources es) :
    parse (name ++ "(" ++ ",".intercalate sources ++ ")")
      ⟨limits.depth + 1, limits.height + 1⟩ = .ok (.call name es) := by
  have htexts : List.Forall₂ (fun cs e => ReadAs limits.depth cs (.tree .sum e))
      (sources.map String.toList) es := by
    rw [List.forall₂_map_left_iff]
    exact h.imp fun _ _ hparse => (parse_eq_ok_iff_readAs.1 hparse).1
  refine parse_eq_ok_iff_readAs.2 ⟨?_, ?_⟩
  · simpa using ((ReadAs.arguments htexts).call hname).of_operand .sum
  · rw [Expr.height]
    exact Nat.succ_le_succ (heights_le_of_parse h)

end Sources

/-- **Sources inside of sources.** Whatever sources are read within some limits, texts made of them
are read as the trees made of their trees, one level deeper for a group or a call and two for a
negated group. -/
theorem parse_embedded (limits : Limits) :
    (∀ (source : String) (e : Expr), parse source limits = .ok e →
      parse ("(" ++ source ++ ")") ⟨limits.depth + 1, limits.height⟩ = .ok e ∧
      parse ("-(" ++ source ++ ")") ⟨limits.depth + 2, limits.height + 1⟩ = .ok (.neg e)) ∧
    (∀ (o : Operator) (left right : String) (e f : Expr),
      parse left limits = .ok e → parse right limits = .ok f →
        parse ("(" ++ left ++ ")" ++ o.symbol.toString ++ "(" ++ right ++ ")")
          ⟨limits.depth + 1, limits.height + 1⟩ = .ok (.binary o e f)) ∧
    ∀ (name : String) (sources : List String) (es : List Expr), isName name.toList →
      List.Forall₂ (fun source e => parse source limits = .ok e) sources es →
        parse (name ++ "(" ++ ",".intercalate sources ++ ")")
          ⟨limits.depth + 1, limits.height + 1⟩ = .ok (.call name es) :=
  ⟨fun _ _ h => ⟨parse_group h, parse_neg_group h⟩, fun o _ _ _ _ => parse_binary o,
    fun _ _ _ => parse_call⟩

/-- The sources `x` and `-y*z`, put together in each way. -/
theorem parse_embedded_two :
    let limits : Limits := ⟨1, 3⟩
    let e : Expr := .var "x"
    let f : Expr := .binary .mul (.neg (.var "y")) (.var "z")
    (parse "x" limits = .ok e ∧ parse "-y*z" limits = .ok f) ∧
      (parse "(-y*z)" ⟨2, 3⟩ = .ok f ∧ parse "-(-y*z)" ⟨3, 4⟩ = .ok (.neg f)) ∧
      parse "(x)/(-y*z)" ⟨2, 4⟩ = .ok (.binary .div e f) ∧
      parse "f(x,-y*z,x)" ⟨2, 4⟩ = .ok (.call "f" [e, f, e]) := by
  intro limits e f
  have he : parse "x" limits = .ok e := by cbv
  have hf : parse "-y*z" limits = .ok f := by cbv
  obtain ⟨hone, htwo, hmany⟩ := parse_embedded limits
  refine ⟨⟨he, hf⟩, ?_, ?_, ?_⟩
  · have hgroup : "(" ++ "-y*z" ++ ")" = "(-y*z)" := by decide
    have hneg : "-(" ++ "-y*z" ++ ")" = "-(-y*z)" := by decide
    exact hgroup ▸ hneg ▸ hone _ f hf
  · have hbinary : "(" ++ "x" ++ ")" ++ Operator.div.symbol.toString ++ "(" ++ "-y*z" ++ ")" =
        "(x)/(-y*z)" := by decide
    exact hbinary ▸ htwo .div _ _ e f he hf
  · have hcall : "f" ++ "(" ++ ",".intercalate ["x", "-y*z", "x"] ++ ")" = "f(x,-y*z,x)" := by
      decide
    have hname : isName "f".toList := by decide
    exact hcall ▸ hmany "f" _ [e, f, e] hname (.cons he (.cons hf (.cons he .nil)))

end Formula
