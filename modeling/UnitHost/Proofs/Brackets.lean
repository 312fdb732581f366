import Mathlib.Data.List.Basic
import UnitHost.Shell.Balance

/-!
# Brackets of an input

`Outside` says what stands outside the string literals of a text, and `Closes` that every opening bracket there is closed:
a closing bracket stands after it, and the brackets between the two match. Reading does not match brackets, it counts
them. The depth after a text is the excess of its opening brackets over its closing ones, in 32 bits: `depth_balance`.

Every opening bracket is closed exactly if no ending of the text opens more than it closes: `closes_iff`. The count sees
one of these endings only, the whole text. So closing brackets that nothing opened make up for opening brackets that come
after them and stay open.
-/

namespace UnitHost.Shell

/-! String literals. -/

/-- The inside of a string literal. Its quotes are escaped, and its backslashes escape something. -/
inductive LiteralBody : List Char → Prop where
  | nil : LiteralBody []
  | plain {c : Char} {rest : List Char} (quote : c ≠ '"') (backslash : c ≠ '\\') (body : LiteralBody rest) :
      LiteralBody (c :: rest)
  | escape {c : Char} {rest : List Char} (body : LiteralBody rest) : LiteralBody ('\\' :: c :: rest)

/-- What stands outside the string literals of a text. A literal runs from a quote to the next quote that is not escaped,
or to the end of the text; the text may end with a backslash that has nothing to escape. -/
inductive Outside : List Char → List Char → Prop where
  | nil : Outside [] []
  | plain {c : Char} {text code : List Char} (quote : c ≠ '"') (rest : Outside text code) :
      Outside (c :: text) (c :: code)
  | literal {inner text code : List Char} (body : LiteralBody inner) (rest : Outside text code) :
      Outside ('"' :: (inner ++ '"' :: text)) code
  | unclosed {inner : List Char} (body : LiteralBody inner) : Outside ('"' :: inner) []
  | dangling {inner : List Char} (body : LiteralBody inner) : Outside ('"' :: (inner ++ ['\\'])) []

/-- The text after the quote that closes a literal, if there is one. -/
def afterLiteral? : List Char → Option (List Char)
  | [] => none
  | [c] => if c = '"' then some [] else none
  | c :: d :: rest =>
    if c = '"' then some (d :: rest)
    else if c = '\\' then afterLiteral? rest
    else afterLiteral? (d :: rest)

theorem afterLiteral?_quote (rest : List Char) : afterLiteral? ('"' :: rest) = some rest := by
  cases rest <;> simp [afterLiteral?]

theorem LiteralBody.afterLiteral? {inner : List Char} (body : LiteralBody inner) (rest : List Char) :
    Shell.afterLiteral? (inner ++ rest) = Shell.afterLiteral? rest := by
  induction body with
  | nil => rfl
  | @plain c more quote backslash body ih =>
    rw [List.cons_append, ← ih]
    cases more ++ rest <;> simp [Shell.afterLiteral?, quote, backslash]
  | escape body ih => simpa [Shell.afterLiteral?] using ih

/-- What comes after an opening quote is a literal that is closed, or one that runs to the end. -/
theorem literal_cases (text : List Char) :
    (∃ inner rest, text = inner ++ '"' :: rest ∧ LiteralBody inner) ∨ LiteralBody text ∨
      ∃ inner, text = inner ++ ['\\'] ∧ LiteralBody inner := by
  fun_induction afterLiteral? text with
  | case1 => exact .inr (.inl .nil)
  | case2 => exact .inl ⟨[], [], rfl, .nil⟩
  | case3 c quote =>
    by_cases backslash : c = '\\'
    · subst backslash
      exact .inr (.inr ⟨[], rfl, .nil⟩)
    · exact .inr (.inl (.plain quote backslash .nil))
  | case4 d rest => exact .inl ⟨[], d :: rest, rfl, .nil⟩
  | case5 d rest quote ih =>
    rcases ih with ⟨inner, after, rfl, body⟩ | body | ⟨inner, rfl, body⟩
    · exact .inl ⟨'\\' :: d :: inner, after, rfl, body.escape⟩
    · exact .inr (.inl body.escape)
    · exact .inr (.inr ⟨'\\' :: d :: inner, rfl, body.escape⟩)
  | case6 c d rest quote backslash ih =>
    rcases ih with ⟨inner, after, found, body⟩ | body | ⟨inner, found, body⟩
    · exact .inl ⟨c :: inner, after, by rw [found]; rfl, .plain quote backslash body⟩
    · exact .inr (.inl (.plain quote backslash body))
    · exact .inr (.inr ⟨c :: inner, by rw [found]; rfl, .plain quote backslash body⟩)

namespace Outside

/-- Every text has something outside its literals. -/
theorem exists_code (text : List Char) : ∃ code, Outside text code := by
  generalize size : text.length = n
  induction n using Nat.strongRecOn generalizing text with
  | ind n ih =>
    cases text with
    | nil => exact ⟨[], .nil⟩
    | cons c rest =>
      rw [List.length_cons] at size
      by_cases quote : c = '"'
      · subst quote
        rcases literal_cases rest with ⟨inner, after, rfl, body⟩ | body | ⟨inner, rfl, body⟩
        · have shorter : after.length < n := by simp at size; omega
          obtain ⟨code, outside⟩ := ih _ shorter after rfl
          exact ⟨code, .literal body outside⟩
        · exact ⟨[], .unclosed body⟩
        · exact ⟨[], .dangling body⟩
      · obtain ⟨code, outside⟩ := ih rest.length (by omega) rest rfl
        exact ⟨c :: code, .plain quote outside⟩

/-- What stands outside the literals after an opening quote stands after the quote that closes the literal. -/
theorem after_quote {rest code : List Char} (outside : Outside ('"' :: rest) code) :
    (∃ after, afterLiteral? rest = some after ∧ Outside after code) ∨ afterLiteral? rest = none ∧ code = [] := by
  generalize opened : '"' :: rest = text at outside
  cases outside with
  | nil => cases opened
  | plain quote outside =>
    cases opened
    exact absurd rfl quote
  | @literal inner after _ body outside =>
    cases opened
    exact .inl ⟨after, by rw [body.afterLiteral?, afterLiteral?_quote], outside⟩
  | @unclosed inner body =>
    cases opened
    have ends := body.afterLiteral? []
    rw [List.append_nil] at ends
    exact .inr ⟨ends, rfl⟩
  | @dangling inner body =>
    cases opened
    exact .inr ⟨body.afterLiteral? ['\\'], rfl⟩

/-- Only one text stands outside the literals. -/
theorem unique {text code code' : List Char} (outside : Outside text code) (other : Outside text code') :
    code = code' := by
  have closed {rest after code : List Char} (found : afterLiteral? rest = some after)
      (outside : Outside ('"' :: rest) code) : Outside after code := by
    rcases outside.after_quote with ⟨after', found', outside⟩ | ⟨missing, -⟩
    · rw [found] at found'
      cases found'
      exact outside
    · rw [found] at missing
      cases missing
  have unclosed {rest code : List Char} (missing : afterLiteral? rest = none)
      (outside : Outside ('"' :: rest) code) : code = [] := by
    rcases outside.after_quote with ⟨after, found, -⟩ | ⟨-, empty⟩
    · rw [missing] at found
      cases found
    · exact empty
  induction outside generalizing code' with
  | nil =>
    cases other
    rfl
  | plain quote outside ih =>
    cases other with
    | plain _ other => rw [ih other]
    | literal => exact absurd rfl quote
    | unclosed => exact absurd rfl quote
    | dangling => exact absurd rfl quote
  | literal body outside ih =>
    apply ih
    apply closed _ other
    rw [body.afterLiteral?, afterLiteral?_quote]
  | @unclosed inner body =>
    have ends := body.afterLiteral? []
    rw [List.append_nil] at ends
    exact (unclosed ends other).symm
  | dangling body => exact (unclosed (body.afterLiteral? ['\\']) other).symm

end Outside

/-! Counting brackets. -/

/-- How many more brackets are opened than closed. -/
def excess (code : List Char) : Int := code.countP isOpening - code.countP isClosing

theorem isClosing_eq_false {c : Char} (opening : isOpening c = true) : isClosing c = false := by
  unfold isOpening at opening
  simp only [Bool.or_eq_true, beq_iff_eq] at opening
  rcases opening with (rfl | rfl) | rfl <;> decide

@[simp] theorem excess_nil : excess [] = 0 := rfl

theorem excess_append (code more : List Char) : excess (code ++ more) = excess code + excess more := by
  unfold excess
  rw [List.countP_append, List.countP_append]
  omega

theorem excess_opening {c : Char} (opening : isOpening c = true) (code : List Char) :
    excess (c :: code) = excess code + 1 := by
  simp [excess, opening, isClosing_eq_false opening]
  omega

theorem excess_closing {c : Char} (closing : isClosing c = true) (code : List Char) :
    excess (c :: code) = excess code - 1 := by
  have opening : isOpening c = false := by
    by_contra opening
    rw [isClosing_eq_false (Bool.of_not_eq_false opening)] at closing
    cases closing
  simp [excess, opening, closing]
  omega

theorem excess_other {c : Char} (opening : isOpening c = false) (closing : isClosing c = false) (code : List Char) :
    excess (c :: code) = excess code := by
  simp [excess, opening, closing]

/-! Matching brackets. -/

/-- Text in which brackets match, whatever their shapes: each that is opened is closed, and each that is closed was
opened. -/
inductive Nested : List Char → Prop where
  | nil : Nested []
  | other {c : Char} {rest : List Char} (opening : isOpening c = false) (closing : isClosing c = false)
      (nested : Nested rest) : Nested (c :: rest)
  | pair {o c : Char} {inner rest : List Char} (opening : isOpening o = true) (inside : Nested inner)
      (closing : isClosing c = true) (nested : Nested rest) : Nested (o :: (inner ++ c :: rest))

/-- Every opening bracket is closed by a later bracket, and between the two brackets match. -/
def Closes (code : List Char) : Prop :=
  ∀ before o after, code = before ++ o :: after → isOpening o = true →
    ∃ inner c rest, after = inner ++ c :: rest ∧ Nested inner ∧ isClosing c = true

theorem Nested.excess_eq {code : List Char} (nested : Nested code) : excess code = 0 := by
  induction nested with
  | nil => rfl
  | other opening closing _ ih => rw [excess_other opening closing, ih]
  | pair opening _ closing _ inside after =>
    rw [excess_opening opening, excess_append, excess_closing closing, inside, after]
    rfl

theorem Closes.of_append {before code : List Char} (closes : Closes (before ++ code)) : Closes code := by
  intro first o after split opening
  apply closes (before ++ first) o after _ opening
  rw [split, List.append_assoc]

/-- Text that closes every bracket it opens does not open more than it closes. -/
theorem Closes.excess_le {code : List Char} (closes : Closes code) : excess code ≤ 0 := by
  generalize size : code.length = n
  induction n using Nat.strongRecOn generalizing code with
  | ind n ih =>
    cases code with
    | nil => exact Int.le_refl 0
    | cons c rest =>
      have others : Closes rest := Closes.of_append (show Closes ([c] ++ rest) from closes)
      have later := ih rest.length (by simp at size; omega) others rfl
      cases opening : isOpening c with
      | false =>
        cases closing : isClosing c with
        | false =>
          rw [excess_other opening closing]
          exact later
        | true =>
          rw [excess_closing closing]
          omega
      | true =>
        -- The pair and what stands between count nothing, and the rest is shorter.
        obtain ⟨inner, d, after, rfl, nested, closing⟩ := closes [] c rest rfl opening
        have closes' : Closes ((c :: inner ++ [d]) ++ after) := by simpa using closes
        have rest := ih after.length (by simp at size; omega) closes'.of_append rfl
        rw [excess_opening opening, excess_append, nested.excess_eq, excess_closing closing]
        omega

/-- Text that closes more than it opens has a closing bracket that no bracket before it belongs to. -/
theorem exists_closing {code : List Char} (surplus : excess code < 0) :
    ∃ inner c rest, code = inner ++ c :: rest ∧ Nested inner ∧ isClosing c = true := by
  generalize size : code.length = n
  induction n using Nat.strongRecOn generalizing code with
  | ind n ih =>
    cases code with
    | nil => simp at surplus
    | cons c rest =>
      have shorter : rest.length < n := by simp at size; omega
      cases opening : isOpening c with
      | false =>
        cases closing : isClosing c with
        | false =>
          rw [excess_other opening closing] at surplus
          obtain ⟨inner, d, after, rfl, nested, found⟩ := ih _ shorter surplus rfl
          exact ⟨c :: inner, d, after, rfl, nested.other opening closing, found⟩
        | true => exact ⟨[], c, rest, rfl, .nil, closing⟩
      | true =>
        -- One closing bracket belongs to this one, and the text after it still closes more than it opens.
        rw [excess_opening opening] at surplus
        obtain ⟨inner, d, after, rfl, nested, closing⟩ := ih _ shorter (by omega) rfl
        rw [excess_append, nested.excess_eq, excess_closing closing] at surplus
        have shorter' : after.length < n := by simp at shorter; omega
        obtain ⟨inner', d', after', rfl, nested', closing'⟩ := ih _ shorter' (by omega) rfl
        refine ⟨c :: (inner ++ d :: inner'), d', after', by simp, ?_, closing'⟩
        exact .pair opening nested closing nested'

/-- Every opening bracket is closed exactly if no ending opens more brackets than it closes. -/
theorem closes_iff {code : List Char} :
    Closes code ↔ ∀ before after, code = before ++ after → excess after ≤ 0 := by
  constructor
  · intro closes before after split
    subst split
    exact closes.of_append.excess_le
  · intro endings before o after split opening
    have counted := endings before (o :: after) split
    rw [excess_opening opening] at counted
    exact exists_closing (by omega)

/-! Reading. -/

namespace Balance

/-- The inside of a literal changes nothing. -/
theorem foldl_next_body {inner : List Char} (body : LiteralBody inner) (depth : Int32) :
    inner.foldl next { depth, quoted := true } = { depth, quoted := true } := by
  induction body with
  | nil => rfl
  | plain quote backslash _ ih =>
    rw [List.foldl_cons]
    simpa [next, quote, backslash] using ih
  | escape _ ih =>
    rw [List.foldl_cons, List.foldl_cons]
    simpa [next] using ih

theorem next_quote (depth : Int32) : next { depth } '"' = { depth, quoted := true } := rfl

/-- Outside literals, only brackets count. -/
theorem next_plain {c : Char} (quote : c ≠ '"') (n : Int) :
    next { depth := Int32.ofInt n } c = { depth := Int32.ofInt (n + excess [c]) } := by
  cases opening : isOpening c with
  | true =>
    rw [excess_opening opening]
    simp [next, quote, opening, Int32.ofInt_add]
  | false =>
    cases closing : isClosing c with
    | true =>
      rw [excess_closing closing]
      simp [next, quote, opening, closing, ← Int.sub_eq_add_neg, Int32.ofInt_sub]
    | false =>
      rw [excess_other opening closing]
      simp [next, quote, opening, closing]

theorem foldl_next_outside {text code : List Char} (outside : Outside text code) (n : Int) :
    (text.foldl next { depth := Int32.ofInt n }).depth = Int32.ofInt (n + excess code) := by
  induction outside generalizing n with
  | nil => simp
  | @plain c text code quote outside ih =>
    have counted : excess (c :: code) = excess [c] + excess code := excess_append [c] code
    rw [List.foldl_cons, next_plain quote, ih, counted, Int.add_assoc]
  | literal body outside ih =>
    rw [List.foldl_cons, next_quote, List.foldl_append, foldl_next_body body, List.foldl_cons]
    exact ih n
  | unclosed body =>
    rw [List.foldl_cons, next_quote, foldl_next_body body]
    simp
  | dangling body =>
    rw [List.foldl_cons, next_quote, List.foldl_append, foldl_next_body body]
    simp [next]

end Balance

/-- The depth after a text is its excess of opening brackets outside literals, in 32 bits. -/
theorem depth_balance {text code : List Char} (outside : Outside text code) :
    (balance text).depth = Int32.ofInt (excess code) := by
  have counted := Balance.foldl_next_outside outside 0
  rw [Int.zero_add] at counted
  exact counted

theorem isBalanced_iff_bmod {text : String} {code : List Char} (outside : Outside text.toList code) :
    isBalanced text = true ↔ (excess code).bmod Int32.size ≤ 0 := by
  unfold isBalanced
  rw [depth_balance outside, decide_eq_true_eq, Int32.le_iff_toInt_le, Int32.toInt_ofInt]
  rfl

/-- A count of fewer than half of all words is exact. -/
theorem bmod_excess {code : List Char} (short : code.length < 2147483648) :
    (excess code).bmod Int32.size = excess code := by
  have openings := code.countP_le_length (p := isOpening)
  have closings := code.countP_le_length (p := isClosing)
  have size : Int32.size = 4294967296 := rfl
  unfold excess
  rw [size]
  apply Int.bmod_eq_of_le <;> omega

/-- For every text there is exactly one code outside its literals, and reading finds it balanced exactly if it closes at
least as many brackets as it opens, counted in 32 bits. As long as the count is exact, a text that closes every bracket it
opens is found balanced. So is one that does not, exactly if its code can be cut in two such that the second part leaves
brackets open and the first has closed at least as many too many. -/
theorem openings_made_up_by_earlier_closings (text : String) : ∃ code, Outside text.toList code ∧
    (∀ other, Outside text.toList other → other = code) ∧
    (isBalanced text = true ↔ (excess code).bmod Int32.size ≤ 0) ∧
    (code.length < 2147483648 →
      (Closes code → isBalanced text = true) ∧
      (isBalanced text = true ∧ ¬ Closes code ↔
        ∃ before after, code = before ++ after ∧ 0 < excess after ∧ excess after ≤ -excess before)) := by
  obtain ⟨code, outside⟩ := Outside.exists_code text.toList
  refine ⟨code, outside, fun other found => found.unique outside, isBalanced_iff_bmod outside, fun short => ?_⟩
  have counted : isBalanced text = true ↔ excess code ≤ 0 := by
    rw [isBalanced_iff_bmod outside, bmod_excess short]
  refine ⟨fun closes => counted.2 closes.excess_le, ?_⟩
  rw [counted, closes_iff]
  constructor
  · rintro ⟨whole, unclosed⟩
    obtain ⟨before, unclosed⟩ := Classical.not_forall.1 unclosed
    obtain ⟨after, unclosed⟩ := Classical.not_forall.1 unclosed
    obtain ⟨split, opened⟩ := Classical.not_imp.1 unclosed
    refine ⟨before, after, split, Int.not_le.1 opened, ?_⟩
    rw [split, excess_append] at whole
    omega
  · rintro ⟨before, after, split, opened, made_up⟩
    refine ⟨?_, fun endings => ?_⟩
    · rw [split, excess_append]
      omega
    · have none := endings before after split
      omega

/-- A closing bracket makes up for an opening one after it. The one in the literal counts neither way. -/
theorem opening_after_closing :
    Outside ")\"(\"(".toList [')', '('] ∧ isBalanced ")\"(\"(" = true ∧ ¬ Closes [')', '('] := by
  have body : LiteralBody ['('] := .plain (by decide) (by decide) .nil
  have outside : Outside ")\"(\"(".toList [')', '('] := .plain (by decide) (.literal body (.plain (by decide) .nil))
  obtain ⟨code, -, unique, -, exact⟩ := openings_made_up_by_earlier_closings ")\"(\"("
  cases unique _ outside
  obtain ⟨balanced, open_⟩ := (exact (by decide)).2.2 ⟨[')'], ['('], rfl, by decide, by decide⟩
  exact ⟨outside, balanced, open_⟩

end UnitHost.Shell
