import UnitHost.Proofs.Brackets

/-!
# Literals inside an input

`EndsOutside` says that a text closes every string literal it begins, so that what follows stands outside. Reading
knows this by its flag: `endsOutside_iff`. Over a literal that is begun there and closed, reading comes back to exactly
where it stood, the count in 32 bits included, whatever the literal holds: `foldl_next_literal`. So the literal can be
left out of any input.
-/

namespace UnitHost.Shell

/-- Text that ends outside string literals: every literal it begins is closed. -/
inductive EndsOutside : List Char → Prop where
  | nil : EndsOutside []
  | plain {c : Char} {text : List Char} (quote : c ≠ '"') (rest : EndsOutside text) : EndsOutside (c :: text)
  | literal {inner text : List Char} (body : LiteralBody inner) (rest : EndsOutside text) :
      EndsOutside ('"' :: (inner ++ '"' :: text))

/-- Text that ends inside a literal: the literal is the last one begun, and its last backslash may have nothing to
escape. -/
def EndsInside (text : List Char) : Prop :=
  ∃ before inner, EndsOutside before ∧ LiteralBody inner ∧
    (text = before ++ '"' :: inner ∨ text = before ++ '"' :: (inner ++ ['\\']))

namespace EndsInside

variable {text : List Char}

theorem plain {c : Char} (quote : c ≠ '"') (ends : EndsInside text) : EndsInside (c :: text) := by
  obtain ⟨before, inner, outside, body, split⟩ := ends
  refine ⟨c :: before, inner, .plain quote outside, body, ?_⟩
  rcases split with rfl | rfl
  · exact .inl rfl
  · exact .inr rfl

theorem literal {closed : List Char} (whole : LiteralBody closed) (ends : EndsInside text) :
    EndsInside ('"' :: (closed ++ '"' :: text)) := by
  obtain ⟨before, inner, outside, body, split⟩ := ends
  refine ⟨'"' :: (closed ++ '"' :: before), inner, .literal whole outside, body, ?_⟩
  rcases split with rfl | rfl
  · exact .inl (by simp)
  · exact .inr (by simp)

end EndsInside

/-- Every text ends outside its literals or inside the last one. -/
theorem endsOutside_or_endsInside (text : List Char) : EndsOutside text ∨ EndsInside text := by
  -- A text is made as `Outside` says, and of its ways to end only the last two are inside a literal.
  obtain ⟨code, outside⟩ := Outside.exists_code text
  induction outside with
  | nil => exact .inl .nil
  | plain quote _ ih => exact ih.imp (.plain quote) (.plain quote)
  | literal body _ ih => exact ih.imp (.literal body) (.literal body)
  | @unclosed inner body => exact .inr ⟨[], inner, .nil, body, .inl rfl⟩
  | @dangling inner body => exact .inr ⟨[], inner, .nil, body, .inr rfl⟩

/-! Reading over literals. -/

theorem balance_append (text more : List Char) : balance (text ++ more) = more.foldl Balance.next (balance text) :=
  List.foldl_append

namespace Balance

/-- Over a whole literal, reading comes back to where it stood. -/
theorem foldl_next_literal {inner : List Char} (body : LiteralBody inner) (depth : Int32) :
    ('"' :: (inner ++ ['"'])).foldl next { depth } = { depth } := by
  rw [List.foldl_cons, next_quote, List.foldl_append, foldl_next_body body]
  rfl

/-- Outside literals a character other than a quote begins none. -/
theorem exists_next {c : Char} (quote : c ≠ '"') (depth : Int32) :
    ∃ deeper, next { depth } c = { depth := deeper } := by
  have counted := next_plain quote depth.toInt
  rw [Int32.ofInt_toInt] at counted
  exact ⟨_, counted⟩

/-- After a text that ends outside its literals, reading stands outside them too. -/
theorem foldl_next_endsOutside {text : List Char} (outside : EndsOutside text) (depth : Int32) :
    ∃ deeper, text.foldl next { depth } = { depth := deeper } := by
  induction outside generalizing depth with
  | nil => exact ⟨depth, rfl⟩
  | plain quote _ ih =>
    obtain ⟨deeper, after⟩ := exists_next quote depth
    rw [List.foldl_cons, after]
    exact ih deeper
  | @literal inner text body _ ih =>
    have split : '"' :: (inner ++ '"' :: text) = '"' :: (inner ++ ['"']) ++ text := by simp
    rw [split, List.foldl_append, foldl_next_literal body]
    exact ih depth

/-- After a text that ends inside a literal, reading stands inside it. -/
theorem quoted_of_endsInside {text : List Char} (ends : EndsInside text) : (balance text).quoted = true := by
  obtain ⟨before, inner, outside, body, split⟩ := ends
  obtain ⟨depth, stands⟩ := foldl_next_endsOutside outside 0
  rcases split with rfl | rfl
  · rw [balance_append, balance, stands, List.foldl_cons, next_quote, foldl_next_body body]
  · rw [balance_append, balance, stands, List.foldl_cons, next_quote, List.foldl_append, foldl_next_body body]
    rfl

end Balance

/-- A text ends outside its literals exactly if reading stands outside them after it. -/
theorem endsOutside_iff {text : List Char} : EndsOutside text ↔ (balance text).quoted = false := by
  constructor
  · intro outside
    obtain ⟨depth, stands⟩ := Balance.foldl_next_endsOutside outside 0
    rw [balance, stands]
  · intro unquoted
    rcases endsOutside_or_endsInside text with outside | inside
    · exact outside
    · rw [Balance.quoted_of_endsInside inside] at unquoted
      cases unquoted

instance (text : List Char) : Decidable (EndsOutside text) := decidable_of_iff _ endsOutside_iff.symm

/-- A text is the inside of a literal exactly if a quote after it is the first to close one. -/
theorem literalBody_iff {inner : List Char} : LiteralBody inner ↔ afterLiteral? (inner ++ ['"']) = some [] := by
  constructor
  · intro body
    rw [body.afterLiteral?, afterLiteral?_quote]
  · intro closed
    rcases literal_cases inner with ⟨first, rest, rfl, body⟩ | body | ⟨first, rfl, body⟩
    · rw [List.append_assoc, body.afterLiteral?, List.cons_append, afterLiteral?_quote] at closed
      simp at closed
    · exact body
    · rw [List.append_assoc, body.afterLiteral?] at closed
      simp [afterLiteral?] at closed

instance (inner : List Char) : Decidable (LiteralBody inner) := decidable_of_iff _ literalBody_iff.symm

/-- A literal put into a text outside its literals leaves reading where it stood before, whatever it holds. So with any
text after it, the input is found balanced exactly if it is without the literal. -/
theorem literals_never_count {pre inner : String} (outside : EndsOutside pre.toList) (body : LiteralBody inner.toList)
    (post : String) : balance (pre ++ "\"" ++ inner ++ "\"").toList = balance pre.toList ∧
      isBalanced (pre ++ "\"" ++ inner ++ "\"" ++ post) = isBalanced (pre ++ post) := by
  obtain ⟨depth, stands⟩ := Balance.foldl_next_endsOutside outside 0
  have split : (pre ++ "\"" ++ inner ++ "\"").toList = pre.toList ++ '"' :: (inner.toList ++ ['"']) := by simp
  have back : balance (pre ++ "\"" ++ inner ++ "\"").toList = balance pre.toList := by
    rw [split, balance_append, balance, stands, Balance.foldl_next_literal body]
  have same : balance (pre ++ "\"" ++ inner ++ "\"" ++ post).toList = balance (pre ++ post).toList := by
    rw [String.toList_append, balance_append, back, String.toList_append, balance_append]
  refine ⟨back, ?_⟩
  unfold isBalanced
  rw [same]

/-- The literal holds a newline, brackets, an escaped quote after an escaped backslash, and an escaped backslash before
its closing quote. The bracket before it stays open until the one after it. -/
theorem literal_between_brackets :
    EndsOutside "(\"[\" ".toList ∧ LiteralBody ")\n\\\\\\\"\x7d]\\\\".toList ∧
      isBalanced ("(\"[\" " ++ "\"" ++ ")\n\\\\\\\"\x7d]\\\\" ++ "\"" ++ "") = false ∧
      isBalanced ("(\"[\" " ++ "\"" ++ ")\n\\\\\\\"\x7d]\\\\" ++ "\"" ++ ")") = true := by
  have outside : EndsOutside "(\"[\" ".toList := by decide
  have body : LiteralBody ")\n\\\\\\\"\x7d]\\\\".toList := by decide
  refine ⟨outside, body, ?_, ?_⟩
  · rw [(literals_never_count outside body "").2]
    decide
  · rw [(literals_never_count outside body ")").2]
    decide

end UnitHost.Shell
