import Mathlib
import SchemaForge.Json.Printer
import SchemaForge.Json.Token
/-! Printed texts and numbers read back, whatever follows them. -/
namespace SchemaForge

namespace Json

variable {s t rest rest' : List Char} {c : Char}

theorem text?_control (n : Fin 32) (rest : List Char) :
    Token.text? (['\\', 'u', '0', '0', Text.hexDigit (n.val / 16), Text.hexDigit (n.val % 16)]
      ++ rest) = (Token.text? rest).map fun (cs, after) => (Char.ofNat n.val :: cs, after) := by
  have hunit : Token.unit? '0' '0' (Text.hexDigit (n.val / 16)) (Text.hexDigit (n.val % 16)) =
      some n.val := by
    revert n
    decide
  have hhigh : Token.isHighSurrogate n.val = false := by
    revert n
    decide
  have hlow : Token.isLowSurrogate n.val = false := by
    revert n
    decide
  simp only [List.cons_append, List.nil_append]
  rw [Token.text?, hunit]
  simp only [hhigh, hlow, Bool.false_eq_true, if_false]

/-- An escaped character reads back. -/
theorem text?_escape (c : Char) (rest : List Char) :
    Token.text? (escape c ++ rest) =
      (Token.text? rest).map fun (cs, after) => (c :: cs, after) := by
  unfold escape
  split
  all_goals try rfl
  next hquote hslash _ _ _ _ _ =>
  by_cases hcontrol : c.toNat < 0x20
  · rw [if_pos hcontrol]
    have hread := text?_control ⟨c.toNat, hcontrol⟩ rest
    rwa [Char.ofNat_toNat] at hread
  · rw [if_neg hcontrol, List.singleton_append, Token.text?]
    · have hplain : (c == '\\' || decide (c.toNat < 0x20)) = false := by
        simp only [beq_false_of_ne hslash, decide_eq_false hcontrol, Bool.or_false]
      rw [hplain]
      rfl
    all_goals intros; simp_all

theorem text?_flatMap_escape (s rest : List Char) :
    Token.text? (s.flatMap escape ++ '"' :: rest) = some (s, rest) := by
  induction s with
  | nil => rw [List.flatMap_nil, List.nil_append, Token.text?]
  | cons c s ih =>
    rw [List.flatMap_cons, List.append_assoc, text?_escape, ih]
    rfl

/-- Texts in quotes end where they end, whatever follows. -/
theorem quoteChars_append_inj (h : quoteChars s ++ rest = quoteChars t ++ rest') :
    s = t ∧ rest = rest' := by
  have hbody : s.flatMap escape ++ '"' :: rest = t.flatMap escape ++ '"' :: rest' := by
    simpa [quoteChars] using h
  have hread := congrArg Token.text? hbody
  rw [text?_flatMap_escape, text?_flatMap_escape] at hread
  cases hread
  exact ⟨rfl, rfl⟩

end Json

namespace Decimal

theorem digits_ne_nil (n : Nat) : digits n ≠ [] := by
  rw [digits]
  split
  · exact List.cons_ne_nil _ _
  · simp

theorem digits_inj {m n : Nat} (h : digits m = digits n) : m = n := by
  rw [← value_digits m, h, value_digits]

theorem toList_intText (i : Int) :
    (intText i).toList = if i < 0 then '-' :: digits i.natAbs else digits i.natAbs := by
  unfold intText natText
  split <;> simp

/-- Digits, and a sign in front. -/
theorem mem_intText {i : Int} {c : Char} (h : c ∈ (intText i).toList) :
    c = '-' ∨ c.isDigit = true := by
  rw [toList_intText] at h
  split at h
  · rcases List.mem_cons.1 h with rfl | h
    · exact Or.inl rfl
    · exact Or.inr (isDigit_of_mem_digits h)
  · exact Or.inr (isDigit_of_mem_digits h)

theorem intText_inj {i j : Int} (h : (intText i).toList = (intText j).toList) : i = j := by
  have hsign {n m : Nat} : '-' :: digits n ≠ digits m := by
    intro heq
    have : '-' ∈ digits m := heq ▸ List.mem_cons_self
    exact absurd (isDigit_of_mem_digits this) (by decide)
  rw [toList_intText, toList_intText] at h
  by_cases hi : i < 0 <;> by_cases hj : j < 0
  · rw [if_pos hi, if_pos hj] at h
    have := digits_inj (List.cons.inj h).2
    omega
  · rw [if_pos hi, if_neg hj] at h
    exact absurd h hsign
  · rw [if_neg hi, if_pos hj] at h
    exact absurd h.symm hsign
  · rw [if_neg hi, if_neg hj] at h
    have := digits_inj h
    omega

end Decimal

end SchemaForge
