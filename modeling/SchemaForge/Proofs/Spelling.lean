import SchemaForge.Coercion
import SchemaForge.Proofs.Json.Tokens
/-!
How decimals are written. Main statements: a text that is written as a decimal is read as that
decimal, and a number of JSON text is written as the decimal that it is.
-/
namespace SchemaForge

open Json.Token

/-- A sign, if any. -/
inductive IsSign : List Char → Bool → Prop
  | none : IsSign [] false
  | plus : IsSign ['+'] false
  | minus : IsSign ['-'] true

/-- Digits behind a point, if any. -/
inductive IsFraction : List Char → List Char → Prop
  | none : IsFraction [] []
  | point {ds : List Char} (hds : ∀ c ∈ ds, c.isDigit = true) : IsFraction ('.' :: ds) ds

/-- A power of ten, if any. -/
inductive IsPower : List Char → Int → Prop
  | none : IsPower [] 0
  | power {letter : Char} {sign ds : List Char} {negative : Bool}
      (hletter : letter = 'e' ∨ letter = 'E') (hsign : IsSign sign negative)
      (hne : ds ≠ []) (hds : ∀ c ∈ ds, c.isDigit = true) :
      IsPower (letter :: (sign ++ ds)) (if negative then -Decimal.value ds else Decimal.value ds)

/-- A decimal as it is written: digits with a point among them or at either end. -/
inductive Written : List Char → Bool → Decimal → Prop
  | decimal {sign whole point power ds : List Char} {negative : Bool} {e : Int}
      (hsign : IsSign sign negative) (hwhole : ∀ c ∈ whole, c.isDigit = true)
      (hpoint : IsFraction point ds) (hne : whole ++ ds ≠ []) (hpower : IsPower power e) :
      Written (sign ++ (whole ++ (point ++ power))) negative
        ⟨Decimal.value (whole ++ ds), e - ds.length⟩

variable {cs whole point power ds : List Char} {negative : Bool} {e : Int} {d : Decimal}

theorem digitsOf_split (cs : List Char) : cs = (digitsOf cs).1 ++ (digitsOf cs).2 :=
  List.takeWhile_append_dropWhile.symm

theorem isDigit_digitsOf {c : Char} (h : c ∈ (digitsOf cs).1) : c.isDigit = true :=
  List.mem_takeWhile_imp h

section power

theorem isPower_of_exponent? {o : Option Int} (h : exponent? cs = some o) :
    IsPower cs (o.getD 0) := by
  unfold exponent? at h
  split at h
  · cases h
    exact .none
  · next letter rest =>
    split at h
    · next hletter =>
      split at h
      next negative ds hsign =>
      split at h
      · cases h
      · next hds =>
        cases h
        simp only [Bool.or_eq_true, Bool.not_eq_true', not_or, Bool.not_eq_false,
          List.isEmpty_iff, List.all_eq_true, beq_iff_eq] at hds hletter
        split at hsign <;> cases hsign
        · exact .power hletter .minus hds.1 hds.2
        · exact .power hletter .plus hds.1 hds.2
        · exact .power hletter .none hds.1 hds.2
    · cases h

theorem exponent?_of_isPower (h : IsPower cs e) : ∃ o, exponent? cs = some o ∧ o.getD 0 = e := by
  cases h with
  | none => exact ⟨none, rfl, rfl⟩
  | @power letter sign ds negative hletter hsign hne hds =>
    refine ⟨some (if negative then -Decimal.value ds else Decimal.value ds), ?_, rfl⟩
    have hletter : (letter == 'e' || letter == 'E') = true := by simpa using hletter
    have hdigits : (ds.isEmpty || !ds.all Char.isDigit) = false := by simpa [hne] using hds
    cases hsign with
    | minus => simp [exponent?, hletter, hdigits]
    | plus => simp [exponent?, hletter, hdigits]
    | none =>
      obtain ⟨c, ds, rfl⟩ := List.exists_cons_of_ne_nil hne
      have hc := hds c List.mem_cons_self
      have hplus : c ≠ '+' := by
        rintro rfl
        exact absurd hc (by decide)
      have hminus := not_minus_of_isDigit hc
      simpa [exponent?, hletter, hplus, hminus] using hds

theorem noDigit_of_isPower (h : IsPower cs e) : NoDigit cs ∧ cs.head? ≠ some '.' := by
  cases h with
  | none => exact ⟨noDigit_nil, by decide⟩
  | power hletter => obtain rfl | rfl := hletter <;> exact ⟨by rintro c ⟨⟩; rfl, by simp⟩

end power

section reading

namespace Coercion

/-- What is read of a decimal. -/
def Reading.ofDecimal (negative : Bool) (d : Decimal) : Reading :=
  match Binary64.ofDecimal? negative d.coefficient d.exponent with
  | some x => .finite x
  | none => .infinite negative

theorem readDecimal?_eq (negative : Bool) (hwhole : ∀ c ∈ whole, c.isDigit = true)
    (hpoint : IsFraction point ds) (hne : whole ++ ds ≠ []) (hpower : IsPower power e) :
    readDecimal? negative (whole ++ (point ++ power)) =
      some (.ofDecimal negative ⟨Decimal.value (whole ++ ds), e - ds.length⟩) := by
  obtain ⟨o, ho, rfl⟩ := exponent?_of_isPower hpower
  obtain ⟨hdigit, hdot⟩ := noDigit_of_isPower hpower
  cases hpoint with
  | none =>
    have hwhole_ne : whole.isEmpty = false := by simpa using hne
    unfold readDecimal?
    simp only [List.nil_append, digitsOf_append hwhole hdigit]
    split
    · exact absurd rfl hdot
    · simp only [hwhole_ne, ho, Bool.false_and, Bool.false_eq_true, if_false, Option.map_some,
        List.append_nil]
      rfl
  | point hds =>
    have hpoint : NoDigit ('.' :: (ds ++ power)) := by
      rintro c ⟨⟩
      rfl
    have hguard : (whole.isEmpty && ds.isEmpty) = false := by
      simpa using hne
    unfold readDecimal?
    simp only [List.cons_append, digitsOf_append hwhole hpoint, digitsOf_append hds hdigit, hguard,
      ho]
    rfl

/-- What a decimal has behind its sign begins with a digit or a point. -/
theorem head_of_digits (power : List Char) (hwhole : ∀ c ∈ whole, c.isDigit = true)
    (hpoint : IsFraction point ds) (hne : whole ++ ds ≠ []) : ∃ c rest, whole ++ (point ++ power) = c :: rest ∧
      c.isAlpha = false ∧ c ≠ '-' ∧ c ≠ '+' := by
  cases whole with
  | nil =>
    cases hpoint with
    | none => exact absurd rfl hne
    | point => exact ⟨'.', _, rfl, by decide⟩
  | cons c whole =>
    have hc := hwhole c List.mem_cons_self
    refine ⟨c, _, rfl, isAlpha_of_isDigit hc, not_minus_of_isDigit hc, ?_⟩
    rintro rfl
    exact absurd hc (by decide)

theorem lower_ne {c letter : Char} {rest letters : List Char} (hc : c.isAlpha = false)
    (hletter : letter.isAlpha = true) : lower (c :: rest) ≠ letter :: letters := by
  intro h
  have hhead : c.toLower = letter := (List.cons.inj h).1
  rw [← hhead, Char.isAlpha_toLower_eq_isAlpha, hc] at hletter
  cases hletter

theorem reading?_of_written (h : Written cs negative d) :
    reading? cs = some (.ofDecimal negative d) := by
  obtain @⟨sign, whole, point, power, ds, negative, e, hsign, hwhole, hpoint, hne, hpower⟩ := h
  have hread := readDecimal?_eq negative hwhole hpoint hne hpower
  obtain ⟨c, rest, hbody, halpha, hminus, hplus⟩ := head_of_digits power hwhole hpoint hne
  rw [hbody] at hread ⊢
  have hinf : ¬(lower (c :: rest) = "inf".toList ∨ lower (c :: rest) = "infinity".toList) :=
    not_or.2 ⟨lower_ne halpha rfl, lower_ne halpha rfl⟩
  have hnan : lower (c :: rest) ≠ "nan".toList := lower_ne halpha rfl
  rw [← hread]
  unfold reading?
  cases hsign with
  | minus => exact (if_neg hinf).trans (if_neg hnan)
  | plus => exact (if_neg hinf).trans (if_neg hnan)
  | none =>
    split
    next hmatch =>
    split at hmatch
    · next heq => exact absurd (List.cons.inj heq).1 hminus
    · next heq => exact absurd (List.cons.inj heq).1 hplus
    · cases hmatch
      exact (if_neg hinf).trans (if_neg hnan)

end Coercion

end reading

section literals

/-- The digits and the power of ten of a literal. -/
def Json.Token.Literal.decimal (l : Literal) : Decimal :=
  let fraction := l.fraction.getD []
  ⟨Decimal.value (l.whole ++ fraction), l.exponent.getD 0 - fraction.length⟩

theorem written_of_literal? {l : Literal} (h : literal? cs = some l) :
    Written cs l.negative l.decimal := by
  unfold literal? at h
  split at h
  next negative body hmatch =>
  have hsign : ∃ sign, IsSign sign negative ∧ cs = sign ++ body := by
    split at hmatch <;> cases hmatch
    · exact ⟨['-'], .minus, rfl⟩
    · exact ⟨[], .none, rfl⟩
  obtain ⟨sign, hsign, rfl⟩ := hsign
  have hwhole : ∀ c ∈ (digitsOf body).1, c.isDigit = true := fun _ => isDigit_digitsOf
  rw [digitsOf_split body]
  dsimp only at h
  split at h
  · cases h
  · next hguard =>
    have hne : (digitsOf body).1 ≠ [] := fun hnil => hguard (by rw [hnil]; rfl)
    split at h
    · next rest hrest =>
      split at h
      · cases h
      · obtain ⟨e, he, rfl⟩ := Option.map_eq_some_iff.1 h
        have hwritten := Written.decimal hsign hwhole (.point fun _ => isDigit_digitsOf)
          (List.append_ne_nil_of_left_ne_nil hne (digitsOf rest).1) (isPower_of_exponent? he)
        rwa [List.cons_append, ← digitsOf_split rest, ← hrest] at hwritten
    · obtain ⟨e, he, rfl⟩ := Option.map_eq_some_iff.1 h
      exact .decimal hsign hwhole .none (List.append_ne_nil_of_left_ne_nil hne _)
        (isPower_of_exponent? he)

/-- A number of JSON text is the nearest binary64 number of the decimal that is written, or a
whole number that is just that decimal. -/
theorem written_of_number? {n : Number} (h : number? cs = some n) : ∃ negative d,
    Written cs negative d ∧ ((∃ x, n = .float x ∧
        Binary64.ofDecimal? negative d.coefficient d.exponent = some x) ∨
      d.exponent = 0 ∧ n = .integer (if negative then -d.coefficient else d.coefficient)) := by
  obtain ⟨l, hl, hn⟩ := Option.bind_eq_some_iff.1 h
  refine ⟨l.negative, l.decimal, written_of_literal? hl, ?_⟩
  obtain ⟨negative, whole, fraction, exponent⟩ := l
  unfold Literal.number? at hn
  split at hn
  · next hfraction hexponent =>
    cases hfraction
    cases hexponent
    have hdecimal : (⟨negative, whole, none, none⟩ : Literal).decimal =
        ⟨Decimal.value whole, 0⟩ := by
      simp [Literal.decimal]
    rw [hdecimal]
    dsimp only at hn
    split at hn
    · next hpositive =>
      cases hn
      exact .inr ⟨rfl, by simp_all⟩
    split at hn
    · next hminus =>
      cases hn
      exact .inr ⟨rfl, by simp_all⟩
    · obtain ⟨x, hx, rfl⟩ := Option.map_eq_some_iff.1 hn
      exact .inl ⟨x, rfl, hx⟩
  · obtain ⟨x, hx, rfl⟩ := Option.map_eq_some_iff.1 hn
    exact .inl ⟨x, rfl, hx⟩

/-- The whole numbers of JSON text have 64 bits. -/
theorem inRange_of_number? {n : Number} (h : number? cs = some n) : n.InRange := by
  obtain ⟨l, -, hn⟩ := Option.bind_eq_some_iff.1 h
  unfold Literal.number? at hn
  split at hn
  · dsimp only at hn
    split at hn
    · next hpositive =>
      cases hn
      simp only [Bool.and_eq_true, decide_eq_true_eq] at hpositive
      unfold Number.InRange
      omega
    split at hn
    · next hminus =>
      cases hn
      simp only [Bool.and_eq_true, decide_eq_true_eq] at hminus
      unfold Number.InRange
      omega
    · obtain ⟨x, hx, rfl⟩ := Option.map_eq_some_iff.1 hn
      trivial
  · obtain ⟨x, hx, rfl⟩ := Option.map_eq_some_iff.1 hn
    trivial

end literals

end SchemaForge
