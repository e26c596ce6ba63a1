import SchemaForge.Proofs.TypeScript.ListLoops
/-!
Types in the functions that read lists: each list is declared with as many dimensions as are left
at its level, and takes nothing but items of its type.
-/
namespace SchemaForge.TypeScript

/-- The names that can be used at a place, the last one declared first, with the types that are
written for them. -/
abbrev Scope := List (String × Option Code)

/-- Whether a type is written for a name. -/
def Scope.Has (Γ : Scope) (x : String) (t : Code) : Prop := Γ.lookup x = some (some t)

/-- The type of lists of some items. -/
def listOf (item : Code) : Code := .join [item, "[]"]

/-- Statements of a function that returns results of a type, as the types of the names allow
them. -/
inductive WellTyped (type : Code) : Scope → List Stmt → Prop where
  | nil {Γ : Scope} : WellTyped type Γ []
  /-- An empty list is one of any items. -/
  | emptyList {Γ : Scope} {name : String} {item : Code} {rest : List Stmt} :
    WellTyped type ((name, some (listOf item)) :: Γ) rest →
    WellTyped type Γ (.constant name (some (listOf item)) "[]" :: rest)
  /-- What an attribute makes of a value of its second type is a result of its first. -/
  | coerce {Γ : Scope} {a name value : String} {item input : Code} {rest : List Stmt} :
    Γ.Has a (.generic (.runtime "WuestenAttribute") [item, input]) →
    WellTyped type ((name, some (.generic .result [item])) :: Γ) rest →
    WellTyped type Γ (.constant name none
      (.join [.text (a ++ ".Coerce("), .text value, ".value as ", input, ")"]) :: rest)
  /-- A name whose type is not written. -/
  | constant {Γ : Scope} {name : String} {value : Code} {rest : List Stmt} :
    WellTyped type ((name, none) :: Γ) rest →
    WellTyped type Γ (.constant name none value :: rest)
  /-- A list takes what has the type of its items. -/
  | push {Γ : Scope} {list x : String} {item : Code} {rest : List Stmt} :
    Γ.Has list (listOf item) → Γ.Has x item → WellTyped type Γ rest →
    WellTyped type Γ (.run (.join [.text list, ".push(", .text x, ")"]) :: rest)
  /-- And what is in a result of that type. -/
  | pushResult {Γ : Scope} {list x : String} {item : Code} {rest : List Stmt} :
    Γ.Has list (listOf item) → Γ.Has x (.generic .result [item]) → WellTyped type Γ rest →
    WellTyped type Γ (.run (.join [.text list, .text (".push(" ++ x ++ ".unwrap())")]) :: rest)
  | cond {Γ : Scope} {test : Code} {body rest : List Stmt} :
    WellTyped type Γ body → WellTyped type Γ rest →
    WellTyped type Γ (.cond test body :: rest)
  | iterate {Γ : Scope} {name iterator : String} {body rest : List Stmt} :
    WellTyped type ((name, none) :: Γ) body → WellTyped type Γ rest →
    WellTyped type Γ (.iterate name iterator body :: rest)
  /-- A failure is a result of any type. -/
  | failure {Γ : Scope} {complaint : Code} :
    WellTyped type Γ [.ret (.join [.result, ".Err(", complaint, ")"])]
  /-- So is one that is passed on as a result of that type. -/
  | cast {Γ : Scope} {x : String} :
    WellTyped type Γ [.ret (.join [.text (x ++ " as unknown as "), .generic .result [type]])]
  | success {Γ : Scope} {x : String} : Γ.Has x type →
    WellTyped type Γ [.ret (.join [.result, .text (".Ok(" ++ x ++ ")")])]

variable {Γ : Scope} {x y : String} {t : Code} {o : Option Code} {leaf : ValueType} {type : Code}
  {rest body : List Stmt} {level below : Nat} {source : String}

/-- Whatever is put into a list has the type of its items. -/
theorem WellTyped.of_push {list : String}
    (h : WellTyped type Γ (.run (.join [.text list, ".push(", .text x, ")"]) :: rest)) :
    ∃ item, Γ.Has list (listOf item) ∧ Γ.Has x item := by
  generalize hstmts : Stmt.run (.join [.text list, ".push(", .text x, ")"]) :: rest = stmts at h
  cases h with
  | push hlist hx _ =>
    simp only [List.cons.injEq, Stmt.run.injEq, Code.join.injEq, Code.text.injEq] at hstmts
    obtain ⟨⟨rfl, -, rfl, -⟩, -⟩ := hstmts
    exact ⟨_, hlist, hx⟩
  | _ => simp at hstmts

example : ¬ WellTyped "string" [("s0", some (listOf (listOf "string"))), ("x", some "string")]
    [.run (.join ["s0", ".push(", "x", ")"])] := by
  intro h
  obtain ⟨item, hlist, hx⟩ := h.of_push
  cases hlist
  cases hx

theorem Scope.has_cons_self (Γ : Scope) (x : String) (t : Code) :
    Scope.Has ((x, some t) :: Γ) x t := List.lookup_cons_self

theorem Scope.Has.cons (h : Γ.Has x t) (hne : x ≠ y) : Scope.Has ((y, o) :: Γ) x t := by
  rw [Scope.Has, List.lookup_cons, beq_false_of_ne hne]
  exact h

/-- The scope behind the declarations of a level. -/
def levelScope (leaf : ValueType) (level below : Nat) (Γ : Scope) : Scope :=
  (levelName "t" level, none) ::
    (levelName "s" level, some (arrayOf leaf.viewType (below + 1))) ::
    (levelName "r" level, none) :: Γ

/-- The scope in the loop of a level. -/
def loopScope (leaf : ValueType) (level below : Nat) (Γ : Scope) : Scope :=
  (levelName "i" level, none) :: levelScope leaf level below Γ

/-- A level hides no name but its own. -/
theorem Scope.Has.levelScope (h : Γ.Has x t)
    (hx : ∀ letter ∈ levelLetters, x ≠ levelName letter level) (leaf : ValueType) (below : Nat) :
    (levelScope leaf level below Γ).Has x t :=
  ((h.cons (hx "r" (by decide))).cons (hx "s" (by decide))).cons (hx "t" (by decide))

theorem Scope.Has.loopScope (h : Γ.Has x t)
    (hx : ∀ letter ∈ levelLetters, x ≠ levelName letter level) (leaf : ValueType) (below : Nat) :
    (loopScope leaf level below Γ).Has x t :=
  (h.levelScope hx leaf below).cons (hx "i" (by decide))

/-- The list of a level can be used behind its declaration. -/
theorem has_levelScope (leaf : ValueType) (level below : Nat) (Γ : Scope) :
    (levelScope leaf level below Γ).Has (levelName "s" level)
      (arrayOf leaf.viewType (below + 1)) := by
  refine (Scope.has_cons_self _ _ _).cons fun h => ?_
  exact absurd (eq_of_levelName_eq (by decide) (by decide) h).1 (by decide)

theorem has_loopScope (leaf : ValueType) (level below : Nat) (Γ : Scope) :
    (loopScope leaf level below Γ).Has (levelName "s" level)
      (arrayOf leaf.viewType (below + 1)) := by
  refine (has_levelScope leaf level below Γ).cons fun h => ?_
  exact absurd (eq_of_levelName_eq (by decide) (by decide) h).1 (by decide)

theorem wellTyped_readList (hbody : WellTyped type (loopScope leaf level below Γ) body)
    (hrest : WellTyped type (levelScope leaf level below Γ) rest) :
    WellTyped type Γ (readList leaf level below source body ++ rest) :=
  .constant (.cond .failure (.emptyList (.constant (.iterate hbody hrest))))

/-- The type of the attribute that makes something of an item. -/
def attributeOf (leaf : ValueType) : Code :=
  .generic (.runtime "WuestenAttribute") [leaf.viewType, leaf.coerceType]

theorem has_itemAttr (h : Γ.Has "itemAttr" (attributeOf leaf)) (level below : Nat) :
    (loopScope leaf level below Γ).Has "itemAttr" (attributeOf leaf) :=
  h.loopScope (fun letter _ => Go.ne_levelName (by decide) letter level) leaf below

/-- The innermost loop puts what the attribute makes of an item into its list. -/
theorem wellTyped_loopBody_zero (hitem : Γ.Has "itemAttr" (attributeOf leaf)) :
    WellTyped type (loopScope leaf level 0 Γ) (loopBody leaf type level 0) := by
  let inner : Scope := ("attrRes", some (.generic .result [leaf.viewType])) :: loopScope leaf level 0 Γ
  have hlist : inner.Has (levelName "s" level) (listOf leaf.viewType) :=
    (has_loopScope leaf level 0 Γ).cons (Go.ne_levelName (by decide) "s" level).symm
  have hcast : WellTyped type inner
      [.ret (.join ["attrRes as unknown as ", .generic .result [type]])] :=
    @WellTyped.cast type inner "attrRes"
  have hpush : WellTyped type inner
      [.run (.join [levelName "s" level, ".push(attrRes.unwrap())"])] :=
    .pushResult hlist (Scope.has_cons_self ..) .nil
  exact .coerce (has_itemAttr hitem level 0) (.cond hcast hpush)

/-- What reads the lists of some levels is well typed, and so is what follows if it is with the
outermost list. -/
theorem wellTyped_readLists (hitem : Γ.Has "itemAttr" (attributeOf leaf))
    (hrest : WellTyped type (levelScope leaf level below Γ) rest) :
    WellTyped type Γ (readLists leaf type level source below ++ rest) := by
  induction below generalizing level source Γ rest with
  | zero => exact wellTyped_readList (wellTyped_loopBody_zero hitem) hrest
  | succ below ih =>
    -- the list of the next level is an item of the one that is read
    have hnext : ∀ letter ∈ levelLetters, levelName "s" level ≠ levelName letter (level + 1) := by
      intro letter hletter heq
      exact absurd (eq_of_levelName_eq (by decide) hletter heq).2 (Nat.ne_of_lt (Nat.lt_succ_self _))
    have hlist := (has_loopScope leaf level (below + 1) Γ).levelScope hnext leaf below
    have hinner := has_levelScope leaf (level + 1) below (loopScope leaf level (below + 1) Γ)
    exact wellTyped_readList
      (ih (has_itemAttr hitem level (below + 1)) (.push hlist hinner .nil)) hrest

/-- The parameters of a function that reads lists. -/
def parameters (leaf : ValueType) : Scope := [("itemAttr", some (attributeOf leaf)), ("c0", none)]

/-- What a function that reads lists does is well typed: it returns the outermost list. -/
theorem wellTyped_coercionBody (leaf : ValueType) (below : Nat) :
    WellTyped (arrayOf leaf.viewType (below + 1)) (parameters leaf) (coercionBody leaf below) := by
  have hreturn : WellTyped (arrayOf leaf.viewType (below + 1))
      (levelScope leaf 0 below (parameters leaf)) [.ret (.join [.result, ".Ok(s0)"])] := by
    have hlist := has_levelScope leaf 0 below (parameters leaf)
    rw [show levelName "s" 0 = "s0" by cbv] at hlist
    exact .success hlist
  exact wellTyped_readLists (Scope.has_cons_self ..) hreturn

/-- The names for which a type is written. -/
def Stmt.typed : Stmt → Scope
  | constant name (some type) _ => [(name, some type)]
  | _ => []

/-- The list of each level is declared with the dimensions that are left. -/
theorem typed_readLists (leaf : ValueType) (full : Code) (level : Nat) (source : String)
    (below : Nat) :
    (Stmt.allOf (readLists leaf full level source below)).flatMap Stmt.typed =
      (List.range' level (below + 1)).map fun l =>
        (levelName "s" l, some (arrayOf leaf.viewType (level + (below + 1) - l))) := by
  induction below generalizing level source with
  | zero => simp [readLists, readList, Stmt.allOf, Stmt.all, Stmt.typed]
  | succ below ih =>
    have hroom : level + 1 + (below + 1) = level + (below + 1 + 1) := Nat.add_right_comm ..
    rw [List.range'_succ, List.map_cons, Nat.add_sub_cancel_left]
    simp [readLists, readList, Stmt.allOf, Stmt.all, Stmt.typed, Stmt.allOf_append, ih, hroom]

theorem typed_coercionBody (leaf : ValueType) (below : Nat) :
    (Stmt.allOf (coercionBody leaf below)).flatMap Stmt.typed =
      (List.range (below + 1)).map fun l =>
        (levelName "s" l, some (arrayOf leaf.viewType (below + 1 - l))) := by
  rw [flatMap_coercionBody Stmt.typed (fun _ => rfl), typed_readLists, List.range_eq_range',
    Nat.zero_add]

end SchemaForge.TypeScript
