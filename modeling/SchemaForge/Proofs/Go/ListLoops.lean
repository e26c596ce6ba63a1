import Mathlib
import SchemaForge.Proofs.Go.Accepted
/-!
Reading lists from maps: a loop for each level, each in the one around it, and in the innermost one
the only test of an item. The factory of a class reads the entry of each of its fields so.
-/
namespace SchemaForge.Go

open SchemaForge.Go.Expr

variable {c : Class} {leaf : ValueType} {source : Expr} {path : String} {level depth : Nat}

namespace Stmt

mutual

/-- A statement and all that stand in it, in the order of the text. -/
def all : Stmt → List Stmt
  | cond test body => cond test body :: allOf body
  | condDefine names e test body => condDefine names e test body :: allOf body
  | condElse test body otherwise =>
    condElse test body otherwise :: allOf body ++ allOf otherwise
  | chain test body arms => chain test body arms :: allOf body ++ allOfArms arms
  | loop i slice body => loop i slice body :: allOf body
  | block body => block body :: allOf body
  | typeSwitch source target cases otherwise =>
    typeSwitch source target cases otherwise :: allOf otherwise
  | s => [s]

def allOf : List Stmt → List Stmt
  | [] => []
  | s :: ss => s.all ++ allOf ss

def allOfArms : List (Expr × List Stmt) → List Stmt
  | [] => []
  | (_, body) :: arms => allOf body ++ allOfArms arms

end

theorem allOf_append (stmts stmts' : List Stmt) :
    allOf (stmts ++ stmts') = allOf stmts ++ allOf stmts' := by
  induction stmts with
  | nil => rfl
  | cons s stmts ih => simp [allOf, ih]

/-- Of a loop, its index, the slice that it goes through and what it does. -/
def loops : Stmt → List (String × Expr × List Stmt)
  | loop i slice body => [(i, slice, body)]
  | _ => []

/-- The name that a value gets once it has a type, and the value. -/
def tests : Stmt → List (String × Expr)
  | define (x :: _) (assert e _) => [(x, e)]
  | typeSwitch source target _ _ => [(target, source)]
  | _ => []

/-- What is assigned, and to what. -/
def assigns : Stmt → List (Expr × Expr)
  | assign target e => [(target, e)]
  | _ => []

/-- Of a statement that looks for an entry of the map, the name of the entry and what is done if it
is there. -/
def lookup? : Stmt → Option (String × List Stmt)
  | condDefine ["val", "found"] (index (name "m") (text key)) (name "found") body =>
    some (key, body)
  | _ => none

end Stmt

/-- The item of a level. -/
def item (level : Nat) : Expr := index (name (levelName "r" level)) (name (levelName "i" level))

/-- The list of a level, with one value more. -/
def extended (level : Nat) (e : Expr) : Expr :=
  call (name "append") [name (levelName "s" level), e]

/-- What the loop of a level does with lists of some depth as its items. -/
def loopBody (c : Class) (path : String) (leaf : ValueType) (level depth : Nat) : List Stmt :=
  let read := readValue c (item level) path (level + 1) (leaf.nested depth)
  read.1 ++ [.assign (name (levelName "s" level)) (extended level read.2)]

/-- Around its loop, a level tests that what it reads is a list, and makes one of its own. -/
theorem allOf_readValue_list (c : Class) (source : Expr) (path : String) (leaf : ValueType)
    (level depth : Nat) :
    ∃ type test fault slice room,
      Stmt.allOf (readValue c source path level (leaf.nested (depth + 1))).1 =
        [.define [levelName "r" level, "ok"] (assert source type), .cond test [.ret fault],
          .ret fault, .define [levelName "s" level] (makeSlice slice room),
          .loop (levelName "i" level) (name (levelName "r" level))
            (loopBody c path leaf level depth)] ++
          Stmt.allOf (loopBody c path leaf level depth) := by
  simp [ValueType.nested, readValue, assertType, wrongType, loopBody, item, extended,
    Stmt.allOf, Stmt.all]

/-- The value that a level reads is its list. -/
theorem value_readValue_list (c : Class) (source : Expr) (path : String) (leaf : ValueType)
    (level depth : Nat) :
    (readValue c source path level (leaf.nested (depth + 1))).2 = name (levelName "s" level) := rfl

theorem allOf_loopBody (c : Class) (path : String) (leaf : ValueType) (level depth : Nat) :
    Stmt.allOf (loopBody c path leaf level depth) =
      Stmt.allOf (readValue c (item level) path (level + 1) (leaf.nested depth)).1 ++
        [.assign (name (levelName "s" level)) (extended level
          (readValue c (item level) path (level + 1) (leaf.nested depth)).2)] := by
  rw [loopBody, Stmt.allOf_append]
  rfl

/-- Whether a type is one of lists. -/
def ValueType.isList : ValueType → Bool
  | .list _ => true
  | _ => false

/-- The name that a value of a type other than of lists gets. -/
def leafName (leaf : ValueType) (level : Nat) : String :=
  match leaf with
  | .object _ => levelName "m" level
  | _ => levelName "c" level

/-- What is no list is tested once, and read without a loop. -/
theorem readValue_leaf (hleaf : leaf.isList = false) (c : Class) (source : Expr) (path : String)
    (level : Nat) :
    (Stmt.allOf (readValue c source path level leaf).1).flatMap Stmt.loops = [] ∧
      (Stmt.allOf (readValue c source path level leaf).1).flatMap Stmt.tests =
        [(leafName leaf level, source)] ∧
      (Stmt.allOf (readValue c source path level leaf).1).flatMap Stmt.assigns = [] := by
  cases leaf with
  | list items => cases hleaf
  | _ =>
    simp [readValue, assertType, convertNumber, wrongType, Stmt.allOf, Stmt.all, Stmt.loops,
      Stmt.tests, Stmt.assigns, leafName, send]

/-- There is a loop for each level, in this order. -/
theorem loops_readValue (hleaf : leaf.isList = false) (c : Class) (source : Expr) (path : String)
    (level depth : Nat) :
    (Stmt.allOf (readValue c source path level (leaf.nested depth)).1).flatMap Stmt.loops =
      (List.range' level depth).map fun l => (levelName "i" l, name (levelName "r" l),
        loopBody c path leaf l (level + depth - (l + 1))) := by
  induction depth generalizing level source with
  | zero => exact (readValue_leaf hleaf c source path level).1
  | succ depth ih =>
    obtain ⟨_, _, _, _, _, hall⟩ := allOf_readValue_list c source path leaf level depth
    rw [hall, allOf_loopBody, List.flatMap_append, List.flatMap_append, ih,
      List.range'_succ, List.map_cons, Nat.add_assoc level, Nat.add_comm 1,
      Nat.add_sub_add_left, Nat.add_sub_cancel]
    simp [Stmt.loops]

/-- Each level tests once that it reads a list, and the last one that it reads its leaf. -/
theorem tests_readValue (hleaf : leaf.isList = false) (c : Class) (source : Expr) (path : String)
    (level depth : Nat) :
    (Stmt.allOf (readValue c source path level (leaf.nested depth)).1).flatMap Stmt.tests =
      ((List.range' level depth).map (levelName "r") ++ [leafName leaf (level + depth)]).zip
        (source :: (List.range' level depth).map item) := by
  induction depth generalizing level source with
  | zero => exact (readValue_leaf hleaf c source path level).2.1
  | succ depth ih =>
    obtain ⟨_, _, _, _, _, hall⟩ := allOf_readValue_list c source path leaf level depth
    rw [hall, allOf_loopBody, List.flatMap_append, List.flatMap_append, ih, List.range'_succ]
    simp [Stmt.tests, Nat.add_assoc, Nat.add_comm 1]

/-- From the innermost level outwards, each puts what it has read into its list. -/
theorem assigns_readValue (hleaf : leaf.isList = false) (c : Class) (source : Expr) (path : String)
    (level depth : Nat) :
    (Stmt.allOf (readValue c source path level (leaf.nested (depth + 1))).1).flatMap Stmt.assigns =
      (name (levelName "s" (level + depth)), extended (level + depth)
        (readValue c (item (level + depth)) path (level + depth + 1) leaf).2) ::
        (List.range' level depth).reverse.map fun l =>
          (name (levelName "s" l), extended l (name (levelName "s" (l + 1)))) := by
  induction depth generalizing level source with
  | zero =>
    obtain ⟨_, _, _, _, _, hall⟩ := allOf_readValue_list c source path leaf level 0
    have hnone := (readValue_leaf hleaf c (item level) path (level + 1)).2.2
    rw [hall, allOf_loopBody, List.flatMap_append, List.flatMap_append]
    simp [Stmt.assigns, ValueType.nested, hnone]
  | succ depth ih =>
    obtain ⟨_, _, _, _, _, hall⟩ := allOf_readValue_list c source path leaf level (depth + 1)
    rw [hall, allOf_loopBody, List.flatMap_append, List.flatMap_append, ih, value_readValue_list,
      List.range'_succ]
    simp [Stmt.assigns, Nat.add_assoc, Nat.add_comm 1]

section levels

variable {g : Graph} {node : NodeId} {title member : String} {type : ValueType}

/-- The type of a node that is no array. -/
def leafType? (g : Graph) (id : NodeId) : Option ValueType :=
  match g.property? id with
  | some ⟨_, .leaf l⟩ => some (.ofLeaf l)
  | some ⟨_, .object head (_ :: _)⟩ => some (.object head.titleText)
  | _ => none

theorem isList_of_leafType? (h : leafType? g node = some type) : type.isList = false := by
  unfold leafType? at h
  split at h
  · next l _ =>
    cases h
    cases l <;> rfl
  · cases h
    rfl
  · cases h

/-- The type of a member is that of what its arrays hold in the end, in as many lists. -/
theorem memberType?_ok (h : memberType? g title member node = .ok type) :
    ∃ chain leaf, g.arrayChain? node = some chain ∧ leafType? g chain.leaf = some leaf ∧
      type = ValueType.nested leaf chain.depth := by
  unfold memberType? at h
  cases hchain : g.arrayChain? node with
  | none =>
    simp only [hchain] at h
    cases h
  | some chain =>
    simp only [hchain] at h
    split at h
    · next hp => exact ⟨chain, _, rfl, by rw [leafType?, hp], (Except.ok.inj h).symm⟩
    · next hp =>
      split at h
      · cases h
      · exact ⟨chain, _, rfl, by rw [leafType?, hp], (Except.ok.inj h).symm⟩
    · cases h

/-- What reads lists of some depth from a value, by what the loop of each level does. -/
structure ReadsLevels (c : Class) (path : String) (source : Expr) (leaf : ValueType) (depth : Nat)
    (stmts : List Stmt) (inside : Nat → List Stmt) : Prop where
  /-- A loop for each level, and no other. -/
  loops : (Stmt.allOf stmts).flatMap Stmt.loops =
    (List.range depth).map fun l => (levelName "i" l, name (levelName "r" l), inside l)
  /-- A level does what reads the list of the next one, and puts it into its own. -/
  nested : ∀ l, l + 1 < depth → ∃ before, inside l = before ++
    [.loop (levelName "i" (l + 1)) (name (levelName "r" (l + 1))) (inside (l + 1)),
      .assign (name (levelName "s" l)) (extended l (name (levelName "s" (l + 1))))]
  /-- The innermost level puts into its list what is read from an item. -/
  innermost : inside (depth - 1) =
    (readValue c (item (depth - 1)) path depth leaf).1 ++
      [.assign (name (levelName "s" (depth - 1)))
        (extended (depth - 1) (readValue c (item (depth - 1)) path depth leaf).2)]
  /-- There, and nowhere else, an item is tested to be as the leaf says. -/
  coercion : (Stmt.allOf (inside (depth - 1))).flatMap Stmt.tests =
    [(leafName leaf depth, item (depth - 1))]
  /-- No other list is put together. -/
  assigns : ((Stmt.allOf stmts).flatMap Stmt.assigns).map Prod.fst =
    (List.range depth).reverse.map fun l => name (levelName "s" l)
  /-- What each level reads is tested to be a list, and an item of the innermost one to be as the
  leaf says. -/
  tests : (Stmt.allOf stmts).flatMap Stmt.tests =
    ((List.range depth).map (levelName "r") ++ [leafName leaf depth]).zip
      (source :: (List.range depth).map item)

theorem readsLevels (hleaf : ValueType.isList leaf = false) (c : Class) (path : String)
    (source : Expr) (below : Nat) :
    ReadsLevels c path source leaf (below + 1)
      (readValue c source path 0 (leaf.nested (below + 1))).1 fun l =>
        loopBody c path leaf l (below - l) where
  loops := by
    rw [loops_readValue hleaf, List.range_eq_range', Nat.zero_add]
    simp only [Nat.add_sub_add_right]
  nested := by
    intro l hl
    obtain ⟨rest, hrest⟩ : ∃ rest, below - l = rest + 1 := ⟨below - (l + 1), by omega⟩
    have hnext : below - (l + 1) = rest := by omega
    rw [hrest, hnext]
    exact ⟨[_, _, _], rfl⟩
  innermost := by
    rw [Nat.add_sub_cancel, Nat.sub_self]
    rfl
  coercion := by
    rw [Nat.add_sub_cancel, Nat.sub_self, allOf_loopBody, List.flatMap_append]
    simp [ValueType.nested, Stmt.tests, (readValue_leaf hleaf c (item below) path (below + 1)).2.1]
  assigns := by
    rw [assigns_readValue hleaf, List.range_eq_range', List.range'_concat]
    simp
  tests := by
    rw [tests_readValue hleaf, List.range_eq_range', Nat.zero_add]

end levels

section factory

/-- What is done with the value of a field once it is found in the map: it is read and given to the
builder. -/
def Class.entryBody (c : Class) (f : Field) : List Stmt :=
  let read := readValue c (name "val") (c.title ++ "." ++ f.name) 0 f.type
  let given := if f.optional then present f.type.goType read.2 else read.2
  read.1 ++ [.run ((name "b").send f.publicName [given])]

theorem lookup?_readField (c : Class) (f : Field) :
    (readField c f).lookup? = some (f.name, c.entryBody f) := rfl

theorem all_readField (c : Class) (f : Field) :
    (readField c f).all = readField c f :: Stmt.allOf (c.entryBody f) := rfl

theorem lookups_readFields (c : Class) (fields : List Field) :
    (fields.map (readField c)).filterMap Stmt.lookup? =
      fields.map fun f => (f.name, c.entryBody f) := by
  simp [List.filterMap_map, Function.comp_def, lookup?_readField]

theorem loops_readFields (c : Class) (fields : List Field) :
    (Stmt.allOf (fields.map (readField c))).flatMap Stmt.loops =
      fields.flatMap fun f => (Stmt.allOf (c.entryBody f)).flatMap Stmt.loops := by
  induction fields with
  | nil => rfl
  | cons f fields ih =>
    have hnone : (readField c f).loops = [] := rfl
    rw [List.map_cons, Stmt.allOf, all_readField, List.cons_append, List.flatMap_cons, hnone,
      List.nil_append, List.flatMap_append, ih, List.flatMap_cons]

/-- How a class reads an entry of a map, by the body of the method that does so and by what it does
with the entry. -/
structure ReadsEntry (c : Class) (key : String) (body entry : List Stmt) : Prop where
  /-- The body is that of the method of the factory. -/
  method : ∃ signature, Decl.method "f" c.factoryName signature body ∈ c.decls ∧
    signature.name = "FromMap"
  /-- One statement looks for the entry, and no other. -/
  once : (body.filterMap Stmt.lookup?).filter (·.1 == key) = [(key, entry)]
  /-- There are no loops but in what is done with entries. -/
  loops : (Stmt.allOf body).flatMap Stmt.loops =
    (body.filterMap Stmt.lookup?).flatMap fun found => (Stmt.allOf found.2).flatMap Stmt.loops

/-- Between the statement that makes a builder and the one that returns what it builds, there is one
for each field. -/
theorem readsEntry {g : Graph} {id : NodeId} {f : Field} (h : Class.ofNode? g id = .ok c)
    (hf : f ∈ c.fields) : ∃ body, ReadsEntry c f.name body (c.entryBody f) := by
  let first : Stmt := .define ["b"] ((name "f").send "Builder" [])
  let last : Stmt := .ret ((name "b").send "ToClass" [])
  have hlookups : (first :: c.fields.map (readField c) ++ [last]).filterMap Stmt.lookup? =
      c.fields.map fun f => (f.name, c.entryBody f) := by
    rw [List.cons_append, List.filterMap_cons_none rfl, List.filterMap_append,
      lookups_readFields]
    exact List.append_nil _
  have hloops : (Stmt.allOf (first :: c.fields.map (readField c) ++ [last])).flatMap Stmt.loops =
      c.fields.flatMap fun f => (Stmt.allOf (c.entryBody f)).flatMap Stmt.loops := by
    rw [List.cons_append, Stmt.allOf, Stmt.allOf_append, List.flatMap_append,
      List.flatMap_append, loops_readFields]
    exact List.append_nil _
  have hnodup : ((c.fields.map fun f => (f.name, c.entryBody f)).map Prod.fst).Nodup := by
    rw [List.map_map]
    exact nodup_names h
  have hmem : c.fromMapDecl ∈ c.decls :=
    List.mem_append_right _ (by simp [Class.factoryDecls])
  refine ⟨_, ⟨_, hmem, rfl⟩, ?_, ?_⟩
  · rw [hlookups]
    exact Generation.filter_of_nodup hnodup (List.mem_map_of_mem hf)
  · rw [hloops, hlookups, List.flatMap_map]

end factory

end SchemaForge.Go
