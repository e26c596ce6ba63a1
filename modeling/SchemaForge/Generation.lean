import SchemaForge.Building
import SchemaForge.Go.Unit
import SchemaForge.TypeScript.Unit
/-!
Writing the units of an object and of all objects that it refers to. Each file and each name of a
unit is used once.
-/
namespace SchemaForge.Generation

def fileName (language : Language) (g : Graph) (id : NodeId) : String :=
  match language with
  | .go => Go.fileName g id
  | .typeScript => TypeScript.fileName g id

def unit? (style : Style) (language : Language) (g : Graph) (id : NodeId) :
    Except ShapeFault CodeUnit :=
  match language with
  | .go => Go.unit? style g id
  | .typeScript => TypeScript.unit? style g id

/-- Nodes whose units nobody has claimed. -/
def unclaimed (language : Language) (g : Graph) (units : List String) : List NodeId :=
  (List.range g.size).filter fun id => !units.contains (fileName language g id)

theorem unclaimed_lt {language : Language} {g : Graph} {units : List String} {id : NodeId}
    (h : id < g.size) (hu : units.contains (fileName language g id) = false) :
    (unclaimed language g (units ++ [fileName language g id])).length <
      (unclaimed language g units).length := by
  have : unclaimed language g (units ++ [fileName language g id]) =
      (unclaimed language g units).filter fun n => fileName language g n != fileName language g id := by
    simp only [unclaimed, List.filter_filter]
    congr 1
    funext n
    by_cases hn : fileName language g n = fileName language g id <;> simp [hn]
  rw [this, List.length_filter_lt_length_iff_exists]
  exact ⟨id, List.mem_filter.2 ⟨List.mem_range.2 h, by simpa using hu⟩, by simp⟩

/-- Whether a unit has to be written for an object. Marks the file of the object if the object is
all of it. -/
def wants (g : Graph) (r : Registry) (id : NodeId) : Bool × Registry :=
  match g.isFileRoot id, g.file? id with
  | true, some file => r.markEmitted file
  | _, _ => (true, r)

theorem units_of_wants {g : Graph} {r r' : Registry} {id : NodeId} {wanted : Bool}
    (h : wants g r id = (wanted, r')) : r'.units = r.units := by
  suffices (wants g r id).2.units = r.units by simpa [h] using this
  unfold wants
  split
  · unfold Registry.markEmitted
    split
    · split <;> rfl
    · rfl
  · rfl

/-- Writes the units of pending objects. What an object refers to comes before the objects that
were pending. -/
def unitsAlong (style : Style) (language : Language) (g : Graph) (root : NodeId) (r : Registry) :
    List NodeId → Except Error (List CodeUnit) × Registry
  | [] => (.ok [], r)
  | id :: pending =>
    if _ : id < g.size ∧ (g.hasMembers id ∨ id = root) then
      match _ : wants g r id with
      | (false, r) => unitsAlong style language g root r pending
      | (true, r) =>
        if _ : r.units.contains (fileName language g id) then
          unitsAlong style language g root r pending
        else
          let r := { r with units := r.units ++ [fileName language g id] }
          match unit? style language g id with
          | .error fault => (.error (.shape fault), r)
          | .ok unit =>
            match unitsAlong style language g root r (unit.discovered ++ pending) with
            | (.ok units, r) => (.ok (unit :: units), r)
            | (.error e, r) => (.error e, r)
    else unitsAlong style language g root r pending
termination_by pending => ((unclaimed language g r.units).length, pending.length)
decreasing_by
  · rw [units_of_wants ‹_›]
    exact Prod.Lex.right _ (Nat.lt_succ_self _)
  · rw [units_of_wants ‹_›]
    exact Prod.Lex.right _ (Nat.lt_succ_self _)
  · next h r₁ hw hu =>
    rw [← units_of_wants hw]
    exact Prod.Lex.left _ _ (unclaimed_lt h.1 (eq_false_of_ne_true hu))
  · exact Prod.Lex.right _ (Nat.lt_succ_self _)

/-- Writes the units of an object and of all objects with members that it leads to. -/
def units (style : Style) (language : Language) (g : Graph) (r : Registry) (root : NodeId) :
    Except Error (List CodeUnit) × Registry :=
  if (g.object? root).isSome then unitsAlong style language g root r [root]
  else (.error (.shape (.rootNotObject (g.kind root))), r)

end SchemaForge.Generation
