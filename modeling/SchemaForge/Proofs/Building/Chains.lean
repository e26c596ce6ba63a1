import SchemaForge.Builder
import SchemaForge.Proofs.Building.Calls
/-!
Builders and their chains. Main statement: whatever a builder does comes to an end and leaves every
file that it has entered, so that one builder used again and again does what new ones do.
-/
namespace SchemaForge

namespace Build

/-- The property that a schema declares, once the nodes inside it are there. -/
def property (follow : String → Build NodeId) : Schema → Build Property
  | .reference _ => throw (.structural "schema" [.typeMissing])
  | .faulty context faults => throw (.structural context faults)
  | .leaf info leaf => pure ⟨info, .leaf leaf⟩
  | .array info items => do
    let node ← schema follow add items
    pure ⟨info, .array node items.declaredSite?⟩
  | .object context info head before inner after => do
    let (found, faults) ← members follow head 0 inner
    let faults := before ++ faults ++ after
    if faults.isEmpty then pure ⟨info, .object head found⟩
    else throw (.structural context faults)

/-- A schema that is no reference is built by making its property and placing that. -/
theorem schema_eq_property (follow : String → Build NodeId) (place : Property → Build NodeId)
    {s : Schema} (hs : s.declaredSite? = none) :
    schema follow place s = property follow s >>= place := by
  funext w
  cases s with
  | reference site => cases hs
  | faulty context faults => rfl
  | leaf info leaf => rfl
  | array info items =>
    rw [schema, property, bind_apply, bind_apply, bind_apply]
    rcases schema follow add items w with ⟨e | node, w'⟩ <;> rfl
  | object context info head before inner after =>
    rw [schema, property, bind_apply, bind_apply, bind_apply]
    rcases members follow head 0 inner w with ⟨e | ⟨found, faults⟩, w'⟩
    · rfl
    · dsimp only
      split <;> rfl

/-- What is built for a file once nothing stands against it. -/
def visit (follow : String → Build NodeId) (file : Path) : Schema → Build NodeId
  | .reference site => do record file (← follow site.reference)
  | s => do
    let slot ← reserve file
    schema follow (fill slot) s

theorem visit_typed (follow : String → Build NodeId) (file : Path) {s : Schema}
    (hs : s.declaredSite? = none) :
    visit follow file s = reserve file >>= fun slot => schema follow (fill slot) s := by
  cases s with
  | reference site => cases hs
  | _ => rfl

theorem reference_visit {lib : Library} {chain : List Path} {referrer : Option Path}
    {target : String} {w : Workspace} {found : Resolved} {r : Registry}
    (hr : w.registry.resolve lib referrer target = (.ok found, r)) (hn : found.node = none)
    (hc : chain.any (·.Same found.file) = false) :
    reference lib chain referrer target w =
      visit (reference lib (found.file :: chain) (some found.file)) found.file
        (Schema.ofDocument found.document) { w with registry := r } := by
  cases hs : (Schema.ofDocument found.document).declaredSite? with
  | none =>
    rw [reference_typed hr hn hc hs, visit_typed _ _ hs, bind_apply, reserve_apply]
  | some site =>
    have hsite := Schema.eq_reference hs
    rw [reference_alias hr hn hc hsite, hsite]
    rfl

end Build

namespace Builder

variable {α β : Type} {lib : Library} {chain : List Path} {a : Action (Except Error α)}
  {b : Build α} {s : Schema} {f : Path}

/-- An action of builders that have a chain, and the build that it does on their workspace. It
leaves the chain as it was. -/
def Performs (chain : List Path) (a : Action (Except Error α)) (b : Build α) : Prop :=
  ∀ w, a ⟨w, chain⟩ = some ((b w).1, ⟨(b w).2, chain⟩)

theorem performs_perform (b : Build α) : Performs chain (perform b) b := fun _ => rfl

theorem performs_pure (outcome : Except Error α) :
    Performs chain (pure outcome) fun w => (outcome, w) := fun _ => rfl

theorem Performs.bind_apply (h : Performs chain a b) (f : Except Error α → Action β)
    (w : Workspace) : (a >>= f) ⟨w, chain⟩ = f (b w).1 ⟨(b w).2, chain⟩ := by
  change (a ⟨w, chain⟩).bind _ = _
  rw [h w]
  rfl

/-- One action after another, of which the first may fail. -/
theorem Performs.bind (h : Performs chain a b) {f : Except Error α → Action (Except Error β)}
    {g : α → Build β} (hok : ∀ x, Performs chain (f (.ok x)) (g x))
    (herror : ∀ e, f (.error e) = pure (.error e)) : Performs chain (a >>= f) (b >>= g) := by
  intro w
  rw [h.bind_apply, Build.bind_apply]
  rcases b w with ⟨e | x, w'⟩
  · rw [herror]
    rfl
  · exact hok x w'

section document

variable {act : String → Action (Except Error NodeId)} {follow : String → Build NodeId}
  (hfollow : ∀ target, Performs chain (act target) (follow target))

include hfollow

theorem performs_node_of_property
    (hp : Performs chain (property act s) (Build.property follow s)) :
    Performs chain (node act s) (Build.schema follow Build.add s) := by
  rw [node]
  cases hs : s.declaredSite? with
  | some site =>
    rw [Schema.eq_reference hs]
    exact hfollow site.reference
  | none =>
    rw [Build.schema_eq_property _ _ hs]
    exact hp.bind (fun p => performs_perform (Build.add p)) fun _ => rfl

/-- Where references are followed within the chain, properties and members are made within it. -/
theorem performs_schema :
    (∀ (_ : Property → Build NodeId) s,
      Performs chain (property act s) (Build.property follow s)) ∧
    ∀ head index inner, Performs chain (members act head index inner)
      (Build.members follow head index inner) := by
  refine Build.schema.mutual_induct
    (fun _ s => Performs chain (property act s) (Build.property follow s))
    (fun head index inner => Performs chain (members act head index inner)
      (Build.members follow head index inner))
    ?reference ?faulty ?leaf ?array ?object ?nil ?cons
  case reference =>
    intro _ site
    rw [property]
    exact performs_pure _
  case faulty =>
    intro _ context faults
    rw [property]
    exact performs_pure _
  case leaf =>
    intro _ info leaf
    rw [property]
    exact performs_pure _
  case array =>
    intro _ info items ih
    rw [property]
    exact (performs_node_of_property hfollow ih).bind (fun node => performs_pure _) fun _ => rfl
  case object =>
    intro _ context info head before inner after ih
    rw [property]
    refine ih.bind ?_ fun _ => rfl
    rintro ⟨found, faults⟩
    dsimp only
    split <;> exact performs_pure _
  case nil =>
    intro head index
    rw [members]
    exact performs_pure _
  case cons =>
    intro head index name s rest ih ihr w
    have hrest : ∀ f : List Member × List Fault → List Member × List Fault,
        Performs chain (members act head (index + 1) rest >>= fun outcome => pure (outcome.map f))
          (Build.members follow head (index + 1) rest >>= fun r => pure (f r)) :=
      fun f => ihr.bind (fun r => performs_pure (.ok (f r))) fun _ => rfl
    rw [members, (performs_node_of_property hfollow ih).bind_apply, Build.members_cons]
    rcases Build.schema follow Build.add s w with ⟨e | node, w'⟩
    · cases e with
      | structural context faults => exact hrest _ w'
      | _ => rfl
    · exact hrest _ w'

theorem performs_property (s : Schema) :
    Performs chain (property act s) (Build.property follow s) :=
  (performs_schema hfollow).1 Build.add s

theorem performs_node (s : Schema) :
    Performs chain (node act s) (Build.schema follow Build.add s) :=
  performs_node_of_property hfollow (performs_property hfollow s)

/-- A file that stands for another one is recorded once that has its node; any other file has its
place reserved before its document is followed. -/
theorem performs_visit (f : Path) (s : Schema) :
    Performs chain (visit act f s) (Build.visit follow f s) := by
  rw [visit]
  cases hs : s.declaredSite? with
  | some site =>
    rw [Schema.eq_reference hs]
    exact (hfollow site.reference).bind (fun id => performs_perform (Build.record f id))
      fun _ => rfl
  | none =>
    rw [Build.visit_typed _ _ hs]
    refine (performs_perform _).bind (fun slot => ?_) fun _ => rfl
    rw [Build.schema_eq_property _ _ hs]
    exact (performs_property hfollow s).bind (fun p => performs_perform (Build.fill slot p))
      fun _ => rfl

end document

theorem enter_bind (f : Path) (act : Bool → Action α) (w : Workspace) :
    (enter f >>= act) ⟨w, chain⟩ =
      if chain.any (·.Same f) then act false ⟨w, chain⟩ else act true ⟨w, f :: chain⟩ := by
  change (enter f ⟨w, chain⟩).bind _ = _
  rw [enter]
  split <;> rfl

/-- Leaving the file that was entered last leaves no other one. -/
theorem leave_bind (h : chain.any (·.Same f) = false) (act : Unit → Action α)
    (w : Workspace) : (leave f >>= act) ⟨w, f :: chain⟩ = act () ⟨w, chain⟩ := by
  have hchain : (f :: chain).filter (fun g => !g.Same f) = chain := by
    have hself : f.Same f := rfl
    rw [List.filter_cons_of_neg (by simp [hself]), List.filter_eq_self]
    intro g hg
    simpa using List.any_eq_false.1 h g hg
  change act () ⟨w, (f :: chain).filter (fun g => !g.Same f)⟩ = _
  rw [hchain]

/-- Where the references of a file that is entered are followed within the chain and that file, a
reference is followed within the chain. -/
theorem performs_referenceBy {follow : Option Path → String → Action (Except Error NodeId)}
    (hfollow : ∀ f ∈ lib.files, chain.any (·.Same f) = false → ∀ target,
      Performs (f :: chain) (follow (some f) target)
        (Build.reference lib (f :: chain) (some f) target))
    (referrer : Option Path) (target : String) :
    Performs chain (referenceBy lib follow referrer target)
      (Build.reference lib chain referrer target) := by
  intro w
  rw [referenceBy, (performs_perform _).bind_apply]
  rcases hr : w.registry.resolve lib referrer target with ⟨e | found, r⟩
  · rw [Build.reference_error hr, resolve, hr]
    rfl
  · rw [resolve, hr]
    dsimp only
    cases hn : found.node with
    | some id =>
      rw [Build.reference_known hr hn]
      rfl
    | none =>
      dsimp only
      cases hc : chain.any (·.Same found.file) with
      | true =>
        rw [Build.reference_circular hr hn hc, enter_bind, if_pos hc]
        rfl
      | false =>
        have hmem := Registry.mem_files_of_resolve (congrArg Prod.fst hr)
        rw [Build.reference_visit hr hn hc, enter_bind, hc, if_neg Bool.false_ne_true,
          if_pos rfl, (performs_visit (hfollow _ hmem hc) _ _).bind_apply, leave_bind hc]
        rfl

/-- A limit is not met as long as there are fewer files that have not been entered. -/
theorem performs_referenceWithin {limit : Nat} (h : (Build.pending lib chain).length < limit)
    (referrer : Option Path) (target : String) :
    Performs chain (referenceWithin lib limit referrer target)
      (Build.reference lib chain referrer target) := by
  induction limit generalizing chain referrer target with
  | zero => exact absurd h (Nat.not_lt_zero _)
  | succ limit ih =>
    refine performs_referenceBy (fun f hmem hc => ih ?_ (some f)) referrer target
    exact Nat.lt_of_lt_of_le (Build.pending_cons_lt hmem hc) (Nat.le_of_lt_succ h)

/-- A builder follows a reference as building does, and leaves the files that it enters. -/
theorem performs_reference (lib : Library) (chain : List Path) (referrer : Option Path)
    (target : String) :
    Performs chain (reference lib referrer target) (Build.reference lib chain referrer target) :=
  performs_referenceWithin (Nat.lt_succ_of_le (List.length_filter_le ..)) referrer target

/-- Nothing is lost to the limit: the files that are entered have their references followed as
the first one is. -/
theorem reference_eq (lib : Library) : reference lib = referenceBy lib (reference lib) := by
  funext referrer target s
  have hby : Performs s.chain (referenceBy lib (reference lib) referrer target)
      (Build.reference lib s.chain referrer target) :=
    performs_referenceBy (fun f _ _ => performs_reference lib (f :: s.chain) (some f)) _ _
  exact (performs_reference lib s.chain referrer target s.toWorkspace).trans
    (hby s.toWorkspace).symm

/-- One use of a builder. -/
def run (lib : Library) : Build.Call → Action (Except Error NodeId)
  | .load target => load lib target
  | .document file d => document lib file d

/-- A call of a builder that is made for it. -/
def runAnew (lib : Library) (c : Build.Call) : StateT Workspace Option (Except Error NodeId) :=
  fun w => (run lib c (new w)).map fun (outcome, s) => (outcome, s.toWorkspace)

theorem performs_run (lib : Library) (c : Build.Call) : Performs [] (run lib c) (c.run lib) := by
  cases c with
  | load target =>
    exact (performs_reference lib [] none target).bind (fun root => performs_perform _)
      fun _ => rfl
  | document file d =>
    exact (performs_node (performs_reference lib [] file) _).bind
      (fun root => performs_perform _) fun _ => rfl

theorem mapM_cons_eq {σ γ : Type} {act : γ → StateT σ Option β} {c : γ} {cs : List γ} {y : β}
    {ys : List β} {s s' s'' : σ} (h : act c s = some (y, s'))
    (hrest : cs.mapM act s' = some (ys, s'')) :
    (c :: cs).mapM act s = some (y :: ys, s'') := by
  rw [List.mapM_cons]
  change (act c s).bind _ = _
  rw [h]
  change (cs.mapM act s').bind _ = _
  rw [hrest]
  rfl

/-- A row of calls goes the same way with one builder and with a new one for each call. -/
theorem performs_calls (lib : Library) (calls : List Build.Call) (w : Workspace) :
    ∃ outcomes w',
      calls.mapM (run lib) (new w) = some (outcomes, new w') ∧
      calls.mapM (runAnew lib) w = some (outcomes, w') ∧
      (calls.mapM fun c => (c.run lib).run : StateM Workspace _) w = (outcomes, w') := by
  induction calls generalizing w with
  | nil => exact ⟨[], w, rfl, rfl, rfl⟩
  | cons c calls ih =>
    obtain ⟨outcomes, w', hone, hnew, hbuild⟩ := ih (c.run lib w).2
    have hc : run lib c (new w) = some ((c.run lib w).1, new (c.run lib w).2) :=
      performs_run lib c w
    have hanew : runAnew lib c w = some ((c.run lib w).1, (c.run lib w).2) := by
      rw [runAnew, hc]
      rfl
    refine ⟨(c.run lib w).1 :: outcomes, w', mapM_cons_eq hc hone, mapM_cons_eq hanew hnew, ?_⟩
    rw [List.mapM_cons]
    change (let out := (calls.mapM fun c => (c.run lib).run : StateM Workspace _) (c.run lib w).2
      ((c.run lib w).1 :: out.1, out.2)) = _
    rw [hbuild]

/-- Following a reference, and making a node or a property, comes to an end and leaves the chain of
the builder as it was, whether it works or fails and whatever the chain holds; the outcome is that
of building with the chain at hand. The same goes for the references of the files that are entered.
So between the calls of a builder its chain is empty, and one builder yields the same nodes and
errors, and leaves the same workspace, as new builders do. -/
theorem chain_restored (lib : Library) :
    (∀ (s : Builder) referrer target, ∃ outcome w,
      reference lib referrer target s = some (outcome, ⟨w, s.chain⟩) ∧
      Build.reference lib s.chain referrer target s.toWorkspace = (outcome, w)) ∧
    reference lib = referenceBy lib (reference lib) ∧
    (∀ (s : Builder) file schema, ∃ outcome w,
      node (reference lib file) schema s = some (outcome, ⟨w, s.chain⟩) ∧
      Build.schema (Build.reference lib s.chain file) Build.add schema s.toWorkspace =
        (outcome, w)) ∧
    (∀ (s : Builder) file schema, ∃ outcome w,
      property (reference lib file) schema s = some (outcome, ⟨w, s.chain⟩)) ∧
    ∀ (calls : List Build.Call) (w : Workspace), ∃ outcomes w',
      calls.mapM (run lib) (new w) = some (outcomes, new w') ∧
      calls.mapM (runAnew lib) w = some (outcomes, w') ∧
      (calls.mapM fun c => (c.run lib).run : StateM Workspace _) w = (outcomes, w') := by
  have hfollow : ∀ chain file target, Performs chain (reference lib file target)
      (Build.reference lib chain file target) := performs_reference lib
  refine ⟨fun s referrer target => ?_, reference_eq lib, fun s file schema => ?_,
    fun s file schema => ?_, performs_calls lib⟩
  · exact ⟨_, _, hfollow s.chain referrer target s.toWorkspace, rfl⟩
  · exact ⟨_, _, performs_node (hfollow s.chain file) schema s.toWorkspace, rfl⟩
  · exact ⟨_, _, performs_property (hfollow s.chain file) schema s.toWorkspace⟩

end Builder

end SchemaForge
