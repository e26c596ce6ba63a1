import Mathlib.Order.WellFounded
import SchemaForge.Proofs.Building.Reference
/-! How calls of a builder nest: no row of them goes on without end, and references are followed no
deeper than there are files. -/
namespace SchemaForge.Build

/-- A call that is at work: one that follows a reference, or one that builds what a document of a
file says. -/
inductive Frame where
  | reference (chain : List Path) (referrer : Option Path) (target : String)
  | schema (chain : List Path) (file : Option Path) (s : Schema)

/-- Which calls, to the left, a call makes itself. What a reference finds depends on the workspace
that it meets, which may be any. -/
inductive Calls (lib : Library) : Frame → Frame → Prop where
  | entered {chain referrer target} (w : Workspace) {found : Resolved} {r : Registry} :
    w.registry.resolve lib referrer target = (.ok found, r) → found.node = none →
      chain.any (·.Same found.file) = false →
      Calls lib
        (.schema (found.file :: chain) (some found.file) (Schema.ofDocument found.document))
        (.reference chain referrer target)
  | followed {chain file} (site : RefSite) :
    Calls lib (.reference chain file site.reference) (.schema chain file (.reference site))
  | items {chain file} (info : Info) (s : Schema) :
    Calls lib (.schema chain file s) (.schema chain file (.array info s))
  | member {chain file context info head before inner after name s} :
    (name, s) ∈ inner →
      Calls lib (.schema chain file s)
        (.schema chain file (.object context info head before inner after))

namespace Frame

def chain : Frame → List Path
  | reference chain .. => chain
  | schema chain .. => chain

/-- How much there is to build before a reference is followed. -/
noncomputable def extent : Frame → Nat
  | reference .. => 0
  | schema _ _ s => sizeOf s

/-- What is left to do: files to enter first, and then what is left of a document. -/
noncomputable def left (lib : Library) (frame : Frame) : Nat × Nat :=
  ((pending lib frame.chain).length, frame.extent)

end Frame

variable {lib : Library} {callee caller : Frame}

theorem Calls.left_lt (h : Calls lib callee caller) :
    Prod.Lex (· < ·) (· < ·) (callee.left lib) (caller.left lib) := by
  cases h with
  | entered w hr _ hc =>
    have hmem := Registry.mem_files_of_resolve (congrArg Prod.fst hr)
    exact .left _ _ (pending_cons_lt hmem hc)
  | followed site =>
    exact .right _ (by simp only [Frame.extent, Schema.reference.sizeOf_spec]; omega)
  | items info s => exact .right _ (by simp only [Frame.extent, Schema.array.sizeOf_spec]; omega)
  | member hmem =>
    have hlt := List.sizeOf_lt_of_mem hmem
    refine .right _ ?_
    simp only [Frame.extent, Prod.mk.sizeOf_spec, Schema.object.sizeOf_spec] at hlt ⊢
    omega

theorem wellFounded_calls (lib : Library) : WellFounded (Calls lib) :=
  Subrelation.wf Calls.left_lt
    (InvImage.wf (Frame.left lib) (WellFounded.prod_lex Nat.lt_wfRel.wf Nat.lt_wfRel.wf))

/-- Following references as ever, but only so many deep: what lies deeper is left to `cut`. -/
def referenceWithin (lib : Library) (cut : String → Build NodeId) :
    Nat → List Path → Option Path → String → Build NodeId
  | 0, _, _, target => cut target
  | limit + 1, chain, referrer, target => fun w =>
    match w.registry.resolve lib referrer target with
    | (.error e, r) => (.error e, { w with registry := r })
    | (.ok found, r) =>
      let w := { w with registry := r }
      match found.node with
      | some node => (.ok node, w)
      | none =>
        if chain.any (·.Same found.file) then (.error (.reference (.circular target)), w)
        else
          let follow next :=
            referenceWithin lib cut limit (found.file :: chain) (some found.file) next
          let build : Build NodeId :=
            match Schema.ofDocument found.document with
            | .reference site => do record found.file (← follow site.reference)
            | s => do
              let slot ← reserve found.file
              schema follow (fill slot) s
          build w

/-- References are never followed deeper than there are files left. -/
theorem referenceWithin_eq (lib : Library) (cut : String → Build NodeId) {limit : Nat}
    {chain : List Path} (h : (pending lib chain).length < limit) (referrer : Option Path)
    (target : String) :
    referenceWithin lib cut limit chain referrer target = reference lib chain referrer target := by
  induction limit generalizing chain referrer target with
  | zero => exact absurd h (Nat.not_lt_zero _)
  | succ limit ih =>
    funext w
    rcases hr : w.registry.resolve lib referrer target with ⟨e | found, r⟩
    · rw [reference_error hr]
      simp only [referenceWithin, hr]
    · cases hn : found.node with
      | some node =>
        rw [reference_known hr hn]
        simp only [referenceWithin, hr, hn]
      | none =>
        cases hc : chain.any (·.Same found.file) with
        | true =>
          rw [reference_circular hr hn hc]
          simp only [referenceWithin, hr, hn, hc, if_true]
        | false =>
          have hmem := Registry.mem_files_of_resolve (congrArg Prod.fst hr)
          have hlt := Nat.lt_of_lt_of_le (pending_cons_lt hmem hc) (Nat.le_of_lt_succ h)
          have hfollow := ih hlt (some found.file)
          cases hs : (Schema.ofDocument found.document).declaredSite? with
          | some site =>
            have hsite := Schema.eq_reference hs
            rw [reference_alias hr hn hc hsite]
            simp only [referenceWithin, hr, hn, hc, hsite, hfollow, Bool.false_eq_true, if_false]
          | none =>
            rw [reference_typed hr hn hc hs]
            simp only [referenceWithin, hr, hn, hc, hfollow, Bool.false_eq_true, if_false]
            generalize Schema.ofDocument found.document = s at hs ⊢
            cases s with
            | reference site => cases hs
            | _ => simp only [bind_apply, reserve_apply]

end SchemaForge.Build
