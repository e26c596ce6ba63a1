import Mathlib
import SchemaForge.Proofs.Building.Aliases
import SchemaForge.Proofs.Path
/-! Building on after a failure: what is left of the failed build, and who meets it. -/
namespace SchemaForge.Build

variable {lib : Library} {calls more : List Call} {target again : String} {referrer : Option Path}
  {w w' : Workspace} {f : Path} {e : Error}

theorem load_error : (∃ e, (load lib target w).1 = .error e) ↔
    ∃ e, (reference lib [] none target w).1 = .error e := by
  rw [load_apply]
  rcases reference lib [] none target w with ⟨e | id, w'⟩
  · exact Iff.rfl
  · constructor
    · rintro ⟨e, h⟩
      cases h
    · rintro ⟨e, h⟩
      cases h

/-- A load that has failed leaves a node for the typed file that its target leads to. -/
theorem node_after_load (hl : lib.Regular) {g : Path}
    (hload : (load lib target (Workspace.after lib calls)).1 = .error e)
    (hf : lib.locate none target = .ok f)
    (hpath : Relation.ReflTransGen lib.AliasOf f g) (hg : lib.Typed g) (more : List Call) :
    ∃ id, (Workspace.after lib (calls ++ .load target :: more)).registry.node? g = some id := by
  rw [load_apply] at hload
  rcases hout : reference lib [] none target (Workspace.after lib calls) with ⟨e' | n, w'⟩
  · obtain ⟨id, hn⟩ := node_of_error hl (Workspace.sound_after lib calls) hpath hg hf
      (avoids_nil lib f) hout
    have hw : Workspace.after lib (calls ++ [.load target]) = w' := by
      rw [Workspace.after_concat, Call.run, load_apply, hout]
    rw [← hw] at hn
    rw [List.append_cons]
    exact ⟨id, (Workspace.extends_after_append lib (calls ++ [.load target]) more).node hn⟩
  · rw [hout] at hload
    cases hload

/-- After a load that has failed, references to its file fail only if the file leads to no typed
one. -/
theorem reference_error_iff (hl : lib.Regular)
    (hload : (load lib target (Workspace.after lib calls)).1 = .error e) (more : List Call)
    (hagain : lib.locate referrer again = lib.locate none target) :
    (∃ e', (reference lib [] referrer again
      (Workspace.after lib (calls ++ .load target :: more))).1 = .error e') ↔
    ∀ f, lib.locate none target = .ok f → ¬ lib.Grounded f := by
  have hs := Workspace.sound_after lib (calls ++ .load target :: more)
  constructor
  · rintro ⟨e', he'⟩ f hf ⟨g, hpath, hg⟩
    obtain ⟨id, hn⟩ := node_after_load hl hload hf hpath hg more
    obtain ⟨n, w', hout⟩ := reference_ok hl hs hpath hg hn (hagain.trans hf) (avoids_nil lib f)
    rw [hout] at he'
    cases he'
  · intro hrefused
    rcases hout : reference lib [] referrer again
      (Workspace.after lib (calls ++ .load target :: more)) with ⟨e' | n, w'⟩
    · exact ⟨e', rfl⟩
    · have hleads := (follows_reference lib [] referrer again _).2 n (congrArg Prod.fst hout)
      obtain ⟨f, hf, -⟩ := hleads
      have hground := grounded_of_ok hl hs (anchored_after hl _) hf hout
      exact absurd hground (hrefused f (hagain.symm.trans hf))

/-- What builds that failed mean for later ones on the same workspace. Whenever a call works, the
roots of files hold what their files say, but for those that an earlier call has abandoned when it
failed. A target that could not be loaded is refused again, by whoever refers to it, only if it
leads to no document with a type. -/
theorem roots_after_failures (m : FileMap) (includeDirs : List Path) (lib : Library)
    (hm : lib = m.library includeDirs) (calls : List Call) :
    (∀ c n, (c.run lib (Workspace.after lib calls)).1 = .ok n →
      ∀ id, (Workspace.after lib (calls ++ [c])).graph.isFileRoot id = true →
        (Holds lib (Workspace.after lib (calls ++ [c])) id ↔ ¬ Abandoned lib calls id)) ∧
    ∀ target e, (load lib target (Workspace.after lib calls)).1 = .error e →
      ∀ more,
        ((∃ e', (load lib target
            (Workspace.after lib (calls ++ .load target :: more))).1 = .error e') ↔
          ∀ f, lib.locate none target = .ok f → ¬ lib.Grounded f) ∧
        ∀ referrer again, lib.locate referrer again = lib.locate none target →
          ((∃ e', (reference lib [] referrer again
              (Workspace.after lib (calls ++ .load target :: more))).1 = .error e') ↔
            ∀ f, lib.locate none target = .ok f → ¬ lib.Grounded f) := by
  have hl : lib.Regular := hm ▸ m.regular_library includeDirs
  constructor
  · intro c n hok id hroot
    constructor
    · intro hholds habandoned
      exact (habandoned.append [c]).placeholder.not_holds hholds
    · intro hkept
      have hextends := Workspace.extends_after_append lib calls [c]
      by_cases hnew : (Workspace.after lib calls).graph.size ≤ id
      · have hgrows : Grows lib [] False (Workspace.after lib calls)
            (Workspace.after lib (calls ++ [c])) := by
          rw [Workspace.after_concat]
          exact grows_of_ok hl (Prod.ext hok rfl)
        rcases hgrows.root (Workspace.sound_after lib calls) hnew hroot with hholds | ⟨hfalse, -⟩
        · exact hholds
        · exact hfalse.elim
      · rw [hextends.graph.fileRoot (Nat.lt_of_not_le hnew)] at hroot
        rcases holds_or_abandoned hl hroot with hholds | habandoned
        · exact hextends.holds hholds
        · exact absurd habandoned hkept
  · intro target e hload more
    constructor
    · rw [load_error]
      exact reference_error_iff hl hload more rfl
    · intro referrer again hagain
      exact reference_error_iff hl hload more hagain

/-- A file whose type is misspelt. -/
def misspelt : FileMap := ⟨⟨"/"⟩, [(⟨"/a.json"⟩, "\x7b\"type\":\"strin\"\x7d")]⟩

/-- The document in the file. -/
def misspeltDocument : Document := ⟨[("type", .string "strin")]⟩

theorem locate_misspelt :
    (misspelt.library []).locate none "file:///a.json" = .ok ⟨"/a.json"⟩ := rfl

theorem reads_misspelt : (misspelt.library []).Reads ⟨"/a.json"⟩ misspeltDocument := by
  refine ⟨"\x7b\"type\":\"strin\"\x7d", rfl, ?_⟩
  cbv

theorem schema_misspelt :
    Schema.ofDocument misspeltDocument = .faulty "strin" [.typeUnknown "strin"] := by
  cbv

/-- The file cannot be loaded, and its place stays as it was reserved. -/
theorem load_misspelt : ∃ w, load (misspelt.library []) "file:///a.json" .empty =
      (.error (.structural "strin" [.typeUnknown "strin"]), w) ∧
    w.registry.node? ⟨"/a.json"⟩ = some 0 ∧ w.graph = (reserved ⟨"/a.json"⟩ .empty).graph := by
  obtain ⟨text, ht, hread⟩ := reads_misspelt
  have hr := Registry.resolve_new (r := .empty) locate_misspelt rfl ht hread
  have h : reference (misspelt.library []) [] none "file:///a.json" .empty = _ :=
    reference_typed hr rfl rfl (by rw [schema_misspelt]; rfl)
  dsimp only at h
  rw [schema_misspelt, schema] at h
  rw [load_apply, h]
  exact ⟨_, rfl, rfl, rfl⟩

/-- The second load of the file yields the place that the first one has abandoned. -/
theorem reload_misspelt :
    (load (misspelt.library []) "file:///a.json"
      (Workspace.after (misspelt.library []) [.load "file:///a.json"])).1 = .ok 0 ∧
    (Workspace.after (misspelt.library [])
      [.load "file:///a.json", .load "file:///a.json"]).graph.isFileRoot 0 = true ∧
    Abandoned (misspelt.library []) [.load "file:///a.json"] 0 := by
  obtain ⟨w, hload, hn, hg⟩ := load_misspelt
  have hw : Workspace.after (misspelt.library []) [.load "file:///a.json"] = w :=
    congrArg Prod.snd hload
  have hagain : load (misspelt.library []) "file:///a.json" w =
      (.ok 0, { w with graph := w.graph.link 0 }) := by
    rw [load_apply, reference_built locate_misspelt hn]
  refine ⟨?_, ?_, ?_⟩
  · rw [hw, hagain]
  · have hw' : Workspace.after (misspelt.library [])
        [.load "file:///a.json", .load "file:///a.json"] = { w with graph := w.graph.link 0 } := by
      rw [← List.singleton_append, Workspace.after_concat, hw, Call.run, hagain]
    rw [hw', hg]
    rfl
  · refine ⟨[], .load "file:///a.json", [], _, rfl, congrArg Prod.fst hload, Nat.zero_le _,
      ⟨"/a.json"⟩, misspeltDocument, ?_, reads_misspelt, ?_, ?_⟩
    · rw [List.nil_append, hw, hg]
      rfl
    · rw [List.nil_append, hw, hg]
      rfl
    · rw [schema_misspelt]
      rintro ⟨context, h⟩
      cases h

theorem roots_after_failures_misspelt :
    (¬ Holds (misspelt.library []) (Workspace.after (misspelt.library [])
      [.load "file:///a.json", .load "file:///a.json"]) 0) ∧
    ((misspelt.library []).Grounded ⟨"/a.json"⟩ ∧
      ¬ ∃ e, (load (misspelt.library []) "file:///a.json"
        (Workspace.after (misspelt.library []) [.load "file:///a.json"])).1 = .error e) := by
  obtain ⟨w, hload, -⟩ := load_misspelt
  obtain ⟨hagain, hroot, habandoned⟩ := reload_misspelt
  obtain ⟨hholds, -⟩ := roots_after_failures misspelt [] _ rfl [.load "file:///a.json"]
  obtain ⟨-, hrefused⟩ := roots_after_failures misspelt [] _ rfl []
  have hground : (misspelt.library []).Grounded ⟨"/a.json"⟩ :=
    ⟨⟨"/a.json"⟩, .refl, misspeltDocument, reads_misspelt, by rw [schema_misspelt]; rfl⟩
  refine ⟨?_, hground, ?_⟩
  · intro h
    exact (hholds (.load "file:///a.json") 0 hagain 0 hroot).1 h habandoned
  · intro h
    have hreload := (hrefused "file:///a.json" _ (congrArg Prod.fst hload) []).1
    exact hreload.1 h ⟨"/a.json"⟩ locate_misspelt hground

/-- A file that could not be loaded is loaded at the second try, as an object without members. -/
theorem placeholder_loaded :
    (∃ e, (load (misspelt.library []) "file:///a.json" .empty).1 = .error e) ∧
    (load (misspelt.library []) "file:///a.json"
      (Workspace.after (misspelt.library []) [.load "file:///a.json"])).1 = .ok 0 ∧
    let w := Workspace.after (misspelt.library []) [.load "file:///a.json", .load "file:///a.json"]
    w.graph.isFileRoot 0 = true ∧ w.graph.property? 0 = some .reserved ∧
      ¬ Holds (misspelt.library []) w 0 := by
  obtain ⟨w, hload, -⟩ := load_misspelt
  obtain ⟨hagain, hroot, habandoned⟩ := reload_misspelt
  have hplace := (habandoned.append [.load "file:///a.json"]).placeholder
  refine ⟨⟨_, congrArg Prod.fst hload⟩, hagain, hroot, ?_, hplace.not_holds⟩
  obtain ⟨f, d, -, -, hp, -⟩ := hplace
  exact hp

end SchemaForge.Build
