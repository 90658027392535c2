import FfiHeaders.Proofs.Exports
import FfiHeaders.Proofs.TextNames

/-!
# Material that is not exported

What the library does not export can be deleted from a module tree, and the field of an opaque struct
can be of any type: a writer ends in the same state and with the same result.
-/
namespace FfiHeaders

/-! ### Opaque fields -/

/-- The second declaration is the first one with another type in place of that of the only field of a
tuple struct, if it is one. -/
inductive Declaration.Masks : Declaration → Declaration → Prop
  | same (d : Declaration) : Masks d d
  | field {d : Declaration} {f : Field} (h : d.body = .struct (.text "tuple") [f]) (t : TypeExpr) :
      Masks d { d with body := .struct (.text "tuple") [{ f with type := t }] }

namespace Declaration.Masks

variable {d e : Declaration}

theorem isPublic (h : d.Masks e) : e.isPublic = d.isPublic := by
  cases h with
  | same | field => rfl

theorem name (h : d.Masks e) : e.name = d.name := by
  cases h with
  | same | field => rfl

theorem emit (h : d.Masks e) (s : State) (module : List Value) : s.emit module e = s.emit module d := by
  cases h with
  | same => rfl
  | @field f hbody t =>
    obtain ⟨name, attrs, generics, isPublic, span, body⟩ := d
    obtain rfl : body = _ := hbody
    -- neither the checks nor the rendering look at the type of the field
    rfl

end Declaration.Masks

/-! ### Walks with one effect -/

namespace State

/-- Two walks lead from any state to one state, with one result. -/
def SameEffect (vs ws : List Visit) : Prop :=
  ∀ s : State, (s.feed vs).state = (s.feed ws).state ∧ (s.feed vs).result = (s.feed ws).result

theorem SameEffect.append {vs ws vs' ws' : List Visit} (h : SameEffect vs ws)
    (h' : SameEffect vs' ws') : SameEffect (vs ++ vs') (ws ++ ws') := by
  intro s
  obtain ⟨hstate, hresult⟩ := h s
  cases hr : (s.feed vs).result with
  | error f =>
    rw [feed_append_of_error hr, feed_append_of_error (hresult.symm.trans hr)]
    exact ⟨hstate, hresult⟩
  | ok u =>
    rw [feed_append_of_ok hr, feed_append_of_ok (hresult.symm.trans hr), ← hstate]
    exact h' _

theorem feed_singleton (s : State) (v : Visit) :
    (s.feed [v]).state = (s.visit v).state ∧ (s.feed [v]).result = (s.visit v).result := by
  rw [feed]
  cases hv : (s.visit v).result with
  | error f => exact ⟨rfl, rfl⟩
  | ok u => exact ⟨rfl, rfl⟩

theorem sameEffect_of_masks {d e : Declaration} (h : d.Masks e) (path : List Value) :
    SameEffect [Visit.of (path, d)] [Visit.of (path, e)] := by
  intro s
  obtain ⟨hds, hdr⟩ := feed_singleton s (Visit.of (path, d))
  obtain ⟨hes, her⟩ := feed_singleton s (Visit.of (path, e))
  rw [hds, hdr, hes, her, Visit.of, Visit.of, h.isPublic]
  split
  · rw [visit, visit, h.emit]
    rcases s.emit path d with ⟨t, f | outcome⟩
    · exact ⟨rfl, rfl⟩
    · exact ⟨rfl, rfl⟩
  · rw [h.name]
    exact ⟨rfl, rfl⟩

/-- A declaration that is not exported has no effect, whatever is wrong with it. -/
theorem sameEffect_nil {path : List Value} {d : Declaration} (hp : path.all Value.isText)
    (ha : d.hasTextAbi) (hd : ¬(d.isPublic ∧ d.IsExported)) : SameEffect [Visit.of (path, d)] [] := by
  intro s
  obtain ⟨hs, hr⟩ := feed_singleton s (Visit.of (path, d))
  rw [hs, hr, Visit.of]
  split
  · next hpublic =>
    -- it is skipped before its types are looked at
    obtain ⟨reason | _, hskip⟩ := Declaration.exists_skip ha
    · exact absurd ⟨hpublic, Declaration.skip?_eq_none_iff.1 hskip⟩ hd
    · rw [visit, emit_of_skip hskip]
      exact ⟨rfl, rfl⟩
  · obtain ⟨p, rfl⟩ := Value.exists_texts hp
    rw [visit, Value.texts?_map_text]
    exact ⟨rfl, rfl⟩

end State

/-! ### Trees -/

/-- The second tree is the first one without some declarations that are not exported, and with other
types in place of those of opaque fields. -/
inductive Prunes : List Item → List Item → Prop
  | nil : Prunes [] []
  | drop {d : Declaration} {is js : List Item} (hd : ¬(d.isPublic ∧ d.IsExported)) (h : Prunes is js) :
      Prunes (.declaration d :: is) js
  | keep {d e : Declaration} {is js : List Item} (hd : d.Masks e) (h : Prunes is js) :
      Prunes (.declaration d :: is) (.declaration e :: js)
  | module (name : Value) {inner inner' is js : List Item} (hinner : Prunes inner inner')
      (h : Prunes is js) : Prunes (.module name inner :: is) (.module name inner' :: js)

/-- The names of the modules are texts, and so are the calling conventions of the functions in them. -/
def HaveTextPaths (es : List (List Value × Declaration)) : Prop :=
  ∀ e ∈ es, e.1.all Value.isText ∧ e.2.hasTextAbi

theorem Prunes.sameEffect {is js : List Item} (h : Prunes is js) {path : List Value}
    (hp : HaveTextPaths (declarationsOf path is)) :
    State.SameEffect (visitsOf path is) (visitsOf path js) := by
  induction h generalizing path with
  | nil => exact fun s => ⟨rfl, rfl⟩
  | @drop d is js hd h ih =>
    obtain ⟨⟨hpath, habi⟩, hp⟩ := List.forall_mem_cons.1 hp
    rw [visitsOf, Item.visits_eq_map]
    exact (State.sameEffect_nil hpath habi hd).append (ih hp)
  | @keep d e is js hd h ih =>
    rw [visitsOf, visitsOf, Item.visits_eq_map, Item.visits_eq_map]
    exact (State.sameEffect_of_masks hd path).append (ih (List.forall_mem_cons.1 hp).2)
  | @module name inner inner' is js hinner h ihinner ih =>
    obtain ⟨hpinner, hp⟩ := List.forall_mem_append.1 hp
    exact (ihinner hpinner).append (ih hp)

mutual

/-- The item with nothing but its public declarations that the library exports. -/
def Item.published : Item → List Item
  | .declaration d => if d.isPublic && decide d.IsExported then [.declaration d] else []
  | .module name items => [.module name (publishedOf items)]

def publishedOf : List Item → List Item
  | [] => []
  | i :: is => i.published ++ publishedOf is

end

/-- To delete everything that is not exported is one way of pruning. -/
theorem prunes_publishedOf : ∀ is : List Item, Prunes is (publishedOf is)
  | [] => .nil
  | .declaration d :: is => by
    rw [publishedOf, Item.published]
    split
    · exact .keep (.same d) (prunes_publishedOf is)
    · next hd => exact .drop (by simpa using hd) (prunes_publishedOf is)
  | .module name items :: is => .module name (prunes_publishedOf items) (prunes_publishedOf is)

/-- A tree and what is left of it when material that is not exported goes are compiled alike: to the
same headers or the same failure, and to the same state. -/
theorem Writer.compile_of_prunes {m : Module} {items : List Item} (h : Prunes m.items items)
    (hm : HaveTextPaths (declarationsOf [m.name] m.items)) (w : Writer) (finish : Bool) :
    (w.compile m finish).result = (w.compile ⟨m.name, items⟩ finish).result ∧
      (w.compile m finish).state = (w.compile ⟨m.name, items⟩ finish).state := by
  obtain ⟨hstate, hresult⟩ := h.sameEffect hm w.state
  change (w.state.feed m.visits).state = (w.state.feed (Module.visits ⟨m.name, items⟩)).state at hstate
  change (w.state.feed m.visits).result = (w.state.feed (Module.visits ⟨m.name, items⟩)).result at hresult
  unfold compile
  dsimp only
  rw [← hresult, ← hstate]
  cases (w.state.feed m.visits).result with
  | error f => exact ⟨rfl, rfl⟩
  | ok u =>
    cases finish with
    | false => exact ⟨rfl, rfl⟩
    | true =>
      dsimp only
      rw [if_pos rfl, if_pos rfl]
      rcases (w.state.feed m.visits).state.finalise w.customCode with ⟨s, f | b⟩
      · exact ⟨rfl, rfl⟩
      · exact ⟨rfl, rfl⟩

/-- An opaque struct around a field of the given type. -/
def handleStruct (field : TypeExpr) : Declaration :=
  ⟨.text "Handle", [.list (.text "repr") [.word (.text "C")]], [], true, none,
    .struct (.text "tuple") [⟨.null, field, [], none⟩]⟩

/-- A tree that exports an opaque struct, around which there are a private struct, a generic alias and a
function that C cannot call, all of them of types that C cannot express. -/
def handleTree : Module where
  name := .text "ffi"
  items :=
    [.declaration ⟨.text "Inner", [.list (.text "repr") [.word (.text "C")]], [], false, none,
        .struct (.text "named") [⟨.text "node", .slice (.named "Node"), [], none⟩]⟩,
      .module (.text "a")
        [.declaration ⟨.text "Pair", [], [.text "T"], true, none,
            .typeAlias (.tuple [.named "T", .named "T"])⟩,
          .declaration (handleStruct (.reference true .null (.named "Inner"))),
          .declaration ⟨.text "call", [.word (.text "no_mangle")], [], true, none,
            .function (.text "Rust") [.mk (.text "(a, b)") .never] none⟩]]

/-- What is left of the tree without the material around the struct. -/
def handleItems : List Item :=
  [.module (.text "a") [.declaration (handleStruct .never)]]

theorem masks_handleStruct (t u : TypeExpr) : (handleStruct t).Masks (handleStruct u) :=
  Declaration.Masks.field (d := handleStruct t) rfl u

theorem prunes_handleItems : Prunes handleTree.items handleItems := by
  refine .drop (by decide) (.module _ ?_ .nil)
  exact .drop (by decide) (.keep (masks_handleStruct _ _) (.drop (by decide) .nil))

theorem Writer.compile_of_prunes_handleTree :
    Prunes handleTree.items handleItems ∧
      HaveTextPaths (declarationsOf [handleTree.name] handleTree.items) ∧
      ((new (.text "lib") "").compile handleTree false).result = .ok [] ∧
      ((new (.text "lib") "").compile handleTree false).state.output "lib/a.h" =
        "typedef struct Handle Handle;\n\n" := by
  have hpaths : HaveTextPaths (declarationsOf [handleTree.name] handleTree.items) := by
    unfold HaveTextPaths
    decide
  obtain ⟨hresult, hstate⟩ :=
    compile_of_prunes prunes_handleItems hpaths (new (.text "lib") "") false
  rw [hresult, hstate]
  exact ⟨prunes_handleItems, hpaths, rfl, rfl⟩

end FfiHeaders
