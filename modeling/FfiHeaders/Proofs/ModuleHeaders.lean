import FfiHeaders.Proofs.Exports
import FfiHeaders.Proofs.Finalisation
import FfiHeaders.Proofs.Run
import Mathlib.Data.List.DropRight

/-!
# The headers of a module tree

A finished header holds the texts of the exported declarations of its modules, each once and in
source order, up to the newlines at its end.
-/
namespace FfiHeaders

/-! ### Texts of declarations -/

theorem Declaration.exists_of_render_ok {d : Declaration} {text : String}
    (h : d.render.result = .ok text) : ∃ t, text = t ++ ";\n\n" := by
  unfold render at h
  cases hb : d.body with
  | typeAlias t =>
    simp only [hb] at h
    obtain ⟨u, -, h, -⟩ := Mentioning.exists_of_bind_ok h
    cases h
    exact ⟨_, rfl⟩
  | enum variants =>
    simp only [hb] at h
    cases h
    exact ⟨_, rfl⟩
  | struct kind fields =>
    simp only [hb] at h
    obtain ⟨u, -, h, -⟩ := Mentioning.exists_of_bind_ok h
    cases h
    exact ⟨_, rfl⟩
  | function abi params output =>
    simp only [hb] at h
    obtain ⟨args, -, h, -⟩ := Mentioning.exists_of_bind_ok h
    obtain ⟨u, -, h, -⟩ := Mentioning.exists_of_bind_ok h
    cases h
    exact ⟨_, rfl⟩

/-- Joined declarations end in the two newlines of the last one, and in no others. -/
theorem exists_of_join {es : List (List Value × Declaration)} {texts : List String}
    (h : List.Forall₂ (fun e text => e.2.render.result = .ok text) es texts) (hne : es ≠ []) :
    ∃ t, String.join texts = t ++ ";\n\n" := by
  induction h with
  | nil => exact absurd rfl hne
  | @cons e text es texts hr ht ih =>
    rw [String.join_cons]
    cases ht with
    | nil =>
      obtain ⟨t, rfl⟩ := Declaration.exists_of_render_ok hr
      exact ⟨t, String.append_empty⟩
    | cons =>
      obtain ⟨t, ht⟩ := ih (List.cons_ne_nil _ _)
      exact ⟨text ++ t, by rw [ht, String.append_assoc]⟩

/-! ### Finished headers -/

/-- What stands before the declarations of a module's header. -/
def headerOpening (header : String) : String :=
  "#ifndef " ++ Header.guardName header ++ "\n#define " ++ Header.guardName header ++ "\n\n" ++
    ("#include <stdint.h>\n#include <stdbool.h>\n" ++ "\n") ++
    "#ifdef __cplusplus\nextern \"C\" \x7b\n#endif\n\n"

/-- What stands behind the declarations of a module's header. -/
def headerClosing : String := "\n\n#ifdef __cplusplus\n\x7d\n#endif" ++ "\n\n#endif\n"

/-- The text between two others. -/
def between (opening closing text : String) : String :=
  String.ofList ((text.toList.drop opening.toList.length).rdrop closing.toList.length)

theorem between_append (opening kept closing : String) :
    between opening closing (opening ++ kept ++ closing) = kept := by
  rw [between, String.toList_append, String.toList_append, List.append_assoc, List.drop_left,
    List.rdrop_append_length, String.ofList_toList]

/-- The declarations that a finished header was made of. -/
def accumulated (header text : String) : String :=
  between (headerOpening header) headerClosing text ++ "\n\n"

theorem wrapped_eq (header body : String) :
    Header.wrapGuard (Header.standardIncludes ++ "\n" ++ Header.wrapExtern body) header =
      headerOpening header ++ body ++ headerClosing := by
  have h : ∀ g s e f z : String,
      g ++ (s ++ (e ++ body ++ f)) ++ z = g ++ s ++ e ++ body ++ (f ++ z) := by
    intro g s e f z
    simp only [String.append_assoc]
  exact h _ _ _ _ _

theorem moduleHeader_eq (header t : String) :
    State.moduleHeader header (t ++ ";\n\n") =
      headerOpening header ++ (t ++ ";") ++ headerClosing := by
  have htrim : Text.trimEnd (t ++ ";\n\n").toList = t.toList ++ [';'] := by
    rw [String.toList_append]
    exact Text.dropEndWhile_append_of_not (by decide) (List.all_eq_true.1 (by decide))
  have hbody : String.ofList (t.toList ++ [';']) = t ++ ";" := by
    rw [String.ofList_append, String.ofList_toList]
  rw [← wrapped_eq, State.moduleHeader, htrim, hbody]

/-! ### Walks through a module tree -/

/-- The header of a module in the library `libName`. -/
def headerOf (libName : String) (path : List Value) : String :=
  Header.path libName (path.map Value.plain)

/-- The exported declarations whose modules share a header, in source order. -/
def Module.exportsTo (m : Module) (libName header : String) : List (List Value × Declaration) :=
  m.exports.filter fun e => headerOf libName e.1 = header

theorem headerOf_of_ofModule {libName h : String} {path : List Value}
    (hm : Header.ofModule (.text libName) path = .ok h) : headerOf libName path = h := by
  obtain ⟨ms, -, rfl, rfl⟩ := Header.exists_of_ofModule_ok hm
  rw [headerOf, List.map_map]
  exact congrArg _ (List.map_id _)

namespace State

variable {s t : State} {libName : String}

theorem Emission.isExported {path : List Value} {d : Declaration} {h : String}
    (he : Emission s path d (t, .ok (.emitted h))) : d.IsExported := by
  cases he with
  | function _ _ hs => exact Declaration.skip?_eq_none_iff.1 hs
  | type _ _ _ hs => exact Declaration.skip?_eq_none_iff.1 hs

theorem Emission.not_isExported {path : List Value} {d : Declaration} {r : Skip}
    (he : Emission s path d (t, .ok (.skipped r))) : t = s ∧ ¬d.IsExported := by
  cases he with
  | skipped _ hs =>
    refine ⟨rfl, fun hd => ?_⟩
    rw [Declaration.skip?_eq_none_iff.2 hd] at hs
    cases hs

/-- A step of a walk that goes well leaves the state as it is, or adds the text of an exported
declaration to the header of its module. -/
theorem visit_of_ok (hs : s.libName = .text libName) {e : List Value × Declaration}
    (h : (s.visit (.of e)).result = .ok ()) :
    (s.visit (.of e)).state.libName = .text libName ∧
      if e.2.isPublic ∧ e.2.IsExported then
        ∃ text, e.2.render.result = .ok text ∧
          (∀ k, (s.visit (.of e)).state.output k = (s.append (headerOf libName e.1) text).output k) ∧
          (s.visit (.of e)).state.outputs.keys =
            (s.append (headerOf libName e.1) text).outputs.keys
      else (s.visit (.of e)).state = s := by
  by_cases hp : e.2.isPublic
  · have hv : Visit.of e = .declaration e.1 e.2 := if_pos hp
    have he := emission_emit s e.1 e.2
    rw [hv, visit] at h ⊢
    rcases hst : s.emit e.1 e.2 with ⟨t, r⟩
    rw [hst] at h he
    cases r with
    | error f => cases h
    | ok outcome =>
      cases outcome with
      | skipped reason =>
        obtain ⟨rfl, hd⟩ := he.not_isExported
        rw [if_neg fun hx => hd hx.2]
        exact ⟨hs, rfl⟩
      | emitted k =>
        obtain ⟨text, hr, hm, hkeys, hout, -⟩ := he.emitted
        rw [hs] at hm
        rw [if_pos ⟨hp, he.isExported⟩, headerOf_of_ofModule hm]
        exact ⟨he.extends.libName.trans hs, text, hr, hout, hkeys⟩
  · have hv : Visit.of e = .hidden e.1 e.2.name := if_neg hp
    rw [hv, visit, if_neg fun hx => hp hx.1]
    split
    · exact ⟨hs, rfl⟩
    · exact ⟨hs, rfl⟩

/-- A walk that goes well adds to each header the texts of the exported declarations that it meets. -/
theorem feed_of_ok (hs : s.libName = .text libName) {es : List (List Value × Declaration)}
    (h : (s.feed (es.map .of)).result = .ok ()) :
    (s.feed (es.map .of)).state.libName = .text libName ∧
      ∀ k, ∃ texts,
        List.Forall₂ (fun e text => e.2.render.result = .ok text)
          ((es.filter fun e => e.2.isPublic && decide e.2.IsExported).filter fun e =>
            headerOf libName e.1 = k) texts ∧
        (s.feed (es.map .of)).state.output k = s.output k ++ String.join texts ∧
        (k ∈ (s.feed (es.map .of)).state.outputs.keys ↔ k ∈ s.outputs.keys ∨ texts ≠ []) := by
  -- the state grows from step to step, so the claim has to hold from any of them
  induction es generalizing s with
  | nil => exact ⟨hs, fun k => ⟨[], .nil, by simp [feed], by simp [feed]⟩⟩
  | cons e es ih =>
    rw [List.map_cons, feed] at h ⊢
    cases hv : (s.visit (.of e)).result with
    | error f =>
      rw [hv] at h
      cases h
    | ok u =>
      rw [hv] at h
      obtain ⟨hlib, hstep⟩ := visit_of_ok hs hv
      obtain ⟨hlast, hrest⟩ := ih hlib h
      refine ⟨hlast, fun k => ?_⟩
      obtain ⟨texts, htexts, hout, hkeys⟩ := hrest k
      by_cases hx : e.2.isPublic ∧ e.2.IsExported
      · rw [if_pos hx] at hstep
        obtain ⟨text, hr, houts, hks⟩ := hstep
        rw [List.filter_cons_of_pos (by simpa using hx)]
        rw [houts, append_output] at hout
        rw [hks, mem_keys_append] at hkeys
        by_cases hk : headerOf libName e.1 = k
        · rw [List.filter_cons_of_pos (by simpa using hk)]
          rw [if_pos hk, hk, String.append_assoc, ← String.join_cons] at hout
          refine ⟨text :: texts, .cons hr htexts, hout, ?_⟩
          exact iff_of_true (hkeys.2 (Or.inl (Or.inl hk.symm))) (Or.inr (List.cons_ne_nil _ _))
        · rw [List.filter_cons_of_neg (by simpa using hk)]
          rw [if_neg hk] at hout
          refine ⟨texts, htexts, hout, hkeys.trans (or_congr_left (or_iff_right ?_))⟩
          exact fun h' => hk h'.symm
      · rw [if_neg hx] at hstep
        rw [List.filter_cons_of_neg (by simpa using hx)]
        rw [hstep] at hout hkeys
        rw [hstep]
        exact ⟨texts, htexts, hout, hkeys⟩

end State

theorem Writer.compile_eq_ok {w : Writer} {m : Module} {files : List (String × String)} :
    (w.compile m true).result = .ok files ↔
      ∃ b, (w.state.feed m.visits).result = .ok () ∧
        (w.state.feed m.visits).state.Finishes w.customCode b ∧ files = b.files := by
  rw [compile]
  constructor
  · intro h
    split at h
    · cases h
    · next hfed =>
      rw [if_pos rfl] at h
      split at h
      · next s b hs =>
        cases h
        exact ⟨b, hfed, State.finalise_eq_ok.1 (by rw [hs]), rfl⟩
      · cases h
  · rintro ⟨b, hfed, hb, rfl⟩
    have hfin := State.finalise_eq_ok.2 hb
    rcases hs : (w.state.feed m.visits).state.finalise w.customCode with ⟨s, r⟩
    rw [hs] at hfin
    obtain rfl : r = .ok b := hfin
    rw [hfed]
    dsimp only
    rw [if_pos rfl]

/-- A compiled module tree has the aggregate header and one header for each module that exports a
declaration. The header holds the texts of what its modules export, in source order, and only their
last two newlines are dropped, so what has been accumulated can be read off it. -/
theorem Writer.files_of_compile {libName customCode : String} {m : Module}
    {files : List (String × String)}
    (h : ((Writer.new (.text libName) customCode).compile m true).result = .ok files) :
    (files.map (·.1)).Nodup ∧
      (∀ k, k ∈ files.map (·.1) ↔
        k = libName ++ ".h" ∨ ∃ e ∈ m.exports, headerOf libName e.1 = k) ∧
      ∀ k, (∃ e ∈ m.exports, headerOf libName e.1 = k) →
        k ≠ libName ++ ".h" ∧ ∃ texts kept,
          List.Forall₂ (fun e text => e.2.render.result = .ok text) (m.exportsTo libName k) texts ∧
          String.join texts = kept ++ "\n\n" ∧
          (k, headerOpening k ++ kept ++ headerClosing) ∈ files ∧
          accumulated k (headerOpening k ++ kept ++ headerClosing) =
            ((State.initial (.text libName)).feed m.visits).state.output k := by
  obtain ⟨b, hfed, hb, rfl⟩ := compile_eq_ok.1 h
  change ((State.initial (.text libName)).feed m.visits).result = .ok () at hfed
  change ((State.initial (.text libName)).feed m.visits).state.Finishes customCode b at hb
  rw [Module.visits, visitsOf_eq_map] at hfed hb ⊢
  obtain ⟨hlib, hspec⟩ := State.feed_of_ok rfl hfed
  have hkeys : ∀ k, k ∈ ((State.initial (.text libName)).feed
      ((declarationsOf [m.name] m.items).map .of)).state.outputs.keys ↔
        ∃ e ∈ m.exports, headerOf libName e.1 = k := by
    intro k
    obtain ⟨texts, htexts, -, hmem⟩ := hspec k
    have hempty : texts = [] ↔ m.exportsTo libName k = [] := by
      rw [← List.length_eq_zero_iff, ← htexts.length_eq, List.length_eq_zero_iff]
      rfl
    rw [hmem, Ne, hempty]
    simp [State.initial, Module.exportsTo]
  have haggregate : Header.aggregate ((State.initial (.text libName)).feed
      ((declarationsOf [m.name] m.items).map .of)).state.library = libName ++ ".h" := by
    rw [State.library, hlib]
    rfl
  refine ⟨hb.nodup_keys, fun k => ?_, fun k hk => ⟨?_, ?_⟩⟩
  · rw [hb.mem_keys, hkeys, haggregate]
  · rintro rfl
    exact hb.aggregate_not_mem (haggregate ▸ (hkeys _).2 hk)
  · obtain ⟨texts, htexts, hout, -⟩ := hspec k
    have hne : m.exportsTo libName k ≠ [] := by
      obtain ⟨e, he, hek⟩ := hk
      exact List.ne_nil_of_mem (List.mem_filter.2 ⟨he, by simpa using hek⟩)
    obtain ⟨t, ht⟩ := exists_of_join htexts hne
    have hkept : t ++ ";\n\n" = t ++ ";" ++ "\n\n" := by
      rw [String.append_assoc]
      rfl
    have houtput : (State.initial (.text libName)).output k ++ String.join texts = t ++ ";\n\n" := by
      rw [ht]
      exact String.empty_append
    rw [houtput] at hout
    have hfile := hb.mem_module_file ((hkeys k).2 hk)
    rw [hout, moduleHeader_eq] at hfile
    refine ⟨texts, t ++ ";", htexts, ht.trans hkept, hfile, ?_⟩
    rw [hout, accumulated, between_append, hkept]

def idAlias : Declaration := ⟨.text "Id", [], [], true, none, .typeAlias (.named "u32")⟩

def refAlias : Declaration :=
  ⟨.text "Ref", [], [], true, none, .typeAlias (.pointer false (.named "Id"))⟩

/-- A module tree whose two modules of one name share a header. -/
def sharedTree : Module where
  name := .text "ffi"
  items :=
    [.module (.text "a") [.declaration idAlias],
      .declaration ⟨.text "Hidden", [], [], false, none, .typeAlias (.named "u8")⟩,
      .module (.text "a") [.declaration refAlias]]

/-- The state after a walk through `sharedTree`. -/
def sharedTreeState : State where
  libName := .text "lib"
  decls := ⟨[(.word "Id", "lib/a.h"), (.word "Ref", "lib/a.h")], by decide⟩
  deps := ⟨[("lib/a.h", [.word "Id"])], by decide⟩
  outputs := ⟨[("lib/a.h", "typedef uint32_t Id;\n\ntypedef const Id* Ref;\n\n")], by decide⟩
  isFinalised := false

theorem Writer.files_of_compile_sharedTree :
    ∃ files, ((Writer.new (.text "lib") "").compile sharedTree true).result = .ok files ∧
      ("lib/a.h", headerOpening "lib/a.h" ++ "typedef uint32_t Id;\n\ntypedef const Id* Ref;" ++
        headerClosing) ∈ files := by
  have hstate : ((new (.text "lib") "").state.feed sharedTree.visits).state = sharedTreeState := rfl
  have hkeys : sortTexts sharedTreeState.outputs.keys = ["lib/a.h"] := List.mergeSort_singleton _
  have hneedy : sortTexts (sharedTreeState.deps.keys.filter fun h =>
      sharedTreeState.outputs.contains h) = ["lib/a.h"] := List.mergeSort_singleton _
  have hgraph : sharedTreeState.includeGraph = .ok ⟨["lib/a.h"], []⟩ := by
    rw [State.includeGraph, State.includeEdges, hneedy, hkeys]
    rfl
  have horder : IncludeGraph.order? ⟨["lib/a.h"], []⟩ = some ["lib/a.h"] := by
    decide +kernel
  have hfinishes : sharedTreeState.Finishes ""
      ⟨["lib/a.h"], sharedTreeState.files "" ["lib/a.h"]⟩ := by
    refine ⟨rfl, by decide, ?_, ⟨_, hgraph, ?_⟩, rfl⟩
    · rw [State.checkGuards, hkeys]
      rfl
    · rw [IncludeGraph.order, horder]
  have hcompile : ((new (.text "lib") "").compile sharedTree true).result =
      .ok (sharedTreeState.files "" ["lib/a.h"]) := by
    refine compile_eq_ok.2 ⟨⟨["lib/a.h"], sharedTreeState.files "" ["lib/a.h"]⟩, rfl, ?_, rfl⟩
    rw [hstate]
    exact hfinishes
  have hexports : sharedTree.exportsTo "lib" "lib/a.h" =
      [([.text "ffi", .text "a"], idAlias), ([.text "ffi", .text "a"], refAlias)] := rfl
  have hid : ([.text "ffi", .text "a"], idAlias) ∈ sharedTree.exportsTo "lib" "lib/a.h" := by
    rw [hexports]
    exact List.mem_cons_self
  obtain ⟨-, -, hfiles⟩ := files_of_compile hcompile
  obtain ⟨-, texts, kept, htexts, hjoin, hfile, -⟩ :=
    hfiles "lib/a.h" ⟨_, (List.mem_filter.1 hid).1, rfl⟩
  rw [hexports] at htexts
  obtain _ | ⟨hfirst, _ | ⟨hsecond, ⟨⟩⟩⟩ := htexts
  cases hfirst
  cases hsecond
  have hlines : kept = "typedef uint32_t Id;\n\ntypedef const Id* Ref;" :=
    ((String.append_left_inj "\n\n").1 hjoin).symm
  rw [← hlines]
  exact ⟨_, hcompile, hfile⟩

end FfiHeaders
