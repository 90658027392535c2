import FfiHeaders.Header.Bundle
import FfiHeaders.Proofs.Deposits

/-!
# The order of emissions

Whatever is made of a state is made in the order of texts, so it does not show in which order the
headers came to hold what they hold. Calls that go to different headers can therefore change places,
as long as each type has one home.
-/
namespace FfiHeaders

theorem Table.perm_keys {κ ν : Type} [DecidableEq κ] {t u : Table κ ν}
    (h : ∀ k, t.get? k = u.get? k) : t.keys.Perm u.keys := by
  refine (List.perm_ext_iff_of_nodup t.nodup_keys u.nodup_keys).2 fun k => ?_
  rw [← Table.contains_iff, ← Table.contains_iff, Table.contains, Table.contains, h k]

namespace State

variable {s t : State}

/-- Two states hold the same at each header, and know the same homes of types. -/
structure Agree (s t : State) : Prop where
  libName : s.libName = t.libName
  isFinalised : s.isFinalised = t.isFinalised
  agreeAt : ∀ h, AgreeAt h s t
  home : ∀ n, s.home? n = t.home? n

namespace Agree

variable (h : Agree s t)
include h

theorem library : s.library = t.library := by rw [State.library, h.libName, State.library]

theorem sortTexts_outputs : sortTexts s.outputs.keys = sortTexts t.outputs.keys :=
  sortTexts_congr (Table.perm_keys fun k => (h.agreeAt k).outputs)

theorem contains_outputs (k : String) : s.outputs.contains k = t.outputs.contains k := by
  rw [Table.contains, (h.agreeAt k).outputs, Table.contains]

theorem checkGuards : s.checkGuards = t.checkGuards := by
  rw [State.checkGuards, h.library, h.sortTexts_outputs, State.checkGuards]

theorem edgesInto (k : String) (names : List Symbol) : s.edgesInto k names = t.edgesInto k names := by
  rw [State.edgesInto, funext h.home, State.edgesInto]

theorem includeGraph : s.includeGraph = t.includeGraph := by
  have hkeys : (s.deps.keys.filter fun k => s.outputs.contains k).Perm
      (t.deps.keys.filter fun k => t.outputs.contains k) := by
    rw [funext h.contains_outputs]
    exact (Table.perm_keys fun k => (h.agreeAt k).deps).filter _
  have hmentioned : s.mentioned = t.mentioned := by
    funext k
    rw [mentioned, (h.agreeAt k).deps, mentioned]
  have hedges : s.includeEdges = t.includeEdges := by
    rw [includeEdges, sortTexts_congr hkeys, hmentioned, funext₂ h.edgesInto, includeEdges]
  rw [State.includeGraph, hedges, h.sortTexts_outputs, State.includeGraph]

theorem files (customCode : String) (order : List String) :
    s.files customCode order = t.files customCode order := by
  have hout : s.output = t.output := by
    funext k
    rw [output, (h.agreeAt k).outputs, output]
  rw [State.files, h.library, h.sortTexts_outputs, hout, State.files]

/-- What finalising results in is fixed by what the headers hold and where the types have their
homes. -/
theorem finalise (customCode : String) :
    (s.finalise customCode).2 = (t.finalise customCode).2 := by
  have hbundle : s.bundle customCode = t.bundle customCode := by
    rw [bundle, h.library, h.contains_outputs, h.checkGuards, h.includeGraph,
      funext (h.files customCode), bundle]
  rw [State.finalise, h.isFinalised, hbundle, State.finalise]
  split <;> rfl

end Agree

/-! ### Runs -/

theorem agreeAt_foldl {ps qs : List Deposit} {h : String}
    (hpq : ps.filter (·.header = h) = qs.filter (·.header = h)) (s : State) :
    AgreeAt h (ps.foldl receive s) (qs.foldl receive s) := by
  have hp := (AgreeAt.refl h s).foldl_filter ps
  have hq := (AgreeAt.refl h s).foldl_filter qs
  rw [hpq] at hp
  exact hp.trans hq.symm

/-- No type has a deposit that declares it at one header and another one at a second. -/
def HaveOneHome (ps : List Deposit) : Prop :=
  ∀ n, ∀ p ∈ ps, ∀ q ∈ ps, ∀ h k, p.home? n = some h → q.home? n = some k → h = k

theorem filterMap_home? {ps qs : List Deposit} (hpq : ps.Perm qs) (hone : HaveOneHome ps)
    (n : Symbol) : ps.filterMap (Deposit.home? n) = qs.filterMap (Deposit.home? n) := by
  have hperm := hpq.filterMap (Deposit.home? n)
  -- all homes of the type are one header, so their order does not show
  have hall : ∀ a b, a ∈ ps.filterMap (Deposit.home? n) → b ∈ qs.filterMap (Deposit.home? n) →
      a = b := by
    intro a b ha hb
    obtain ⟨p, hp, hpa⟩ := List.mem_filterMap.1 ha
    obtain ⟨q, hq, hqb⟩ := List.mem_filterMap.1 (hperm.mem_iff.2 hb)
    exact hone n p hp q hq a b hpa hqb
  have htrue : ∀ l : List String, l.Pairwise fun _ _ => True := fun l =>
    List.pairwise_of_forall fun _ _ => trivial
  exact hperm.eq_of_pairwise (fun a b ha hb _ _ => hall a b ha hb) (htrue _) (htrue _)

theorem agree_foldl {ps qs : List Deposit} (hperm : ps.Perm qs)
    (hsame : ∀ h, ps.filter (·.header = h) = qs.filter (·.header = h))
    (hwords : ∀ p ∈ ps, p.DeclaresWord) (hone : HaveOneHome ps) (libName : Value) :
    Agree (ps.foldl receive (initial libName)) (qs.foldl receive (initial libName)) where
  libName := by rw [foldl_receive_libName, foldl_receive_libName]
  isFinalised := by rw [foldl_receive_isFinalised, foldl_receive_isFinalised]
  agreeAt h := agreeAt_foldl (hsame h) _
  home n := by
    have hwords' : ∀ q ∈ qs, q.DeclaresWord := fun q hq => hwords q (hperm.mem_iff.2 hq)
    have hnone : ∀ m ∈ (initial libName).decls.keys, m.isWord := nofun
    rw [home?_of_isWord (isWord_of_mem_keys_foldl hwords hnone),
      home?_of_isWord (isWord_of_mem_keys_foldl hwords' hnone), decls_foldl n hwords,
      decls_foldl n hwords', filterMap_home? hperm hone]

end State

/-- The calls of one list in another order, in which those for one header follow each other as before. -/
structure Reorders (libName : Value) (cs ds : List Call) : Prop where
  perm : cs.Perm ds
  filter_eq : ∀ h, cs.filter (·.header? libName = some h) = ds.filter (·.header? libName = some h)

theorem filter_filterMap_deposit? (libName : Value) (h : String) (cs : List Call) :
    (cs.filterMap (Call.deposit? libName)).filter (·.header = h) =
      (cs.filter (·.header? libName = some h)).filterMap (Call.deposit? libName) := by
  induction cs with
  | nil => rfl
  | cons c cs ih =>
    cases hp : c.deposit? libName with
    | none =>
      rw [List.filterMap_cons_none hp, ih, List.filter_cons]
      split
      · rw [List.filterMap_cons_none hp]
      · rfl
    | some p =>
      have hc := Call.header?_of_deposit? hp
      rw [List.filterMap_cons_some hp, List.filter_cons, List.filter_cons, hc, ih]
      simp only [Option.some.injEq]
      split
      · rw [List.filterMap_cons_some hp]
      · rfl

namespace Call

/-- Declarations are named by texts. -/
def HasTextName (c : Call) : Prop := ∀ d, c.item = .declaration d → d.name.isText

theorem declaresWord_of_deposit? {libName : Value} {c : Call} (hc : c.HasTextName) {p : Deposit}
    (hp : c.deposit? libName = some p) : p.DeclaresWord := by
  obtain ⟨d, h, hi, -, -, -, rfl⟩ := exists_of_deposit? hp
  intro text n hw
  obtain ⟨-, -, hn⟩ := Declaration.declares_of_deposit hw
  have hname := hc d hi
  cases hv : d.name with
  | text m =>
    rw [hv] at hn
    obtain rfl := Option.some.inj hn
    rfl
  | _ =>
    rw [hv] at hname
    cases hname

end Call

namespace State

variable {s : State}

/-- The declarations that a run has emitted declare no type into two different headers. -/
def OneHomeEach (es : List (String × Declaration)) : Prop :=
  ∀ e ∈ es, ∀ f ∈ es, e.2.declaresType → f.2.declaresType → e.2.name = f.2.name → e.1 = f.1

theorem emittedBy_of_deposit {c : Call} {d : Declaration} {h text : String} {n : Symbol}
    (hi : c.item = .declaration d) (hs : d.skip? = .ok none) (hc : d.check = .ok ())
    (hm : Header.ofModule s.libName c.module = .ok h)
    (hw : (d.deposit h).written = some (text, some n)) : s.emittedBy c = [(h, d)] := by
  obtain ⟨hr, ht, hn⟩ := Declaration.declares_of_deposit hw
  have hresult : (s.emitItem c.module c.item).2 = .ok (.emitted h) := by
    rw [hi, emitItem, emit_eq_write hs hc hm, write]
    dsimp only
    rw [hr]
    dsimp only
    rw [if_pos ht, hn]
  rw [emittedBy, hresult, hi]

theorem exists_emitted_of_home? {cs : List Call} {p : Deposit}
    (hp : p ∈ cs.filterMap (Call.deposit? s.libName)) {n : Symbol} {h : String}
    (hh : p.home? n = some h) :
    ∃ d, (h, d) ∈ s.emitted cs ∧ d.declaresType ∧ Symbol.ofValue? d.name = some n := by
  induction cs generalizing s with
  | nil => cases hp
  | cons c cs ih =>
    obtain ⟨b, hb, hpb⟩ := List.mem_filterMap.1 hp
    rcases List.mem_cons.1 hb with rfl | hb
    · obtain ⟨d, k, hi, hs, hc, hm, rfl⟩ := Call.exists_of_deposit? hpb
      unfold Deposit.home? at hh
      split at hh
      · next text m hw =>
        obtain ⟨rfl, hk⟩ := Option.ite_none_right_eq_some.1 hh
        obtain rfl := Option.some.inj hk
        obtain ⟨-, ht, hn⟩ := Declaration.declares_of_deposit hw
        refine ⟨d, List.mem_append_left _ ?_, ht, hn⟩
        rw [emittedBy_of_deposit hi hs hc hm hw]
        exact List.mem_cons_self
      · cases hh
    · have hlib := (emitItem_extends s c.module c.item).libName
      obtain ⟨d, hd, ht, hn⟩ := ih (s := (s.emitItem c.module c.item).1)
        (List.mem_filterMap.2 ⟨b, hb, hlib ▸ hpb⟩)
      exact ⟨d, List.mem_append_right _ hd, ht, hn⟩

/-- Calls for different headers can change places: the run ends in the same files in the same order of
includes, or in the same failure, as long as no type is declared into two headers. -/
theorem finalise_run_of_reorders (libName customCode : String) {cs ds : List Call}
    (hnames : ∀ c ∈ cs, c.HasTextName) (horder : Reorders (.text libName) cs ds)
    (hhomes : OneHomeEach ((initial (.text libName)).emitted cs)) :
    (((initial (.text libName)).run cs).finalise customCode).2 =
      (((initial (.text libName)).run ds).finalise customCode).2 := by
  rw [run_eq_foldl, run_eq_foldl]
  refine Agree.finalise (agree_foldl (horder.perm.filterMap _) (fun h => ?_) ?_ ?_ _) customCode
  · rw [filter_filterMap_deposit?, filter_filterMap_deposit?]
    exact congrArg _ (horder.filter_eq h)
  · intro p hp
    obtain ⟨c, hc, hcp⟩ := List.mem_filterMap.1 hp
    exact Call.declaresWord_of_deposit? (hnames c hc) hcp
  · intro n p hp q hq h k hh hk
    obtain ⟨d, hd, hdt, hdn⟩ := exists_emitted_of_home? hp hh
    obtain ⟨e, he, het, hen⟩ := exists_emitted_of_home? hq hk
    have hname : d.name = e.name := by
      rw [← Symbol.toValue_of_ofValue? hdn, Symbol.toValue_of_ofValue? hen]
    exact hhomes (h, d) hd (k, e) he hdt het hname

def visitCall : Call where
  module := [.text "ffi", .text "a"]
  item := .declaration ⟨.text "visit", [.word (.text "no_mangle")], [], true, none,
    .function (.text "C") [.mk (.text "start") (.pointer false (.named "Node"))] none⟩

def nodeCall : Call where
  module := [.text "ffi", .text "z"]
  item := .declaration ⟨.text "Node", [.list (.text "repr") [.word (.text "C")]], [], true, none,
    .struct (.text "named") [⟨.text "id", .named "Id", [], none⟩]⟩

def idCall : Call where
  module := [.text "ffi", .text "b"]
  item := .declaration ⟨.text "Id", [], [], true, none, .typeAlias (.named "u32")⟩

/-- An alias that C cannot express. -/
def pairCall : Call where
  module := [.text "ffi", .text "z"]
  item := .declaration ⟨.text "Pair", [], [], true, none,
    .typeAlias (.tuple [.named "Id", .named "Id"])⟩

theorem reorders_visit_node :
    Reorders (.text "lib") [visitCall, nodeCall, idCall, pairCall]
      [nodeCall, visitCall, pairCall, idCall] where
  perm := (List.Perm.swap nodeCall visitCall _).trans
    (((List.Perm.swap pairCall idCall []).cons visitCall).cons nodeCall)
  filter_eq h := by
    have hvisit : visitCall.header? (.text "lib") = some "lib/a.h" := rfl
    have hnode : nodeCall.header? (.text "lib") = some "lib/z.h" := rfl
    have hid : idCall.header? (.text "lib") = some "lib/b.h" := rfl
    have hpair : pairCall.header? (.text "lib") = some "lib/z.h" := rfl
    simp only [List.filter_cons, hvisit, hnode, hid, hpair, Option.some.injEq, decide_eq_true_eq]
    by_cases hz : "lib/z.h" = h
    · have ha : ¬"lib/a.h" = h := fun ha => absurd (ha.trans hz.symm) (by decide)
      have hb : ¬"lib/b.h" = h := fun hb => absurd (hb.trans hz.symm) (by decide)
      simp only [if_pos hz, if_neg ha, if_neg hb]
    · simp only [if_neg hz]

theorem finalise_run_of_reorders_visit_node :
    (((initial (.text "lib")).run [visitCall, nodeCall, idCall, pairCall]).finalise "").2 =
      (((initial (.text "lib")).run [nodeCall, visitCall, pairCall, idCall]).finalise "").2 := by
  refine finalise_run_of_reorders "lib" "" ?_ reorders_visit_node ?_
  · simp only [List.forall_mem_cons]
    refine ⟨?_, ?_, ?_, ?_, nofun⟩
    all_goals
      intro d hd
      cases hd
      rfl
  · have hemitted : ((initial (.text "lib")).emitted [visitCall, nodeCall, idCall, pairCall]).map
        (fun e => (e.1, e.2.name)) =
          [("lib/a.h", .text "visit"), ("lib/z.h", .text "Node"), ("lib/b.h", .text "Id")] := rfl
    have hnames : ∀ a ∈ [("lib/a.h", Value.text "visit"), ("lib/z.h", .text "Node"),
        ("lib/b.h", .text "Id")], ∀ b ∈ [("lib/a.h", Value.text "visit"),
          ("lib/z.h", .text "Node"), ("lib/b.h", .text "Id")], a.2 = b.2 → a.1 = b.1 := by
      simp
    intro e he f hf _ _ hname
    have he' := List.mem_map_of_mem (f := fun e => (e.1, e.2.name)) he
    have hf' := List.mem_map_of_mem (f := fun e => (e.1, e.2.name)) hf
    rw [hemitted] at he' hf'
    exact hnames _ he' _ hf' hname

end State

end FfiHeaders
