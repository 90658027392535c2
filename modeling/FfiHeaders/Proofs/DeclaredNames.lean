import FfiHeaders.Proofs.Finalisation
import FfiHeaders.Proofs.Run
import Mathlib.Data.List.Nodup
import Mathlib.Data.List.Pairwise

/-!
# The names that a run declares

Typedefs, functions and the constants of enums have one space of names in C. The name of a constant
joins two names with an underscore, and other names may be joined to the same one.
-/
namespace FfiHeaders

/-- The name of an enum's constant. -/
def Variant.constant (enum : Value) (v : Variant) : String := enum.plain ++ "_" ++ v.name.plain

theorem Variant.constant_infix_render (enum : Value) (v : Variant) :
    (indent ++ v.constant enum).toList <:+: (v.render enum).toList := by
  refine ⟨(Attribute.docs indent v.attrs).toList,
    ((v.discriminant.map (" = " ++ ·)).getD "" ++ ",\n").toList, ?_⟩
  simp only [render, constant, ← String.toList_append, String.append_assoc]

section Join

variable {a b v w : String}

theorem join_eq_of_split {x : String} (hb : b = a ++ "_" ++ x) (hv : v = x ++ "_" ++ w) :
    b ++ "_" ++ w = a ++ "_" ++ v := by
  rw [hb, hv]
  simp only [String.append_assoc]

/-- A joined name that can be split in two ways: one of the first parts extends the other one. -/
theorem exists_of_join_eq (h : a ++ "_" ++ v = b ++ "_" ++ w) (hab : a ≠ b) :
    (∃ x, b = a ++ "_" ++ x ∧ v = x ++ "_" ++ w) ∨
      ∃ x, a = b ++ "_" ++ x ∧ w = x ++ "_" ++ v := by
  have hlists : a.toList ++ '_' :: v.toList = b.toList ++ '_' :: w.toList := by
    simpa [String.toList_append] using congrArg String.toList h
  rcases List.append_eq_append_iff.1 hlists with ⟨_ | ⟨c, x⟩, hb, hv⟩ | ⟨_ | ⟨c, x⟩, ha, hw⟩
  · exact absurd (String.toList_inj.1 (by simpa using hb)).symm hab
  · obtain ⟨rfl, hv⟩ := List.cons.inj hv
    exact Or.inl ⟨.ofList x, String.toList_inj.1 (by simpa [String.toList_append] using hb),
      String.toList_inj.1 (by simpa [String.toList_append] using hv)⟩
  · exact absurd (String.toList_inj.1 (by simpa using ha)) hab
  · obtain ⟨rfl, hw⟩ := List.cons.inj hw
    exact Or.inr ⟨.ofList x, String.toList_inj.1 (by simpa [String.toList_append] using ha),
      String.toList_inj.1 (by simpa [String.toList_append] using hw)⟩

theorem ne_join (a v : String) : a ≠ a ++ "_" ++ v := by
  intro h
  have hlength := congrArg String.length h
  rw [String.length_append, String.length_append] at hlength
  change a.length = a.length + 1 + v.length at hlength
  omega

theorem join_right_inj (h : a ++ "_" ++ v = a ++ "_" ++ w) : v = w :=
  (String.append_right_inj _).1 h

end Join

namespace Declaration

def variants (d : Declaration) : List Variant :=
  match d.body with
  | .enum vs => vs
  | _ => []

/-- The ordinary identifiers of a declaration: its name and those of its constants. -/
def identifiers (d : Declaration) : List String :=
  d.name.plain :: d.variants.map (Variant.constant d.name)

/-- Each constant stands at the start of a line of the declaration. -/
theorem constant_infix_render {d : Declaration} {text : String} (hr : d.render.result = .ok text)
    {v : Variant} (hv : v ∈ d.variants) :
    (indent ++ v.constant d.name).toList <:+: text.toList := by
  cases hb : d.body with
  | enum vs =>
    have hlines : (v.render d.name).toList <:+:
        (String.join (vs.map (Variant.render d.name))).toList := by
      rw [variants, hb] at hv
      rw [String.toList_join]
      exact List.infix_of_mem_flatten (List.mem_map_of_mem (List.mem_map_of_mem hv))
    rw [render, hb] at hr
    obtain rfl := Except.ok.inj hr
    refine ((Variant.constant_infix_render d.name v).trans hlines).trans
      ⟨(Attribute.docs "" d.attrs ++ "typedef enum " ++ d.name.plain ++ " \x7b\n").toList,
        ("\x7d " ++ d.name.plain ++ ";\n\n").toList, ?_⟩
    simp only [String.toList_append, List.append_assoc]
  | typeAlias | struct | function => rw [variants, hb] at hv; cases hv

/-- No constant of an enum is called like a declaration or like a constant of another enum. -/
structure AreUnambiguous (ds : List Declaration) : Prop where
  constant_ne : ∀ d ∈ ds, ∀ v ∈ d.variants, ∀ e ∈ ds,
    e.name.plain ≠ d.name.plain ++ "_" ++ v.name.plain
  variant_ne : ∀ d ∈ ds, ∀ e ∈ ds, ∀ x, e.name.plain = d.name.plain ++ "_" ++ x →
    ∀ v ∈ d.variants, ∀ w ∈ e.variants, v.name.plain ≠ x ++ "_" ++ w.name.plain

variable {ds : List Declaration} {d e : Declaration}

theorem nodup_identifiers (hv : (d.variants.map (·.name.plain)).Nodup) : d.identifiers.Nodup := by
  have hconstants : d.variants.map (Variant.constant d.name) =
      (d.variants.map (·.name.plain)).map (d.name.plain ++ "_" ++ ·) := by
    rw [List.map_map]
    rfl
  rw [identifiers, hconstants, List.nodup_cons]
  refine ⟨fun hn => ?_, hv.map fun _ _ => join_right_inj⟩
  obtain ⟨v, -, hv⟩ := List.mem_map.1 hn
  exact ne_join _ v hv.symm

theorem AreUnambiguous.disjoint (h : AreUnambiguous ds) (hd : d ∈ ds) (he : e ∈ ds)
    (hne : d.name.plain ≠ e.name.plain) : d.identifiers.Disjoint e.identifiers := by
  intro c hcd hce
  rcases List.mem_cons.1 hcd with rfl | hcd <;> rcases List.mem_cons.1 hce with hc | hce
  · exact hne hc
  · obtain ⟨w, hw, hc⟩ := List.mem_map.1 hce
    exact h.constant_ne e he w hw d hd hc.symm
  · obtain ⟨v, hv, rfl⟩ := List.mem_map.1 hcd
    exact h.constant_ne d hd v hv e he hc.symm
  · obtain ⟨v, hv, rfl⟩ := List.mem_map.1 hcd
    obtain ⟨w, hw, hc⟩ := List.mem_map.1 hce
    rcases exists_of_join_eq hc.symm hne with ⟨x, hx, hvw⟩ | ⟨x, hx, hwv⟩
    · exact h.variant_ne d hd e he x hx v hv w hw hvw
    · exact h.variant_ne e he d hd x hx w hw v hv hwv

theorem nodup_identifiers_iff (hn : (ds.map (·.name.plain)).Nodup)
    (hv : ∀ d ∈ ds, (d.variants.map (·.name.plain)).Nodup) :
    (ds.flatMap identifiers).Nodup ↔ AreUnambiguous ds := by
  rw [List.nodup_flatMap]
  constructor
  · rintro ⟨-, hdisjoint⟩
    have : Std.Symm (Function.onFun List.Disjoint identifiers) :=
      ⟨fun _ _ h _ hb ha => h ha hb⟩
    have happart {d e : Declaration} (hd : d ∈ ds) (he : e ∈ ds)
        (hne : d.name.plain ≠ e.name.plain) : d.identifiers.Disjoint e.identifiers :=
      hdisjoint.forall hd he fun h => hne (h ▸ rfl)
    constructor
    · intro d hd v hvd e he h
      have hconstant : e.name.plain ∈ d.identifiers :=
        h ▸ List.mem_cons_of_mem _ (List.mem_map_of_mem hvd)
      exact happart hd he (h ▸ ne_join _ _) hconstant List.mem_cons_self
    · intro d hd e he x hx v hvd w hwe hvw
      refine happart hd he (hx ▸ ne_join _ _)
        (List.mem_cons_of_mem _ (List.mem_map_of_mem hvd)) (List.mem_cons_of_mem _ ?_)
      exact List.mem_map.2 ⟨w, hwe, join_eq_of_split hx hvw⟩
  · intro h
    refine ⟨fun d hd => nodup_identifiers (hv d hd), ?_⟩
    exact (List.pairwise_map.1 hn).imp_of_mem fun hd he hne => h.disjoint hd he hne

end Declaration

namespace State

/-- What a run emits stands in its header to the end. -/
theorem exists_text_of_emitted {s : State} {cs : List Call} {e : String × Declaration}
    (he : e ∈ s.emitted cs) :
    ∃ text, e.2.render.result = .ok text ∧ text.toList <:+: ((s.run cs).output e.1).toList := by
  induction cs generalizing s with
  | nil => cases he
  | cons c cs ih =>
    rcases List.mem_append.1 he with he | he
    · obtain ⟨text, hr, -, -, hout, -⟩ := (mem_emittedBy he).2.emitted
      obtain ⟨after, hafter⟩ := (run_extends (s.emitItem c.module c.item).1 cs).output e.1
      refine ⟨text, hr, (s.output e.1).toList, after.toList, ?_⟩
      rw [run, hafter, hout, append_output, if_pos rfl, String.toList_append, String.toList_append]
    · exact ih he

/-- If declarations of distinct names are emitted, and the variants of each enum have distinct names,
the identifiers that stand in the output are distinct exactly if no constant is called like a
declaration or like a constant of another enum. -/
theorem nodup_identifiers_of_run {s : State} {cs : List Call}
    (hn : ((s.emitted cs).map (·.2.name.plain)).Nodup)
    (hv : ∀ e ∈ s.emitted cs, (e.2.variants.map (·.name.plain)).Nodup) :
    (∀ e ∈ s.emitted cs, ∃ text, e.2.render.result = .ok text ∧
        text.toList <:+: ((s.run cs).output e.1).toList ∧
        ∀ v ∈ e.2.variants, (indent ++ v.constant e.2.name).toList <:+: text.toList) ∧
      (((s.emitted cs).flatMap (·.2.identifiers)).Nodup ↔
        Declaration.AreUnambiguous ((s.emitted cs).map (·.2))) := by
  constructor
  · intro e he
    obtain ⟨text, hr, htext⟩ := exists_text_of_emitted he
    exact ⟨text, hr, htext, fun v => Declaration.constant_infix_render hr⟩
  rw [← Declaration.nodup_identifiers_iff, List.flatMap_map]
  · rwa [List.map_map]
  · intro d hd
    obtain ⟨e, he, rfl⟩ := List.mem_map.1 hd
    exact hv e he

/-- An enum whose constants have the given names after its own. -/
def unitEnum (name : String) (variants : List String) : Declaration :=
  ⟨.text name, [.list (.text "repr") [.word (.text "C")]], [], true, none,
    .enum (variants.map fun v => ⟨.text v, [], [], none, none⟩)⟩

/-- The calls that emit enums of the root module. -/
def enumCalls (enums : List (String × List String)) : List Call :=
  enums.map fun e => ⟨[.text "ffi"], .declaration (unitEnum e.1 e.2)⟩

/-- Two enums of distinct names, each with one variant, that both have the constant `A_B_C`. -/
def joinedCalls : List Call := enumCalls [("A", ["B_C"]), ("A_B", ["C"])]

/-- Distinct names of declarations and variants are not enough. -/
theorem not_nodup_identifiers_joinedCalls :
    (((initial (.text "lib")).emitted joinedCalls).map (·.2.name.plain)).Nodup ∧
      (∀ e ∈ (initial (.text "lib")).emitted joinedCalls,
        (e.2.variants.map (·.name.plain)).Nodup) ∧
      (∃ b, (((initial (.text "lib")).run joinedCalls).finalise "").2 = .ok b) ∧
      ((initial (.text "lib")).run joinedCalls).output "lib/lib.h" =
        "typedef enum A \x7b\n\tA_B_C,\n\x7d A;\n\ntypedef enum A_B \x7b\n\tA_B_C,\n\x7d A_B;\n\n" ∧
      ¬(((initial (.text "lib")).emitted joinedCalls).flatMap (·.2.identifiers)).Nodup := by
  have hfinishes : ((initial (.text "lib")).run joinedCalls).Finishes ""
      ⟨["lib/lib.h"], ((initial (.text "lib")).run joinedCalls).files "" ["lib/lib.h"]⟩ :=
    finishes_of_single rfl rfl rfl (by decide) (by decide)
  exact ⟨by decide, by decide, ⟨_, finalise_eq_ok.2 hfinishes⟩, by decide, by decide⟩

/-- Two enums of which one is called like a constant of the other one could be. -/
def apartCalls : List Call := enumCalls [("Shape", ["Round", "Flat"]), ("Shape_Kind", ["Solid"])]

theorem nodup_identifiers_of_run_apartCalls :
    (((initial (.text "lib")).emitted apartCalls).map (·.2.name.plain)).Nodup ∧
      (∀ e ∈ (initial (.text "lib")).emitted apartCalls,
        (e.2.variants.map (·.name.plain)).Nodup) ∧
      (((initial (.text "lib")).emitted apartCalls).flatMap (·.2.identifiers)).Nodup := by
  have hn : (((initial (.text "lib")).emitted apartCalls).map (·.2.name.plain)).Nodup := by decide
  have hv : ∀ e ∈ (initial (.text "lib")).emitted apartCalls,
      (e.2.variants.map (·.name.plain)).Nodup := by decide
  refine ⟨hn, hv, (nodup_identifiers_of_run hn hv).2.2 ⟨by decide, ?_⟩⟩
  intro d hd e he x hx v hvd w hwe hvw
  have hsame : ∀ d ∈ ((initial (.text "lib")).emitted apartCalls).map (·.2),
      ∀ e ∈ ((initial (.text "lib")).emitted apartCalls).map (·.2), ∀ v ∈ d.variants,
        ∀ w ∈ e.variants, e.name.plain ++ "_" ++ w.name.plain = d.name.plain ++ "_" ++ v.name.plain →
          d.name.plain = e.name.plain := by decide
  exact ne_join _ _ ((hsame d hd e he v hvd w hwe (join_eq_of_split hx hvw)).trans hx)

end State

end FfiHeaders
