import FfiHeaders.Proofs.AggregateHeader
import FfiHeaders.Proofs.LeastOrder

/-!
# The order in which declarations are read

A compiler that reads the aggregate header meets the headers in the order of their includes, and in each
header the declarations in the order in which they were emitted. So a type is met before a declaration
of another header that mentions it, but in one header it is up to the source which of the two comes
first.
-/
namespace FfiHeaders

/-- A declaration that a run has emitted, with its header and its place among all emissions. -/
structure Entry where
  header : String
  declaration : Declaration
  place : Nat

namespace Entry

/-- The entry introduces the type name `n`. -/
def Declares (e : Entry) (n : String) : Prop :=
  e.declaration.declaresType ∧ e.declaration.name = .text n

/-- Headers are read in the given order, and a header from its start to its end. -/
def Precedes (order : List String) (e f : Entry) : Prop :=
  order.idxOf e.header < order.idxOf f.header ∨ e.header = f.header ∧ e.place < f.place

theorem Precedes.asymm {order : List String} {e f : Entry} (h : Precedes order e f) :
    ¬Precedes order f e := by
  rintro (h' | ⟨hh', hp'⟩)
  · rcases h with h | ⟨hh, -⟩
    · omega
    · rw [hh] at h'
      exact lt_irrefl _ h'
  · rcases h with h | ⟨-, hp⟩
    · rw [hh'] at h
      exact lt_irrefl _ h
    · omega

end Entry

def entries (es : List (String × Declaration)) : List Entry :=
  es.zipIdx.map fun e => ⟨e.1.1, e.1.2, e.2⟩

/-- The entries as they are read when the headers are included in the given order. -/
def reading (order : List String) (es : List (String × Declaration)) : List Entry :=
  order.flatMap fun h => (entries es).filter (·.header = h)

section Reading

variable {order : List String} {es : List (String × Declaration)} {e f : Entry}

theorem mem_of_mem_entries (h : e ∈ entries es) : (e.header, e.declaration) ∈ es := by
  obtain ⟨x, hx, rfl⟩ := List.mem_map.1 h
  exact List.fst_mem_of_mem_zipIdx hx

theorem pairwise_entries : (entries es).Pairwise fun e f => e.place < f.place := by
  refine List.pairwise_map.2 (List.Pairwise.of_map Prod.snd (fun _ _ h => h) ?_)
  rw [List.zipIdx_map_snd]
  exact List.pairwise_lt_range' 1

theorem nodup_entries : (entries es).Nodup := by
  refine pairwise_entries.imp fun hplace he => ?_
  rw [he] at hplace
  exact lt_irrefl _ hplace

theorem mem_reading : e ∈ reading order es ↔ e.header ∈ order ∧ e ∈ entries es := by
  simp only [reading, List.mem_flatMap, List.mem_filter, decide_eq_true_eq]
  constructor
  · rintro ⟨h, hh, he, rfl⟩
    exact ⟨hh, he⟩
  · exact fun ⟨hh, he⟩ => ⟨e.header, hh, he, rfl⟩

theorem pairwise_reading (ho : order.Nodup) : (reading order es).Pairwise (Entry.Precedes order) := by
  refine List.pairwise_flatMap.2 ⟨fun h _ => ?_, ?_⟩
  · refine (pairwise_entries.filter _).imp_of_mem fun he hf hplace => Or.inr ⟨?_, hplace⟩
    rw [of_decide_eq_true (List.mem_filter.1 he).2, of_decide_eq_true (List.mem_filter.1 hf).2]
  · refine List.pairwise_iff_forall_sublist.2 fun {h k} hhk e he f hf => Or.inl ?_
    rw [of_decide_eq_true (List.mem_filter.1 he).2, of_decide_eq_true (List.mem_filter.1 hf).2]
    exact IncludeGraph.idxOf_lt_of_sublist ho hhk

/-- What is read are the emissions, each once. -/
theorem perm_reading (ho : order.Nodup) (hes : ∀ e ∈ es, e.1 ∈ order) :
    (reading order es).Perm (entries es) := by
  have hnodup : (reading order es).Nodup := by
    refine (pairwise_reading ho).imp fun h he => ?_
    rw [he] at h
    exact h.asymm h
  refine (List.perm_ext_iff_of_nodup hnodup nodup_entries).2 fun e => ?_
  rw [mem_reading, and_iff_right_of_imp]
  exact fun he => hes _ (mem_of_mem_entries he)

theorem sublist_or_sublist {α : Type} {xs : List α} {x y : α} (hx : x ∈ xs) (hy : y ∈ xs)
    (hne : x ≠ y) : [x, y].Sublist xs ∨ [y, x].Sublist xs := by
  obtain ⟨us, vs, rfl⟩ := List.append_of_mem hx
  rcases List.mem_append.1 hy with hy | hy
  · exact Or.inr ((List.singleton_sublist.2 hy).append
      (List.singleton_sublist.2 List.mem_cons_self))
  · have hy := (List.mem_cons.1 hy).resolve_left hne.symm
    exact Or.inl (((List.singleton_sublist.2 hy).cons_cons x).trans (List.sublist_append_right us _))

theorem sublist_reading_iff_precedes (ho : order.Nodup) (he : e ∈ reading order es)
    (hf : f ∈ reading order es) : [e, f].Sublist (reading order es) ↔ e.Precedes order f := by
  have hread : ∀ {e f}, [e, f].Sublist (reading order es) → e.Precedes order f :=
    List.pairwise_iff_forall_sublist.1 (pairwise_reading ho)
  refine ⟨hread, fun h => ?_⟩
  have hne : e ≠ f := by
    rintro rfl
    exact h.asymm h
  exact (sublist_or_sublist he hf hne).resolve_right fun h' => h.asymm (hread h')

end Reading

/-! ### Homes of types -/

theorem Symbol.eq_word_of_spelledIn {known : List Symbol} {m : Symbol} {n : String}
    (h : m.spelledIn known = .word n) : m = .word n := by
  unfold spelledIn at h
  cases hf : known.find? (same m) with
  | none =>
    rw [hf] at h
    exact h
  | some t =>
    rw [hf] at h
    obtain rfl : t = .word n := h
    have hsame := List.find?_some hf
    rw [same_comm] at hsame
    exact (same_word_left.1 hsame).symm

namespace State

variable {s t : State} {n : String}

theorem get?_declare_word (s : State) (m : Symbol) (h n : String) :
    (s.declare m h).decls.get? (.word n) =
      if m = .word n then some h else s.decls.get? (.word n) := by
  rw [declare, Table.get?_set]
  by_cases hm : m = .word n
  · subst hm
    simp
  · rw [if_neg hm, if_neg fun h => hm (Symbol.eq_word_of_spelledIn h)]

theorem Emission.home_of_emitted {module : List Value} {d : Declaration} {h : String}
    (he : Emission s module d (t, .ok (.emitted h))) (ht : d.declaresType) (hn : d.name = .text n) :
    t.decls.get? (.word n) = some h := by
  cases he with
  | function _ text _ _ _ _ hfun =>
    rw [hfun] at ht
    cases ht
  | type _ text m _ _ _ _ _ hm =>
    rw [hn] at hm
    obtain rfl := Option.some.inj hm
    rw [get?_declare_word, if_pos rfl]

/-- An emission moves the home of no type but the one that it declares. -/
theorem Emission.home_of_not_declared {module : List Value} {d : Declaration}
    {r : State × Except Failure Outcome} (he : Emission s module d r)
    (hn : ∀ h, r.2 = .ok (.emitted h) → d.declaresType → d.name ≠ .text n) :
    r.1.decls.get? (.word n) = s.decls.get? (.word n) := by
  have hadd : ∀ h, (s.addMentions h d.render.mentions).decls.get? (.word n) =
      s.decls.get? (.word n) := by
    intro h
    rw [addMentions_decls]
  cases he with
  | skipped | unread | unfit | homeless => rfl
  | unwritten h | nameless h | function h => exact hadd h
  | type h text m _ _ _ _ ht hm =>
    rw [get?_declare_word, if_neg]
    · exact hadd h
    · rintro rfl
      exact hn h rfl ht (TypeExpr.ofValue?_eq_word.1 hm)

theorem home_run_of_not_declared {cs : List Call}
    (hn : ∀ e ∈ s.emitted cs, e.2.declaresType → e.2.name ≠ .text n) :
    (s.run cs).decls.get? (.word n) = s.decls.get? (.word n) := by
  induction cs generalizing s with
  | nil => rfl
  | cons c cs ih =>
    obtain ⟨hc, hcs⟩ := List.forall_mem_append.1 hn
    refine (ih hcs).trans ?_
    obtain ⟨module, item⟩ := c
    cases item with
    | module name items => rfl
    | declaration d =>
      refine (emission_emit s module d).home_of_not_declared fun h hr => hc (h, d) ?_
      rw [emittedBy, emitItem, hr]
      exact List.mem_singleton.2 rfl

/-- The types that a run has declared have names of their own. -/
def HasDistinctTypes (es : List (String × Declaration)) : Prop :=
  ((es.filter (·.2.declaresType)).map (·.2.name)).Nodup

theorem home_run_of_emitted {cs : List Call} (hd : HasDistinctTypes (s.emitted cs))
    {e : String × Declaration} (he : e ∈ s.emitted cs) (ht : e.2.declaresType)
    (hn : e.2.name = .text n) : (s.run cs).decls.get? (.word n) = some e.1 := by
  induction cs generalizing s with
  | nil => cases he
  | cons c cs ih =>
    rw [HasDistinctTypes, emitted, List.filter_append, List.map_append, List.nodup_append] at hd
    obtain ⟨-, hrest, hdisjoint⟩ := hd
    rcases List.mem_append.1 he with he | he
    · -- what is emitted later has other names, so it leaves the home as it is now
      rw [run, home_run_of_not_declared]
      · exact (mem_emittedBy he).2.home_of_emitted ht hn
      · intro f hf hft hfn
        refine hdisjoint e.2.name ?_ f.2.name ?_ (hn.trans hfn.symm)
        · exact List.mem_map.2 ⟨e, List.mem_filter.2 ⟨he, ht⟩, rfl⟩
        · exact List.mem_map.2 ⟨f, List.mem_filter.2 ⟨hf, hft⟩, rfl⟩
    · exact ih hrest he

/-- A type that a run has declared is read before a declaration that mentions it exactly if the two are
in different headers or the type was emitted first. -/
theorem reads_type_first_iff (libName customCode : String) (calls : List Call) {b : Bundle}
    (h : (((initial (.text libName)).run calls).finalise customCode).2 = .ok b)
    (hd : HasDistinctTypes ((initial (.text libName)).emitted calls)) :
    (reading b.order ((initial (.text libName)).emitted calls)).Perm
        (entries ((initial (.text libName)).emitted calls)) ∧
      ∀ e ∈ entries ((initial (.text libName)).emitted calls),
        ∀ f ∈ entries ((initial (.text libName)).emitted calls),
          ∀ n ∈ e.declaration.userTypes, f.Declares n →
            ([f, e].Sublist (reading b.order ((initial (.text libName)).emitted calls)) ↔
              f.header ≠ e.header ∨ f.place < e.place) := by
  have hhomes := run_homesHaveOutput (homesHaveOutput_initial (.text libName)) calls
  obtain ⟨hnodup, hmem, hbefore⟩ :=
    (finalise_eq_ok.1 h).order_of_homes fun n k hk => hhomes _ k hk
  have hheader : ∀ e ∈ (initial (.text libName)).emitted calls, e.1 ∈ b.order :=
    fun e he => (hmem e.1).2 (mentioned_run_of_emitted he).1
  have hperm := perm_reading hnodup hheader
  refine ⟨hperm, fun e he f hf n hn hfn => ?_⟩
  rw [sublist_reading_iff_precedes hnodup (hperm.mem_iff.2 hf) (hperm.mem_iff.2 he)]
  by_cases hfe : f.header = e.header
  · rw [Entry.Precedes, hfe]
    simp
  · -- in two headers it is an edge of the include graph that puts the type first
    refine iff_of_true (Or.inl (IncludeGraph.idxOf_lt_of_sublist hnodup ?_)) (Or.inl hfe)
    obtain ⟨hout, hment⟩ := mentioned_run_of_emitted (mem_of_mem_entries he)
    refine hbefore e.header (.word n) f.header hout (hment n hn) ?_ hfe
    rw [home?_word]
    exact home_run_of_emitted hd (mem_of_mem_entries hf) hfn.1 hfn.2

/-- A struct that is emitted before the type of its field, and a function of another module, emitted
before both, that points to the struct. -/
def forwardCalls : List Call :=
  [⟨[.text "ffi", .text "a"], .declaration
      ⟨.text "show", [.word (.text "no_mangle")], [], true, none,
        .function (.text "C") [.mk (.text "o") (.pointer false (.named "Outer"))] none⟩⟩,
    ⟨[.text "ffi"], .declaration
      ⟨.text "Outer", [.list (.text "repr") [.word (.text "C")]], [], true, none,
        .struct (.text "named") [⟨.text "inner", .named "Inner", [], none⟩]⟩⟩,
    ⟨[.text "ffi"], .declaration
      ⟨.text "Inner", [.list (.text "repr") [.word (.text "C")]], [], true, none,
        .struct (.text "named") [⟨.text "value", .named "i32", [], none⟩]⟩⟩]

/-- The state after the calls of `forwardCalls`. -/
def forwardState : State where
  libName := .text "lib"
  decls := ⟨[(.word "Outer", "lib/lib.h"), (.word "Inner", "lib/lib.h")], by decide⟩
  deps := ⟨[("lib/a.h", [.word "Outer"]), ("lib/lib.h", [.word "Inner"])], by decide⟩
  outputs :=
    ⟨[("lib/a.h", "void show(const Outer* o);\n\n"),
      ("lib/lib.h", "typedef struct Outer \x7b\n\tInner inner;\n\x7d Outer;\n\n" ++
        "typedef struct Inner \x7b\n\tint32_t value;\n\x7d Inner;\n\n")], by decide⟩
  isFinalised := false

theorem finalise_run_forwardCalls :
    ∃ b, (((initial (.text "lib")).run forwardCalls).finalise "").2 = .ok b ∧
      b.order = ["lib/lib.h", "lib/a.h"] := by
  have hrun : (initial (.text "lib")).run forwardCalls = forwardState := rfl
  have hkeys : sortTexts forwardState.outputs.keys = ["lib/a.h", "lib/lib.h"] :=
    List.mergeSort_of_pairwise (by decide)
  have hneedy : sortTexts (forwardState.deps.keys.filter fun h => forwardState.outputs.contains h) =
      ["lib/a.h", "lib/lib.h"] := List.mergeSort_of_pairwise (by decide)
  have hgraph : forwardState.includeGraph =
      .ok ⟨["lib/a.h", "lib/lib.h"], [("lib/lib.h", "lib/a.h")]⟩ := by
    rw [includeGraph, includeEdges, hneedy, hkeys]
    rfl
  have horder : IncludeGraph.order? ⟨["lib/a.h", "lib/lib.h"], [("lib/lib.h", "lib/a.h")]⟩ =
      some ["lib/lib.h", "lib/a.h"] := by
    decide +kernel
  have hfinishes : forwardState.Finishes ""
      ⟨["lib/lib.h", "lib/a.h"], forwardState.files "" ["lib/lib.h", "lib/a.h"]⟩ := by
    refine ⟨rfl, by decide, ?_, ⟨_, hgraph, ?_⟩, rfl⟩
    · rw [checkGuards, hkeys]
      rfl
    · rw [IncludeGraph.order, horder]
  rw [hrun]
  exact ⟨_, finalise_eq_ok.2 hfinishes, rfl⟩

theorem hasDistinctTypes_forwardCalls :
    HasDistinctTypes ((initial (.text "lib")).emitted forwardCalls) := by
  change [Value.text "Outer", .text "Inner"].Nodup
  simp

/-- In one header a type may be read only after a declaration that mentions it. -/
theorem exists_type_read_late :
    ∃ b, (((initial (.text "lib")).run forwardCalls).finalise "").2 = .ok b ∧
      HasDistinctTypes ((initial (.text "lib")).emitted forwardCalls) ∧
      ∃ e ∈ entries ((initial (.text "lib")).emitted forwardCalls),
        ∃ f ∈ entries ((initial (.text "lib")).emitted forwardCalls),
          "Inner" ∈ e.declaration.userTypes ∧ f.Declares "Inner" ∧
            ¬[f, e].Sublist (reading b.order ((initial (.text "lib")).emitted forwardCalls)) := by
  obtain ⟨b, hb, horder⟩ := finalise_run_forwardCalls
  refine ⟨b, hb, hasDistinctTypes_forwardCalls, _, List.mem_cons_of_mem _ List.mem_cons_self, _,
    List.mem_cons_of_mem _ (List.mem_cons_of_mem _ List.mem_cons_self), by decide, ⟨rfl, rfl⟩, ?_⟩
  intro h
  have hplaces := h.map Entry.place
  rw [horder] at hplaces
  change [2, 1].Sublist [1, 2, 0] at hplaces
  exact absurd hplaces (by decide)

theorem reads_type_first_iff_forwardCalls :
    ∃ b e f, (((initial (.text "lib")).run forwardCalls).finalise "").2 = .ok b ∧
      HasDistinctTypes ((initial (.text "lib")).emitted forwardCalls) ∧
      e.header = "lib/a.h" ∧ "Outer" ∈ e.declaration.userTypes ∧ f.Declares "Outer" ∧
      [f, e].Sublist (reading b.order ((initial (.text "lib")).emitted forwardCalls)) := by
  obtain ⟨b, hb, -⟩ := finalise_run_forwardCalls
  obtain ⟨-, hfirst⟩ :=
    reads_type_first_iff "lib" "" forwardCalls hb hasDistinctTypes_forwardCalls
  have hbefore := (hfirst _ List.mem_cons_self _ (List.mem_cons_of_mem _ List.mem_cons_self) "Outer"
    (by decide) ⟨rfl, rfl⟩).2 (Or.inl (by decide))
  exact ⟨b, _, _, hb, hasDistinctTypes_forwardCalls, rfl, by decide, ⟨rfl, rfl⟩, hbefore⟩

end State

end FfiHeaders
