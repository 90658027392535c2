import FfiHeaders.Files.Path
import FfiHeaders.Proofs.Composition
import FfiHeaders.Proofs.ModuleHeaders
import FfiHeaders.Proofs.SharedHeaders

/-!
# Where headers are placed

Header paths are texts. Where the names in them are like identifiers, no two of them lead to one
file, and none leads out of the directory from which it is taken.
-/
namespace FfiHeaders

namespace Files

/-- A name that leads to an entry of a directory. -/
structure IsEntryName (n : String) : Prop where
  ne_empty : n ≠ ""
  ne_here : n ≠ "."
  ne_above : n ≠ ".."
  slash_not_mem : '/' ∉ n.toList

/-- A name without dots and slashes, as every identifier is one. -/
structure IsPlainName (n : String) : Prop where
  ne_empty : n ≠ ""
  slash_not_mem : '/' ∉ n.toList
  dot_not_mem : '.' ∉ n.toList

variable {n : String}

theorem isPlainName_of_isIdentifier (h : isIdentifier n.toList) : IsPlainName n := by
  have hchars : ∀ c ∈ n.toList, isNameChar c := all_isNameChar_of_isIdentifier h
  refine ⟨?_, fun hm => absurd (hchars _ hm) (by decide), fun hm => absurd (hchars _ hm) (by decide)⟩
  rintro rfl
  cases h

namespace IsPlainName

variable (h : IsPlainName n)
include h

theorem isEntryName : IsEntryName n where
  ne_empty := h.ne_empty
  ne_here e := h.dot_not_mem (e ▸ by decide)
  ne_above e := h.dot_not_mem (e ▸ by decide)
  slash_not_mem := h.slash_not_mem

theorem isEntryName_header : IsEntryName (n ++ ".h") := by
  have hne {s : String} (hs : 'h' ∉ s.toList) : n ++ ".h" ≠ s := by
    rintro rfl
    exact hs (by rw [String.toList_append]; exact List.mem_append_right _ (by decide))
  refine ⟨hne (by decide), hne (by decide), hne (by decide), ?_⟩
  rw [String.toList_append, List.mem_append, not_or]
  exact ⟨h.slash_not_mem, by decide⟩

end IsPlainName

namespace Path

theorem anchorOf_cons {c : Char} {cs : List Char} (h : c ≠ '/') : anchorOf (c :: cs) = .here := by
  unfold anchorOf
  split <;> simp_all

/-- Names with slashes between them are the path through these names. -/
theorem ofText_intercalate {ns : List String} (hne : ns ≠ []) (hns : ∀ n ∈ ns, IsEntryName n) :
    ofText (String.intercalate "/" ns) = ⟨.here, ns⟩ := by
  have hlist : (String.intercalate "/" ns).toList = ['/'].intercalate (ns.map String.toList) :=
    String.toList_intercalate
  have hsplit := Header.splitOn_intercalate_slash hne fun n hn => (hns n hn).slash_not_mem
  have hnames : namesOf (String.intercalate "/" ns).toList = ns := by
    have hchars : (ns.map String.toList).map String.ofList = ns := by
      simp
    rw [namesOf, hsplit, hchars]
    exact List.filter_eq_self.2 fun n hn => decide_eq_true ⟨(hns n hn).ne_empty, (hns n hn).ne_here⟩
  have hanchor : anchorOf (String.intercalate "/" ns).toList = .here := by
    obtain ⟨n, ns, rfl⟩ := List.exists_cons_of_ne_nil hne
    have hn := hns n List.mem_cons_self
    cases hcs : n.toList with
    | nil => exact absurd (String.toList_eq_nil_iff.1 hcs) hn.ne_empty
    | cons c cs =>
      have hc : c ≠ '/' := fun h => hn.slash_not_mem (hcs ▸ h ▸ List.mem_cons_self)
      rw [hlist, List.map_cons, hcs]
      cases ns <;> exact anchorOf_cons hc
  rw [ofText, hnames, hanchor]

end Path

end Files

namespace Header

open Files

variable {libName : String} {ms : List String}

/-- The extension belongs to the last name. -/
theorem intercalate_append_extension (ns : List String) (n : String) :
    String.intercalate "/" (ns ++ [n]) ++ ".h" = String.intercalate "/" (ns ++ [n ++ ".h"]) := by
  cases ns with
  | nil => simp
  | cons m ns =>
    rw [String.intercalate_append_of_ne_nil (List.cons_ne_nil _ _) (List.cons_ne_nil _ _),
      String.intercalate_append_of_ne_nil (List.cons_ne_nil _ _) (List.cons_ne_nil _ _)]
    simp only [String.intercalate_singleton, String.append_assoc]

/-- The path of a header goes through entries of directories. -/
theorem exists_names_path (hne : ms ≠ []) (hlib : IsPlainName libName)
    (hms : ∀ n ∈ ms, IsPlainName n) :
    ∃ ns, ns ≠ [] ∧ (∀ n ∈ ns, IsEntryName n) ∧ path libName ms = String.intercalate "/" ns := by
  have hplain : ∀ n ∈ segments libName ms, IsPlainName n := by
    intro n hn
    rcases mem_of_mem_segments hn with rfl | hn
    · exact hlib
    · exact hms n hn
  have hsegments : segments libName ms ≠ [] := segments_ne_nil hne
  obtain ⟨ns, n, hs⟩ := (List.eq_nil_or_concat _).resolve_left hsegments
  rw [List.concat_eq_append] at hs
  rw [hs] at hplain
  refine ⟨ns ++ [n ++ ".h"], by simp, fun k hk => ?_, ?_⟩
  · rcases List.mem_append.1 hk with hk | hk
    · exact (hplain k (List.mem_append_left _ hk)).isEntryName
    · obtain rfl := List.mem_singleton.1 hk
      exact (hplain n (by simp)).isEntryName_header
  · rw [path, hs, intercalate_append_extension]

end Header

namespace Module

/-- A declaration stands in some module, at least in that at the root. -/
theorem ne_nil_of_mem_exports {m : Module} {e : List Value × Declaration} (h : e ∈ m.exports) :
    e.1 ≠ [] := by
  have he := (List.mem_filter.1 h).1
  rw [declarationsOf_eq_map] at he
  obtain ⟨f, -, rfl⟩ := List.mem_map.1 he
  exact List.cons_ne_nil _ _

end Module

namespace Writer

open Files

variable {libName customCode : String} {m : Module} {files : List (String × String)}

/-- Each file is the aggregate header or the header of an exported declaration's module. -/
theorem paths_of_compile (h : ((new (.text libName) customCode).compile m true).result = .ok files) :
    (files.map (·.1)).Nodup ∧ ∀ k ∈ files.map (·.1),
      k = Header.aggregate libName ∨ ∃ e ∈ m.exports, headerOf libName e.1 = k := by
  obtain ⟨b, hfed, hb, rfl⟩ := compile_eq_ok.1 h
  change ((State.initial (.text libName)).feed m.visits).result = .ok () at hfed
  change ((State.initial (.text libName)).feed m.visits).state.Finishes customCode b at hb
  rw [Module.visits, visitsOf_eq_map] at hfed hb
  obtain ⟨hlib, hspec⟩ := State.feed_of_ok rfl hfed
  refine ⟨hb.nodup_keys, fun k hk => ?_⟩
  rcases hb.mem_keys.1 hk with rfl | hk
  · rw [State.library, hlib]
    exact Or.inl rfl
  · obtain ⟨texts, htexts, -, hmem⟩ := hspec k
    have hne : texts ≠ [] := (hmem.1 hk).resolve_left (by simp [State.initial])
    change List.Forall₂ _ (m.exportsTo libName k) texts at htexts
    have hexports : m.exportsTo libName k ≠ [] := by
      intro hnil
      rw [hnil, List.forall₂_nil_left_iff] at htexts
      exact hne htexts
    obtain ⟨e, he⟩ := List.exists_mem_of_ne_nil _ hexports
    exact Or.inr ⟨e, (List.mem_filter.1 he).1, of_decide_eq_true (List.mem_filter.1 he).2⟩

/-- Where the library and the modules have plain names, each file is named by entries of directories. -/
theorem exists_names_of_compile
    (h : ((new (.text libName) customCode).compile m true).result = .ok files)
    (hlib : IsPlainName libName) (hm : ∀ e ∈ m.exports, ∀ n ∈ e.1, IsPlainName n.plain) :
    ∀ k ∈ files.map (·.1), ∃ ns, ns ≠ [] ∧ (∀ n ∈ ns, IsEntryName n) ∧ Path.ofText k = ⟨.here, ns⟩ ∧
      k = String.intercalate "/" ns := by
  intro k hk
  suffices hnames : ∃ ns, ns ≠ [] ∧ (∀ n ∈ ns, IsEntryName n) ∧ k = String.intercalate "/" ns by
    obtain ⟨ns, hne, hns, rfl⟩ := hnames
    exact ⟨ns, hne, hns, Path.ofText_intercalate hne hns, rfl⟩
  rcases (paths_of_compile h).2 k hk with rfl | ⟨e, he, rfl⟩
  · refine ⟨[libName ++ ".h"], List.cons_ne_nil _ _, fun n hn => ?_, ?_⟩
    · exact List.mem_singleton.1 hn ▸ hlib.isEntryName_header
    · rw [String.intercalate_singleton, Header.aggregate]
  · refine Header.exists_names_path ?_ hlib fun n hn => ?_
    · exact mt List.map_eq_nil_iff.1 (Module.ne_nil_of_mem_exports he)
    · obtain ⟨v, hv, rfl⟩ := List.mem_map.1 hn
      exact hm e he v hv

/-- Below a directory each file has a place of its own, which the way through entries leads to. -/
theorem places_of_compile
    (h : ((new (.text libName) customCode).compile m true).result = .ok files)
    (hlib : IsPlainName libName) (hm : ∀ e ∈ m.exports, ∀ n ∈ e.1, IsPlainName n.plain)
    (root : Path) :
    (files.map fun f => root.join (.ofText f.1)).Nodup ∧
      ∀ f ∈ files, ∃ ns, ns ≠ [] ∧ (∀ n ∈ ns, IsEntryName n) ∧
        root.join (.ofText f.1) = ⟨root.anchor, root.names ++ ns⟩ := by
  have hnames := exists_names_of_compile h hlib hm
  constructor
  · have hkeys : (files.map fun f => root.join (.ofText f.1)) =
        (files.map (·.1)).map fun k => root.join (.ofText k) := by
      rw [List.map_map]
      rfl
    rw [hkeys]
    refine (paths_of_compile h).1.map_on fun k hk l hl hkl => ?_
    obtain ⟨ns, -, -, hk, rfl⟩ := hnames k hk
    obtain ⟨ms, -, -, hl, rfl⟩ := hnames l hl
    rw [hk, hl, Path.join_here, Path.join_here] at hkl
    rw [List.append_cancel_left (congrArg Files.Path.names hkl)]
  · intro f hf
    obtain ⟨ns, hne, hns, hk, -⟩ := hnames f.1 (List.mem_map_of_mem hf)
    exact ⟨ns, hne, hns, by rw [hk, Path.join_here]⟩

end Writer

end FfiHeaders
