import FfiHeaders.Proofs.DeclarationOrder
import FfiHeaders.Proofs.SessionInvariant

/-!
# Include guards

Each file stands inside a guard that is made from its path by leaving characters out. The scan for
shared guards sees to it that no two files have the same one, and the ending of a module's header keeps
it apart from the aggregate header.
-/
namespace FfiHeaders

namespace Header

/-- An identifier with the prefix of all guards. -/
def IsGuard (guard : String) : Prop :=
  ∃ rest, guard = "bindgen_" ++ rest ∧ ∀ c ∈ rest.toList,
    'A' ≤ c ∧ c ≤ 'Z' ∨ 'a' ≤ c ∧ c ≤ 'z' ∨ '0' ≤ c ∧ c ≤ '9' ∨ c = '_'

/-- The text begins with the test and the definition of the guard. -/
structure Opens (guard text : String) : Prop where
  isGuard : IsGuard guard
  lines : ∃ rest, text = "#ifndef " ++ guard ++ "\n#define " ++ guard ++ "\n" ++ rest

theorem isGuardChar_iff {c : Char} :
    isGuardChar c ↔ 'A' ≤ c ∧ c ≤ 'Z' ∨ 'a' ≤ c ∧ c ≤ 'z' ∨ '0' ≤ c ∧ c ≤ '9' ∨ c = '_' := by
  have hname : isGuardChar c = isNameChar c := Bool.or_right_comm c.isAlpha c.isDigit (decide (c = '_'))
  rw [hname, isNameChar_iff]

theorem isGuard_guardName (id : String) : IsGuard (guardName id) :=
  ⟨sanitise id, rfl, fun _ hc => isGuardChar_iff.1 (isGuardChar_of_mem_sanitise hc)⟩

theorem IsGuard.newline_not_mem {guard : String} (h : IsGuard guard) : '\n' ∉ guard.toList := by
  obtain ⟨rest, rfl, hrest⟩ := h
  rw [String.toList_append, List.mem_append, not_or]
  refine ⟨by decide, fun hc => ?_⟩
  exact absurd (hrest _ hc) (by decide)

theorem opens_wrapGuard (code id : String) : Opens (guardName id) (wrapGuard code id) where
  isGuard := isGuard_guardName id
  lines := by
    refine ⟨"\n" ++ code ++ "\n\n#endif\n", ?_⟩
    have hbreak : "\n\n" = "\n" ++ "\n" := rfl
    rw [wrapGuard, hbreak]
    simp only [String.append_assoc]

/-- A guard holds no newline, so it can be read off the first line. -/
theorem Opens.toList_eq {guard text : String} (h : Opens guard text) :
    guard.toList = (text.toList.drop 8).takeWhile (· ≠ '\n') := by
  obtain ⟨rest, rfl⟩ := h.lines
  have hline : ∀ c ∈ guard.toList, decide (c ≠ '\n') = true := by
    intro c hc
    simp only [decide_eq_true_eq]
    rintro rfl
    exact h.isGuard.newline_not_mem hc
  have htext : ("#ifndef " ++ guard ++ "\n#define " ++ guard ++ "\n" ++ rest).toList.drop 8 =
      guard.toList ++ '\n' :: ("#define " ++ guard ++ "\n" ++ rest).toList := by
    simp [String.toList_append]
  rw [htext, List.takeWhile_append_of_pos hline]
  simp

theorem Opens.unique {guard guard' text : String} (h : Opens guard text) (h' : Opens guard' text) :
    guard = guard' :=
  String.toList_inj.1 (h.toList_eq.trans h'.toList_eq.symm)

theorem guardName_inj {id id' : String} : guardName id = guardName id' ↔ sanitise id = sanitise id' := by
  simp [guardName]

/-! ### The aggregate header apart -/

theorem toList_sanitise_append (s t : String) :
    (sanitise (s ++ t)).toList = (sanitise s).toList ++ (sanitise t).toList := by
  simp [sanitise, String.toList_append]

/-- The guard of a path with the extension of headers ends in another letter than that of the aggregate
header. -/
theorem sanitise_ne_aggregateId (stem libName : String) :
    sanitise (stem ++ ".h") ≠ sanitise (aggregateId libName) := by
  intro h
  have hlast := congrArg (fun s => s.toList.getLast?) h
  have hext : (sanitise ".h").toList = ['h'] := by decide
  have hroot : (sanitise "_root").toList = ['_', 'r', 'o', 'o', 't'] := by decide
  simp [aggregateId, toList_sanitise_append, hext, hroot] at hlast

end Header

namespace State

variable {s : State} {customCode : String}

/-- Every header with output has the extension of headers. -/
def HasExtensions (s : State) : Prop := ∀ h ∈ s.outputs.keys, ∃ stem, h = stem ++ ".h"

theorem Emission.hasExtensions {module : List Value} {d : Declaration}
    {r : State × Except Failure Outcome} (he : Emission s module d r) (hs : s.HasExtensions) :
    r.1.HasExtensions := by
  intro k hk
  rcases he.outputs with ho | ⟨h, text, -, hm, ho⟩
  · exact hs k (ho ▸ hk)
  · rw [ho] at hk
    rcases mem_keys_append.1 hk with rfl | hk
    · obtain ⟨ms, -, -, rfl⟩ := Header.exists_of_ofModule_ok hm
      exact ⟨_, rfl⟩
    · exact hs k hk

theorem HasExtensions.run (hs : s.HasExtensions) (cs : List Call) : (s.run cs).HasExtensions := by
  induction cs generalizing s with
  | nil => exact hs
  | cons c cs ih =>
    have hstep : (s.emitItem c.module c.item).1.HasExtensions := by
      obtain ⟨module, item⟩ := c
      cases item with
      | declaration d => exact (emission_emit s module d).hasExtensions hs
      | module name items => exact hs
    exact ih hstep

theorem hasExtensions_initial (libName : Value) : (initial libName).HasExtensions := nofun

/-! ### Finished files -/

theorem opens_moduleHeader (h declarations : String) :
    Header.Opens (Header.guardName h) (moduleHeader h declarations) :=
  Header.opens_wrapGuard _ h

theorem opens_aggregateHeader (libName customCode : String) (order : List String) :
    Header.Opens (Header.guardName (Header.aggregateId libName))
      (aggregateHeader libName customCode order) :=
  Header.opens_wrapGuard _ _

theorem exists_opens_of_mem_files {order : List String} {f : String × String}
    (hf : f ∈ s.files customCode order) : ∃ id, Header.Opens (Header.guardName id) f.2 := by
  rcases List.mem_append.1 hf with hf | hf
  · obtain ⟨h, -, rfl⟩ := List.mem_map.1 hf
    exact ⟨h, opens_moduleHeader h _⟩
  · obtain rfl := List.mem_singleton.1 hf
    exact ⟨_, opens_aggregateHeader _ _ _⟩

/-- Two texts that no guard opens both. -/
def OpenApart (f g : String × String) : Prop :=
  ∀ guard, Header.Opens guard f.2 → ¬Header.Opens guard g.2

instance : Std.Symm OpenApart := ⟨fun _ _ h guard hg hf => h guard hf hg⟩

theorem openApart_of_sanitise {f g : String × String} {id id' : String}
    (hf : Header.Opens (Header.guardName id) f.2) (hg : Header.Opens (Header.guardName id') g.2)
    (hne : Header.sanitise id ≠ Header.sanitise id') : OpenApart f g := by
  intro guard hf' hg'
  have hid : Header.guardName id = Header.guardName id' :=
    (hf.unique hf').trans (hg'.unique hg)
  exact hne (Header.guardName_inj.1 hid)

/-- Where the sanitised texts behind the guards are distinct, so are the guards of the files. -/
theorem pairwise_files (hs : (s.guardIds.map Header.sanitise).Nodup) (customCode : String)
    (order : List String) : (s.files customCode order).Pairwise OpenApart := by
  rw [guardIds, List.map_cons, List.nodup_cons] at hs
  obtain ⟨haggregate, hkeys⟩ := hs
  have hsorted : ((sortTexts s.outputs.keys).map Header.sanitise).Nodup :=
    ((perm_sortTexts _).map _).nodup_iff.2 hkeys
  refine List.pairwise_append.2 ⟨?_, List.pairwise_singleton _ _, ?_⟩
  · refine List.pairwise_map.2 ((List.pairwise_map.1 hsorted).imp fun hne => ?_)
    exact openApart_of_sanitise (opens_moduleHeader _ _) (opens_moduleHeader _ _) hne
  · intro f hf g hg
    obtain ⟨h, hh, rfl⟩ := List.mem_map.1 hf
    obtain rfl := List.mem_singleton.1 hg
    refine openApart_of_sanitise (opens_moduleHeader _ _) (opens_aggregateHeader _ _ _) fun he => ?_
    exact haggregate (List.mem_map.2 ⟨h, mem_sortTexts.1 hh, he⟩)

/-! ### Refused states -/

/-- What is said about a shared guard comes from the scan, whatever else is wrong with the state. -/
theorem sharesGuard_of_finalise {first second guard : String} {span : Option Span}
    (h : (s.finalise customCode).2 = .error (.rejected (.sharedGuard first second guard) span)) :
    s.SharesGuard first second ∧ guard = Header.sanitise second := by
  unfold finalise at h
  split at h
  · cases h
  · rcases bundle_eq_error h with ⟨-, hf⟩ | ⟨ha, hguards⟩ | ⟨m, hf⟩ | ⟨cycle, hf⟩
    · cases hf
    · obtain ⟨first', second', hf, hshares⟩ := sharesGuard_of_checkGuards ha hguards
      cases hf
      exact ⟨hshares, rfl⟩
    · cases hf
    · cases hf

/-- Each finished file opens with one guard, and no guard opens two of them. After a run of emissions
the guard of the aggregate header is its own in any case, so that a shared guard is always blamed on
two headers of modules. -/
theorem guards_of_finalise (s : State) (customCode : String) :
    (∀ b, (s.finalise customCode).2 = .ok b →
      (∀ f ∈ b.files, ∃! guard, Header.Opens guard f.2) ∧
        ∀ f ∈ b.files, ∀ g ∈ b.files, f ≠ g → ∀ guard,
          Header.Opens guard f.2 → ¬Header.Opens guard g.2) ∧
      ∀ libName calls, s = (initial libName).run calls →
        (∀ h ∈ s.outputs.keys,
          Header.guardName h ≠ Header.guardName (Header.aggregateId s.library)) ∧
        ∀ first second guard span,
          (s.finalise customCode).2 = .error (.rejected (.sharedGuard first second guard) span) →
            first ∈ s.outputs.keys ∧ second ∈ s.outputs.keys ∧ first ≠ second ∧
              Header.sanitise first = guard ∧ Header.sanitise second = guard := by
  refine ⟨fun b hb => ?_, fun libName calls hrun => ?_⟩
  · have hfinishes := finalise_eq_ok.1 hb
    rw [hfinishes.files]
    refine ⟨fun f hf => ?_, fun f hf g hg hne => ?_⟩
    · obtain ⟨id, hid⟩ := exists_opens_of_mem_files hf
      exact ⟨_, hid, fun guard hguard => hguard.unique hid⟩
    · have hapart :=
        pairwise_files (checkGuards_eq_ok_iff.1 hfinishes.guards) customCode b.order
      exact hapart.forall hf hg hne
  · have hexts : s.HasExtensions := hrun ▸ (hasExtensions_initial libName).run calls
    have hapart : ∀ h ∈ s.outputs.keys,
        Header.sanitise h ≠ Header.sanitise (Header.aggregateId s.library) := by
      intro h hh
      obtain ⟨stem, rfl⟩ := hexts h hh
      exact Header.sanitise_ne_aggregateId stem s.library
    refine ⟨fun h hh he => hapart h hh (Header.guardName_inj.1 he), ?_⟩
    intro first second guard span hf
    obtain ⟨⟨hsecond, hne, hor⟩, rfl⟩ := sharesGuard_of_finalise hf
    rcases hor with ⟨hfirst, hsame⟩ | ⟨-, hsame⟩
    · exact ⟨hfirst, hsecond, hne, hsame, rfl⟩
    · exact absurd hsame.symm (hapart second hsecond)

/-- Two modules whose paths differ by a slash only. -/
def slashCalls : List Call :=
  [⟨[.text "ffi", .text "ab"], .declaration refAlias⟩,
    ⟨[.text "ffi", .text "a", .text "b"], .declaration idAlias⟩]

theorem finalise_run_slashCalls :
    (((initial (.text "lib")).run slashCalls).finalise "").2 =
      .error (.rejected (.sharedGuard "lib/a/b.h" "lib/ab.h" "libabh") none) := by
  have hkeys : sortTexts ((initial (.text "lib")).run slashCalls).outputs.keys =
      ["lib/a/b.h", "lib/ab.h"] := by
    have hunsorted : ((initial (.text "lib")).run slashCalls).outputs.keys =
        ["lib/ab.h"] ++ ["lib/a/b.h"] := rfl
    have hsorted : sortTexts ["lib/a/b.h", "lib/ab.h"] = ["lib/a/b.h", "lib/ab.h"] :=
      List.mergeSort_of_pairwise (by decide)
    rw [hunsorted, sortTexts_congr List.perm_append_comm]
    exact hsorted
  have hguards : ((initial (.text "lib")).run slashCalls).checkGuards =
      .error (.reject (.sharedGuard "lib/a/b.h" "lib/ab.h" "libabh")) := by
    rw [checkGuards, hkeys]
    rfl
  have hopen : ((initial (.text "lib")).run slashCalls).isFinalised = false := rfl
  have haggregate : ((initial (.text "lib")).run slashCalls).outputs.contains
      (Header.aggregate ((initial (.text "lib")).run slashCalls).library) = false := rfl
  rw [finalise, hopen, if_neg Bool.false_ne_true]
  dsimp only [bundle]
  rw [haggregate, if_neg Bool.false_ne_true, hguards]
  rfl

theorem guards_of_finalise_slashCalls :
    (∃ b, (((initial (.text "lib")).run forwardCalls).finalise "").2 = .ok b ∧
      ∀ f ∈ b.files, ∃! guard, Header.Opens guard f.2) ∧
      (((initial (.text "lib")).run slashCalls).finalise "").2 =
        .error (.rejected (.sharedGuard "lib/a/b.h" "lib/ab.h" "libabh") none) ∧
      "lib/a/b.h" ∈ ((initial (.text "lib")).run slashCalls).outputs.keys := by
  obtain ⟨b, hb, -⟩ := finalise_run_forwardCalls
  obtain ⟨hfiles, -⟩ := guards_of_finalise ((initial (.text "lib")).run forwardCalls) ""
  obtain ⟨-, hblame⟩ := guards_of_finalise ((initial (.text "lib")).run slashCalls) ""
  obtain ⟨-, hshared⟩ := hblame (.text "lib") slashCalls rfl
  exact ⟨⟨b, hb, (hfiles b hb).1⟩, finalise_run_slashCalls,
    (hshared _ _ _ _ finalise_run_slashCalls).1⟩

end State

end FfiHeaders
