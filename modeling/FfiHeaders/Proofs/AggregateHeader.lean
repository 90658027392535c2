import FfiHeaders.Proofs.Finalisation
import FfiHeaders.Proofs.Run

/-!
# The aggregate header of a run

After any run the aggregate header includes each header with output once, and each one after all
headers whose types it mentions.
-/
namespace FfiHeaders.State

theorem homesHaveOutput_initial (libName : Value) : (initial libName).HomesHaveOutput := by
  intro n h hn
  cases hn

@[simp] theorem library_run (libName : String) (calls : List Call) :
    ((initial (.text libName)).run calls).library = libName := by
  rw [library, (run_extends _ calls).libName]
  rfl

/-- The lines of the aggregate header: the custom code, if there is any, and the includes. -/
def aggregateLines (customCode : String) (order : List String) : String :=
  (if customCode = "" then "" else customCode ++ "\n") ++
    String.join (order.map fun h => "#include \"" ++ h ++ "\"\n")

theorem aggregateHeader_eq (libName customCode : String) (order : List String) :
    ∃ kept, Text.IsTrimmed (· = '\n') (aggregateLines customCode order) kept ∧
      aggregateHeader libName customCode order = Header.wrapGuard kept (libName ++ "_root") := by
  refine ⟨_, Text.isTrimmed_dropEndWhile (· = '\n') (aggregateLines customCode order), ?_⟩
  have hl : aggregateLines customCode order =
      (if customCode.isEmpty then "" else customCode ++ "\n") ++
        String.join (order.map includeLine) := by
    simp only [aggregateLines, String.isEmpty_iff]
    rfl
  rw [hl]
  rfl

/-- The aggregate header of a finished run holds the custom code and an include of each header with
output, a header that declares a type before all others that mention it. -/
theorem aggregate_of_run (libName customCode : String) (calls : List Call) {b : Bundle}
    (h : (((initial (.text libName)).run calls).finalise customCode).2 = .ok b) :
    ∃ order kept,
      (libName ++ ".h", Header.wrapGuard kept (libName ++ "_root")) ∈ b.files ∧
      (b.files.map (·.1)).Nodup ∧
      Text.IsTrimmed (· = '\n') (aggregateLines customCode order) kept ∧
      order.Nodup ∧
      (∀ k, k ∈ order ↔ k ∈ ((initial (.text libName)).run calls).outputs.keys) ∧
      ∀ e ∈ (initial (.text libName)).emitted calls, ∀ n ∈ e.2.userTypes, ∀ p,
        ((initial (.text libName)).run calls).decls.get? (.word n) = some p → p ≠ e.1 →
          [p, e.1].Sublist order := by
  have hf := finalise_eq_ok.1 h
  have hhomes := run_homesHaveOutput (homesHaveOutput_initial (.text libName)) calls
  obtain ⟨hnodup, hmem, hsub⟩ := hf.order_of_homes fun n k hk => hhomes _ k hk
  obtain ⟨kept, hkept, haggregate⟩ := aggregateHeader_eq libName customCode b.order
  refine ⟨b.order, kept, ?_, hf.nodup_keys, hkept, hnodup, hmem, ?_⟩
  · have ha := hf.mem_aggregate_file
    rwa [library_run, haggregate] at ha
  · intro e he n hn p hp hne
    -- a home may be declared long after the mention, which is why only the last state counts
    obtain ⟨hout, hment⟩ := mentioned_run_of_emitted he
    exact hsub e.1 (.word n) p hout (hment n hn) (by rwa [home?_word]) hne

/-- A function of one module that points to a type of another, which is declared after it. -/
def lateHome : List Call :=
  [⟨[.text "ffi", .text "a"], .declaration
      ⟨.text "visit", [.word (.text "no_mangle")], [], true, none,
        .function (.text "C") [.mk (.text "start") (.pointer false (.named "Node"))] none⟩⟩,
    ⟨[.text "ffi", .text "z"], .declaration
      ⟨.text "Node", [.list (.text "repr") [.word (.text "C")]], [], true, none,
        .struct (.text "named") [⟨.text "data", .pointer true (.named "u8"), [], none⟩]⟩⟩]

/-- The state after the calls of `lateHome`. -/
def lateHomeState : State where
  libName := .text "lib"
  decls := ⟨[(.word "Node", "lib/z.h")], by decide⟩
  deps := ⟨[("lib/a.h", [.word "Node"])], by decide⟩
  outputs :=
    ⟨[("lib/a.h", "void visit(const Node* start);\n\n"),
      ("lib/z.h", "typedef struct Node \x7b\n\tuint8_t* data;\n\x7d Node;\n\n")], by decide⟩
  isFinalised := false

theorem aggregate_of_run_lateHome :
    ∃ b order kept, (((initial (.text "lib")).run lateHome).finalise "int x;").2 = .ok b ∧
      ("lib.h", Header.wrapGuard kept "lib_root") ∈ b.files ∧
      Text.IsTrimmed (· = '\n') (aggregateLines "int x;" order) kept ∧
      ["lib/z.h", "lib/a.h"].Sublist order := by
  have hrun : (initial (.text "lib")).run lateHome = lateHomeState := rfl
  have hkeys : sortTexts lateHomeState.outputs.keys = ["lib/a.h", "lib/z.h"] :=
    List.mergeSort_of_pairwise (by decide)
  have hneedy : sortTexts (lateHomeState.deps.keys.filter fun h => lateHomeState.outputs.contains h) =
      ["lib/a.h"] := List.mergeSort_singleton _
  have hgraph : lateHomeState.includeGraph =
      .ok ⟨["lib/a.h", "lib/z.h"], [("lib/z.h", "lib/a.h")]⟩ := by
    rw [includeGraph, includeEdges, hneedy, hkeys]
    rfl
  have horder : IncludeGraph.order? ⟨["lib/a.h", "lib/z.h"], [("lib/z.h", "lib/a.h")]⟩ =
      some ["lib/z.h", "lib/a.h"] := by
    decide +kernel
  have hfinishes : lateHomeState.Finishes "int x;"
      ⟨["lib/z.h", "lib/a.h"], lateHomeState.files "int x;" ["lib/z.h", "lib/a.h"]⟩ := by
    refine ⟨rfl, by decide, ?_, ⟨_, hgraph, ?_⟩, rfl⟩
    · rw [checkGuards, hkeys]
      rfl
    · rw [IncludeGraph.order, horder]
  have hf := finalise_eq_ok.2 hfinishes
  rw [← hrun] at hf
  obtain ⟨order, kept, hfile, -, hkept, -, -, hbefore⟩ :=
    aggregate_of_run "lib" "int x;" lateHome hf
  refine ⟨_, order, kept, hf, hfile, hkept, ?_⟩
  exact hbefore ("lib/a.h", _) List.mem_cons_self "Node" (by decide) "lib/z.h" rfl (by decide)

end FfiHeaders.State
