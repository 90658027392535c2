import FfiHeaders.CommandLine.Report
import FfiHeaders.Files.Tree
import FfiHeaders.Proofs.FileChanges
import FfiHeaders.Proofs.HeaderPlaces
import FfiHeaders.Proofs.WordNames
import Mathlib.Data.List.Permutation

/-!
# Runs of the command line

What a command line that generates headers reports and writes depends on the bytes of its input and
the text of its custom code alone: either all headers are placed, each at a path of its own, or none
is.
-/
namespace FfiHeaders.CommandLine

open Files Files.Store

/-- The module that the bytes of a document describe. -/
def load (content : ByteArray) : Except Problem Module :=
  match Text.Utf8.decode content.toList with
  | .error u => .error (.undecodable u)
  | .ok cs =>
    match Source.readModule (String.ofList (Text.unifyNewlines cs)) with
    | .error f => .error (.failure f)
    | .ok m => .ok m

/-- The headers that a document gives. -/
def headersOf (libName customCode : String) (content : ByteArray) :
    Except Problem (List (String × String)) :=
  match load content with
  | .error p => .error p
  | .ok m =>
    match ((Writer.new (.text libName) customCode).compile m true).result with
    | .error f => .error (.failure f)
    | .ok files => .ok files

theorem exists_module_of_headersOf {libName customCode : String} {content : ByteArray}
    {files : List (String × String)} (h : headersOf libName customCode content = .ok files) :
    ∃ m, load content = .ok m ∧
      ((Writer.new (.text libName) customCode).compile m true).result = .ok files := by
  rw [headersOf] at h
  split at h
  · cases h
  · next m hload =>
    split at h
    · cases h
    · next files' hcompile =>
      cases h
      exact ⟨m, hload, hcompile⟩

/-- The files in the order of their paths. -/
def inOrder (files : List (String × String)) : List (String × String) :=
  files.mergeSort fun f g => f.1 ≤ g.1

theorem perm_inOrder (files : List (String × String)) : (inOrder files).Perm files :=
  List.mergeSort_perm files _

theorem map_fst_inOrder (files : List (String × String)) :
    (inOrder files).map (·.1) = sortTexts (files.map (·.1)) :=
  List.map_mergeSort fun _ _ _ _ => rfl

theorem pairwise_inOrder {files : List (String × String)} (h : (files.map (·.1)).Nodup) :
    ((inOrder files).map (·.1)).Pairwise (· < ·) := by
  have hsorted := sorted_sortTexts (files.map (·.1))
  have hnodup : (sortTexts (files.map (·.1))).Nodup := (perm_sortTexts _).nodup_iff.2 h
  rw [map_fst_inOrder]
  refine hsorted.imp₂ (fun a b hle hne => ?_) hnodup
  exact Decidable.byContradiction fun hlt => hne (String.le_antisymm hle (String.not_lt.1 hlt))

section Reading

variable {W : Type} {s : Store (StateM W)}

/-- The files that the arguments name are there: the custom code reads as `customCode`, or is empty
where no file is named, and the input holds the bytes `content`. Reading them leaves the store as it
is. -/
structure Offers (s : Store (StateM W)) (w : W) (input : String) (a : Arguments) (customCode : String)
    (content : ByteArray) : Prop where
  customCode : match a.customCode with
    | none => customCode = ""
    | some file => readText s file w = (.ok customCode, w)
  input : s.read (.ofText input) w = (.ok content, w)

theorem mirrors_readText (path : String) :
    Mirrors (readText s.recorded path) (readText s path) fun _ cs => cs = [] := by
  refine (Mirrors.observe (s.read (.ofText path))).bind_of_nil fun r => ?_
  cases r with
  | error r => exact .pure rfl
  | ok content => exact .pure rfl

theorem mirrors_prepare (input : String) (a : Arguments) :
    Mirrors (prepare s.recorded input a) (prepare s input a) fun _ cs => cs = [] := by
  unfold prepare
  dsimp only
  -- the steps after the custom code are the same whether or not a file holds it
  split
  case' h_1 => refine (mirrors_readText _).bind_of_nil fun custom => ?_
  case' h_2 => refine Mirrors.bind_of_nil (.pure rfl) fun custom => ?_
  all_goals
    cases custom with
    | error p => exact .pure rfl
    | ok customCode =>
      dsimp only
      split
      · exact .pure rfl
      · refine (mirrors_readText input).bind_of_nil fun r => ?_
        cases r <;> exact .pure rfl

theorem mirrors_generate (input : String) (a : Arguments) :
    Mirrors (generate s.recorded input a) (generate s input a) fun _ _ => True := by
  refine (mirrors_prepare input a).bind_of_nil fun r => ?_
  cases r with
  | error p => exact .pure trivial
  | ok prepared =>
    obtain ⟨w, m⟩ := prepared
    dsimp only
    split
    · exact .pure trivial
    · split
      · exact .pure trivial
      · split
        · exact .pure trivial
        · exact (mirrors_placeAll _ _).bind (S := fun _ _ _ => True) (fun _ => .pure trivial)
            fun _ _ _ _ _ _ => trivial

/-- Recording its changes does not alter a run. -/
theorem mirrors_run (argv : List String) :
    Mirrors (run s.recorded argv) (run s argv) fun _ _ => True := by
  unfold run
  split
  · exact .pure trivial
  · exact .pure trivial
  · exact .pure trivial
  · exact (mirrors_generate _ _).bind (S := fun _ _ _ => True) (fun _ => .pure trivial)
      fun _ _ _ _ _ _ => trivial

theorem writer_c {a : Arguments} {libName : String} (hlang : a.lang = some Writer.languageName)
    (hlib : a.libName = some libName) (customCode : String) :
    writer a customCode = .ok (.new (.text libName) customCode) := by
  rw [writer, hlang, Arguments.library, hlib]
  rfl

theorem prepare_of_offers {w : W} {input libName customCode : String} {a : Arguments}
    {content : ByteArray} (h : Offers s w input a customCode content)
    (hlang : a.lang = some Writer.languageName) (hlib : a.libName = some libName) :
    prepare s input a w =
      ((load content).map fun m => (Writer.new (.text libName) customCode, m), w) := by
  have hinput : readText s input w =
      (match Text.Utf8.decode content.toList with
        | .error u => .error (.undecodable u)
        | .ok cs => .ok (String.ofList (Text.unifyNewlines cs)), w) := bind_of_eq h.input
  have hcustom := h.customCode
  unfold prepare
  dsimp only
  cases hc : a.customCode
  case' none =>
    rw [hc] at hcustom
    have hread : (pure (.ok "") : StateM W (Except Problem String)) w = (.ok customCode, w) :=
      hcustom ▸ rfl
  case' some file =>
    rw [hc] at hcustom
    have hread : readText s file w = (.ok customCode, w) := hcustom
  all_goals
    dsimp only
    rw [bind_of_eq hread]
    dsimp only
    rw [writer_c hlang hlib]
    dsimp only
    rw [bind_of_eq hinput, load]
    cases Text.Utf8.decode content.toList with
    | error u => rfl
    | ok cs =>
      dsimp only
      cases Source.readModule (String.ofList (Text.unifyNewlines cs)) <;> rfl

end Reading

section Outcome

variable {V : Type} {s : Store (StateM V)} {v v' : V} {input libName customCode : String}
  {a : Arguments} {content : ByteArray} {files : List (String × String)}

theorem generate_of_error
    (hprepare : prepare s input a v =
      ((load content).map fun m => (Writer.new (.text libName) customCode, m), v'))
    {p : Problem} (h : headersOf libName customCode content = .error p) :
    ∃ events, generate s input a v = ((events, .error p), v') := by
  rw [generate, bind_of_eq hprepare]
  rw [headersOf] at h
  cases hload : load content with
  | error p' =>
    rw [hload] at h
    cases h
    exact ⟨[], rfl⟩
  | ok m =>
    rw [hload] at h
    dsimp only [Except.map] at h ⊢
    split at h
    · next f hf =>
      cases h
      rw [hf]
      exact ⟨_, rfl⟩
    · cases h

theorem generate_of_files
    (hprepare : prepare s input a v =
      ((load content).map fun m => (Writer.new (.text libName) customCode, m), v'))
    (h : headersOf libName customCode content = .ok files) :
    ∃ events, generate s input a v =
      (if a.dryRun then pure (events, .ok ((inOrder files).map (·.1)))
      else
        match a.outputDir with
        | none => pure (events, .error (.failure (.mismatch .operation)))
        | some directory => do
          let placed ← s.placeAll (.ofText directory) (inOrder files)
          pure (events ++ placed.1.map fun p => .wrote p.text,
            match placed.2 with
            | .ok () => .ok []
            | .error r => .error (.refused r)) : StateM V _) v' := by
  rw [generate, bind_of_eq hprepare]
  rw [headersOf] at h
  cases hload : load content with
  | error p =>
    rw [hload] at h
    cases h
  | ok m =>
    rw [hload] at h
    dsimp only [Except.map] at h ⊢
    split at h
    · cases h
    · next files' hfiles =>
      cases h
      rw [hfiles]
      exact ⟨_, rfl⟩

theorem generateReport_of_ok {events : List Event} {listed : List String}
    (h : generate s input a v = ((events, .ok listed), v')) :
    ∃ log, generateReport s input a v = (.ok ⟨0, unlines listed, log⟩, v') :=
  ⟨_, bind_of_eq h⟩

theorem generateReport_of_error {events : List Event} {p : Problem}
    (h : generate s input a v = ((events, .error p), v')) :
    (generateReport s input a v).2 = v' ∧ ∀ text, p.message? = some text →
      ∃ log, (generateReport s input a v).1 = .ok ⟨1, "", log ++ unlines ["ERROR: " ++ text]⟩ := by
  rw [generateReport, bind_of_eq h]
  refine ⟨rfl, fun text ht => ?_⟩
  obtain rfl : p.message?.getD "" = text := by
    rw [ht]
    rfl
  cases p with
  | failure f =>
    cases f with
    | mismatch k => cases ht
    | rejected | cyclic | document | malformed | language => exact ⟨_, rfl⟩
  | undecodable u => exact ⟨_, rfl⟩
  | refused r => exact ⟨_, rfl⟩

end Outcome

section Run

variable {W : Type} {s : Store (StateM W)} {w : W} {argv : List String}

/-- The changes that a run makes to the files. -/
def changes (s : Store (StateM W)) (argv : List String) (w : W) : List Change :=
  (run s.recorded argv (w, [])).2.2

/-- What a run reports and changes, as read off the run with a record. -/
theorem run_of_recorded {r : Except Mismatch Report} {x : W × List Change}
    (h : run s.recorded argv (w, []) = (r, x)) : (run s argv w).1 = r ∧ changes s argv w = x.2 := by
  obtain ⟨cs, hcs, -⟩ := mirrors_run (s := s) argv w []
  rw [h] at hcs
  refine ⟨(congrArg Prod.fst hcs).symm, ?_⟩
  rw [changes, h]

variable {input libName customCode : String} {a : Arguments} {content : ByteArray}

theorem run_eq_generateReport
    (h : Request.read (languages.map (·.name)) defaults argv = .ok (.generate input a)) :
    run s argv = generateReport s input a := by
  rw [run, h]

section Generation

variable (hargv : Request.read (languages.map (·.name)) defaults argv = .ok (.generate input a))
  (hlang : a.lang = some Writer.languageName) (hlib : a.libName = some libName)
  (hoffers : Offers s w input a customCode content)

include hlang hlib hoffers

theorem prepare_recorded : prepare s.recorded input a (w, []) =
    ((load content).map fun m => (Writer.new (.text libName) customCode, m), (w, [])) := by
  obtain ⟨cs, hcs, rfl⟩ := mirrors_prepare (s := s) input a w []
  rw [hcs, prepare_of_offers hoffers hlang hlib, List.append_nil]

include hargv

theorem run_of_problem {p : Problem} (h : headersOf libName customCode content = .error p) :
    changes s argv w = [] ∧ ∀ text, p.message? = some text →
      ∃ log, (run s argv w).1 = .ok ⟨1, "", log ++ unlines ["ERROR: " ++ text]⟩ := by
  obtain ⟨events, hgenerate⟩ := generate_of_error (prepare_recorded hlang hlib hoffers) h
  obtain ⟨hstate, hreport⟩ := generateReport_of_error hgenerate
  have hrun : run s.recorded argv (w, []) =
      ((generateReport s.recorded input a (w, [])).1, (w, [])) := by
    rw [run_eq_generateReport hargv]
    exact Prod.ext rfl hstate
  obtain ⟨hsame, hchanges⟩ := run_of_recorded hrun
  exact ⟨hchanges, hsame ▸ hreport⟩

variable {files : List (String × String)}
  (hfiles : headersOf libName customCode content = .ok files)

include hfiles

theorem run_of_dryRun (hdry : a.dryRun = true) :
    changes s argv w = [] ∧
      ∃ log, (run s argv w).1 = .ok ⟨0, unlines ((inOrder files).map (·.1)), log⟩ := by
  obtain ⟨events, hgenerate⟩ := generate_of_files (prepare_recorded hlang hlib hoffers) hfiles
  rw [if_pos hdry] at hgenerate
  obtain ⟨log, hreport⟩ := generateReport_of_ok hgenerate
  rw [← run_eq_generateReport hargv] at hreport
  obtain ⟨hsame, hchanges⟩ := run_of_recorded hreport
  exact ⟨hchanges, log, hsame⟩

theorem run_of_accepts {directory : String} (hwet : a.dryRun = false)
    (hdir : a.outputDir = some directory)
    (haccepts : s.Accepts (.ofText directory) (inOrder files) w) :
    (∃ log, (run s argv w).1 = .ok ⟨0, "", log⟩) ∧
      filesOf (changes s argv w) = (inOrder files).map (fileBelow (.ofText directory)) := by
  obtain ⟨cs, hplaced, hwritten⟩ :=
    mirrors_placeAll (s := s) (.ofText directory) (inOrder files) w []
  have hok := placeAll_of_accepts haccepts
  obtain ⟨events, hgenerate⟩ := generate_of_files (prepare_recorded hlang hlib hoffers) hfiles
  rw [if_neg (ne_true_of_eq_false hwet), hdir] at hgenerate
  dsimp only at hgenerate
  rw [bind_of_eq hplaced, hok] at hgenerate
  obtain ⟨log, hreport⟩ := generateReport_of_ok hgenerate
  rw [← run_eq_generateReport hargv] at hreport
  obtain ⟨hsame, hchanges⟩ := run_of_recorded hreport
  exact ⟨⟨log, hsame⟩, hchanges ▸ hwritten hok⟩

end Generation

/-- A run either generates all headers or touches no file. Which it is, and what the headers are,
depends on the input and the custom code alone: a problem ends the run with status 1 before anything is
written, with or without `--dry-run`; otherwise a dry run lists the headers' paths in order and writes
nothing, and a run that no file refuses writes each header, in the same order, to a place of its own
below the output directory. -/
theorem run_of_headersOf
    (hargv : Request.read (languages.map (·.name)) defaults argv = .ok (.generate input a))
    (hlang : a.lang = some Writer.languageName) (hlib : a.libName = some libName)
    (hoffers : Offers s w input a customCode content) (hname : IsPlainName libName)
    (hmodules : ∀ m, load content = .ok m → ∀ e ∈ m.exports, ∀ n ∈ e.1, IsPlainName n.plain) :
    (∀ p, headersOf libName customCode content = .error p →
      changes s argv w = [] ∧ ∀ text, p.message? = some text →
        ∃ log, (run s argv w).1 = .ok ⟨1, "", log ++ unlines ["ERROR: " ++ text]⟩) ∧
    ∀ files, headersOf libName customCode content = .ok files →
      ((inOrder files).Perm files ∧ ((inOrder files).map (·.1)).Pairwise (· < ·)) ∧
      (a.dryRun = true → changes s argv w = [] ∧
        ∃ log, (run s argv w).1 = .ok ⟨0, unlines ((inOrder files).map (·.1)), log⟩) ∧
      ∀ directory, a.dryRun = false → a.outputDir = some directory →
        s.Accepts (.ofText directory) (inOrder files) w →
          (∃ log, (run s argv w).1 = .ok ⟨0, "", log⟩) ∧
          filesOf (changes s argv w) = (inOrder files).map (fileBelow (.ofText directory)) ∧
          ((filesOf (changes s argv w)).map (·.1)).Nodup ∧
          ∀ f ∈ files, ∃ ns, ns ≠ [] ∧ (∀ n ∈ ns, IsEntryName n) ∧
            (fileBelow (.ofText directory) f).1 =
              ⟨(Path.ofText directory).anchor, (Path.ofText directory).names ++ ns⟩ := by
  refine ⟨fun p => run_of_problem hargv hlang hlib hoffers, fun files hfiles => ?_⟩
  obtain ⟨m, hload, hcompile⟩ := exists_module_of_headersOf hfiles
  have horder := perm_inOrder files
  refine ⟨⟨horder, pairwise_inOrder (Writer.paths_of_compile hcompile).1⟩,
    run_of_dryRun hargv hlang hlib hoffers hfiles, fun directory hwet hdir haccepts => ?_⟩
  obtain ⟨hreport, hwritten⟩ :=
    run_of_accepts hargv hlang hlib hoffers hfiles hwet hdir haccepts
  obtain ⟨hnodup, hbelow⟩ :=
    Writer.places_of_compile hcompile hname (hmodules m hload) (.ofText directory)
  refine ⟨hreport, hwritten, ?_, hbelow⟩
  rw [hwritten, List.map_map]
  exact (horder.map _).nodup_iff.2 hnodup

end Run

section Alias

/-- A directory that holds the input file alone. -/
def inputTree (content : ByteArray) : Tree :=
  ⟨⟨[(["ffi.json"], .file content)], List.nodup_singleton _⟩⟩

def aliasDocument : String :=
  "\x7b\"name\":\"ffi\",\"items\":[\x7b\"kind\":\"type\",\"name\":\"Id\",\"type\":\"u32\"\x7d]\x7d"

def aliasModule : Module := ⟨.text "ffi", [.declaration idAlias]⟩

/-- The state after a walk through `aliasModule`. -/
def aliasState : State where
  libName := .text "lib"
  decls := ⟨[(.word "Id", "lib/lib.h")], by decide⟩
  deps := ⟨[], by decide⟩
  outputs := ⟨[("lib/lib.h", "typedef uint32_t Id;\n\n")], by decide⟩
  isFinalised := false

/-- The headers of `aliasDocument`, in the order of their paths. -/
def aliasFiles : List (String × String) :=
  [("lib.h", State.aggregateHeader "lib" "" ["lib/lib.h"]),
    ("lib/lib.h", State.moduleHeader "lib/lib.h" "typedef uint32_t Id;\n\n")]

theorem compile_aliasModule :
    ((Writer.new (.text "lib") "").compile aliasModule true).result = .ok aliasFiles.reverse := by
  have hstate : ((Writer.new (.text "lib") "").state.feed aliasModule.visits).state = aliasState := rfl
  have hsorted : sortTexts aliasState.outputs.keys = ["lib/lib.h"] := List.mergeSort_singleton _
  have hfiles : aliasState.files "" ["lib/lib.h"] = aliasFiles.reverse := by
    rw [State.files, hsorted]
    rfl
  rw [← hfiles]
  refine Writer.compile_eq_ok.2 ⟨⟨["lib/lib.h"], aliasState.files "" ["lib/lib.h"]⟩, rfl, ?_, rfl⟩
  rw [hstate]
  exact State.finishes_of_single rfl rfl rfl (by decide) (by decide)

theorem load_aliasDocument : load aliasDocument.toUTF8 = .ok aliasModule := by
  have hdecode : Text.Utf8.decode aliasDocument.toUTF8.toList = .ok aliasDocument.toList := by
    decide +kernel
  have hlines : String.ofList (Text.unifyNewlines aliasDocument.toList) = aliasDocument := by
    decide +kernel
  have hread : Document.read aliasDocument = .ok (.object [("name", .text "ffi"), ("items",
      .list [.object [("kind", .text "type"), ("name", .text "Id"), ("type", .text "u32")]])]) := by
    rw [aliasDocument]
    cbv
  rw [load, hdecode]
  dsimp only
  rw [hlines, Source.readModule, hread]
  rfl

theorem load_empty :
    load ByteArray.empty = .error (.failure (.malformed (.after .value []))) := by
  have hdecode : Text.Utf8.decode ByteArray.empty.toList = .ok [] := by decide +kernel
  have hread : Document.read (String.ofList (Text.unifyNewlines [])) = .error (.after .value []) := by
    cbv
  rw [load, hdecode]
  dsimp only
  rw [Source.readModule, hread]

theorem headersOf_aliasDocument :
    headersOf "lib" "" aliasDocument.toUTF8 = .ok aliasFiles.reverse := by
  rw [headersOf, load_aliasDocument]
  dsimp only
  rw [compile_aliasModule]

theorem isPlainName_of_load_aliasDocument (m : Module) (h : load aliasDocument.toUTF8 = .ok m) :
    ∀ e ∈ m.exports, ∀ n ∈ e.1, IsPlainName n.plain := by
  have hexports : aliasModule.exports = [([.text "ffi"], idAlias)] := rfl
  rw [load_aliasDocument] at h
  cases h
  rw [hexports]
  simp only [List.mem_singleton, forall_eq]
  exact isPlainName_of_isIdentifier (by decide)

theorem inOrder_aliasFiles : inOrder aliasFiles.reverse = aliasFiles := by
  simp [inOrder, aliasFiles, List.mergeSort]

theorem offers_inputTree {a : Arguments} (h : a.customCode = none) (content : ByteArray) :
    Offers Tree.store (inputTree content) "ffi.json" a "" content := by
  have hpath : Path.ofText "ffi.json" = ⟨.here, ["ffi.json"]⟩ := by decide +kernel
  refine ⟨by rw [h], ?_⟩
  rw [hpath]
  rfl

theorem accepts_aliasFiles :
    Tree.store.Accepts (.ofText ".") aliasFiles (inputTree aliasDocument.toUTF8) := by
  rw [aliasFiles]
  refine ⟨?_, ?_, trivial⟩
  · rw [Store.place, Store.ensureDirectories]
    decide +kernel
  · rw [Store.place, Store.place, Store.ensureDirectories, Store.ensureDirectories]
    decide +kernel

theorem fileBelow_aliasFiles : aliasFiles.map (fileBelow (.ofText ".")) =
    [(⟨.here, ["lib.h"]⟩, (State.aggregateHeader "lib" "" ["lib/lib.h"]).toUTF8),
      (⟨.here, ["lib", "lib.h"]⟩,
        (State.moduleHeader "lib/lib.h" "typedef uint32_t Id;\n\n").toUTF8)] := by
  have haggregate : (Path.ofText ".").join (.ofText "lib.h") = ⟨.here, ["lib.h"]⟩ := by
    decide +kernel
  have hmodule : (Path.ofText ".").join (.ofText "lib/lib.h") = ⟨.here, ["lib", "lib.h"]⟩ := by
    decide +kernel
  rw [aliasFiles, List.map_cons, List.map_singleton, fileBelow, fileBelow, haggregate, hmodule]

/-- The arguments of a run that generates the headers of `ffi.json` for the library `lib`. -/
def aliasArguments (dryRun : Bool) : Arguments :=
  { Arguments.default Writer.languageName "lib" with input := some "ffi.json", dryRun := dryRun }

/-- A document with one alias gives two headers, which a run writes and a dry run lists. An empty file
is no document, and neither run writes anything then. -/
theorem run_of_headersOf_aliasDocument :
    ((∃ log, (run Tree.store ["ffi.json", "--lib-name", "lib"]
          (inputTree aliasDocument.toUTF8)).1 = .ok ⟨0, "", log⟩) ∧
      filesOf (changes Tree.store ["ffi.json", "--lib-name", "lib"]
          (inputTree aliasDocument.toUTF8)) =
        [(⟨.here, ["lib.h"]⟩, (State.aggregateHeader "lib" "" ["lib/lib.h"]).toUTF8),
          (⟨.here, ["lib", "lib.h"]⟩,
            (State.moduleHeader "lib/lib.h" "typedef uint32_t Id;\n\n").toUTF8)]) ∧
    (changes Tree.store ["ffi.json", "--lib-name", "lib", "--dry-run"]
        (inputTree aliasDocument.toUTF8) = [] ∧
      ∃ log, (run Tree.store ["ffi.json", "--lib-name", "lib", "--dry-run"]
        (inputTree aliasDocument.toUTF8)).1 = .ok ⟨0, "lib.h\nlib/lib.h\n", log⟩) ∧
    changes Tree.store ["ffi.json", "--lib-name", "lib"] (inputTree ByteArray.empty) = [] ∧
      ∃ log, (run Tree.store ["ffi.json", "--lib-name", "lib"] (inputTree ByteArray.empty)).1 =
        .ok ⟨1, "", log ++ "ERROR: Expecting value: line 1 column 1 (char 0)\n"⟩ := by
  have hwetArgv : Request.read (languages.map (·.name)) defaults ["ffi.json", "--lib-name", "lib"] =
      .ok (.generate "ffi.json" (aliasArguments false)) := rfl
  have hdryArgv : Request.read (languages.map (·.name)) defaults
      ["ffi.json", "--lib-name", "lib", "--dry-run"] =
      .ok (.generate "ffi.json" (aliasArguments true)) := rfl
  have hname : IsPlainName "lib" := isPlainName_of_isIdentifier (by decide)
  refine ⟨?_, ?_, ?_⟩
  · obtain ⟨-, hfiles⟩ := run_of_headersOf hwetArgv rfl rfl
      (offers_inputTree rfl aliasDocument.toUTF8) hname isPlainName_of_load_aliasDocument
    obtain ⟨-, -, hwet⟩ := hfiles _ headersOf_aliasDocument
    rw [inOrder_aliasFiles] at hwet
    obtain ⟨hreport, hwritten, -⟩ := hwet "." rfl rfl accepts_aliasFiles
    exact ⟨hreport, hwritten.trans fileBelow_aliasFiles⟩
  · obtain ⟨-, hfiles⟩ := run_of_headersOf hdryArgv rfl rfl
      (offers_inputTree rfl aliasDocument.toUTF8) hname isPlainName_of_load_aliasDocument
    obtain ⟨-, hdry, -⟩ := hfiles _ headersOf_aliasDocument
    rw [inOrder_aliasFiles] at hdry
    exact hdry rfl
  · have hnone : headersOf "lib" "" ByteArray.empty =
        .error (.failure (.malformed (.after .value []))) := by
      rw [headersOf, load_empty]
    have hmodules : ∀ m, load ByteArray.empty = .ok m → ∀ e ∈ m.exports, ∀ n ∈ e.1,
        IsPlainName n.plain := by
      intro m hm
      rw [load_empty] at hm
      cases hm
    obtain ⟨hproblem, -⟩ := run_of_headersOf hwetArgv rfl rfl
      (offers_inputTree rfl ByteArray.empty) hname hmodules
    obtain ⟨hchanges, hreport⟩ := hproblem _ hnone
    exact ⟨hchanges, hreport "Expecting value: line 1 column 1 (char 0)" (by decide +kernel)⟩

end Alias

end FfiHeaders.CommandLine
