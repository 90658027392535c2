import FfiHeaders.Proofs.Translation
import Mathlib.Data.Finset.Dedup
import Mathlib.Data.Finset.Lattice.Lemmas

/-!
# The names in a type

`TypeExpr.userNames` reads off a source type which names in it are left for the library to declare. The C
type of the source type mentions exactly these.
-/
namespace FfiHeaders

/-- The names that a platform module gives to C types. -/
def platformNames : List String := "c_void" :: platformTypes.map (·.1)

/-- The names that are no user types wherever they stand alone. -/
def builtinNames : List String := "()" :: primitiveTypes.map (·.1) ++ platformNames

/-- The name as that of a user type, if it is none of the known ones. -/
def Symbol.apartFrom (known : List String) (s : Symbol) : Finset Symbol :=
  if s ∈ known.map word then ∅ else {s}

theorem Symbol.apartFrom_word (known : List String) (n : String) :
    (word n).apartFrom known = if n ∈ known then ∅ else {word n} := by
  simp [apartFrom]

theorem Symbol.apartFrom_of_not_word {known : List String} {s : Symbol} (h : ∀ n, s ≠ word n) :
    s.apartFrom known = {s} := by
  refine if_neg fun hm => ?_
  obtain ⟨m, -, hs⟩ := List.mem_map.1 hm
  exact h m hs.symm

theorem Symbol.mem_apartFrom {known : List String} {n s : Symbol} :
    n ∈ s.apartFrom known ↔ n = s ∧ ∀ m ∈ known, s ≠ word m := by
  unfold apartFrom
  split
  · next h =>
    obtain ⟨m, hm, rfl⟩ := List.mem_map.1 h
    exact iff_of_false (Finset.notMem_empty n) fun hn => hn.2 m hm rfl
  · next h =>
    have hs : ∀ m ∈ known, s ≠ word m := fun m hm hs => h (hs ▸ List.mem_map_of_mem hm)
    rw [Finset.mem_singleton, and_iff_left hs]

theorem mem_keys_iff_lookup {n : String} {types : List (String × String)} :
    n ∈ types.map (·.1) ↔ types.lookup n ≠ none := by
  induction types with
  | nil => simp
  | cons e types ih =>
    rw [List.map_cons, List.mem_cons, ih, List.lookup_cons]
    by_cases h : n = e.1
    · simp [h]
    · have hb : (n == e.1) = false := beq_eq_false_iff_ne.2 h
      simp [h, hb]

namespace CType

theorem toFinset_mentions_ofPlatform (s : Symbol) :
    (ofPlatform s).mentions.toFinset = s.apartFrom platformNames := by
  unfold ofPlatform
  split
  · rw [Symbol.apartFrom_word]
    exact (if_pos List.mem_cons_self).symm
  · next n hn =>
    have hv : n ≠ "c_void" := fun h => hn (by rw [h])
    have hmem : n ∈ platformNames ↔ platformTypes.lookup n ≠ none := by
      rw [platformNames, List.mem_cons, or_iff_right hv, mem_keys_iff_lookup]
    rw [Symbol.apartFrom_word, if_congr hmem rfl rfl]
    split
    · next c hc => exact (if_pos (by rw [hc]; exact nofun)).symm
    · next hc => exact (if_neg (not_not_intro hc)).symm
  · next hs => exact (Symbol.apartFrom_of_not_word hs).symm

theorem toFinset_mentions_ofName (s : Symbol) :
    (ofName s).mentions.toFinset = s.apartFrom builtinNames := by
  unfold ofName
  split
  · rw [Symbol.apartFrom_word]
    exact (if_pos List.mem_cons_self).symm
  · next n hn =>
    have hu : n ≠ "()" := fun h => hn (by rw [h])
    have hmem : n ∈ builtinNames ↔ primitiveTypes.lookup n ≠ none ∨ n ∈ platformNames := by
      rw [builtinNames, List.cons_append, List.mem_cons, List.mem_append, or_iff_right hu,
        mem_keys_iff_lookup]
    rw [Symbol.apartFrom_word, if_congr hmem rfl rfl]
    split
    · next c hc => exact (if_pos (Or.inl (by rw [hc]; exact nofun))).symm
    · next hc =>
      rw [toFinset_mentions_ofPlatform, Symbol.apartFrom_word,
        if_congr (or_iff_right (not_not_intro hc)) rfl rfl]
  · next hs =>
    rw [toFinset_mentions_ofPlatform, Symbol.apartFrom_of_not_word hs, Symbol.apartFrom_of_not_word hs]

end CType

namespace TypeExpr

/-- The user type that a path names: its last segment, unless that is the name of a C type. A path of one
segment can name the types of the source language too. -/
def pathUserNames (segments : List Value) : Finset Symbol :=
  match segments.getLast?.bind Symbol.ofValue? with
  | some s => s.apartFrom (if segments.length = 1 then builtinNames else platformNames)
  | none => ∅

mutual

/-- The user types in a type, also those inside function pointers. -/
def userNames : TypeExpr → Finset Symbol
  | path segments _ => pathUserNames segments
  | pointer _ t | array t _ => t.userNames
  | function params output _ => paramUserNames params ∪ outputUserNames output
  | tuple _ | never | reference .. | slice _ => ∅

def paramUserNames : List Param → Finset Symbol
  | [] => ∅
  | .mk _ t :: ps => t.userNames ∪ paramUserNames ps

def outputUserNames : Option TypeExpr → Finset Symbol
  | none => ∅
  | some t => t.userNames

end

theorem PathDenotes.toFinset_mentions {segments : List Value} {c : CType}
    (h : PathDenotes segments c) : c.mentions.toFinset = pathUserNames segments := by
  cases h with
  | @name v s hs =>
    have hl : [v].getLast?.bind Symbol.ofValue? = some s := hs
    rw [CType.toFinset_mentions_ofName, pathUserNames, hl]
    rfl
  | @platform ms v s hm hp hs =>
    have hl : (ms.map Value.text ++ [v]).getLast?.bind Symbol.ofValue? = some s := by
      rw [List.getLast?_concat, Option.bind_some, hs]
    have hlength : (ms.map Value.text ++ [v]).length ≠ 1 := by simpa using hm
    rw [CType.toFinset_mentions_ofPlatform, pathUserNames, hl]
    dsimp only
    rw [if_neg hlength]

theorem Denotes.toFinset_mentions {t : TypeExpr} {c : CType} (h : Denotes t c) :
    c.mentions.toFinset = t.userNames := by
  induction h with
  | path h => rw [userNames, h.toFinset_mentions]
  | pointer isMutable _ ih => rwa [CType.mentions, userNames]
  | array length _ ih => rwa [CType.mentions, userNames]
  | unit => rw [userNames]; rfl

theorem OutputDenotes.toFinset_mentions {output : Option TypeExpr} {c : CType}
    (h : OutputDenotes output c) : c.mentions.toFinset = outputUserNames output := by
  cases h with
  | none => rw [outputUserNames]; rfl
  | some h => rw [outputUserNames, h.toFinset_mentions]

mutual

theorem Declares.toFinset_mentions {t : TypeExpr} {x : String} {d : Declarator} :
    Declares t x d → d.mentions.toFinset = t.userNames
  | .data x h => h.toFinset_mentions
  | .function x hp ho => by
    rw [Declarator.mentions, Declarator.type, CType.mentions, List.toFinset_append,
      DeclaresArgs.toFinset_mentions hp, ho.toFinset_mentions, userNames, Finset.union_comm]

theorem DeclaresArgs.toFinset_mentions {params : List Param} {args : List Declarator} :
    DeclaresArgs params args → (CType.argMentions args).toFinset = paramUserNames params
  | .nil => by rw [paramUserNames]; rfl
  | .cons (d := .mk y c) hx ht hp => by
    have hd : c.mentions.toFinset = _ := Declares.toFinset_mentions ht
    rw [CType.argMentions, List.toFinset_append, DeclaresArgs.toFinset_mentions hp, hd, paramUserNames]

end

/-- What is declared for a type mentions the user types of the type and no others. -/
theorem userNames_of_declare {t : TypeExpr} {x : String} {d : Declarator} (h : t.declare x = .ok d) :
    d.mentions.toFinset = t.userNames :=
  (declares_of_declare h).toFinset_mentions

/-- A function pointer that gets a type of the source language from a platform module. -/
def listener : TypeExpr :=
  function
    [.mk (.text "from") (pointer false (array (named "Node") (.int 4))),
      .mk (.text "_") (function [.mk (.text "") (path [.text "libc", .text "u32"] [])] none [])]
    (some (named "u32")) []

theorem userNames_of_declare_listener :
    ∃ d, listener.declare "notify" = .ok d ∧ d.mentions.toFinset = {.word "Node", .word "u32"} := by
  have hd : listener.declare "notify" = .ok (.mk "" (.function "notify"
      [.mk "from" (.pointer .const (.pointer .const (.user (.word "Node")))),
        .mk "" (.function "" [.mk "" (.user (.word "u32"))] .void)] (.native "uint32_t"))) := by
    rfl
  have hnames : listener.userNames = {.word "Node", .word "u32"} := by decide +kernel
  exact ⟨_, hd, (userNames_of_declare hd).trans hnames⟩

end TypeExpr

end FfiHeaders
