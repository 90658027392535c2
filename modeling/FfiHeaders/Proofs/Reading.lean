import FfiHeaders.CType.Binding
import Mathlib.Data.List.Forall2

/-!
# Reading C declarations

A reader that follows C's rules for declarators: a `const` before the base type or behind it
qualifies the base type, a star adds a pointer level that a `const` behind it qualifies, a list of
parameters binds tighter than a star, and the list `(void)` has none.
-/
namespace FfiHeaders.Reading

/-- The keywords that make up the names of C's own types. -/
def typeWords : List String :=
  ["void", "char", "short", "int", "long", "float", "double", "signed", "unsigned", "_Bool",
   "_Complex"]

def keywords : List String :=
  typeWords ++
  ["auto", "break", "case", "const", "continue", "default", "do", "else", "enum", "extern", "for",
   "goto", "if", "inline", "register", "restrict", "return", "sizeof", "static", "struct", "switch",
   "typedef", "union", "volatile", "while", "_Alignas", "_Alignof", "_Atomic", "_Generic",
   "_Imaginary", "_Noreturn", "_Static_assert", "_Thread_local"]

/-- An identifier that is no keyword. -/
def IsName (x : String) : Prop := isIdentifier x.toList ∧ x ∉ keywords

instance (x : String) : Decidable (IsName x) := inferInstanceAs (Decidable (_ ∧ _))

theorem not_isName_void : ¬IsName "void" := by decide

inductive Token
  | const
  | typeWord (word : String)
  | name (name : String)
  | star
  | left
  | right
  | comma
  | other (text : String)
  deriving DecidableEq, Repr

/-- The token of a maximal run of name characters. -/
def wordToken (word : String) : Token :=
  if word = "const" then .const
  else if word ∈ typeWords then .typeWord word
  else if IsName word then .name word
  else .other word

def wordTokens (word : List Char) : List Token :=
  if word = [] then [] else [wordToken (String.ofList word)]

/-- The token of a character that stands in no name: blanks have none. -/
def mark (c : Char) : List Token :=
  if c.isWhitespace then []
  else
    match c with
    | '*' => [.star]
    | '(' => [.left]
    | ')' => [.right]
    | ',' => [.comma]
    | c => [.other c.toString]

/-- The tokens of a text whose first word begins with `word`. -/
def tokensAfter (word : List Char) : List Char → List Token
  | [] => wordTokens word
  | c :: cs =>
    if isNameChar c then tokensAfter (word ++ [c]) cs
    else wordTokens word ++ mark c ++ tokensAfter [] cs

def tokens (s : String) : List Token := tokensAfter [] s.toList

mutual

/-- What a declaration says of a name. A base type is given by its words. -/
inductive Meaning
  | base (isConst : Bool) (words : String)
  | pointer (isConst : Bool) (target : Meaning)
  | function (params : List Declared) (result : Meaning)
  deriving Inhabited, Repr

/-- A declared name, which may be empty, and its meaning. -/
inductive Declared
  | mk (name : String) (meaning : Meaning)
  deriving Inhabited, Repr

end

/-- The base type in front of a declarator, after some of its words. -/
def specifiers (isConst : Bool) (words : List String) :
    List Token → Option ((Bool × String) × List Token)
  | .const :: ts => specifiers true words ts
  | .typeWord w :: ts =>
    if words.all (typeWords.contains ·) then specifiers isConst (words ++ [w]) ts else none
  | .name x :: ts =>
    if words = [] then specifiers isConst [x] ts
    else some ((isConst, String.intercalate " " words), .name x :: ts)
  | ts => if words = [] then none else some ((isConst, String.intercalate " " words), ts)

/-- Whether the pointer of a star is constant. -/
def qualifier : List Token → Bool × List Token
  | .const :: ts => (true, ts)
  | ts => (false, ts)

/-- What follows `void)`. -/
def afterVoid? : List Token → Option (List Token)
  | .typeWord w :: .right :: ts => if w = "void" then some ts else none
  | _ => none

mutual

/-- The name that a declarator holds and what it makes of the base type. -/
def declarator : Nat → List Token → Option ((String × (Meaning → Meaning)) × List Token)
  | 0, _ => none
  | n + 1, .star :: ts => do
    let ((x, f), rest) ← declarator n (qualifier ts).2
    some ((x, fun t => f (.pointer (qualifier ts).1 t)), rest)
  | n + 1, .left :: .star :: ts => do
    let ((x, f), rest) ← declarator n (.star :: ts)
    match rest with
    | .right :: rest => do
      let (g, rest) ← suffix n rest
      some ((x, fun t => f (g t)), rest)
    | _ => none
  | n + 1, .name x :: ts => do
    let (g, rest) ← suffix n ts
    some ((x, g), rest)
  | n + 1, ts => do
    let (g, rest) ← suffix n ts
    some (("", g), rest)

/-- The list of parameters behind a declarator, if there is one. -/
def suffix : Nat → List Token → Option ((Meaning → Meaning) × List Token)
  | 0, _ => none
  | n + 1, .left :: ts =>
    match afterVoid? ts with
    | some rest => some (.function [], rest)
    | none => do
      let (ps, rest) ← parameters n ts
      some (.function ps, rest)
  | _ + 1, ts => some (id, ts)

def parameters : Nat → List Token → Option (List Declared × List Token)
  | 0, _ => none
  | n + 1, ts => do
    let (p, rest) ← declaration n ts
    match rest with
    | .comma :: rest => do
      let (ps, rest) ← parameters n rest
      some (p :: ps, rest)
    | .right :: rest => some ([p], rest)
    | _ => none

def declaration : Nat → List Token → Option (Declared × List Token)
  | 0, _ => none
  | n + 1, ts => do
    let ((isConst, words), rest) ← specifiers false [] ts
    let ((x, f), rest) ← declarator n rest
    some (.mk x (f (.base isConst words)), rest)

end

/-- The declaration that a whole text is. -/
def read (s : String) : Option Declared :=
  -- the reader takes at most two steps for each token
  match declaration (2 * (tokens s).length + 1) (tokens s) with
  | some (d, []) => some d
  | _ => none

/-! ### Tokens of joined texts -/

theorem tokensAfter_append_cons {c : Char} (hc : isNameChar c = false) (w a b : List Char) :
    tokensAfter w (a ++ c :: b) = tokensAfter w a ++ mark c ++ tokensAfter [] b := by
  induction a generalizing w with
  | nil => rw [List.nil_append, tokensAfter, tokensAfter, if_neg (by simp [hc])]
  | cons d a ih =>
    rw [List.cons_append, tokensAfter, tokensAfter]
    split
    · exact ih _
    · rw [ih]
      simp only [List.append_assoc]

theorem tokensAfter_word {w cs : List Char} (h : cs.all isNameChar) :
    tokensAfter w cs = wordTokens (w ++ cs) := by
  induction cs generalizing w with
  | nil => rw [tokensAfter, List.append_nil]
  | cons c cs ih =>
    rw [List.all_cons, Bool.and_eq_true] at h
    rw [tokensAfter, if_pos h.1, ih h.2, List.append_assoc, List.singleton_append]

/-- No word runs over the border of the texts. -/
theorem tokens_append {a b : String}
    (h : a.toList.getLast?.any (!isNameChar ·) ∨ b.toList.head?.any (!isNameChar ·)) :
    tokens (a ++ b) = tokens a ++ tokens b := by
  rw [tokens, tokens, tokens, String.toList_append]
  simp only [Option.any_eq_true, Bool.not_eq_true'] at h
  rcases h with ⟨c, hl, hc⟩ | ⟨c, hh, hc⟩
  · obtain ⟨l, hl⟩ := List.getLast?_eq_some_iff.1 hl
    rw [hl, List.append_assoc, List.singleton_append, tokensAfter_append_cons hc,
      tokensAfter_append_cons hc, tokensAfter]
    simp [wordTokens]
  · obtain ⟨l, hl⟩ := List.head?_eq_some_iff.1 hh
    rw [hl, tokensAfter_append_cons hc, tokensAfter, if_neg (by simp [hc])]
    simp [wordTokens]

/-- The text neither begins nor ends with a name. -/
def IsMark (m : String) : Prop :=
  m.toList.head?.any (!isNameChar ·) ∧ m.toList.getLast?.any (!isNameChar ·)

instance (m : String) : Decidable (IsMark m) := inferInstanceAs (Decidable (_ ∧ _))

theorem tokens_append_mark {m : String} (hm : IsMark m) (a : String) :
    tokens (a ++ m) = tokens a ++ tokens m :=
  tokens_append (.inr hm.1)

theorem tokens_around_mark {m : String} (hm : IsMark m) (a b : String) :
    tokens (a ++ m ++ b) = tokens a ++ tokens m ++ tokens b := by
  obtain ⟨c, hc, hn⟩ := (Option.any_eq_true _ _).1 hm.2
  rw [tokens_append (.inl ?_), tokens_append_mark hm]
  rw [String.toList_append, List.getLast?_append, hc]
  exact hn

theorem tokens_intercalate (ss : List String) :
    tokens (String.intercalate ", " ss) = List.intercalate [.comma] (ss.map tokens) := by
  induction ss with
  | nil => rfl
  | cons s ss ih =>
    cases ss with
    | nil => simp
    | cons r rs =>
      rw [String.intercalate_cons_cons, tokens_around_mark (by decide), ih]
      exact List.intercalate_cons_cons.symm

theorem tokens_of_isName {x : String} (hx : IsName x) : tokens x = [.name x] := by
  obtain ⟨hi, hk⟩ := hx
  have hw : x.toList ≠ [] := by
    intro h
    simp [h, isIdentifier] at hi
  have hall : x.toList.all isNameChar := List.all_eq_true.2 (all_isNameChar_of_isIdentifier hi)
  rw [tokens, tokensAfter_word hall, List.nil_append, wordTokens, if_neg hw, String.ofList_toList]
  have hc : x ≠ "const" := by
    rintro rfl
    exact hk (by decide)
  have ht : x ∉ typeWords := fun h => hk (List.mem_append_left _ h)
  rw [wordToken, if_neg hc, if_neg ht, if_pos ⟨hi, hk⟩]

/-! ### Steps of the reader -/

/-- What may follow a whole declaration. -/
def Ends (ts : List Token) : Prop := ts = [] ∨ ∃ rest, ts = .right :: rest ∨ ts = .comma :: rest

/-- The tokens are read as a declarator of `x` that makes `f t` of the base type `t`. -/
structure IsHead (head : List Token) (x : String) (f : Meaning → Meaning) : Prop where
  first : head = [] ∨
    ∃ ts, head = .star :: ts ∨ head = .left :: .star :: ts ∨ ∃ y, head = .name y :: ts
  reads : ∀ rest n, Ends rest → 2 * (head ++ rest).length + 1 < n →
    declarator n (head ++ rest) = some ((x, f), rest)

/-- The tokens are read as the list of parameters behind a declarator. -/
def IsSuffix (ts : List Token) (g : Meaning → Meaning) : Prop :=
  ∃ inner, ts = .left :: inner ∧ ∀ rest n, 2 * (ts ++ rest).length < n →
    suffix n (ts ++ rest) = some (g, rest)

/-- The tokens are read as a declaration of a single name. -/
def IsDeclaration (ts : List Token) (d : Declared) : Prop :=
  ∀ rest n, Ends rest → 2 * (ts ++ rest).length < n → declaration n (ts ++ rest) = some (d, rest)

theorem suffix_of_ends {rest : List Token} (h : Ends rest) (n : Nat) :
    suffix (n + 1) rest = some (id, rest) := by
  rcases h with rfl | ⟨ts, rfl | rfl⟩ <;> rfl

theorem declarator_of_ends {rest : List Token} (h : Ends rest) (n : Nat) :
    declarator (n + 2) rest = some (("", id), rest) := by
  rcases h with rfl | ⟨ts, rfl | rfl⟩ <;> rfl

theorem isHead_nil : IsHead [] "" id where
  first := Or.inl rfl
  reads rest n hrest hn := by
    obtain ⟨k, rfl⟩ : ∃ k, n = k + 2 := ⟨n - 2, by omega⟩
    exact declarator_of_ends hrest k

theorem isHead_name (x : String) : IsHead [.name x] x id where
  first := Or.inr ⟨[], Or.inr (Or.inr ⟨x, rfl⟩)⟩
  reads rest n hrest hn := by
    obtain ⟨k, rfl⟩ : ∃ k, n = k + 2 := ⟨n - 2, by omega⟩
    rw [List.singleton_append, declarator, suffix_of_ends hrest k]
    rfl

namespace IsHead

variable {head : List Token} {x : String} {f : Meaning → Meaning}

/-- A head does not begin with a qualifier, so the one that follows a star is the star's own. -/
theorem qualifier_append (h : IsHead head x f) {rest : List Token} (hrest : Ends rest) :
    qualifier (head ++ rest) = (false, head ++ rest) := by
  rcases h.first with rfl | ⟨ts, rfl | rfl | ⟨y, rfl⟩⟩
  · rcases hrest with rfl | ⟨ts, rfl | rfl⟩ <;> rfl
  all_goals rfl

theorem star (h : IsHead head x f) (isConst : Bool) :
    IsHead (.star :: (if isConst then [.const] else []) ++ head) x
      (fun t => f (.pointer isConst t)) where
  first := Or.inr ⟨_, Or.inl rfl⟩
  reads rest n hrest hn := by
    obtain ⟨k, rfl⟩ : ∃ k, n = k + 1 := ⟨n - 1, by omega⟩
    have hq : qualifier ((if isConst then [.const] else []) ++ (head ++ rest)) =
        (isConst, head ++ rest) := by
      cases isConst with
      | false => exact h.qualifier_append hrest
      | true => rfl
    have hk : 2 * (head ++ rest).length + 1 < k := by
      simp only [List.length_append, List.length_cons] at hn ⊢
      omega
    rw [List.cons_append, List.cons_append, List.append_assoc, declarator, hq, h.reads rest k hrest hk]
    rfl

/-- The list of parameters behind the parentheses applies before the stars within. -/
theorem group {ts : List Token} (h : IsHead (.star :: head) x f) {g : Meaning → Meaning}
    (hs : IsSuffix ts g) :
    IsHead (.left :: .star :: head ++ .right :: ts) x (fun t => f (g t)) where
  first := Or.inr ⟨_, Or.inr (Or.inl rfl)⟩
  reads rest n hrest hn := by
    obtain ⟨k, rfl⟩ : ∃ k, n = k + 1 := ⟨n - 1, by omega⟩
    obtain ⟨inner, rfl, hs⟩ := hs
    simp only [List.length_append, List.length_cons] at hn
    have hinner := h.reads (.right :: (.left :: inner ++ rest)) k (Or.inr ⟨_, Or.inl rfl⟩)
      (by simp only [List.length_append, List.length_cons]; omega)
    have houter := hs rest k (by simp only [List.length_append, List.length_cons]; omega)
    have hts : .left :: .star :: head ++ .right :: .left :: inner ++ rest =
        .left :: .star :: (head ++ .right :: (.left :: inner ++ rest)) := by
      simp only [List.cons_append, List.append_assoc]
    rw [hts, declarator, ← List.cons_append, hinner]
    change (suffix k (.left :: inner ++ rest) >>= fun r =>
      some ((x, fun t => f (r.1 t)), r.2)) = _
    rw [houter]
    rfl

theorem function {ts : List Token} {g : Meaning → Meaning} (hs : IsSuffix ts g) :
    IsHead (.name x :: ts) x g where
  first := Or.inr ⟨_, Or.inr (Or.inr ⟨x, rfl⟩)⟩
  reads rest n hrest hn := by
    obtain ⟨k, rfl⟩ : ∃ k, n = k + 1 := ⟨n - 1, by omega⟩
    obtain ⟨inner, rfl, hs⟩ := hs
    simp only [List.length_append, List.length_cons] at hn
    rw [List.cons_append, declarator,
      hs rest k (by simp only [List.length_append, List.length_cons]; omega)]
    rfl

end IsHead

/-! ### Lists of parameters -/

/-- What stands between parentheses as `(void)` is a declaration of its own, of type void. -/
theorem afterVoid?_eq_none {ts rest : List Token} {d : Declared} {n : Nat}
    (h : declaration n ts = some (d, rest)) (hd : d ≠ .mk "" (.base false "void")) :
    afterVoid? ts = none := by
  unfold afterVoid?
  split
  · next w ts =>
    split
    · next hw =>
      subst hw
      rcases n with _ | _ | _ | n
      · cases h
      · cases h
      · cases h
      · cases h
        exact absurd rfl hd
    · rfl
  · rfl

/-- The tokens of a parenthesised list of parameters. -/
def parameterTokens (ps : List (List Token)) : List Token :=
  .left :: (if ps = [] then [.typeWord "void"] else List.intercalate [.comma] ps) ++ [.right]

theorem parameters_intercalate {p : List Token} {ps : List (List Token)} {d : Declared}
    {ds : List Declared} (hp : IsDeclaration p d) (hps : List.Forall₂ IsDeclaration ps ds)
    {rest : List Token} {n : Nat}
    (hn : 2 * (List.intercalate [.comma] (p :: ps) ++ .right :: rest).length + 1 < n) :
    parameters n (List.intercalate [.comma] (p :: ps) ++ .right :: rest) = some (d :: ds, rest) := by
  induction hps generalizing p d n with
  | nil =>
    obtain ⟨k, rfl⟩ : ∃ k, n = k + 1 := ⟨n - 1, by omega⟩
    rw [List.intercalate_singleton] at hn ⊢
    rw [parameters, hp _ k (Or.inr ⟨_, Or.inl rfl⟩) (by omega)]
    rfl
  | @cons q e qs es hq hqs ih =>
    obtain ⟨k, rfl⟩ : ∃ k, n = k + 1 := ⟨n - 1, by omega⟩
    rw [List.intercalate_cons_cons, List.append_assoc, List.append_assoc,
      List.singleton_append] at hn ⊢
    simp only [List.length_append, List.length_cons] at hn
    have hfirst := hp (.comma :: (List.intercalate [.comma] (q :: qs) ++ .right :: rest)) k
      (Or.inr ⟨_, Or.inr rfl⟩) (by simp only [List.length_append, List.length_cons]; omega)
    have hrest := ih hq (n := k) (by simp only [List.length_append, List.length_cons]; omega)
    rw [parameters, hfirst]
    change (parameters k _ >>= fun r => some (d :: r.1, r.2)) = _
    rw [hrest]
    rfl

theorem exists_declaration_intercalate {p : List Token} {d : Declared} (hp : IsDeclaration p d)
    (ps : List (List Token)) {rest : List Token} {n : Nat}
    (hn : 2 * (List.intercalate [.comma] (p :: ps) ++ .right :: rest).length < n) :
    ∃ rest', declaration n (List.intercalate [.comma] (p :: ps) ++ .right :: rest) =
      some (d, rest') := by
  cases ps with
  | nil =>
    rw [List.intercalate_singleton] at hn ⊢
    exact ⟨_, hp _ n (Or.inr ⟨_, Or.inl rfl⟩) hn⟩
  | cons q ps =>
    rw [List.intercalate_cons_cons, List.append_assoc, List.append_assoc,
      List.singleton_append] at hn ⊢
    exact ⟨_, hp _ n (Or.inr ⟨_, Or.inr rfl⟩) hn⟩

theorem isSuffix_parameterTokens {ps : List (List Token)} {ds : List Declared}
    (h : List.Forall₂ IsDeclaration ps ds) (hv : ∀ d ∈ ds, d ≠ .mk "" (.base false "void")) :
    IsSuffix (parameterTokens ps) (.function ds) := by
  refine ⟨_, rfl, fun rest n hn => ?_⟩
  obtain ⟨k, rfl⟩ : ∃ k, n = k + 1 := ⟨n - 1, by omega⟩
  cases h with
  | nil => rfl
  | @cons p d ps ds hp hps =>
    rw [parameterTokens, if_neg (by simp), List.append_assoc, List.singleton_append,
      List.cons_append] at hn ⊢
    simp only [List.length_append, List.length_cons] at hn
    have hread : parameters k (List.intercalate [.comma] (p :: ps) ++ .right :: rest) =
        some (d :: ds, rest) :=
      parameters_intercalate hp hps (by simp only [List.length_append, List.length_cons]; omega)
    have hvoid : afterVoid? (List.intercalate [.comma] (p :: ps) ++ .right :: rest) = none := by
      -- were the list `(void)`, then its first parameter would be void
      obtain ⟨rest', hfirst⟩ := exists_declaration_intercalate hp ps (Nat.lt_succ_self _)
      exact afterVoid?_eq_none hfirst (hv d List.mem_cons_self)
    rw [suffix, hvoid]
    change (parameters k _ >>= fun r => some (Meaning.function r.1, r.2)) = _
    rw [hread]
    rfl

theorem tokens_parameterList (ss : List String) :
    .left :: tokens (if ss.isEmpty then "void" else String.intercalate ", " ss) ++ [.right] =
      parameterTokens (ss.map tokens) := by
  cases ss with
  | nil => rfl
  | cons s ss =>
    rw [if_neg (by simp), tokens_intercalate, parameterTokens, if_neg (by simp)]

/-! ### Base types -/

/-- The reader takes the text for the words of a base type. -/
def IsBase (words : String) : Prop :=
  ∀ isConst, specifiers isConst [] (tokens words) = some ((isConst, words), [])

instance (words : String) : Decidable (IsBase words) := inferInstanceAs (Decidable (∀ _, _))

theorem isBase_of_isName {x : String} (hx : IsName x) : IsBase x := by
  intro isConst
  rw [tokens_of_isName hx, specifiers, if_pos rfl]
  simp [specifiers]

theorem specifiers_append {isConst : Bool} {words : List String} {ts rest : List Token}
    {b : Bool × String} (h : specifiers isConst words ts = some (b, []))
    (hrest : ∀ isConst words, words ≠ [] →
      specifiers isConst words rest = some ((isConst, String.intercalate " " words), rest)) :
    specifiers isConst words (ts ++ rest) = some (b, rest) := by
  induction ts generalizing isConst words with
  | nil =>
    rw [specifiers.eq_def] at h
    dsimp only at h
    split at h
    · cases h
    · next hw =>
      cases h
      exact hrest isConst words hw
  | cons t ts ih =>
    cases t with
    | const =>
      rw [List.cons_append, specifiers]
      exact ih h
    | typeWord w =>
      rw [specifiers] at h
      split at h
      · next hw =>
        rw [List.cons_append, specifiers, if_pos hw]
        exact ih h
      · cases h
    | name x =>
      rw [specifiers] at h
      split at h
      · next hw =>
        rw [List.cons_append, specifiers, if_pos hw]
        exact ih h
      · cases h
    | star | left | right | comma | other =>
      rw [specifiers.eq_def] at h
      dsimp only at h
      split at h <;> cases h

theorem IsHead.specifiers_append {head rest : List Token} {x : String} {f : Meaning → Meaning}
    (h : IsHead head x f) (hrest : Ends rest) (isConst : Bool) {words : List String}
    (hw : words ≠ []) :
    specifiers isConst words (head ++ rest) =
      some ((isConst, String.intercalate " " words), head ++ rest) := by
  rcases h.first with rfl | ⟨ts, rfl | rfl | ⟨y, rfl⟩⟩
  · rcases hrest with rfl | ⟨ts, rfl | rfl⟩
    all_goals
      rw [List.nil_append, specifiers.eq_def]
      exact if_neg hw
  all_goals
    simp only [List.cons_append]
    rw [specifiers.eq_def]
    exact if_neg hw

theorem isDeclaration_of_isBase {words : String} (hw : IsBase words) (isConst : Bool)
    {head : List Token} {x : String} {f : Meaning → Meaning} (h : IsHead head x f) :
    IsDeclaration ((if isConst then [.const] else []) ++ tokens words ++ head)
      (.mk x (f (.base isConst words))) := by
  intro rest n hrest hn
  obtain ⟨k, rfl⟩ : ∃ k, n = k + 1 := ⟨n - 1, by omega⟩
  have hs : specifiers false [] ((if isConst then [.const] else []) ++ tokens words ++ head ++ rest) =
      some ((isConst, words), head ++ rest) := by
    rw [List.append_assoc, List.append_assoc]
    cases isConst with
    | false =>
      exact Reading.specifiers_append (hw false) fun _ _ h' => h.specifiers_append hrest _ h'
    | true =>
      exact Reading.specifiers_append (hw true) fun _ _ h' => h.specifiers_append hrest _ h'
  have hne : tokens words ≠ [] := by
    intro h0
    have := hw false
    rw [h0] at this
    cases this
  have hpos := List.length_pos_of_ne_nil hne
  simp only [List.length_append] at hn
  rw [declaration, hs]
  change (declarator k (head ++ rest) >>= fun r =>
    some (Declared.mk r.1.1 (r.1.2 (.base isConst words)), r.2)) = _
  rw [h.reads rest k hrest (by simp only [List.length_append]; omega)]
  rfl

/-- A text is read as the declaration that its tokens are. -/
theorem read_of_isDeclaration {s : String} {d : Declared} (h : IsDeclaration (tokens s) d) :
    read s = some d := by
  have hr := h [] (2 * (tokens s).length + 1) (Or.inl rfl) (by rw [List.append_nil]; omega)
  rw [List.append_nil] at hr
  rw [read, hr]

end FfiHeaders.Reading
