import FfiHeaders.Proofs.Run
import FfiHeaders.Proofs.WordNames

/-!
# Deposits

What a call leaves behind depends on the call and on the name of the library, not on what went before.
So a run puts down one deposit after the other, each at one header.
-/
namespace FfiHeaders

/-- What a call leaves at a header: the type names that it mentions and, unless it fails on the way,
a text with the type name that the text declares. -/
structure Deposit where
  header : String
  mentions : List Symbol
  written : Option (String × Option Symbol)

namespace Deposit

/-- The header that a deposit makes the home of the type `n`, if it declares that type. -/
def home? (n : Symbol) (p : Deposit) : Option String :=
  match p.written with
  | some (_, some m) => if m = n then some p.header else none
  | _ => none

/-- The type that a deposit declares, if it declares one, is named by a word. -/
def DeclaresWord (p : Deposit) : Prop := ∀ text n, p.written = some (text, some n) → n.isWord

end Deposit

/-- What a declaration leaves at the header `h`. -/
def Declaration.deposit (d : Declaration) (h : String) : Deposit where
  header := h
  mentions := d.render.mentions
  written :=
    match d.render.result with
    | .ok text => some (text, if d.declaresType then Symbol.ofValue? d.name else none)
    | .error _ => none

theorem Declaration.declares_of_deposit {d : Declaration} {h text : String} {n : Symbol}
    (hw : (d.deposit h).written = some (text, some n)) :
    d.render.result = .ok text ∧ d.declaresType ∧ Symbol.ofValue? d.name = some n := by
  unfold deposit at hw
  dsimp only at hw
  split at hw
  · next u hr =>
    obtain ⟨rfl, hn⟩ := Prod.mk.inj (Option.some.inj hw)
    split at hn
    · next ht => exact ⟨hr, ht, hn⟩
    · cases hn
  · cases hw

namespace Call

/-- The header of the module that a call is for, if it has one. -/
def header? (libName : Value) (c : Call) : Option String :=
  match Header.ofModule libName c.module with
  | .ok h => some h
  | .error _ => none

/-- What a call leaves behind. A skipped declaration leaves nothing, and neither does one that is
rejected before its types are looked at. -/
def deposit? (libName : Value) (c : Call) : Option Deposit :=
  match c.item with
  | .declaration d =>
    match d.skip?, d.check with
    | .ok none, .ok () => (c.header? libName).map d.deposit
    | _, _ => none
  | .module _ _ => none

theorem exists_of_deposit? {libName : Value} {c : Call} {p : Deposit}
    (hp : c.deposit? libName = some p) :
    ∃ d h, c.item = .declaration d ∧ d.skip? = .ok none ∧ d.check = .ok () ∧
      Header.ofModule libName c.module = .ok h ∧ p = d.deposit h := by
  unfold deposit? at hp
  split at hp
  · next d hi =>
    split at hp
    · next hs hc =>
      obtain ⟨h, hh, rfl⟩ := Option.map_eq_some_iff.1 hp
      unfold header? at hh
      split at hh
      · next k hk =>
        obtain rfl := Option.some.inj hh
        exact ⟨d, k, hi, hs, hc, hk, rfl⟩
      · cases hh
    · cases hp
  · cases hp

theorem header?_of_deposit? {libName : Value} {c : Call} {p : Deposit}
    (hp : c.deposit? libName = some p) : c.header? libName = some p.header := by
  obtain ⟨d, h, -, -, -, hm, rfl⟩ := exists_of_deposit? hp
  rw [header?, hm]
  rfl

end Call

namespace State

def receive (s : State) (p : Deposit) : State :=
  let s := s.addMentions p.header p.mentions
  match p.written with
  | none => s
  | some (text, none) => s.append p.header text
  | some (text, some n) => (s.append p.header text).declare n p.header

theorem write_state (s : State) (h : String) (d : Declaration) :
    (s.write h d).1 = s.receive (d.deposit h) := by
  unfold write receive Declaration.deposit
  dsimp only
  split
  · next f hr => rw [hr]
  · next text hr =>
    rw [hr]
    dsimp only
    split
    · split
      · next n hn => rw [hn]
      · next hn => rw [hn]
    · rfl

/-- The state after a call is the one before it with the deposit of the call. -/
theorem emitItem_state (s : State) (c : Call) :
    (s.emitItem c.module c.item).1 = (c.deposit? s.libName).elim s s.receive := by
  obtain ⟨module, item⟩ := c
  cases item with
  | module name items => rfl
  | declaration d =>
    rw [emitItem, emit, Call.deposit?]
    dsimp only
    split
    · next f hs => rw [hs]; rfl
    · next r hs => rw [hs]; rfl
    · next hs =>
      rw [hs]
      split
      · next f hc => rw [hc]; rfl
      · next hc =>
        rw [hc, Call.header?]
        dsimp only
        split
        · next f hm => rw [hm]; rfl
        · next h hm =>
          rw [hm]
          exact write_state s h d

@[simp] theorem receive_libName (s : State) (p : Deposit) : (s.receive p).libName = s.libName := by
  obtain ⟨h, ms, _ | ⟨text, _ | n⟩⟩ := p <;> simp [receive, append, declare]

@[simp] theorem receive_isFinalised (s : State) (p : Deposit) :
    (s.receive p).isFinalised = s.isFinalised := by
  obtain ⟨h, ms, _ | ⟨text, _ | n⟩⟩ := p <;> simp [receive, append, declare]

theorem receive_deps (s : State) (p : Deposit) :
    (s.receive p).deps = (s.addMentions p.header p.mentions).deps := by
  obtain ⟨h, ms, _ | ⟨text, _ | n⟩⟩ := p <;> rfl

theorem receive_outputs (s : State) (p : Deposit) :
    (s.receive p).outputs =
      match p.written with
      | none => s.outputs
      | some (text, _) => s.outputs.set p.header (s.output p.header ++ text) := by
  obtain ⟨h, ms, _ | ⟨text, _ | n⟩⟩ := p <;> simp [receive, append, declare, output]

theorem receive_decls (s : State) (p : Deposit) :
    (s.receive p).decls =
      match p.written with
      | some (_, some n) => s.decls.set (n.spelledIn s.decls.keys) p.header
      | _ => s.decls := by
  obtain ⟨h, ms, _ | ⟨text, _ | n⟩⟩ := p <;> simp [receive, append, declare]

theorem run_eq_foldl (s : State) (cs : List Call) :
    s.run cs = (cs.filterMap (Call.deposit? s.libName)).foldl receive s := by
  induction cs generalizing s with
  | nil => rfl
  | cons c cs ih =>
    rw [run, ih, emitItem_state]
    cases hp : c.deposit? s.libName with
    | none => rw [List.filterMap_cons_none hp]; rfl
    | some p =>
      rw [List.filterMap_cons_some hp, List.foldl_cons, Option.elim_some, receive_libName]

theorem foldl_receive_libName (ps : List Deposit) (s : State) :
    (ps.foldl receive s).libName = s.libName := by
  induction ps generalizing s with
  | nil => rfl
  | cons p ps ih => rw [List.foldl_cons, ih, receive_libName]

theorem foldl_receive_isFinalised (ps : List Deposit) (s : State) :
    (ps.foldl receive s).isFinalised = s.isFinalised := by
  induction ps generalizing s with
  | nil => rfl
  | cons p ps ih => rw [List.foldl_cons, ih, receive_isFinalised]

/-! ### One header -/

/-- Two states hold the same at a header. -/
structure AgreeAt (h : String) (s t : State) : Prop where
  outputs : s.outputs.get? h = t.outputs.get? h
  deps : s.deps.get? h = t.deps.get? h

namespace AgreeAt

variable {h : String} {s t u : State}

theorem refl (h : String) (s : State) : AgreeAt h s s := ⟨rfl, rfl⟩

theorem symm (hst : AgreeAt h s t) : AgreeAt h t s := ⟨hst.outputs.symm, hst.deps.symm⟩

theorem trans (hst : AgreeAt h s t) (htu : AgreeAt h t u) : AgreeAt h s u :=
  ⟨hst.outputs.trans htu.outputs, hst.deps.trans htu.deps⟩

theorem receive_of_ne {p : Deposit} (hp : p.header ≠ h) : AgreeAt h (s.receive p) s where
  outputs := by
    rw [receive_outputs]
    split
    · rfl
    · rw [Table.get?_set, if_neg hp]
  deps := by
    rw [receive_deps, addMentions]
    split
    · rfl
    · rw [Table.get?_set, if_neg hp]

theorem receive (hst : AgreeAt h s t) (p : Deposit) : AgreeAt h (s.receive p) (t.receive p) := by
  by_cases hp : p.header = h
  · subst hp
    have hout : s.output p.header = t.output p.header := by rw [output, output, hst.outputs]
    have hmen : s.mentioned p.header = t.mentioned p.header := by
      rw [mentioned, mentioned, hst.deps]
    constructor
    · rw [receive_outputs, receive_outputs, hout]
      split
      · exact hst.outputs
      · rw [Table.get?_set, Table.get?_set, if_pos rfl, if_pos rfl]
    · rw [receive_deps, receive_deps, addMentions, addMentions, hmen]
      split
      · exact hst.deps
      · rw [Table.get?_set, Table.get?_set, if_pos rfl, if_pos rfl]
  · exact (receive_of_ne hp).trans (hst.trans (receive_of_ne hp).symm)

theorem foldl_filter (hst : AgreeAt h s t) (ps : List Deposit) :
    AgreeAt h (ps.foldl State.receive s) ((ps.filter (·.header = h)).foldl State.receive t) := by
  induction ps generalizing s t with
  | nil => exact hst
  | cons p ps ih =>
    by_cases hp : p.header = h
    · rw [List.filter_cons_of_pos (by simpa using hp)]
      exact ih (hst.receive p)
    · rw [List.filter_cons_of_neg (by simpa using hp)]
      exact ih ((receive_of_ne hp).trans hst)

end AgreeAt

/-! ### Homes of types -/

theorem receive_decls_of_declaresWord {p : Deposit} (hp : p.DeclaresWord) (s : State) :
    (s.receive p).decls =
      match p.written with
      | some (_, some n) => s.decls.set n p.header
      | _ => s.decls := by
  rw [receive_decls]
  split
  · next text n hw =>
    obtain ⟨m, rfl⟩ := Symbol.isWord_iff.1 (hp text n hw)
    rw [Symbol.spelledIn_word]
  · rfl

theorem decls_foldl (n : Symbol) {ps : List Deposit} (hps : ∀ p ∈ ps, p.DeclaresWord) (s : State) :
    (ps.foldl receive s).decls.get? n =
      (ps.filterMap (Deposit.home? n)).getLast?.or (s.decls.get? n) := by
  induction ps generalizing s with
  | nil => rfl
  | cons p ps ih =>
    obtain ⟨hp, hps⟩ := List.forall_mem_cons.1 hps
    have hfirst : (s.receive p).decls.get? n = (p.home? n).or (s.decls.get? n) := by
      rw [receive_decls_of_declaresWord hp, Deposit.home?]
      split
      · rw [Table.get?_set]
        split <;> rfl
      · rfl
    rw [List.foldl_cons, ih hps, hfirst]
    cases hh : p.home? n with
    | none => rw [List.filterMap_cons_none hh, Option.none_or]
    | some h =>
      rw [List.filterMap_cons_some hh, List.getLast?_cons]
      cases (ps.filterMap (Deposit.home? n)).getLast? <;> rfl

theorem isWord_of_mem_keys_foldl {ps : List Deposit} (hps : ∀ p ∈ ps, p.DeclaresWord) {s : State}
    (hs : ∀ n ∈ s.decls.keys, n.isWord) : ∀ n ∈ (ps.foldl receive s).decls.keys, n.isWord := by
  induction ps generalizing s with
  | nil => exact hs
  | cons p ps ih =>
    obtain ⟨hp, hps⟩ := List.forall_mem_cons.1 hps
    refine ih hps fun n hn => ?_
    rw [receive_decls_of_declaresWord hp] at hn
    split at hn
    · next text m hw =>
      rcases Table.mem_keys_set.1 hn with rfl | hn
      · exact hp text n hw
      · exact hs n hn
    · exact hs n hn

theorem home?_of_isWord {s : State} (hs : ∀ n ∈ s.decls.keys, n.isWord) (n : Symbol) :
    s.home? n = s.decls.get? n := by
  have hspelled : n.spelledIn s.decls.keys = n := by
    unfold Symbol.spelledIn
    cases hf : s.decls.keys.find? n.same with
    | none => rfl
    | some m =>
      obtain ⟨k, rfl⟩ := Symbol.isWord_iff.1 (hs m (List.mem_of_find?_eq_some hf))
      have hsame := List.find?_some hf
      rw [Symbol.same_comm] at hsame
      exact Symbol.same_word_left.1 hsame
  rw [home?, hspelled]

end State

end FfiHeaders
