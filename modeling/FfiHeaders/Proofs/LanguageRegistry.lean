import FfiHeaders.Language.Registry
import Mathlib.Data.List.Nodup

/-!
# What a registry holds

A client registers languages and asks for them in any order. Whatever it does, the registry holds the
registrations that were accepted, in their order, and every query is answered from them.
-/
namespace FfiHeaders.Language

theorem backend_of_instantiate {b : Backend} {name : String} {options : Options} {i : Instance}
    (h : Registry.instantiate b name options = .ok i) : i.backend = b := by
  cases b with
  | c =>
    rw [Registry.instantiate, Registry.newC] at h
    split at h <;> cases h
    rfl
  | client label =>
    rw [Registry.instantiate, Registry.newClient] at h
    split at h <;> cases h
    rfl

/-- What a client can do with a registry. -/
inductive Operation
  | register (l : Registration)
  | names
  | isAvailable (name : String)
  | info
  | getDefault
  | get (name : Option String) (options : Options)

/-- Whether an operation is a query. A request with a setting called `name` fails before it becomes
one. -/
def Operation.isQuery : Operation → Bool
  | .register _ => false
  | .get _ options => !options.any fun o => o.1 == "name"
  | _ => true

/-- The default among languages in order of registration: the last one registered as such, or else
the first of all. -/
def defaultAmong (ls : List Registration) : Option String :=
  ((ls.reverse.find? (·.isDefault)).or ls.head?).map (·.name)

section DefaultAmong

variable {ls : List Registration}

theorem defaultAmong_eq_none : defaultAmong ls = none ↔ ls = [] := by
  rw [defaultAmong, Option.map_eq_none_iff, Option.or_eq_none_iff, List.head?_eq_none_iff]
  exact ⟨And.right, fun h => ⟨h ▸ rfl, h⟩⟩

theorem defaultAmong_append (ls : List Registration) (l : Registration) :
    defaultAmong (ls ++ [l]) =
      if l.isDefault || (defaultAmong ls).isNone then some l.name else defaultAmong ls := by
  have hfind : (ls ++ [l]).reverse.find? (·.isDefault) =
      if l.isDefault then some l else ls.reverse.find? (·.isDefault) := by
    rw [List.reverse_concat, List.find?_cons]
    cases l.isDefault <;> rfl
  rw [defaultAmong, hfind]
  cases hl : l.isDefault with
  | true => rfl
  | false =>
    cases ls with
    | nil => rfl
    | cons l' ls =>
      have hsome : (defaultAmong (l' :: ls)).isNone = false := by
        rw [Option.isNone_eq_false_iff, Option.isSome_iff_ne_none, ne_eq, defaultAmong_eq_none]
        exact List.cons_ne_nil l' ls
      rw [hsome]
      rfl

theorem mem_of_defaultAmong {n : String} (h : defaultAmong ls = some n) :
    n ∈ ls.map (·.name) := by
  obtain ⟨l, hl, rfl⟩ := Option.map_eq_some_iff.1 h
  refine List.mem_map_of_mem ?_
  rcases Option.or_eq_some_iff.1 hl with hl | ⟨-, hl⟩
  · exact List.mem_reverse.1 (List.mem_of_find?_eq_some hl)
  · exact List.mem_of_mem_head? hl

end DefaultAmong

/-- What is told of the languages `ls`. -/
def infoAmong (ls : List Registration) : List Info :=
  ls.map fun l => ⟨l.name, l.entry.description, defaultAmong ls == some l.name⟩

theorem countP_infoAmong {ls : List Registration} (hd : (ls.map (·.name)).Nodup) (h : ls ≠ []) :
    (infoAmong ls).countP (·.isDefault) = 1 := by
  obtain ⟨n, hn⟩ := Option.ne_none_iff_exists'.1 (mt defaultAmong_eq_none.1 h)
  have hsame (l : Registration) : (some n == some l.name) = (l.name == n) := by
    rw [Option.some_beq_some]
    exact Bool.beq_comm
  calc (infoAmong ls).countP (·.isDefault)
    _ = (ls.map (·.name)).count n := by
      rw [infoAmong, List.countP_map, List.count, List.countP_map, hn]
      exact List.countP_congr fun l _ => Eq.congr_left (hsame l)
    _ = 1 := List.count_eq_one_of_mem hd (mem_of_defaultAmong hn)

namespace Registry

def after (r : Registry) : Operation → Registry
  | .register l => (r.register l).1
  | .names => r.names.1
  | .isAvailable name => (r.isAvailable name).1
  | .info => r.info.1
  | .getDefault => r.getDefault.1
  | .get name options => (r.get name options).1

/-- The registry after a session. An operation that fails does not end the session. -/
def session (r : Registry) : List Operation → Registry
  | [] => r
  | o :: os => (r.after o).session os

/-- The registrations that an operation comes to: that of the client, or that of C at the first
query. -/
def offers (r : Registry) : Operation → List Registration
  | .register l => [l]
  | o => if o.isQuery && !r.isLoaded then [cRegistration] else []

def accepts (r : Registry) (l : Registration) : Bool := (r.register l).2.isOk

/-- The registrations of a session that succeed, in order. -/
def accepted (r : Registry) : List Operation → List Registration
  | [] => []
  | o :: os => (r.offers o).filter r.accepts ++ (r.after o).accepted os

/-- The registry holds the languages `ls`, registered in this order. Once it is loaded there are
some. -/
structure Holds (r : Registry) (ls : List Registration) : Prop where
  entries : r.entries.entries = ls.map fun l => (l.name, l.entry)
  default : r.default = defaultAmong ls
  ne_nil : r.isLoaded → ls ≠ []

/-- Queries are answered from the languages `ls`. -/
structure Answers (r : Registry) (ls : List Registration) : Prop where
  names : r.names.2 = .ok (ls.map (·.name))
  isAvailable (n : String) : (r.isAvailable n).2 = .ok (decide (n ∈ ls.map (·.name)))
  info : r.info.2 = .ok (infoAmong ls)
  marks_one : (infoAmong ls).countP (·.isDefault) = 1
  getDefault : ∃ n, defaultAmong ls = some n ∧ r.getDefault.2 = .ok n ∧
    ∀ options, (r.get none options).2 = (r.get (some n) options).2
  get {n : String} {l : Registration} {options : Options} :
    ls.find? (·.name == n) = some l → (options.any fun o => o.1 == "name") = false →
      (r.get (some n) options).2 = instantiate l.backend n options
  get_backend {n : String} {options : Options} {i : Instance} :
    (r.get (some n) options).2 = .ok i →
      ∃ l, ls.find? (·.name == n) = some l ∧ i.backend = l.backend
  get_unknown {n : String} {options : Options} :
    n ∉ ls.map (·.name) → (options.any fun o => o.1 == "name") = false →
      (r.get (some n) options).2 = .error (.language (.unknown n (ls.map (·.name))))

variable {r : Registry} {ls : List Registration}

/-- That a registry is marked as loaded makes no difference to a registration. -/
theorem load_of_not_isLoaded (h : r.isLoaded = false) :
    r.load = ({ (r.register cRegistration).1 with isLoaded := true },
      (r.register cRegistration).2) := by
  rw [load, h, if_neg Bool.false_ne_true, register, register]
  split <;> rfl

theorem query_fst {α : Type} (ask : Registry → Except Failure α) :
    (r.query ask).1 = r.load.1 := by
  rw [query]
  split
  · next h => rw [h]
  · next h => rw [h]

theorem query_snd_of_ok {α : Type} {ask : Registry → Except Failure α} (h : r.load.2 = .ok ()) :
    (r.query ask).2 = ask r.load.1 := by
  rw [query]
  split
  · next hl => rw [hl]
  · next hl => rw [hl] at h; cases h

theorem get_snd_of_ok {name : Option String} {options : Options} (h : r.load.2 = .ok ())
    (ho : (options.any fun o => o.1 == "name") = false) :
    (r.get name options).2 = r.load.1.instanceOf name options := by
  rw [get, ho]
  exact query_snd_of_ok h

theorem after_of_isQuery {o : Operation} (h : o.isQuery) : r.after o = r.load.1 := by
  cases o with
  | register l => cases h
  | get name options =>
    rw [Operation.isQuery, Bool.not_eq_true'] at h
    rw [after, get, h]
    exact query_fst _
  | names | isAvailable | info | getDefault => exact query_fst _

theorem offers_of_isQuery {o : Operation} (h : o.isQuery) :
    r.offers o = if r.isLoaded then [] else [cRegistration] := by
  cases o with
  | register l => cases h
  | names | isAvailable | info | getDefault | get =>
    cases hr : r.isLoaded <;> simp [offers, h, hr]

/-- A request that fails before it becomes a query leaves no trace. -/
theorem after_get_of_not_isQuery {name : Option String} {options : Options}
    (h : (Operation.get name options).isQuery = false) : r.after (.get name options) = r := by
  rw [Operation.isQuery, Bool.not_eq_false'] at h
  rw [after, get, if_pos h]

theorem isLoaded_register (r : Registry) (l : Registration) :
    (r.register l).1.isLoaded = r.isLoaded := by
  rw [register]
  split <;> rfl

theorem isLoaded_after (r : Registry) (o : Operation) :
    (r.after o).isLoaded = (r.isLoaded || o.isQuery) := by
  cases ho : o.isQuery with
  | true => rw [after_of_isQuery ho, isLoaded_load, Bool.or_true]
  | false =>
    rw [Bool.or_false]
    cases o with
    | register l => exact isLoaded_register r l
    | get name options => rw [after_get_of_not_isQuery ho]
    | names | isAvailable | info | getDefault => cases ho

theorem isLoaded_session (r : Registry) (os : List Operation) :
    (r.session os).isLoaded = (r.isLoaded || os.any (·.isQuery)) := by
  induction os generalizing r with
  | nil => exact (Bool.or_false _).symm
  | cons o os ih => rw [session, ih, isLoaded_after, List.any_cons, Bool.or_assoc]

namespace Holds

theorem fresh : fresh.Holds [] := ⟨rfl, rfl, nofun⟩

section

variable (h : r.Holds ls)
include h

theorem keys : r.entries.keys = ls.map (·.name) := by
  rw [Table.keys, h.entries, List.map_map]
  rfl

theorem nodup : (ls.map (·.name)).Nodup := h.keys ▸ r.entries.nodup_keys

theorem contains {n : String} : r.entries.contains n ↔ n ∈ ls.map (·.name) := by
  rw [Table.contains_iff, h.keys]

theorem get? (n : String) :
    r.entries.get? n = (ls.find? (·.name == n)).map (·.entry) := by
  rw [Table.get?, h.entries]
  clear h
  induction ls with
  | nil => rfl
  | cons l ls ih =>
    rw [List.map_cons, Table.lookup, List.find?_cons, ih]
    by_cases hn : l.name = n
    · rw [if_pos hn, beq_iff_eq.2 hn]
      rfl
    · rw [if_neg hn, beq_eq_false_iff_ne.2 hn]

theorem instanceOf_some (n : String) (options : Options) :
    r.instanceOf (some n) options =
      match ls.find? (·.name == n) with
      | some l => instantiate l.backend n options
      | none => .error (.language (.unknown n (ls.map (·.name)))) := by
  rw [instanceOf]
  dsimp only [bind, Except.bind]
  rw [h.get?, h.keys]
  cases ls.find? (·.name == n) <;> rfl

/-- A name that is taken stays with its language, and nothing changes. -/
theorem register_of_mem {l : Registration} (hl : l.name ∈ ls.map (·.name)) :
    r.register l = (r, .error (.language (.taken l.name))) :=
  register_of_taken (h.contains.2 hl)

theorem register_of_not_mem {l : Registration} (hl : l.name ∉ ls.map (·.name)) :
    (r.register l).2 = .ok () ∧ (r.register l).1.Holds (ls ++ [l]) := by
  rw [register, if_neg (mt h.contains.1 hl)]
  refine ⟨rfl, ?_, ?_, fun _ => List.concat_ne_nil l ls⟩
  · change Table.put l.name l.entry r.entries.entries = _
    rw [h.entries, List.map_append]
    clear h
    induction ls with
    | nil => rfl
    | cons l' ls ih =>
      rw [List.map_cons, List.mem_cons, not_or] at hl
      rw [List.map_cons, Table.put, if_neg (Ne.symm hl.1), ih hl.2]
      rfl
  · change (if l.isDefault || r.default.isNone then some l.name else r.default) = _
    rw [h.default, defaultAmong_append]

/-- Whether or not a registration is accepted, its name is held afterwards. -/
theorem register (l : Registration) :
    (r.register l).1.Holds (ls ++ [l].filter r.accepts) ∧
      l.name ∈ (ls ++ [l].filter r.accepts).map (·.name) := by
  by_cases hl : l.name ∈ ls.map (·.name)
  · have hrefused : r.accepts l = false := by
      rw [accepts, h.register_of_mem hl]
      rfl
    rw [List.filter_cons_of_neg (Bool.eq_false_iff.1 hrefused), List.filter_nil, List.append_nil,
      h.register_of_mem hl]
    exact ⟨h, hl⟩
  · obtain ⟨hok, hholds⟩ := h.register_of_not_mem hl
    have haccepted : r.accepts l := by
      rw [accepts, hok]
      rfl
    rw [List.filter_cons_of_pos haccepted, List.filter_nil]
    exact ⟨hholds, List.mem_map_of_mem (List.mem_append_right ls (List.mem_singleton_self l))⟩

theorem load :
    r.load.1.Holds (ls ++ (if r.isLoaded then [] else [cRegistration]).filter r.accepts) := by
  cases hr : r.isLoaded with
  | true =>
    rw [load_of_isLoaded hr, if_pos rfl, List.filter_nil, List.append_nil]
    exact h
  | false =>
    obtain ⟨hholds, hname⟩ := h.register cRegistration
    rw [load_of_not_isLoaded hr, if_neg Bool.false_ne_true]
    refine ⟨hholds.entries, hholds.default, fun _ hnil => ?_⟩
    rw [hnil] at hname
    cases hname

theorem after (o : Operation) : (r.after o).Holds (ls ++ (r.offers o).filter r.accepts) := by
  cases ho : o.isQuery with
  | true => rw [after_of_isQuery ho, offers_of_isQuery ho]; exact h.load
  | false =>
    cases o with
    | register l => exact (h.register l).1
    | get name options =>
      have hoffers : r.offers (.get name options) = [] := by simp [offers, ho]
      rw [after_get_of_not_isQuery ho, hoffers]
      exact (List.append_nil ls).symm ▸ h
    | names | isAvailable | info | getDefault => cases ho

theorem session (os : List Operation) : (r.session os).Holds (ls ++ r.accepted os) := by
  induction os generalizing r ls with
  | nil => exact (List.append_nil ls).symm ▸ h
  | cons o os ih =>
    rw [accepted, ← List.append_assoc]
    exact ih (h.after o)

end

/-- A loaded registry answers from what it holds. -/
theorem answers (h : r.load.1.Holds ls) (hok : r.load.2 = .ok ()) : r.Answers ls := by
  have hne : ls ≠ [] := h.ne_nil (isLoaded_load r)
  refine
    { names := ?_
      isAvailable := fun n => ?_
      info := ?_
      marks_one := countP_infoAmong h.nodup hne
      getDefault := ?_
      get := fun hfind ho => ?_
      get_backend := fun {_ options _} hi => ?_
      get_unknown := fun {n _} hn ho => ?_ }
  · rw [Registry.names, query_snd_of_ok hok, h.keys]
  · rw [Registry.isAvailable, query_snd_of_ok hok,
      Bool.eq_iff_iff.2 (h.contains.trans decide_eq_true_iff.symm)]
  · rw [Registry.info, query_snd_of_ok hok, h.entries, h.default, List.map_map]
    rfl
  · obtain ⟨n, hn⟩ := Option.ne_none_iff_exists'.1 (mt defaultAmong_eq_none.1 hne)
    have hdefault : r.load.1.defaultOf = .ok n := by rw [defaultOf, h.default, hn]
    refine ⟨n, hn, ?_, fun options => ?_⟩
    · rw [Registry.getDefault, query_snd_of_ok hok, hdefault]
    · cases ho : options.any fun o => o.1 == "name" with
      | true => rw [Registry.get, Registry.get, ho]; rfl
      | false =>
        rw [get_snd_of_ok hok ho, get_snd_of_ok hok ho]
        change r.load.1.defaultOf.bind _ = _
        rw [hdefault]
        rfl
  · rw [get_snd_of_ok hok ho, h.instanceOf_some, hfind]
  · cases ho : options.any fun o => o.1 == "name" with
    | true => rw [Registry.get, ho] at hi; cases hi
    | false =>
      rw [get_snd_of_ok hok ho, h.instanceOf_some] at hi
      split at hi
      · next l hl => exact ⟨l, hl, backend_of_instantiate hi⟩
      · cases hi
  · have hfind : ls.find? (·.name == n) = none := by
      refine List.find?_eq_none.2 fun l hl => ?_
      exact mt beq_iff_eq.1 fun e => hn (e ▸ List.mem_map_of_mem hl)
    rw [get_snd_of_ok hok ho, h.instanceOf_some, hfind]

end Holds

/-- Throughout a session the registry holds the registrations that have been accepted, in their order
and under distinct names. A name that is taken is refused without a trace. Queries are answered from
what is held and from C, which the first of them registers, unless a client has taken its name: then
that query fails and the next ones are answered. -/
theorem registry_of_session (os : List Operation) :
    let r := fresh.session os
    let ls := fresh.accepted os
    (ls.map (·.name)).Nodup ∧ r.Holds ls ∧ (r.default = none ↔ ls = []) ∧
      (∀ l : Registration,
        if l.name ∈ ls.map (·.name) then
          r.register l = (r, .error (.language (.taken l.name)))
        else (r.register l).2 = .ok ()) ∧
      if os.any (·.isQuery) then r.Answers ls
      else if Writer.languageName ∈ ls.map (·.name) then
        ∀ {α : Type} (ask : Registry → Except Failure α), r.query ask =
          ({ r with isLoaded := true }, .error (.language (.taken Writer.languageName)))
      else r.Answers (ls ++ [cRegistration]) := by
  intro r ls
  have h : r.Holds ls := Holds.fresh.session os
  refine ⟨h.nodup, h, ?_, fun l => ?_, ?_⟩
  · rw [h.default, defaultAmong_eq_none]
  · split
    · next hl => exact h.register_of_mem hl
    · next hl => exact (h.register_of_not_mem hl).1
  have hloaded : r.isLoaded = os.any (·.isQuery) := isLoaded_session fresh os
  split
  · next hos =>
    rw [hos] at hloaded
    have hload := load_of_isLoaded hloaded
    exact Holds.answers (hload ▸ h) (hload ▸ rfl)
  · next hos =>
    rw [Bool.eq_false_iff.2 hos] at hloaded
    have hload := load_of_not_isLoaded hloaded
    split
    · next hc =>
      intro α ask
      rw [query, hload, h.register_of_mem hc]
      rfl
    · next hc =>
      obtain ⟨hok, hholds⟩ := h.register_of_not_mem (l := cRegistration) hc
      rw [hok] at hload
      refine Holds.answers ?_ (hload ▸ rfl)
      rw [hload]
      exact ⟨hholds.entries, hholds.default, fun _ => List.concat_ne_nil _ _⟩

/-- A client's language may be called `c`. The query after the one that fails answers with it. -/
example :
    let r := fresh.session [.register ⟨"c", .client "Own", false, none, none⟩, .names]
    r.names.2 = .ok ["c"] ∧
      (r.get (some "c") []).2.map Instance.backend = .ok (.client "Own") := ⟨rfl, rfl⟩

end Registry

end FfiHeaders.Language
