import FfiHeaders.Proofs.SessionInvariant

/-!
# Compilation in parts

The items of a module can be compiled in two portions. Either way a writer makes one call for each
public declaration, in source order, and the first call that fails is the last one.
-/
namespace FfiHeaders

namespace Progress

variable {α β γ : Type}

/-- Goes on from the state that has been reached, unless the run has failed. -/
def andThen (p : Progress α) (next : State → Progress β) : Progress β :=
  match p.result with
  | .error f => ⟨p.state, p.events, .error f⟩
  | .ok _ =>
    ⟨(next p.state).state, p.events ++ (next p.state).events, (next p.state).result⟩

theorem andThen_of_ok {p : Progress α} {x : α} (h : p.result = .ok x) (next : State → Progress β) :
    p.andThen next =
      ⟨(next p.state).state, p.events ++ (next p.state).events, (next p.state).result⟩ := by
  simp [andThen, h]

theorem andThen_of_error {p : Progress α} {f : Failure} (h : p.result = .error f)
    (next : State → Progress β) : p.andThen next = ⟨p.state, p.events, .error f⟩ := by
  simp [andThen, h]

theorem andThen_assoc (p : Progress α) (next : State → Progress β) (last : State → Progress γ) :
    (p.andThen next).andThen last = p.andThen fun s => (next s).andThen last := by
  cases hp : p.result with
  | error f =>
    rw [andThen_of_error hp, andThen_of_error hp]
    rfl
  | ok x =>
    rw [andThen_of_ok hp, andThen_of_ok hp]
    cases hn : (next p.state).result with
    | error f => simp [andThen, hn]
    | ok y => simp [andThen, hn, List.append_assoc]

end Progress

theorem State.feed_append (s : State) (vs ws : List Visit) :
    s.feed (vs ++ ws) = (s.feed vs).andThen fun t => t.feed ws := by
  cases h : (s.feed vs).result with
  | error f =>
    rw [feed_append_of_error h, Progress.andThen_of_error h, ← h]
  | ok u => rw [feed_append_of_ok h, Progress.andThen_of_ok h]

theorem State.calls_append (s : State) (vs ws : List Visit) :
    s.calls (vs ++ ws) =
      s.calls vs ++ if (s.feed vs).result.isOk then (s.feed vs).state.calls ws else [] := by
  induction vs generalizing s with
  | nil => rfl
  | cons v vs ih =>
    rw [List.cons_append, calls, calls, feed, List.append_assoc]
    cases hv : (s.visit v).result with
    | error f => simp [Except.isOk, Except.toBool]
    | ok u => simp [ih]

namespace Writer

/-- The end of a compilation. -/
def close (customCode : String) (finish : Bool) (s : State) : Progress (List (String × String)) :=
  if finish then
    match s.finalise customCode with
    | (t, .ok b) => ⟨t, [.ordered b.order], .ok b.files⟩
    | (t, .error f) => ⟨t, [], .error f⟩
  else ⟨s, [], .ok []⟩

theorem compile_eq_andThen (w : Writer) (m : Module) (finish : Bool) :
    w.compile m finish = (w.state.feed m.visits).andThen (close w.customCode finish) := by
  rw [compile]
  cases h : (w.state.feed m.visits).result with
  | error f => rw [Progress.andThen_of_error h]
  | ok u =>
    rw [Progress.andThen_of_ok h, close]
    cases finish with
    | false => simp
    | true =>
      simp only [if_true]
      rcases (w.state.feed m.visits).state.finalise w.customCode with ⟨t, f | b⟩
      · simp
      · rfl

theorem close_of_finish (customCode : String) (s : State) :
    (close customCode true s).state = (s.finalise customCode).1 ∧
      (close customCode true s).result = (s.finalise customCode).2.map Bundle.files := by
  rw [close, if_pos rfl]
  rcases s.finalise customCode with ⟨t, f | b⟩
  · exact ⟨rfl, rfl⟩
  · exact ⟨rfl, rfl⟩

end Writer

/-! ### Declarations in their places -/

mutual

/-- The declarations of an item, each with the names of the modules between the item and itself. -/
def Item.placed : Item → List (List Value × Declaration)
  | .declaration d => [([], d)]
  | .module name items => (placedIn items).map fun e => (name :: e.1, e.2)

def placedIn : List Item → List (List Value × Declaration)
  | [] => []
  | i :: is => i.placed ++ placedIn is

end

mutual

theorem Item.declarations_eq_map (path : List Value) :
    ∀ i : Item, i.declarations path = i.placed.map fun e => (path ++ e.1, e.2)
  | .declaration d => by simp [Item.declarations, Item.placed]
  | .module name items => by
    rw [Item.declarations, Item.placed, declarationsOf_eq_map, List.map_map]
    simp [Function.comp_def]

theorem declarationsOf_eq_map (path : List Value) :
    ∀ items : List Item, declarationsOf path items = (placedIn items).map fun e => (path ++ e.1, e.2)
  | [] => rfl
  | i :: is => by
    rw [declarationsOf, placedIn, List.map_append, Item.declarations_eq_map path i,
      declarationsOf_eq_map path is]

end

/-- One call for each public declaration of a module tree. -/
def Module.publicCalls (m : Module) : List Call :=
  ((placedIn m.items).filter (·.2.isPublic)).map fun e => ⟨m.name :: e.1, .declaration e.2⟩

/-! ### Calls up to the first failure -/

namespace State

/-- `Makes s cs made t r`: of the calls in `cs`, those in `made` are made one after the other, from `s`
to `t`. The last one has failed if `r` is a failure, and otherwise none has. -/
inductive Makes : State → List Call → List Call → State → Except Failure Unit → Prop
  | nil (s : State) : Makes s [] [] s (.ok ())
  | failed {s t : State} {c : Call} {f : Failure} (h : s.emitItem c.module c.item = (t, .error f))
      (cs : List Call) : Makes s (c :: cs) [c] t (.error f)
  | went {s t u : State} {c : Call} {cs made : List Call} {outcome : Outcome}
      {r : Except Failure Unit} (h : s.emitItem c.module c.item = (t, .ok outcome))
      (hrest : Makes t cs made u r) : Makes s (c :: cs) (c :: made) u r

variable {s : State}

theorem makes_feed {es : List (List Value × Declaration)}
    (hes : ∀ e ∈ es, e.2.isPublic = false → e.1.all Value.isText) :
    Makes s ((es.filter (·.2.isPublic)).map fun e => ⟨e.1, .declaration e.2⟩)
      (s.calls (es.map .of)) (s.feed (es.map .of)).state (s.feed (es.map .of)).result := by
  induction es generalizing s with
  | nil => exact .nil s
  | cons e es ih =>
    obtain ⟨path, d⟩ := e
    obtain ⟨he, hrest⟩ := List.forall_mem_cons.1 hes
    rw [List.map_cons, calls, feed]
    cases hp : d.isPublic with
    | false =>
      -- a private declaration is only recorded in the log, for which its path has to be written
      obtain ⟨p, rfl⟩ : ∃ p : List String, path = p.map .text := Value.exists_texts (he hp)
      have hv : Visit.of (p.map .text, d) = .hidden (p.map .text) d.name := if_neg (by simp [hp])
      rw [List.filter_cons_of_neg (by simp [hp]), hv, visit, Value.texts?_map_text]
      exact ih hrest
    | true =>
      have hv : Visit.of (path, d) = .declaration path d := if_pos hp
      rw [List.filter_cons_of_pos (by simp [hp]), List.map_cons, hv, visit]
      rcases hemit : s.emit path d with ⟨t, f | outcome⟩
      · exact .failed (c := ⟨path, .declaration d⟩) hemit _
      · exact .went (c := ⟨path, .declaration d⟩) hemit (ih hrest)

end State

theorem State.makes_feed_visits {m : Module} (s : State)
    (hm : ∀ e ∈ placedIn m.items, e.2.isPublic = false → (m.name :: e.1).all Value.isText) :
    Makes s m.publicCalls (s.calls m.visits) (s.feed m.visits).state (s.feed m.visits).result := by
  have hcalls : m.publicCalls = ((declarationsOf [m.name] m.items).filter (·.2.isPublic)).map
      fun e => ⟨e.1, .declaration e.2⟩ := by
    rw [declarationsOf_eq_map, List.filter_map, List.map_map]
    rfl
  rw [hcalls, Module.visits, visitsOf_eq_map]
  refine makes_feed fun e he => ?_
  rw [declarationsOf_eq_map] at he
  obtain ⟨f, hf, rfl⟩ := List.mem_map.1 he
  exact hm f hf

/-- To compile two lists of items as one module is to compile them one after the other, with the same
calls. A compilation makes the calls of the public declarations of its module in source order, and
comes to its end only if none of them fails. -/
theorem Writer.compile_in_parts (w : Writer) :
    (∀ name xs ys finish,
      w.compile ⟨name, xs ++ ys⟩ finish =
          ((w.compile ⟨name, xs⟩ false).andThen fun s =>
            compile ⟨s, w.customCode⟩ ⟨name, ys⟩ finish) ∧
        w.calls (.compile ⟨name, xs ++ ys⟩ finish) =
          w.calls (.compile ⟨name, xs⟩ false) ++
            if (w.compile ⟨name, xs⟩ false).result.isOk then
              calls ⟨(w.compile ⟨name, xs⟩ false).state, w.customCode⟩ (.compile ⟨name, ys⟩ finish)
            else []) ∧
      ∀ m finish,
        (∀ e ∈ placedIn m.items, e.2.isPublic = false → (m.name :: e.1).all Value.isText) →
        ∃ t r, State.Makes w.state m.publicCalls (w.calls (.compile m finish)) t r ∧
          match r with
          | .error f => (w.compile m finish).state = t ∧ (w.compile m finish).result = .error f
          | .ok () =>
            if finish then
              (w.compile m finish).state = (t.finalise w.customCode).1 ∧
                (w.compile m finish).result = (t.finalise w.customCode).2.map Bundle.files
            else (w.compile m finish).state = t ∧ (w.compile m finish).result = .ok [] := by
  refine ⟨fun name xs ys finish => ?_, fun m finish hm => ?_⟩
  · have hvisits : Module.visits ⟨name, xs ++ ys⟩ =
        Module.visits ⟨name, xs⟩ ++ Module.visits ⟨name, ys⟩ := visitsOf_append _ xs ys
    have hfirst : w.compile ⟨name, xs⟩ false =
        (w.state.feed (Module.visits ⟨name, xs⟩)).andThen fun s => ⟨s, [], .ok []⟩ :=
      compile_eq_andThen w _ false
    refine ⟨?_, ?_⟩
    · rw [hfirst, compile_eq_andThen, hvisits, State.feed_append, Progress.andThen_assoc,
        Progress.andThen_assoc]
      congr 1
      funext s
      have hsecond := compile_eq_andThen ⟨s, w.customCode⟩ ⟨name, ys⟩ finish
      rw [← hsecond, Progress.andThen_of_ok rfl]
      simp
    · have hcalls := State.calls_append w.state (Module.visits ⟨name, xs⟩) (Module.visits ⟨name, ys⟩)
      rw [← hvisits] at hcalls
      refine hcalls.trans (congrArg _ ?_)
      rw [hfirst]
      cases hr : (w.state.feed (Module.visits ⟨name, xs⟩)).result with
      | error f => rw [Progress.andThen_of_error hr]; rfl
      | ok u => rw [Progress.andThen_of_ok hr]; rfl
  · refine ⟨_, _, w.state.makes_feed_visits hm, ?_⟩
    rw [compile_eq_andThen]
    cases hr : (w.state.feed m.visits).result with
    | error f =>
      rw [Progress.andThen_of_error hr]
      exact ⟨rfl, rfl⟩
    | ok u =>
      rw [Progress.andThen_of_ok hr]
      cases finish with
      | false => exact ⟨rfl, rfl⟩
      | true => exact close_of_finish _ _

/-- A tree whose second public declaration is rejected, between two modules of one name. -/
def brokenTree : Module where
  name := .text "ffi"
  items :=
    [.module (.text "a")
        [.declaration idAlias,
          .declaration ⟨.text "Hidden", [], [], false, none, .typeAlias (.named "u8")⟩],
      .declaration State.swapFunction,
      .module (.text "a") [.declaration refAlias]]

theorem Writer.compile_in_parts_brokenTree :
    (∀ e ∈ placedIn brokenTree.items, e.2.isPublic = false →
      (brokenTree.name :: e.1).all Value.isText) ∧
      ∃ t f, State.Makes (.initial (.text "lib")) brokenTree.publicCalls
          [⟨[.text "ffi", .text "a"], .declaration idAlias⟩,
            ⟨[.text "ffi"], .declaration State.swapFunction⟩] t (.error f) ∧
        ((new (.text "lib") "").compile brokenTree false).state = t ∧
        t.output "lib/a.h" = "typedef uint32_t Id;\n\n" := by
  have hpaths : ∀ e ∈ placedIn brokenTree.items, e.2.isPublic = false →
      (brokenTree.name :: e.1).all Value.isText := by decide
  obtain ⟨t, r, hmakes, hend⟩ :=
    (compile_in_parts (new (.text "lib") "")).2 brokenTree false hpaths
  have hfails : ((new (.text "lib") "").compile brokenTree false).result.isOk = false := rfl
  cases r with
  | ok u =>
    obtain ⟨-, hresult⟩ := hend
    rw [hresult] at hfails
    cases hfails
  | error f =>
    obtain ⟨hstate, -⟩ := hend
    exact ⟨hpaths, t, f, hmakes, hstate, hstate ▸ rfl⟩

end FfiHeaders
