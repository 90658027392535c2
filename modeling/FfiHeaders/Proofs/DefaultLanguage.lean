import FfiHeaders.Proofs.LanguageRegistry

/-!
# The default language of a session

C registers itself as the default, but only at the first query. So it takes the place of every default
that a client has registered before, and a client's default stays if the registry was asked before it.
-/
namespace FfiHeaders.Language

/-- If there are defaults in the later part, and all of them are called `n`, then `n` is the default. -/
theorem defaultAmong_append_of_forall {ls ms : List Registration} {n : String}
    (hex : ∃ m ∈ ms, m.isDefault) (hall : ∀ m ∈ ms, m.isDefault → m.name = n) :
    defaultAmong (ls ++ ms) = some n := by
  have hsome : (ms.reverse.find? (·.isDefault)).isSome := by
    rw [List.find?_isSome]
    simpa using hex
  obtain ⟨m, hm⟩ := Option.isSome_iff_exists.1 hsome
  rw [defaultAmong, List.reverse_append, List.find?_append, hm]
  exact congrArg some (hall m (List.mem_reverse.1 (List.mem_of_find?_eq_some hm))
    (List.find?_some hm))

namespace Registry

variable {r : Registry} {ls : List Registration}

theorem session_append (r : Registry) (os ps : List Operation) :
    r.session (os ++ ps) = (r.session os).session ps := by
  induction os generalizing r with
  | nil => rfl
  | cons o os ih => exact ih (r.after o)

theorem accepted_append (r : Registry) (os ps : List Operation) :
    r.accepted (os ++ ps) = r.accepted os ++ (r.session os).accepted ps := by
  induction os generalizing r with
  | nil => rfl
  | cons o os ih => rw [List.cons_append, accepted, ih, accepted, session, List.append_assoc]

/-- What is accepted comes from the client, or is the registration of C at a query. -/
theorem mem_accepted {os : List Operation} {l : Registration} (h : l ∈ r.accepted os) :
    .register l ∈ os ∨ l = cRegistration ∧ os.any (·.isQuery) := by
  induction os generalizing r with
  | nil => cases h
  | cons o os ih =>
    rw [List.any_cons, Bool.or_eq_true]
    rcases List.mem_append.1 h with h | h
    · have hoffers := (List.mem_filter.1 h).1
      cases ho : o.isQuery with
      | true =>
        rw [offers_of_isQuery ho] at hoffers
        split at hoffers
        · cases hoffers
        · exact Or.inr ⟨List.mem_singleton.1 hoffers, Or.inl rfl⟩
      | false =>
        cases o with
        | register l' =>
          rw [List.mem_singleton.1 hoffers]
          exact Or.inl List.mem_cons_self
        | get name options =>
          simp [offers, ho] at hoffers
        | names | isAvailable | info | getDefault => cases ho
    · exact (ih h).imp (List.mem_cons_of_mem o) fun h => ⟨h.1, Or.inr h.2⟩

/-- The clients of a session leave the name of C alone. -/
def LeavesC (os : List Operation) : Prop :=
  ∀ l, .register l ∈ os → l.name ≠ Writer.languageName

theorem Holds.accepts_iff (h : r.Holds ls) {l : Registration} :
    r.accepts l ↔ l.name ∉ ls.map (·.name) := by
  constructor
  · intro ha hl
    rw [accepts, h.register_of_mem hl] at ha
    cases ha
  · intro hl
    rw [accepts, (h.register_of_not_mem hl).1]
    rfl

/-- The first query of a session registers C. -/
theorem cRegistration_mem_accepted {os : List Operation} (hos : LeavesC os)
    (hquery : os.any (·.isQuery)) (h : r.Holds ls) (hr : r.isLoaded = false)
    (hls : Writer.languageName ∉ ls.map (·.name)) : cRegistration ∈ r.accepted os := by
  induction os generalizing r ls with
  | nil => cases hquery
  | cons o os ih =>
    refine List.mem_append.2 ?_
    cases ho : o.isQuery with
    | true =>
      left
      rw [offers_of_isQuery ho, hr, if_neg Bool.false_ne_true]
      exact List.mem_filter.2 ⟨List.mem_singleton_self _, h.accepts_iff.2 hls⟩
    | false =>
      right
      rw [List.any_cons, ho, Bool.false_or] at hquery
      refine ih (fun l hl => hos l (List.mem_cons_of_mem o hl)) hquery (h.after o) ?_ ?_
      · rw [isLoaded_after, hr, ho]
        rfl
      · intro hc
        rw [List.map_append, List.mem_append, or_iff_right hls] at hc
        obtain ⟨l, hl, hname⟩ := List.mem_map.1 hc
        have haccepted : l ∈ r.accepted [o] := List.mem_append_left _ hl
        rcases mem_accepted haccepted with ho' | ⟨-, ho'⟩
        · rw [List.mem_singleton] at ho'
          exact hos l (ho' ▸ List.mem_cons_self) hname
        · rw [List.any_cons, ho] at ho'
          cases ho'

/-- The default is asked for among all that is accepted up to and by that query. -/
theorem getDefault_session {os : List Operation} {n : String} (hos : LeavesC os)
    (hn : defaultAmong (fresh.accepted (os ++ [.getDefault])) = some n) :
    (fresh.session os).getDefault.2 = .ok n := by
  have h : (fresh.session os).Holds (fresh.accepted os) := Holds.fresh.session os
  have hload : (fresh.session os).load.2 = .ok () := by
    cases hr : (fresh.session os).isLoaded with
    | true => rw [load_of_isLoaded hr]
    | false =>
      rw [load_of_not_isLoaded hr]
      refine (h.register_of_not_mem fun hc => ?_).1
      obtain ⟨l, hl, hname⟩ := List.mem_map.1 hc
      rcases mem_accepted hl with hl | ⟨-, hquery⟩
      · exact hos l hl hname
      · rw [isLoaded_session, hquery] at hr
        cases hr
  have hholds : (fresh.session (os ++ [.getDefault])).Holds (fresh.accepted (os ++ [.getDefault])) :=
    Holds.fresh.session _
  have hafter := hholds.default.trans hn
  rw [session_append] at hafter
  have hloaded : (fresh.session os).load.1.default = some n := by
    rw [← query_fst defaultOf]
    exact hafter
  rw [getDefault, query_snd_of_ok hload, defaultOf, hloaded]

/-- No client registers a default with success. -/
def ClientsLeaveDefault (r : Registry) (os : List Operation) : Prop :=
  ∀ l ∈ r.accepted os, l.isDefault → l.name = Writer.languageName

theorem ClientsLeaveDefault.append_getDefault {os : List Operation} (h : r.ClientsLeaveDefault os) :
    r.ClientsLeaveDefault (os ++ [.getDefault]) := by
  intro l hl hdefault
  rw [accepted_append, List.mem_append] at hl
  rcases hl with hl | hl
  · exact h l hl hdefault
  · rcases mem_accepted hl with hl | ⟨rfl, -⟩
    · rw [List.mem_singleton] at hl
      cases hl
    · rfl

theorem accepted_append_register {os ps : List Operation} {l : Registration}
    (h : (r.session os).accepts l) :
    r.accepted (os ++ .register l :: ps) =
      r.accepted os ++ l :: (r.session (os ++ [.register l])).accepted ps := by
  rw [accepted_append, accepted, session_append, offers, List.filter_cons_of_pos h, List.filter_nil,
    List.singleton_append]
  rfl

/-- A default that is registered after the first query is later than that of C. -/
theorem defaultAmong_of_query {before after : List Operation} {l : Registration}
    (hbefore : LeavesC before) (hquery : before.any (·.isQuery)) (hdefault : l.isDefault)
    (haccepts : (fresh.session before).accepts l)
    (hlast : (fresh.session (before ++ [.register l])).ClientsLeaveDefault after) :
    defaultAmong (fresh.accepted (before ++ .register l :: after)) = some l.name := by
  have hc := cRegistration_mem_accepted hbefore hquery .fresh rfl List.not_mem_nil
  have hnodup := (Holds.fresh.session (before ++ .register l :: after)).nodup
  rw [accepted_append_register haccepts, List.nil_append, List.map_append, List.nodup_append] at hnodup
  rw [accepted_append_register haccepts]
  refine defaultAmong_append_of_forall ⟨l, List.mem_cons_self, hdefault⟩ fun m hm hmd => ?_
  rcases List.mem_cons.1 hm with rfl | hm'
  · rfl
  · exact absurd (hlast m hm' hmd).symm
      (hnodup.2.2 _ (List.mem_map_of_mem hc) _ (List.mem_map_of_mem hm))

/-- A default that is registered before the first query is earlier than that of C. -/
theorem defaultAmong_of_not_query {before after : List Operation} {l : Registration}
    (hos : LeavesC (before ++ .register l :: after)) (hbefore : before.any (·.isQuery) = false)
    (hafter : after.any (·.isQuery)) (haccepts : (fresh.session before).accepts l)
    (hlast : (fresh.session (before ++ [.register l])).ClientsLeaveDefault after) :
    defaultAmong (fresh.accepted (before ++ .register l :: after)) = some Writer.languageName := by
  have hc : cRegistration ∈ fresh.accepted (before ++ .register l :: after) :=
    cRegistration_mem_accepted hos (by simp [hafter]) .fresh rfl List.not_mem_nil
  rw [accepted_append_register haccepts, List.append_cons] at hc ⊢
  refine defaultAmong_append_of_forall ⟨cRegistration, ?_, rfl⟩ hlast
  refine (List.mem_append.1 hc).resolve_left fun h => ?_
  rcases List.mem_append.1 h with h | h
  · rcases mem_accepted h with h | ⟨-, h⟩
    · exact hos _ (List.mem_append_left _ h) rfl
    · rw [hbefore] at h
      cases h
  · exact hos l (List.mem_append_right before List.mem_cons_self) (List.mem_singleton.1 h ▸ rfl)

/-- The last default that a client registers is the default if the registry was asked anything before.
If it was not, or if there is none, the default is C. -/
theorem default_of_session {os : List Operation} (hos : LeavesC os) :
    (fresh.ClientsLeaveDefault os → (fresh.session os).getDefault.2 = .ok Writer.languageName) ∧
      ∀ before l after, os = before ++ .register l :: after → l.isDefault →
        (fresh.session before).accepts l →
        (fresh.session (before ++ [.register l])).ClientsLeaveDefault after →
        (fresh.session os).getDefault.2 =
          .ok (if before.any (·.isQuery) then l.name else Writer.languageName) := by
  have hos' : LeavesC (os ++ [.getDefault]) := by
    intro l hl
    rcases List.mem_append.1 hl with hl | hl
    · exact hos l hl
    · rw [List.mem_singleton] at hl
      cases hl
  have hquery (ps : List Operation) : (ps ++ [Operation.getDefault]).any (·.isQuery) := by
    rw [List.any_append, Bool.or_eq_true]
    exact Or.inr rfl
  refine ⟨fun h => ?_, fun before l after hsplit hdefault haccepts hlast => ?_⟩
  · have hc := cRegistration_mem_accepted hos' (hquery os) .fresh rfl List.not_mem_nil
    have hlast : defaultAmong ([] ++ fresh.accepted (os ++ [.getDefault])) =
        some Writer.languageName :=
      defaultAmong_append_of_forall ⟨_, hc, rfl⟩ h.append_getDefault
    exact getDefault_session hos hlast
  · subst hsplit
    rw [List.append_assoc, List.cons_append] at hos'
    refine getDefault_session hos ?_
    rw [List.append_assoc, List.cons_append]
    split
    · next hbefore =>
      exact defaultAmong_of_query (fun m hm => hos m (List.mem_append_left _ hm)) hbefore hdefault
        haccepts hlast.append_getDefault
    · next hbefore =>
      exact defaultAmong_of_not_query hos' (Bool.eq_false_iff.2 hbefore) (hquery after) haccepts
        hlast.append_getDefault

/-- A language of a client. -/
def zig : Registration := ⟨"zig", .client "Zig", true, none, none⟩

/-- Another one, which is not registered as the default. -/
def ada : Registration := ⟨"ada", .client "Ada", false, none, none⟩

theorem default_of_session_zig :
    LeavesC [.names, .register zig, .register ada] ∧ (fresh.session [.names]).accepts zig ∧
      (fresh.session [.names, .register zig, .register ada]).getDefault.2 = .ok "zig" ∧
      (fresh.session [.register ada]).getDefault.2 = .ok "c" := by
  have hos : LeavesC [.names, .register zig, .register ada] := by
    intro l hl
    simp only [List.mem_cons, Operation.register.injEq, List.not_mem_nil, or_false] at hl
    rcases hl with ⟨⟨⟩⟩ | rfl | rfl <;> decide
  have hada : ∀ r, ClientsLeaveDefault r [.register ada] := by
    intro r l hl hdefault
    rcases mem_accepted hl with hl | ⟨-, ⟨⟩⟩
    cases List.mem_singleton.1 hl
    cases hdefault
  have haccepts : (fresh.session [.names]).accepts zig := rfl
  refine ⟨hos, haccepts, ?_, ?_⟩
  · exact (default_of_session hos).2 [.names] zig [.register ada] rfl rfl haccepts (hada _)
  · have hadaOnly : LeavesC [.register ada] := by
      intro l hl
      cases List.mem_singleton.1 hl
      decide
    exact (default_of_session hadaOnly).1 (hada _)

/-- A default that a client registers before anything is asked is lost. -/
theorem exists_default_lost :
    zig.isDefault ∧ fresh.accepts zig ∧ (fresh.session [.register zig]).default = some "zig" ∧
      (fresh.session [.register zig]).getDefault.2 = .ok "c" ∧
      (fresh.session [.names, .register zig]).getDefault.2 = .ok "zig" :=
  ⟨rfl, rfl, rfl, rfl, rfl⟩

end Registry

end FfiHeaders.Language
